import BMLite.BmliteIf

/-!
# `bmlite_if.h`: the calls of a program

* `BepCall` — the calls, with their arguments; `BepCall.body`, `BepCall.run` — what they do, without
  and with what they leave at the pointers that they were given;
* `session` — calls one after the other.
-/

set_option autoImplicit false

namespace BMLite

open FlatMemory

/-! ## Calls -/

/-- A call of a function of `bmlite_if.h`, with its arguments. -/
inductive BepCall where
  | enrollFinger
  | identifyFinger (timeout templateId : Nat)
  | waitFingerPresent (timeout : Nat)
  | waitFingerNotPresent (timeout : Nat)
  | capture (timeout : Nat)
  | imageGetSize (size : BitVec 32)
  | imageCreate
  | imageDelete
  | imageGet (data : Option (Mem Byte)) (size : Nat)
  | imagePut (data : List Byte) (size : Nat)
  | imageExtract
  | identify
  | templateSave (templateId : Nat)
  | templateRemoveRam
  | templateGet (data : Option (Mem Byte)) (size : Nat)
  | templatePut (data : List Byte) (length : Nat)
  | templateRemove (templateId : Nat)
  | templateRemoveAll
  | templateLoadStorage (templateId : Nat)
  | templateGetCount (count : Nat)
  | templateGetIds
  | swReset
  | sensorCalibrate
  | sensorCalibrateRemove
  | version (text : Option (Mem Byte)) (len : Int)
  | uniqueIdGet (uniqueId : Option (Mem Byte))
  | uartSpeedSet (speed : BitVec 32)
  | uartSpeedGet (speed : Option (Mem Byte))
  | sensorReset
  | sendCmd (cmd argType : Nat)
  | sendCmdArg (cmd arg1Type arg2Type : Nat) (arg2Data : List Byte) (arg2Length : Nat)

/-- The call; output parameters are dropped. -/
def BepCall.body (rounds : Nat) : BepCall → Hcp FpcBepResult
  | .enrollFinger => bepEnrollFinger rounds
  | .identifyFinger timeout templateId => do
    return (← bepIdentifyFinger rounds timeout templateId).1
  | .waitFingerPresent timeout => sensorWaitFingerPresent rounds timeout
  | .waitFingerNotPresent timeout => sensorWaitFingerNotPresent rounds timeout
  | .capture timeout => bepCapture rounds timeout
  | .imageGetSize size => do return (← bepImageGetSize rounds size).1
  | .imageCreate => BMLite.imageCreate rounds
  | .imageDelete => BMLite.imageDelete rounds
  | .imageGet data size => do return (← bepImageGet rounds data size).1
  | .imagePut data size => bepImagePut rounds data size
  | .imageExtract => bepImageExtract rounds
  | .identify => bepIdentify rounds
  | .templateSave templateId => bepTemplateSave rounds templateId
  | .templateRemoveRam => bepTemplateRemoveRam rounds
  | .templateGet data size => do return (← bepTemplateGet rounds data size).1
  | .templatePut data length => bepTemplatePut rounds data length
  | .templateRemove templateId => bepTemplateRemove rounds templateId
  | .templateRemoveAll => bepTemplateRemoveAll rounds
  | .templateLoadStorage templateId => bepTemplateLoadStorage rounds templateId
  | .templateGetCount count => do return (← bepTemplateGetCount rounds count).1
  | .templateGetIds => bepTemplateGetIds rounds
  | .swReset => bepSwReset rounds
  | .sensorCalibrate => bepSensorCalibrate rounds
  | .sensorCalibrateRemove => bepSensorCalibrateRemove rounds
  | .version text len => do return (← bepVersion rounds text len).1
  | .uniqueIdGet uniqueId => do return (← bepUniqueIdGet rounds uniqueId).1
  | .uartSpeedSet speed => bepUartSpeedSet rounds speed
  | .uartSpeedGet speed => do return (← bepUartSpeedGet rounds speed).1
  | .sensorReset => bepSensorReset rounds
  | .sendCmd cmd argType => bmliteSendCmd rounds cmd argType
  | .sendCmdArg cmd arg1Type arg2Type arg2Data arg2Length =>
    bmliteSendCmdArg rounds cmd arg1Type arg2Type arg2Data arg2Length

/-- The arguments have their types, and there is as much data as the call says. -/
def BepCall.Valid : BepCall → Prop
  | .imagePut data size => size % 65536 ≤ data.length
  | .templatePut data length => length < 65536 ∧ length ≤ data.length
  | .sendCmd _ argType => argType < 65536
  | .sendCmdArg _ arg1Type arg2Type arg2Data arg2Length =>
    arg1Type < 65536 ∧ arg2Type < 65536 ∧ arg2Length < 65536 ∧ arg2Length ≤ arg2Data.length
  | _ => True

/-! ## Their outputs -/

/-- What a call has left at the pointers that it was given. -/
inductive Output where
  | nothing
  | size (v : BitVec 32)
  | count (v : Nat)
  | memory (m : Option (Mem Byte))
  | found (templateId : Nat) (isMatch : Bool)
  /-- The argument that `arg` points to. -/
  | ids (d : List Byte)

/-- A call without output parameters. -/
def bare (m : Hcp FpcBepResult) : Hcp (FpcBepResult × Output) := do return (← m, .nothing)

/-- A call with an output parameter. -/
def withOutput {α : Type} (m : Hcp (FpcBepResult × α)) (out : α → Output) :
    Hcp (FpcBepResult × Output) := do
  let (bepResult, a) ← m
  return (bepResult, out a)

/-- After `bep_template_get_ids` the caller reads what `arg` points to. -/
def readIds (rounds : Nat) : Hcp (FpcBepResult × Output) := do
  let bepResult ← bepTemplateGetIds rounds
  if bepResult = FPC_BEP_RESULT_OK then
    let arg ← chainArg
    let d ← load .pkt arg.data arg.size
    return (bepResult, .ids d)
  else
    return (bepResult, .nothing)

/-- The call, with its output parameters. -/
def BepCall.run (rounds : Nat) : BepCall → Hcp (FpcBepResult × Output)
  | .identifyFinger timeout templateId =>
    withOutput (bepIdentifyFinger rounds timeout templateId) fun x => .found x.1 x.2
  | .imageGetSize size => withOutput (bepImageGetSize rounds size) .size
  | .imageGet data size => withOutput (bepImageGet rounds data size) .memory
  | .templateGet data size => withOutput (bepTemplateGet rounds data size) .memory
  | .templateGetCount count => withOutput (bepTemplateGetCount rounds count) .count
  | .templateGetIds => readIds rounds
  | .version text len => withOutput (bepVersion rounds text len) .memory
  | .uniqueIdGet uniqueId => withOutput (bepUniqueIdGet rounds uniqueId) .memory
  | .uartSpeedGet speed => withOutput (bepUartSpeedGet rounds speed) .memory
  | call => bare (call.body rounds)

/-- The calls, one after the other; for each its result and output, and `chain->bep_result`. -/
def session (rounds : Nat) :
    List BepCall → Hcp (List ((FpcBepResult × Output) × FpcBepResult))
  | [] => return []
  | call :: calls => do
    let x ← call.run rounds
    let c ← get
    return (x, c.bepResult) :: (← session rounds calls)

end BMLite
