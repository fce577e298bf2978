import BMLite.HcpTiny

/-!
# `bmlite_if.c`: commands

Every command builds a packet, exchanges it and looks at the answer.  `exitIfErr` and `assertOk`
are the source's macros `exit_if_err` and `assert`.  Output parameters are results; a parameter
that the function may leave alone is also an argument.
-/

set_option autoImplicit false

namespace BMLite

open FlatMemory Process

def MAX_CAPTURE_ATTEMPTS : Nat := 15
def MAX_SINGLE_CAPTURE_ATTEMPTS : Nat := 3
def CAPTURE_TIMEOUT : Nat := 3000

variable {α : Type}

/-- `exit_if_err(call)`, with the code at the label `exit` and the code that follows. -/
def exitIfErr (call : Hcp FpcBepResult) (exit next : FpcBepResult → Hcp α) : Hcp α := do
  let bepResult ← call
  let c ← get
  if bepResult ≠ FPC_BEP_RESULT_OK ∨ c.bepResult ≠ FPC_BEP_RESULT_OK then
    exit bepResult
  else
    next bepResult

/-- `assert(call)`, with the code that follows. -/
def assertOk (call : Hcp FpcBepResult) (next : Hcp FpcBepResult) : Hcp FpcBepResult := do
  let res ← call
  if res ≠ FPC_BEP_RESULT_OK then
    return res
  else
    next

/-- `assert(call)` in a function with an output parameter, which is `out` so far. -/
def assertOut (call : Hcp FpcBepResult) (out : α) (next : Hcp (FpcBepResult × α)) :
    Hcp (FpcBepResult × α) := do
  let res ← call
  if res ≠ FPC_BEP_RESULT_OK then
    return (res, out)
  else
    next

/-- `bmlite_send_cmd`. -/
def bmliteSendCmd (rounds cmd argType : Nat) : Hcp FpcBepResult :=
  assertOk (bmliteInitCmd cmd argType) (bmliteTranceive rounds)

/-- `bmlite_send_cmd_arg`. -/
def bmliteSendCmdArg (rounds cmd arg1Type arg2Type : Nat) (arg2Data : List Byte)
    (arg2Length : Nat) : Hcp FpcBepResult :=
  assertOk (bmliteInitCmd cmd arg1Type) <|
    assertOk (bmliteAddArg arg2Type arg2Data arg2Length) (bmliteTranceive rounds)

/-! ## Single commands -/

/-- A call with a `phy_rx_timeout` of its own, which is put back afterwards.  The two functions
below that call a callback in front save the old timeout before it; a callback does not touch the
chain. -/
def withTimeout (timeout : Nat) (call : Hcp FpcBepResult) : Hcp FpcBepResult := do
  let prevTimeout := (← get).phyRxTimeout
  modify fun c => { c with phyRxTimeout := timeout }
  let bepResult ← call
  modify fun c => { c with phyRxTimeout := prevTimeout }
  return bepResult

/-- `sensor_wait_finger_present`. -/
def sensorWaitFingerPresent (rounds timeout : Nat) : Hcp FpcBepResult := do
  callback .onStartCapture
  let bepResult ← withTimeout timeout <|
    bmliteSendCmdArg rounds CMD_WAIT ARG_FINGER_DOWN ARG_TIMEOUT (enc16 timeout) 2
  callback .onFinishCapture
  return bepResult

/-- `sensor_wait_finger_not_present`. -/
def sensorWaitFingerNotPresent (rounds timeout : Nat) : Hcp FpcBepResult :=
  withTimeout timeout <|
    bmliteSendCmdArg rounds CMD_WAIT ARG_FINGER_UP ARG_TIMEOUT (enc16 timeout) 2

/-- The loop of `bep_capture`, with `left` attempts to go. -/
def bepCapture.attempts (rounds timeout : Nat) : (left : Nat) → FpcBepResult → Hcp FpcBepResult
  | 0, bepResult => return bepResult
  | left + 1, _ => do
    let bepResult ← bmliteSendCmdArg rounds CMD_CAPTURE ARG_NONE ARG_TIMEOUT (enc16 timeout) 2
    let c ← get
    if bepResult = FPC_BEP_RESULT_OK ∧ c.bepResult = FPC_BEP_RESULT_OK then
      return bepResult
    else
      bepCapture.attempts rounds timeout left bepResult

/-- `bep_capture`. -/
def bepCapture (rounds timeout : Nat) : Hcp FpcBepResult := do
  callback .onStartCapture
  let bepResult ← withTimeout timeout <|
    bepCapture.attempts rounds timeout MAX_SINGLE_CAPTURE_ATTEMPTS FPC_BEP_RESULT_OK
  callback .onFinishCapture
  return bepResult

/-- `bep_image_get_size`: its result and `*size`. -/
def bepImageGetSize (rounds : Nat) (size : BitVec 32) : Hcp (FpcBepResult × BitVec 32) :=
  assertOut (bmliteSendCmd rounds CMD_IMAGE ARG_SIZE) size <|
    assertOut (bmliteGetArg ARG_SIZE) size do
      let size ← load32 .pkt (← chainArg).data
      return (FPC_BEP_RESULT_OK, size)

/-- `image_create`. -/
def imageCreate (rounds : Nat) : Hcp FpcBepResult := bmliteSendCmd rounds CMD_IMAGE ARG_CREATE

/-- `image_delete`. -/
def imageDelete (rounds : Nat) : Hcp FpcBepResult := bmliteSendCmd rounds CMD_IMAGE ARG_DELETE

/-- `bep_image_get`: its result and the memory at `data`. -/
def bepImageGet (rounds : Nat) (data : Option (Mem Byte)) (size : Nat) :
    Hcp (FpcBepResult × Option (Mem Byte)) :=
  assertOut (bmliteSendCmd rounds CMD_IMAGE ARG_UPLOAD) data <|
    bmliteCopyArg ARG_DATA data (size % 65536)

/-- `bep_image_put`; `data` is the memory that the caller's pointer points to. -/
def bepImagePut (rounds : Nat) (data : List Byte) (size : Nat) : Hcp FpcBepResult :=
  bmliteSendCmdArg rounds CMD_IMAGE ARG_DOWNLOAD ARG_DATA data (size % 65536)

/-- `bep_image_extract`. -/
def bepImageExtract (rounds : Nat) : Hcp FpcBepResult := bmliteSendCmd rounds CMD_IMAGE ARG_EXTRACT

/-- `bep_identify`. -/
def bepIdentify (rounds : Nat) : Hcp FpcBepResult := bmliteSendCmd rounds CMD_IDENTIFY ARG_NONE

/-- `bep_template_save`. -/
def bepTemplateSave (rounds templateId : Nat) : Hcp FpcBepResult :=
  bmliteSendCmdArg rounds CMD_TEMPLATE ARG_SAVE ARG_ID (enc16 templateId) 2

/-- `bep_template_remove_ram`. -/
def bepTemplateRemoveRam (rounds : Nat) : Hcp FpcBepResult :=
  bmliteSendCmd rounds CMD_TEMPLATE ARG_DELETE

/-- `bep_template_get`: its result and the memory at `data`. -/
def bepTemplateGet (rounds : Nat) (data : Option (Mem Byte)) (size : Nat) :
    Hcp (FpcBepResult × Option (Mem Byte)) :=
  assertOut (bmliteSendCmd rounds CMD_TEMPLATE ARG_UPLOAD) data <|
    bmliteCopyArg ARG_DATA data (size % 65536)

/-- `bep_template_put`. -/
def bepTemplatePut (rounds : Nat) (data : List Byte) (length : Nat) : Hcp FpcBepResult :=
  bmliteSendCmdArg rounds CMD_TEMPLATE ARG_DOWNLOAD ARG_DATA data length

/-- `bep_template_remove`. -/
def bepTemplateRemove (rounds templateId : Nat) : Hcp FpcBepResult :=
  bmliteSendCmdArg rounds CMD_STORAGE_TEMPLATE ARG_DELETE ARG_ID (enc16 templateId) 2

/-- `bep_template_remove_all`. -/
def bepTemplateRemoveAll (rounds : Nat) : Hcp FpcBepResult :=
  bmliteSendCmdArg rounds CMD_STORAGE_TEMPLATE ARG_DELETE ARG_ALL [] 0

/-- `bep_template_load_storage`. -/
def bepTemplateLoadStorage (rounds templateId : Nat) : Hcp FpcBepResult :=
  bmliteSendCmdArg rounds CMD_STORAGE_TEMPLATE ARG_UPLOAD ARG_ID (enc16 templateId) 2

/-- `bep_template_get_count`: its result and `*count`. -/
def bepTemplateGetCount (rounds count : Nat) : Hcp (FpcBepResult × Nat) :=
  assertOut (bmliteSendCmd rounds CMD_STORAGE_TEMPLATE ARG_COUNT) count <|
    assertOut (bmliteGetArg ARG_COUNT) count do
      let count ← load16 .pkt (← chainArg).data
      return (FPC_BEP_RESULT_OK, count)

/-- `bep_template_get_ids`. -/
def bepTemplateGetIds (rounds : Nat) : Hcp FpcBepResult :=
  assertOk (bmliteSendCmd rounds CMD_STORAGE_TEMPLATE ARG_ID) (bmliteGetArg ARG_DATA)

/-- `bep_sw_reset`. -/
def bepSwReset (rounds : Nat) : Hcp FpcBepResult := bmliteSendCmd rounds CMD_RESET ARG_NONE

/-- `bep_sensor_calibrate`. -/
def bepSensorCalibrate (rounds : Nat) : Hcp FpcBepResult :=
  bmliteSendCmd rounds CMD_STORAGE_CALIBRATION ARG_NONE

/-- `bep_sensor_calibrate_remove`. -/
def bepSensorCalibrateRemove (rounds : Nat) : Hcp FpcBepResult :=
  bmliteSendCmd rounds CMD_STORAGE_CALIBRATION ARG_DELETE

/-- `bep_version`: its result and the memory at `version`; `len` is an `int`. -/
def bepVersion (rounds : Nat) (version : Option (Mem Byte)) (len : Int) :
    Hcp (FpcBepResult × Option (Mem Byte)) :=
  assertOut (bmliteSendCmdArg rounds CMD_INFO ARG_GET ARG_VERSION [] 0) version <|
    bmliteCopyArg ARG_VERSION version (len % 65536).toNat

/-- `bep_unique_id_get`: its result and the memory at `unique_id`. -/
def bepUniqueIdGet (rounds : Nat) (uniqueId : Option (Mem Byte)) :
    Hcp (FpcBepResult × Option (Mem Byte)) :=
  assertOut (bmliteSendCmdArg rounds CMD_INFO ARG_GET ARG_UNIQUE_ID [] 0) uniqueId <|
    bmliteCopyArg ARG_UNIQUE_ID uniqueId 12

/-- `bep_uart_speed_set`. -/
def bepUartSpeedSet (rounds : Nat) (speed : BitVec 32) : Hcp FpcBepResult :=
  assertOk (bmliteInitCmd CMD_COMMUNICATION ARG_SPEED) <|
    assertOk (bmliteAddArg ARG_SET [] 0) <|
      assertOk (bmliteAddArg ARG_DATA (enc32 speed) 4) (bmliteTranceive rounds)

/-- `bep_uart_speed_get`: its result and the memory at `speed`; a pointer has four bytes. -/
def bepUartSpeedGet (rounds : Nat) (speed : Option (Mem Byte)) :
    Hcp (FpcBepResult × Option (Mem Byte)) :=
  assertOut (bmliteInitCmd CMD_COMMUNICATION ARG_SPEED) speed <|
    assertOut (bmliteAddArg ARG_GET [] 0) speed <|
      assertOut (bmliteTranceive rounds) speed <| bmliteCopyArg ARG_DATA speed 4

/-- `bep_sensor_reset`. -/
def bepSensorReset (rounds : Nat) : Hcp FpcBepResult := do
  busyWait 50
  bmliteSendCmd rounds CMD_SENSOR ARG_RESET

/-! ## Enrolling and identifying -/

/-- The loop of `bep_enroll_finger`, with `left` samples to go; whether enrolling is done. -/
def bepEnrollFinger.samples (rounds : Nat) : (left : Nat) → Hcp Bool
  | 0 => return false
  | left + 1 => do
    callback .onStartEnrollcapture
    let bepResult ← bepCapture rounds CAPTURE_TIMEOUT
    callback .onFinishEnrollcapture
    if bepResult ≠ FPC_BEP_RESULT_OK then
      bepEnrollFinger.samples rounds left
    else
      let bepResult ← bmliteSendCmd rounds CMD_ENROLL ARG_ADD
      if bepResult ≠ FPC_BEP_RESULT_OK then
        bepEnrollFinger.samples rounds left
      else
        let _ ← bmliteGetArg ARG_COUNT
        let samplesRemaining ← load32 .pkt (← chainArg).data
        if samplesRemaining = 0 then
          return true
        else
          let _ ← sensorWaitFingerNotPresent rounds 0
          bepEnrollFinger.samples rounds left

/-- `bep_enroll_finger`. -/
def bepEnrollFinger (rounds : Nat) : Hcp FpcBepResult := do
  callback .onStartEnroll
  exitIfErr (bmliteSendCmd rounds CMD_ENROLL ARG_START)
    (fun _ => do
      callback .onFinishEnroll
      return FPC_BEP_RESULT_GENERAL_ERROR) fun _ => do
      let enrollDone ← bepEnrollFinger.samples rounds MAX_CAPTURE_ATTEMPTS
      let bepResult ← bmliteSendCmd rounds CMD_ENROLL ARG_FINISH
      callback .onFinishEnroll
      return if enrollDone then bepResult else FPC_BEP_RESULT_GENERAL_ERROR

/-- The label `exit` of `bep_identify_finger`: its result, `*template_id` and `*match`. -/
def bepIdentifyFinger.exit (templateId : Nat) (isMatch : Bool) (bepResult : FpcBepResult) :
    Hcp (FpcBepResult × Nat × Bool) := do
  callback .onIdentifyFinish
  return (bepResult, templateId, isMatch)

/-- `bep_identify_finger`, once `ARG_MATCH` has been found. -/
def bepIdentifyFinger.answer (templateId : Nat) (bepResult : FpcBepResult) :
    Hcp (FpcBepResult × Nat × Bool) := do
  let isMatch ← load .pkt (← chainArg).data 1
  if isMatch ≠ [0] then
    let _ ← bmliteGetArg ARG_ID
    let id ← load16 .pkt (← chainArg).data
    busyWait 50
    bepIdentifyFinger.exit id true bepResult
  else
    bepIdentifyFinger.exit templateId false bepResult

/-- `bep_identify_finger`: its result, `*template_id` and `*match`. -/
def bepIdentifyFinger (rounds timeout templateId : Nat) : Hcp (FpcBepResult × Nat × Bool) := do
  let exit := bepIdentifyFinger.exit templateId false
  callback .onIdentifyStart
  exitIfErr (bepCapture rounds (timeout % 65536)) exit fun _ =>
    exitIfErr (bepImageExtract rounds) exit fun _ =>
      exitIfErr (bepIdentify rounds) exit fun _ =>
        exitIfErr (bmliteGetArg ARG_MATCH) exit (bepIdentifyFinger.answer templateId)

end BMLite
