import BMLite.Footprint

/-!
# Safety of the interface

Every function of `bmlite_if.h` against an arbitrary module and an arbitrary transport.

* `BepCall.requests`, `BepCall.overread`, `BepCall.Spares` — what a call may send, how far it may
  read, and where it may write the caller's memory;
* `call_kept` — every call is confined so;
* `session_memory_safe` — **no sequence of calls writes outside a buffer**;
* `session_listed` — **what a call writes is an ACK or a frame of one of its own commands**.
-/

set_option autoImplicit false

namespace BMLite

open FlatMemory Process

variable {max reach rounds : Nat} {qs : List Command} {α : Type}

/-! ## Captures, enrolling and identifying -/

/-- The request of `bep_capture`. -/
def Command.capture (timeout : Nat) : Command :=
  .cut CMD_CAPTURE ARG_NONE ARG_TIMEOUT (enc16 timeout) 2

/-- The request of the functions that wait for a finger. -/
def Command.wait (argKey timeout : Nat) : Command :=
  .cut CMD_WAIT argKey ARG_TIMEOUT (enc16 timeout) 2

/-- The callbacks around a capture. -/
theorem kept_captureCallbacks {body : Hcp FpcBepResult}
    (h : Kept max reach qs body fun _ => True) : Kept max reach qs (do
      callback .onStartCapture
      let bepResult ← body
      callback .onFinishCapture
      return bepResult) fun _ => True :=
  (kept_callback _).bind fun _ _ => h.bind fun _ _ => (kept_callback _).bind fun _ _ =>
    kept_pure trivial

theorem kept_attempts (hreach : 5 ≤ reach) {timeout : Nat} (hmem : .capture timeout ∈ qs)
    (left : Nat) : ∀ bepResult,
      Kept max reach qs (bepCapture.attempts rounds timeout left bepResult) fun _ => True := by
  induction left with
  | zero => exact fun _ => kept_pure trivial
  | succ left ih =>
    intro bepResult
    have hsend : Kept max reach qs
        (bmliteSendCmdArg rounds CMD_CAPTURE ARG_NONE ARG_TIMEOUT (enc16 timeout) 2)
        fun _ => True :=
      kept_sendCmdArg hreach (by decide) (by decide) (by decide) (Nat.le_refl 2) hmem
    refine hsend.bind fun r _ => kept_get fun c _ => ?_
    split
    · exact kept_pure trivial
    · exact ih r

theorem kept_capture (hreach : 5 ≤ reach) {timeout : Nat} (hmem : .capture timeout ∈ qs) :
    Kept max reach qs (bepCapture rounds timeout) fun _ => True :=
  kept_captureCallbacks (kept_withTimeout (kept_attempts hreach hmem _ _) timeout)

theorem kept_wait (hreach : 5 ≤ reach) {argKey timeout : Nat} (hkey : argKey < 65536)
    (hmem : .wait argKey timeout ∈ qs) :
    Kept max reach qs (bmliteSendCmdArg rounds CMD_WAIT argKey ARG_TIMEOUT (enc16 timeout) 2)
      fun _ => True :=
  kept_sendCmdArg hreach hkey (by decide) (by decide) (Nat.le_refl 2) hmem

/-- The samples read `*chain->arg.data`, whatever the search before has found. -/
theorem kept_samples (hreach : 8 ≤ reach) (hcapture : .capture CAPTURE_TIMEOUT ∈ qs)
    (hwait : .wait ARG_FINGER_UP 0 ∈ qs) (hadd : .key CMD_ENROLL ARG_ADD ∈ qs) (left : Nat) :
    Kept max reach qs (bepEnrollFinger.samples rounds left) fun _ => True := by
  have hreach' : 5 ≤ reach := by omega
  induction left with
  | zero => exact kept_pure trivial
  | succ left ih =>
    refine (kept_callback _).bind fun _ _ => (kept_capture hreach' hcapture).bind fun r _ =>
      (kept_callback _).bind fun _ _ => ?_
    split
    · exact ih
    refine (kept_sendCmd hreach' (by decide) hadd).bind fun r _ => ?_
    split
    · exact ih
    refine (kept_getArg (by omega) ARG_COUNT).bind fun _ _ => kept_chainArg fun a harg _ => ?_
    refine (kept_load32 (by omega)).bind fun remaining _ => ?_
    split
    · exact kept_pure trivial
    · exact (kept_withTimeout (kept_wait hreach' (by decide) hwait) 0).bind fun _ _ => ih

theorem kept_enroll (hreach : 8 ≤ reach) (hcapture : .capture CAPTURE_TIMEOUT ∈ qs)
    (hwait : .wait ARG_FINGER_UP 0 ∈ qs) (hadd : .key CMD_ENROLL ARG_ADD ∈ qs)
    (hstart : .key CMD_ENROLL ARG_START ∈ qs) (hfinish : .key CMD_ENROLL ARG_FINISH ∈ qs) :
    Kept max reach qs (bepEnrollFinger rounds) fun _ => True := by
  have hreach' : 5 ≤ reach := by omega
  refine (kept_callback _).bind fun _ _ => kept_exitIfErr (kept_sendCmd hreach' (by decide) hstart)
    (fun _ => (kept_callback _).bind fun _ _ => kept_pure trivial) fun _ => ?_
  refine (kept_samples hreach hcapture hwait hadd _).bind fun done _ => ?_
  exact (kept_sendCmd hreach' (by decide) hfinish).bind fun r _ =>
    (kept_callback _).bind fun _ _ => kept_pure trivial

theorem kept_identify (hreach : 8 ≤ reach) {timeout templateId : Nat}
    (hcapture : .capture (timeout % 65536) ∈ qs) (hextract : .key CMD_IMAGE ARG_EXTRACT ∈ qs)
    (hidentify : .key CMD_IDENTIFY ARG_NONE ∈ qs) :
    Kept max reach qs (bepIdentifyFinger rounds timeout templateId) fun _ => True := by
  have hreach' : 5 ≤ reach := by omega
  have hexit (templateId : Nat) (isMatch : Bool) (r : FpcBepResult) :
      Kept max reach qs (bepIdentifyFinger.exit templateId isMatch r) fun _ => True :=
    (kept_callback _).bind fun _ _ => kept_pure trivial
  refine (kept_callback _).bind fun _ _ => ?_
  refine kept_exitIfErr (kept_capture hreach' hcapture) (hexit _ _) fun _ => ?_
  refine kept_exitIfErr (kept_sendCmd hreach' (by decide) hextract) (hexit _ _) fun _ => ?_
  refine kept_exitIfErr (kept_sendCmd hreach' (by decide) hidentify) (hexit _ _) fun _ => ?_
  refine kept_exitIfErr (kept_getArg (by omega) ARG_MATCH) (hexit _ _) fun r => ?_
  refine kept_chainArg fun a harg _ => ?_
  refine (kept_load (by omega)).bind fun isMatch _ => ?_
  split
  · refine (kept_getArg (by omega) ARG_ID).bind fun _ _ => kept_chainArg fun a' harg' _ => ?_
    exact (kept_load16 (by omega)).bind fun id _ => (kept_busyWait 50).bind fun _ _ =>
      hexit id true r
  · exact hexit templateId false r

/-! ## All functions -/

/-- The commands that a call may send. -/
def BepCall.requests : BepCall → List Command
  | .enrollFinger => [.key CMD_ENROLL ARG_START, .capture CAPTURE_TIMEOUT, .key CMD_ENROLL ARG_ADD,
      .wait ARG_FINGER_UP 0, .key CMD_ENROLL ARG_FINISH]
  | .identifyFinger timeout _ => [.capture (timeout % 65536), .key CMD_IMAGE ARG_EXTRACT,
      .key CMD_IDENTIFY ARG_NONE]
  | .waitFingerPresent timeout => [.wait ARG_FINGER_DOWN timeout]
  | .waitFingerNotPresent timeout => [.wait ARG_FINGER_UP timeout]
  | .capture timeout => [.capture timeout]
  | .imageGetSize _ => [.key CMD_IMAGE ARG_SIZE]
  | .imageCreate => [.key CMD_IMAGE ARG_CREATE]
  | .imageDelete => [.key CMD_IMAGE ARG_DELETE]
  | .imageGet _ _ => [.key CMD_IMAGE ARG_UPLOAD]
  | .imagePut data size => [.cut CMD_IMAGE ARG_DOWNLOAD ARG_DATA data (size % 65536)]
  | .imageExtract => [.key CMD_IMAGE ARG_EXTRACT]
  | .identify => [.key CMD_IDENTIFY ARG_NONE]
  | .templateSave templateId => [.cut CMD_TEMPLATE ARG_SAVE ARG_ID (enc16 templateId) 2]
  | .templateRemoveRam => [.key CMD_TEMPLATE ARG_DELETE]
  | .templateGet _ _ => [.key CMD_TEMPLATE ARG_UPLOAD]
  | .templatePut data length => [.cut CMD_TEMPLATE ARG_DOWNLOAD ARG_DATA data length]
  | .templateRemove templateId =>
    [.cut CMD_STORAGE_TEMPLATE ARG_DELETE ARG_ID (enc16 templateId) 2]
  | .templateRemoveAll => [.cut CMD_STORAGE_TEMPLATE ARG_DELETE ARG_ALL [] 0]
  | .templateLoadStorage templateId =>
    [.cut CMD_STORAGE_TEMPLATE ARG_UPLOAD ARG_ID (enc16 templateId) 2]
  | .templateGetCount _ => [.key CMD_STORAGE_TEMPLATE ARG_COUNT]
  | .templateGetIds => [.key CMD_STORAGE_TEMPLATE ARG_ID]
  | .swReset => [.key CMD_RESET ARG_NONE]
  | .sensorCalibrate => [.key CMD_STORAGE_CALIBRATION ARG_NONE]
  | .sensorCalibrateRemove => [.key CMD_STORAGE_CALIBRATION ARG_DELETE]
  | .version _ _ => [.cut CMD_INFO ARG_GET ARG_VERSION [] 0]
  | .uniqueIdGet _ => [.cut CMD_INFO ARG_GET ARG_UNIQUE_ID [] 0]
  | .uartSpeedSet speed => [⟨CMD_COMMUNICATION, keyOf ARG_SPEED ++
      [cutArg ARG_SET [] 0, cutArg ARG_DATA (enc32 speed) 4]⟩]
  | .uartSpeedGet _ => [.cut CMD_COMMUNICATION ARG_SPEED ARG_GET [] 0]
  | .sensorReset => [.key CMD_SENSOR ARG_RESET]
  | .sendCmd cmd argType => [.key cmd argType]
  | .sendCmdArg cmd arg1Type arg2Type arg2Data arg2Length =>
    [.cut cmd arg1Type arg2Type arg2Data arg2Length]

/-- How far behind the packet buffer a call may read: an argument whose header is incomplete is
looked at nevertheless, and so are its bytes. -/
def BepCall.overread : BepCall → Nat
  | .imageGet _ size => Nat.max 8 (4 + size % 65536)
  | .templateGet _ size => Nat.max 8 (4 + size % 65536)
  | .version _ len => Nat.max 8 (4 + (len % 65536).toNat)
  | .uniqueIdGet _ => 16
  | .templateGetIds => 4 + 65535
  | _ => 8

/-- The caller's memory is written where the call says. -/
def BepCall.Spares : BepCall → Output → Prop
  | .imageGet data size, .memory m => BMLite.Spares (size % 65536) data m
  | .templateGet data size, .memory m => BMLite.Spares (size % 65536) data m
  | .version text len, .memory m => BMLite.Spares (len % 65536).toNat text m
  | .uniqueIdGet uniqueId, .memory m => BMLite.Spares 12 uniqueId m
  | .uartSpeedGet speed, .memory m => BMLite.Spares 4 speed m
  | _, _ => True

theorem kept_bare {m : Hcp FpcBepResult} {Q : FpcBepResult × Output → Prop}
    (h : Kept max reach qs m fun _ => True) (hQ : ∀ r, Q (r, .nothing)) :
    Kept max reach qs (bare m) Q := h.bind fun r _ => kept_pure (hQ r)

theorem kept_withOutput {m : Hcp (FpcBepResult × α)} {out : α → Output}
    {P : FpcBepResult × α → Prop} {Q : FpcBepResult × Output → Prop} (h : Kept max reach qs m P)
    (hQ : ∀ r a, P (r, a) → Q (r, out a)) : Kept max reach qs (withOutput m out) Q := by
  refine h.bind ?_
  rintro ⟨r, a⟩ ha
  exact kept_pure (hQ r a ha)

/-- A value that is read out of the answer. -/
theorem kept_value (hreach : 8 ≤ reach) {cmd argKey : Nat} (hkey : argKey < 65536)
    (hmem : .key cmd argKey ∈ qs) {out : α} {read : Nat → Hcp α}
    (hread : ∀ off, off + 4 ≤ max + reach → Kept max reach qs (read off) fun _ => True) :
    Kept max reach qs (assertOut (bmliteSendCmd rounds cmd argKey) out <|
      assertOut (bmliteGetArg argKey) out do
        let v ← read (← chainArg).data
        return (FPC_BEP_RESULT_OK, v)) fun _ => True := by
  refine kept_assertOut (kept_sendCmd (by omega) hkey hmem) (fun _ => trivial) ?_
  refine kept_assertOut (kept_getArg (by omega) argKey) (fun _ => trivial) ?_
  refine kept_chainArg fun a harg _ => ?_
  exact (hread a.data (by omega)).bind fun _ _ => kept_pure trivial

/-- A block that is copied out of the answer. -/
theorem kept_fetch {call : Hcp FpcBepResult} (h : Kept max reach qs call fun _ => True)
    {dest : Option (Mem Byte)} {t n : Nat} (hreach : 4 + n ≤ reach) :
    Kept max reach qs (assertOut call dest (bmliteCopyArg t dest n))
      fun y => Spares n dest y.2 :=
  kept_assertOut h (fun _ => spares_self n dest) (kept_copyArg t dest hreach)

theorem kept_readIds (hreach : 4 + 65535 ≤ reach) (hmem : .key CMD_STORAGE_TEMPLATE ARG_ID ∈ qs) :
    Kept max reach qs (readIds rounds) fun _ => True := by
  have hids : Kept max reach qs (bepTemplateGetIds rounds) fun _ => True :=
    kept_assertOk (kept_sendCmd (by omega) (by decide) hmem) (fun _ => trivial)
      (kept_getArg (by omega) ARG_DATA)
  refine hids.bind fun r _ => ?_
  split
  · refine kept_chainArg fun a harg hlt => ?_
    exact (kept_load (by omega)).bind fun d _ => kept_pure trivial
  · exact kept_pure trivial

theorem kept_uartSpeedSet (hreach : 5 ≤ reach) {speed : BitVec 32}
    (hmem : ⟨CMD_COMMUNICATION, keyOf ARG_SPEED ++
      [cutArg ARG_SET [] 0, cutArg ARG_DATA (enc32 speed) 4]⟩ ∈ qs) :
    Kept max reach qs (bepUartSpeedSet rounds speed) fun _ => True := by
  refine kept_init CMD_COMMUNICATION (by decide) fun c hc => ?_
  refine confined_add (a := cutArg ARG_SET [] 0) hc rfl rfl fun c₁ hc₁ => ?_
  refine confined_add (a := cutArg ARG_DATA (enc32 speed) 4) hc₁ rfl rfl fun c₂ hc₂ => ?_
  have hpkt := hc₂.packet_eq
  rw [List.append_assoc] at hpkt
  exact tranceive_confined (q := ⟨CMD_COMMUNICATION, keyOf ARG_SPEED ++
    [cutArg ARG_SET [] 0, cutArg ARG_DATA (enc32 speed) 4]⟩) hc₂.sound hreach hpkt hmem

/-- **Every call** is confined to its own commands. -/
theorem call_kept {call : BepCall} (hcall : call.Valid) (hover : call.overread ≤ reach)
    (hsub : ∀ q ∈ call.requests, q ∈ qs) :
    Kept max reach qs (call.run rounds) fun x => call.Spares x.2 := by
  have hkey {cmd argKey : Nat} (h : argKey < 65536) (hreach : 8 ≤ reach)
      (hmem : .key cmd argKey ∈ qs) :
      Kept max reach qs (bmliteSendCmd rounds cmd argKey) fun _ => True :=
    kept_sendCmd (by omega) h hmem
  have hcut {cmd argKey t n : Nat} {d : List Byte} (h : argKey < 65536) (ht : t < 65536)
      (hn : n < 65536) (hd : n ≤ d.length) (hreach : 8 ≤ reach)
      (hmem : .cut cmd argKey t d n ∈ qs) :
      Kept max reach qs (bmliteSendCmdArg rounds cmd argKey t d n) fun _ => True :=
    kept_sendCmdArg (by omega) h ht hn hd hmem
  cases call with
  | enrollFinger =>
    simp only [BepCall.requests, List.forall_mem_cons] at hsub
    obtain ⟨hstart, hcapture, hadd, hwait, hfinish, -⟩ := hsub
    exact kept_bare (kept_enroll hover hcapture hwait hadd hstart hfinish) fun _ => trivial
  | identifyFinger timeout templateId =>
    simp only [BepCall.requests, List.forall_mem_cons] at hsub
    obtain ⟨hcapture, hextract, hidentify, -⟩ := hsub
    show Kept max reach qs (withOutput (bepIdentifyFinger rounds timeout templateId) fun x =>
      .found x.1 x.2) _
    exact kept_withOutput (kept_identify hover hcapture hextract hidentify) fun _ _ _ => trivial
  | waitFingerPresent timeout =>
    have hover : 8 ≤ reach := hover
    exact kept_bare (kept_captureCallbacks (kept_withTimeout (kept_wait (by omega)
      (by decide : ARG_FINGER_DOWN < 65536) (hsub _ (List.mem_singleton_self _))) timeout))
      fun _ => trivial
  | waitFingerNotPresent timeout =>
    have hover : 8 ≤ reach := hover
    exact kept_bare (kept_withTimeout (kept_wait (by omega) (by decide : ARG_FINGER_UP < 65536)
      (hsub _ (List.mem_singleton_self _))) timeout) fun _ => trivial
  | capture timeout =>
    have hover : 8 ≤ reach := hover
    exact kept_bare (kept_capture (by omega) (hsub _ (List.mem_singleton_self _))) fun _ => trivial
  | imageGetSize size =>
    exact kept_withOutput (kept_value hover (by decide : ARG_SIZE < 65536)
      (hsub _ (List.mem_singleton_self _)) fun off h => kept_load32 h) fun _ _ _ => trivial
  | templateGetCount count =>
    exact kept_withOutput (kept_value hover (by decide : ARG_COUNT < 65536)
      (hsub _ (List.mem_singleton_self _)) fun off h => kept_load16 (by omega)) fun _ _ _ => trivial
  | imageGet data size =>
    have hover := Nat.max_le.1 hover
    exact kept_withOutput (kept_fetch (hkey (by decide) hover.1
      (hsub _ (List.mem_singleton_self _))) hover.2) fun _ _ h => h
  | templateGet data size =>
    have hover := Nat.max_le.1 hover
    exact kept_withOutput (kept_fetch (hkey (by decide) hover.1
      (hsub _ (List.mem_singleton_self _))) hover.2) fun _ _ h => h
  | version text len =>
    have hover := Nat.max_le.1 hover
    exact kept_withOutput (kept_fetch (hcut (by decide) (by decide) (by decide) (Nat.zero_le _)
      hover.1 (hsub _ (List.mem_singleton_self _))) hover.2) fun _ _ h => h
  | uniqueIdGet uniqueId =>
    have hover : 16 ≤ reach := hover
    exact kept_withOutput (kept_fetch (hcut (by decide) (by decide) (by decide) (Nat.zero_le _)
      (by omega) (hsub _ (List.mem_singleton_self _))) hover) fun _ _ h => h
  | uartSpeedGet speed =>
    have hover : 8 ≤ reach := hover
    show Kept max reach qs (withOutput (bepUartSpeedGet rounds speed) .memory) _
    rw [uartSpeedGet_eq]
    exact kept_withOutput (kept_fetch (hcut (by decide) (by decide) (by decide) (Nat.zero_le _)
      hover (hsub _ (List.mem_singleton_self _))) hover) fun _ _ h => h
  | templateGetIds =>
    exact (kept_readIds hover (hsub _ (List.mem_singleton_self _))).mono (Nat.le_refl _)
      (fun _ => id) fun _ _ => trivial
  | uartSpeedSet speed =>
    have hover : 8 ≤ reach := hover
    exact kept_bare (kept_uartSpeedSet (by omega) (hsub _ (List.mem_singleton_self _)))
      fun _ => trivial
  | sensorReset =>
    exact kept_bare ((kept_busyWait 50).bind fun _ _ =>
      hkey (by decide) hover (hsub _ (List.mem_singleton_self _))) fun _ => trivial
  | imageCreate | imageDelete | imageExtract | identify | templateRemoveRam | swReset
  | sensorCalibrate | sensorCalibrateRemove =>
    exact kept_bare (hkey (by decide) hover (hsub _ (List.mem_singleton_self _))) fun _ => trivial
  | sendCmd cmd argType =>
    exact kept_bare (hkey hcall hover (hsub _ (List.mem_singleton_self _))) fun _ => trivial
  | templateSave _ | templateRemove _ | templateLoadStorage _ =>
    exact kept_bare (hcut (by decide) (by decide) (by decide) (Nat.le_refl 2) hover
      (hsub _ (List.mem_singleton_self _))) fun _ => trivial
  | templateRemoveAll =>
    exact kept_bare (hcut (by decide) (by decide) (by decide) (Nat.le_refl 0) hover
      (hsub _ (List.mem_singleton_self _))) fun _ => trivial
  | imagePut data size =>
    exact kept_bare (hcut (by decide) (by decide) (Nat.mod_lt _ (by decide)) hcall hover
      (hsub _ (List.mem_singleton_self _))) fun _ => trivial
  | templatePut data length =>
    exact kept_bare (hcut (by decide) (by decide) hcall.1 hcall.2 hover
      (hsub _ (List.mem_singleton_self _))) fun _ => trivial
  | sendCmdArg cmd arg1Type arg2Type arg2Data arg2Length =>
    exact kept_bare (hcut hcall.1 hcall.2.1 hcall.2.2.1 hcall.2.2.2 hover
      (hsub _ (List.mem_singleton_self _))) fun _ => trivial

/-! ## Sequences of calls -/

/-- All calls have spared the memory of their callers. -/
def AllSpared (calls : List BepCall) (results : List ((FpcBepResult × Output) × FpcBepResult)) :
    Prop := List.Forall₂ (fun call x => call.Spares x.1.2) calls results

theorem session_kept (calls : List BepCall) (hcalls : ∀ call ∈ calls, call.Valid)
    (hover : ∀ call ∈ calls, call.overread ≤ reach)
    (hsub : ∀ call ∈ calls, ∀ q ∈ call.requests, q ∈ qs) :
    Kept max reach qs (session rounds calls) (AllSpared calls) := by
  induction calls with
  | nil => exact kept_pure .nil
  | cons call calls ih =>
    simp only [List.forall_mem_cons] at hcalls hover hsub
    refine (call_kept hcalls.1 hover.1 hsub.1).bind fun x hx => kept_get fun c _ => ?_
    refine (ih hcalls.2 hover.2 hsub.2).bind fun xs hxs => ?_
    exact kept_pure (.cons hx hxs)

/-- A null pointer is dereferenced only by an enrolling before any search has succeeded. -/
theorem session_null (calls : List BepCall) {c : HcpComm} {es : List HcpEvent}
    (h : Touches ((session rounds calls).run c) es .null) :
    .enrollFinger ∈ calls ∧ c.arg = none := by
  by_contra hno
  let P : Prop := .enrollFinger ∈ calls
  have hact : ∀ call ∈ calls, ∀ a ∈ call.actions, a ≠ .null := fun call _ a => call.actions_ne_null
  have hcomposed : Composed rounds (· ≠ .null) (fun _ => True) P (session rounds calls)
      fun _ => P := composed_session calls hact (fun call _ => call.waits_true) id
  have hfound : P → c.arg.isSome := fun hmem =>
    Option.isSome_iff_ne_none.2 fun hnone => hno ⟨hmem, hnone⟩
  rcases (hcomposed.confined trivial trivial c trivial hfound).touches h with hplain | hne
  · exact hplain
  · exact hne rfl

/-- **Memory safety of the whole interface.**  Whatever the module and the transport do, in every
sequence of calls each store stays inside its buffer, each access to `txrx_buffer` stays in its
256 bytes, no read ends more than `reach` bytes behind the packet buffer, a null pointer is
dereferenced only by an enrolling on a chain on which no search has ever succeeded, the callers'
memory is written where the calls say, and the chain is as sound as it was. -/
theorem session_memory_safe {calls : List BepCall} (hcalls : ∀ call ∈ calls, call.Valid)
    (hover : ∀ call ∈ calls, call.overread ≤ reach) {c : HcpComm} (hc : c.Sound max) :
    (∀ es acc, Touches ((session rounds calls).run c) es (.access acc) → acc.Bounded max reach) ∧
    (∀ es, Touches ((session rounds calls).run c) es .null →
      .enrollFinger ∈ calls ∧ c.arg = none) ∧
    ∀ es results c', Runs ((session rounds calls).run c) es (results, c') →
      c'.Sound max ∧ AllSpared calls results := by
  have hkept : Kept max reach (calls.flatMap BepCall.requests) (session rounds calls)
      (AllSpared calls) :=
    session_kept calls hcalls hover fun call hcall q hq => List.mem_flatMap.2 ⟨call, hcall, hq⟩
  refine ⟨?_, fun es => session_null calls, ?_⟩
  · intro es acc h
    exact (hkept c hc).touches h
  · intro es results c' h
    obtain ⟨hspares, hsound⟩ := (hkept c hc).runs h
    exact ⟨hsound, hspares⟩

/-- The chain of the example program at its start. -/
theorem hcpChain_sound : hcpChain.Sound 5120 where
  max_eq := rfl
  max_ge := by decide
  max_le := by decide
  size_le := by decide
  arg_le := fun a h => by cases h
  arg_lt := fun a h => by cases h

/-- Enrolling, and fetching the version into 20 bytes. -/
abbrev enrollAndVersion : List BepCall := [.enrollFinger, .version (some fun _ => 0) 20]

theorem session_memory_safe_example :
    (∀ es acc, Touches ((session 100 enrollAndVersion).run hcpChain) es (.access acc) →
      acc.Bounded 5120 24) ∧
    (∀ es, Touches ((session 100 enrollAndVersion).run hcpChain) es .null →
      .enrollFinger ∈ enrollAndVersion ∧ hcpChain.arg = none) ∧
    ∀ es results c', Runs ((session 100 enrollAndVersion).run hcpChain) es (results, c') →
      c'.Sound 5120 ∧ AllSpared enrollAndVersion results :=
  session_memory_safe (by simp [BepCall.Valid]) (by simp [BepCall.overread]) hcpChain_sound

/-- **What a call writes is its own.**  After any sequence of calls, and whatever the module and the
transport did and do, every block that the next call writes is an ACK or a frame of one of its own
commands, whether or not the call ever returns. -/
theorem session_listed {calls : List BepCall} (hcalls : ∀ call ∈ calls, call.Valid)
    {call : BepCall} (hcall : call.Valid) {c c' : HcpComm} (hc : c.Sound max)
    {es fs : List HcpEvent} {results : List ((FpcBepResult × Output) × FpcBepResult)}
    (hrun : Runs ((session rounds calls).run c) es (results, c')) {data : List Byte} {t : Nat}
    {k : FpcBepResult → HcpProc ((FpcBepResult × Output) × HcpComm)}
    (hsteps : Steps ((call.run rounds).run c') fs (.write data t k)) :
    Listed call.requests data := by
  let reach := ((call :: calls).map BepCall.overread).sum
  have hover {j : BepCall} (hj : j ∈ call :: calls) : j.overread ≤ reach :=
    List.le_sum_of_mem (List.mem_map_of_mem hj)
  have hsession : Kept max reach (calls.flatMap BepCall.requests) (session rounds calls)
      (AllSpared calls) :=
    session_kept calls hcalls (fun j hj => hover (List.mem_cons_of_mem call hj))
      fun j hj q hq => List.mem_flatMap.2 ⟨j, hj, hq⟩
  have hc' := ((hsession c hc).runs hrun).2
  have hnext : Kept max reach call.requests (call.run rounds) fun x => call.Spares x.2 :=
    call_kept hcall (hover (List.mem_cons_self ..)) fun _ => id
  exact (hnext c' hc').write_ok hsteps

/-- `bmlite_send` writes a frame, whatever its packet. -/
theorem send_steps (c : HcpComm) : ∃ data t k, Steps (bmliteSend.run c) [] (.write data t k) := by
  let c₁ : HcpComm := { c with
    txrxBuffer := blit (blit c.txrxBuffer 0 (enc16 0)) 8
      (enc16 (c.outgoing.length / APP_MTU + 1)) }
  have hstep := @send_loop_step c₁ (c.outgoing.length / APP_MTU + 1) (0 + 1)
    (c.outgoing.length / APP_MTU + 1) (c.outgoing.length - APP_MTU * 0) 0 (Nat.le_add_left 1 _)
  rw [txLink_run] at hstep
  have hwrite := hstep.trans
    (.touch <| .touch <| .touch <| .touch <| .touch <| .touch <| .refl _)
  rw [send_run]
  exact ⟨_, _, _, .touch (.touch (Steps.bind hwrite _))⟩

/-- Resetting the module begins with a frame, whatever the chain holds. -/
theorem reset_steps (rounds : Nat) (c : HcpComm) : ∃ data t k,
    Steps ((BepCall.swReset.run rounds).run c) [] (.write data t k) := by
  have hinit : Runs ((bmliteInitCmd CMD_RESET ARG_NONE).run c) []
      (FPC_BEP_RESULT_OK, c.prepare CMD_RESET ARG_NONE) :=
    (runs_initCmd c CMD_RESET ARG_NONE [] _).2 ⟨rfl, rfl⟩
  obtain ⟨data, t, k, hsend⟩ := send_steps (c.prepare CMD_RESET ARG_NONE)
  have hexchange : ∃ k, Steps
      ((bmliteTranceive rounds).run (c.prepare CMD_RESET ARG_NONE)) []
      (.write data t k) := by
    simp only [bmliteTranceive, StateT.run_bind, StateT.run_get, pure_eq, ret_bind]
    exact ⟨_, Steps.bind hsend _⟩
  obtain ⟨k', hexchange⟩ := hexchange
  have hcmd := Runs.bind (f := fun y : FpcBepResult × HcpComm =>
    (if y.1 ≠ FPC_BEP_RESULT_OK then pure y.1 else bmliteTranceive rounds :
      Hcp FpcBepResult).run y.2) hinit hexchange
  refine ⟨data, t, ?_⟩
  show ∃ k, Steps ((bare (assertOk (bmliteInitCmd CMD_RESET ARG_NONE) (bmliteTranceive rounds))).run
    c) [] (.write data t k)
  simp only [bare, assertOk, StateT.run_bind]
  exact ⟨_, Steps.bind hcmd _⟩

/-- After an identification by a module that knows the finger. -/
theorem session_listed_reset : ∃ es results c' data t k,
    Runs ((session 2 [.identifyFinger 0 7]).run hcpChain) es (results, c') ∧
      Steps ((BepCall.swReset.run 2).run c') [] (.write data t k) ∧
      Listed BepCall.swReset.requests data := by
  have hvalid : ∀ call ∈ [BepCall.identifyFinger 0 7], call.Valid := by simp [BepCall.Valid]
  obtain ⟨⟨results, c'⟩, e', a, s', hrun, -⟩ := @session_steps Nat 5120 2 matching False (by decide)
    _ hvalid (by simp) hcpChain rfl False.elim _ 0 rfl
  obtain ⟨es, hruns, -⟩ := runIn_iff.1 hrun
  obtain ⟨data, t, k, hsteps⟩ := reset_steps 2 c'
  exact ⟨es, results, c', data, t, k, hruns, hsteps,
    session_listed hvalid (show BepCall.swReset.Valid from trivial) hcpChain_sound hruns hsteps⟩

end BMLite
