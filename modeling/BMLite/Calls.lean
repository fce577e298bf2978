import BMLite.Composed
import BMLite.Device

/-!
# The interface as dialogs

What the functions of `bmlite_if.h` say to the module and make of its replies, without packets,
buffers and frames.

* `BepCall.talk` — the dialog of each call: `Talk.capture` and `Talk.samples` are the loops of
  `bep_capture` and `bep_enroll_finger`;
* `call_implements` — **every call does what its dialog says**;
* `session_implements` — and so does every sequence of calls, with one module after the other.
-/

set_option autoImplicit false

namespace BMLite

open FlatMemory Process

/-! ## Dialogs -/

/-- The results of a command, that of the device being `prev` before. -/
def Talk.send (max : Nat) (prev : FpcBepResult) (q : Command) :
    Talk (FpcBepResult × FpcBepResult) := do
  match ← Talk.command max q with
  | none => return (FPC_BEP_RESULT_NO_MEMORY, prev)
  | some (_, d) => return (FPC_BEP_RESULT_OK, d)

/-- The results of a command and its output: what `out` makes of the argument `t` of the reply,
or else `unset`. -/
def Talk.fetch (max : Nat) (prev : FpcBepResult) (q : Command) (t : Nat) (unset : Output)
    (out : Reply → CmdArg → Talk (FpcBepResult × Output)) :
    Talk ((FpcBepResult × Output) × FpcBepResult) := do
  match ← Talk.command max q with
  | none => return ((FPC_BEP_RESULT_NO_MEMORY, unset), prev)
  | some (r, d) =>
    match firstArg r.args t with
    | none => return ((FPC_BEP_RESULT_INVALID_ARGUMENT, unset), d)
    | some a => do return (← out r a, d)

/-- The first `n` bytes at the argument `t` of the reply. -/
def Talk.look (r : Reply) (t n : Nat) : Talk (List Byte) := .pick (r.Shows t n) .ret

/-- As much of an argument as there is room for, at a pointer that may be null. -/
def Talk.copy (dest : Option (Mem Byte)) (n : Nat) (_ : Reply) (a : CmdArg) :
    Talk (FpcBepResult × Output) :=
  match dest with
  | none => return (FPC_BEP_RESULT_NO_MEMORY, .memory none)
  | some m => return (FPC_BEP_RESULT_OK, .memory (some (blit m 0 (a.data.take n))))

def Talk.attempts (max timeout : Nat) :
    (left : Nat) → FpcBepResult × FpcBepResult → Talk (FpcBepResult × FpcBepResult)
  | 0, last => return last
  | left + 1, last => do
    let now ← Talk.send max last.2 ⟨CMD_CAPTURE, [timeoutArg timeout]⟩
    if now.1 = FPC_BEP_RESULT_OK ∧ now.2 = FPC_BEP_RESULT_OK then return now
    else Talk.attempts max timeout left now

/-- Up to three captures, until one has succeeded. -/
def Talk.capture (max : Nat) (prev : FpcBepResult) (timeout : Nat) :
    Talk (FpcBepResult × FpcBepResult) :=
  Talk.attempts max timeout MAX_SINGLE_CAPTURE_ATTEMPTS (FPC_BEP_RESULT_OK, prev)

/-- Wait for a finger to come or to go. -/
def Talk.wait (max : Nat) (prev : FpcBepResult) (key : CmdArg) (timeout : Nat) :
    Talk (FpcBepResult × FpcBepResult) :=
  Talk.send max prev ⟨CMD_WAIT, [key, timeoutArg timeout]⟩

theorem fingerDown_lt : ARG_FINGER_DOWN < 65536 := by decide

theorem fingerUp_lt : ARG_FINGER_UP < 65536 := by decide

theorem start_lt : ARG_START < 65536 := by decide

theorem add_lt : ARG_ADD < 65536 := by decide

theorem finish_lt : ARG_FINISH < 65536 := by decide

theorem extract_lt : ARG_EXTRACT < 65536 := by decide

def fingerDown : CmdArg := .flag ARG_FINGER_DOWN fingerDown_lt

def fingerUp : CmdArg := .flag ARG_FINGER_UP fingerUp_lt

/-- Captures are added until the module wants no more; the result of the device is that of the last
command. -/
def Talk.samples (max : Nat) : (left : Nat) → FpcBepResult → Talk (Bool × FpcBepResult)
  | 0, prev => return (false, prev)
  | left + 1, prev => do
    let capture ← Talk.capture max prev CAPTURE_TIMEOUT
    if capture.1 ≠ FPC_BEP_RESULT_OK then Talk.samples max left capture.2
    else
      match ← Talk.command max ⟨CMD_ENROLL, [.flag ARG_ADD add_lt]⟩ with
      | none => Talk.samples max left capture.2
      | some (r, d) => do
        if dec32 (← Talk.look r ARG_COUNT 4) = 0 then return (true, d)
        else
          let wait ← Talk.wait max d fingerUp 0
          Talk.samples max left wait.2

/-- Both results are OK. -/
abbrev Fine (x : FpcBepResult × FpcBepResult) : Prop :=
  x.1 = FPC_BEP_RESULT_OK ∧ x.2 = FPC_BEP_RESULT_OK

def Talk.enroll (max : Nat) (prev : FpcBepResult) : Talk (FpcBepResult × FpcBepResult) := do
  let start ← Talk.send max prev ⟨CMD_ENROLL, [.flag ARG_START start_lt]⟩
  if Fine start then
    let (enrollDone, d) ← Talk.samples max MAX_CAPTURE_ATTEMPTS start.2
    let finish ← Talk.send max d ⟨CMD_ENROLL, [.flag ARG_FINISH finish_lt]⟩
    return (if enrollDone then finish.1 else FPC_BEP_RESULT_GENERAL_ERROR, finish.2)
  else return (FPC_BEP_RESULT_GENERAL_ERROR, start.2)

/-- What `bep_identify_finger` makes of the reply to `CMD_IDENTIFY`. -/
def Talk.verdict (r : Reply) (templateId : Nat) : Talk (FpcBepResult × Output) :=
  match firstArg r.args ARG_MATCH with
  | none => return (FPC_BEP_RESULT_INVALID_ARGUMENT, .found templateId false)
  | some _ => do
    if (← Talk.look r ARG_MATCH 1) ≠ [0] then
      return (FPC_BEP_RESULT_OK, .found (dec16 (← Talk.look r ARG_ID 2)) true)
    else return (FPC_BEP_RESULT_OK, .found templateId false)

def Talk.identify (max : Nat) (prev : FpcBepResult) (timeout templateId : Nat) :
    Talk ((FpcBepResult × Output) × FpcBepResult) := do
  let capture ← Talk.capture max prev (timeout % 65536)
  if Fine capture then
    let extract ← Talk.send max capture.2 ⟨CMD_IMAGE, [.flag ARG_EXTRACT extract_lt]⟩
    if Fine extract then
      match ← Talk.command max ⟨CMD_IDENTIFY, []⟩ with
      | none => return ((FPC_BEP_RESULT_NO_MEMORY, .found templateId false), extract.2)
      | some (r, d) =>
        if d = FPC_BEP_RESULT_OK then return (← Talk.verdict r templateId, d)
        else return ((FPC_BEP_RESULT_OK, .found templateId false), d)
    else return ((extract.1, .found templateId false), extract.2)
  else return ((capture.1, .found templateId false), capture.2)

/-- An argument of `n` bytes of `d`, with the widths that the parameters have. -/
def cutArg (t : Nat) (d : List Byte) (n : Nat) : CmdArg where
  type := t % 65536
  data := d.take (n % 65536)
  type_lt := Nat.mod_lt _ (by decide)
  size_lt := by
    rw [List.length_take]
    omega

/-- The key of a command, if it has one. -/
def keyOf (argKey : Nat) : List CmdArg := keyCall (argKey % 65536) (Nat.mod_lt _ (by decide))

/-- A dialog without output. -/
def Talk.plain (talk : Talk (FpcBepResult × FpcBepResult)) :
    Talk ((FpcBepResult × Output) × FpcBepResult) := do
  let x ← talk
  return ((x.1, .nothing), x.2)

/-- A command, with its results. -/
def Talk.simple (max : Nat) (prev : FpcBepResult) (cmd : Nat) (args : List CmdArg) :
    Talk ((FpcBepResult × Output) × FpcBepResult) := Talk.plain (Talk.send max prev ⟨cmd, args⟩)

/-- **The dialog of a call**: its result and output, and the result of the device. -/
def BepCall.talk (max : Nat) (prev : FpcBepResult) :
    BepCall → Talk ((FpcBepResult × Output) × FpcBepResult)
  | .enrollFinger => Talk.plain (Talk.enroll max prev)
  | .identifyFinger timeout templateId => Talk.identify max prev timeout templateId
  | .waitFingerPresent timeout => Talk.plain (Talk.wait max prev fingerDown timeout)
  | .waitFingerNotPresent timeout => Talk.plain (Talk.wait max prev fingerUp timeout)
  | .capture timeout => Talk.plain (Talk.capture max prev timeout)
  | .imageGetSize size => Talk.fetch max prev ⟨CMD_IMAGE, keyOf ARG_SIZE⟩ ARG_SIZE (.size size)
      fun r _ => do return (FPC_BEP_RESULT_OK, .size (dec32 (← Talk.look r ARG_SIZE 4)))
  | .imageCreate => Talk.simple max prev CMD_IMAGE (keyOf ARG_CREATE)
  | .imageDelete => Talk.simple max prev CMD_IMAGE (keyOf ARG_DELETE)
  | .imageGet data size => Talk.fetch max prev ⟨CMD_IMAGE, keyOf ARG_UPLOAD⟩ ARG_DATA
      (.memory data) (Talk.copy data (size % 65536))
  | .imagePut data size =>
    Talk.simple max prev CMD_IMAGE (keyOf ARG_DOWNLOAD ++ [cutArg ARG_DATA data size])
  | .imageExtract => Talk.simple max prev CMD_IMAGE (keyOf ARG_EXTRACT)
  | .identify => Talk.simple max prev CMD_IDENTIFY []
  | .templateSave templateId => Talk.simple max prev CMD_TEMPLATE (keyOf ARG_SAVE ++
      [cutArg ARG_ID (enc16 templateId) 2])
  | .templateRemoveRam => Talk.simple max prev CMD_TEMPLATE (keyOf ARG_DELETE)
  | .templateGet data size => Talk.fetch max prev ⟨CMD_TEMPLATE, keyOf ARG_UPLOAD⟩ ARG_DATA
      (.memory data) (Talk.copy data (size % 65536))
  | .templatePut data length => Talk.simple max prev CMD_TEMPLATE (keyOf ARG_DOWNLOAD ++
      [cutArg ARG_DATA data length])
  | .templateRemove templateId => Talk.simple max prev CMD_STORAGE_TEMPLATE (keyOf ARG_DELETE ++
      [cutArg ARG_ID (enc16 templateId) 2])
  | .templateRemoveAll => Talk.simple max prev CMD_STORAGE_TEMPLATE (keyOf ARG_DELETE ++
      [cutArg ARG_ALL [] 0])
  | .templateLoadStorage templateId => Talk.simple max prev CMD_STORAGE_TEMPLATE
      (keyOf ARG_UPLOAD ++ [cutArg ARG_ID (enc16 templateId) 2])
  | .templateGetCount count => Talk.fetch max prev ⟨CMD_STORAGE_TEMPLATE, keyOf ARG_COUNT⟩
      ARG_COUNT (.count count)
      fun r _ => do return (FPC_BEP_RESULT_OK, .count (dec16 (← Talk.look r ARG_COUNT 2)))
  | .templateGetIds => Talk.fetch max prev ⟨CMD_STORAGE_TEMPLATE, keyOf ARG_ID⟩ ARG_DATA .nothing
      fun _ a => return (FPC_BEP_RESULT_OK, .ids a.data)
  | .swReset => Talk.simple max prev CMD_RESET []
  | .sensorCalibrate => Talk.simple max prev CMD_STORAGE_CALIBRATION []
  | .sensorCalibrateRemove => Talk.simple max prev CMD_STORAGE_CALIBRATION (keyOf ARG_DELETE)
  | .version text len => Talk.fetch max prev ⟨CMD_INFO, keyOf ARG_GET ++
      [cutArg ARG_VERSION [] 0]⟩ ARG_VERSION (.memory text) (Talk.copy text (len % 65536).toNat)
  | .uniqueIdGet uniqueId => Talk.fetch max prev ⟨CMD_INFO, keyOf ARG_GET ++
      [cutArg ARG_UNIQUE_ID [] 0]⟩ ARG_UNIQUE_ID (.memory uniqueId) (Talk.copy uniqueId 12)
  | .uartSpeedSet speed => Talk.simple max prev CMD_COMMUNICATION (keyOf ARG_SPEED ++
      [cutArg ARG_SET [] 0, cutArg ARG_DATA (enc32 speed) 4])
  | .uartSpeedGet speed => Talk.fetch max prev ⟨CMD_COMMUNICATION, keyOf ARG_SPEED ++
      [cutArg ARG_GET [] 0]⟩ ARG_DATA (.memory speed) (Talk.copy speed 4)
  | .sensorReset => Talk.simple max prev CMD_SENSOR (keyOf ARG_RESET)
  | .sendCmd cmd argType => Talk.simple max prev cmd (keyOf argType)
  | .sendCmdArg cmd arg1Type arg2Type arg2Data arg2Length =>
    Talk.simple max prev cmd (keyOf arg1Type ++ [cutArg arg2Type arg2Data arg2Length])

/-! ## What the functions say -/

variable {S : Type} {max rounds : Nat} {dev : Device S max rounds} {α β γ δ : Type}

/-- From every chain with `max` bytes for packets, `m` does what the dialog says; if `P` holds, `arg`
must point somewhere.  `view` is what a caller sees of its result. -/
def Device.Speaks (dev : Device S max rounds) (P : Prop) (view : β → α) (m : Hcp β)
    (talk : FpcBepResult → Talk (α × FpcBepResult)) : Prop :=
  ∀ c, c.pktSizeMax = max → (P → c.arg.isSome) →
    dev.Implements (m.run c) (talk c.bepResult) fun b a =>
      view b.1 = a.1 ∧ b.2.bepResult = a.2 ∧ b.2.pktSizeMax = max

/-- Made of exchanges, so that a pointer that has been found stays. -/
abbrev Keeps (rounds : Nat) (m : Hcp α) : Prop :=
  Composed rounds (fun _ => True) (fun _ => True) True m fun _ => True

/-- The pointer is still there afterwards. -/
theorem Device.Implements.keeping {P : Prop} {c : HcpComm} {m : Hcp β} {talk : Talk α}
    {rel : β × HcpComm → α → Prop} (hm : Keeps rounds m) (hP : P → c.arg.isSome)
    (h : dev.Implements (m.run c) talk rel) :
    dev.Implements (m.run c) talk fun b a => rel b a ∧ (P → b.2.arg.isSome) := by
  intro e s hidle
  obtain ⟨b, e', a, s', hrun, hidle', hout, hrel⟩ := h e s hidle
  obtain ⟨es, hruns, -⟩ := runIn_iff.1 hrun
  refine ⟨b, e', a, s', hrun, hidle', hout, hrel, fun hp => ?_⟩
  exact ((hm.confined trivial trivial c trivial fun _ => hP hp).runs hruns).2 trivial

variable {P : Prop}

theorem speaks_pure {view : β → α} {b : β} {a : α} (h : view b = a) :
    dev.Speaks P view (pure b) fun prev => .ret (a, prev) :=
  fun _ hmax _ => Refines.ret ⟨h, rfl, hmax⟩

/-- **A sequence of functions.** -/
theorem Device.Speaks.bind {view : β → α} {m : Hcp β}
    {talk : FpcBepResult → Talk (α × FpcBepResult)}
    {view' : δ → γ} {f : β → Hcp δ} {g : α × FpcBepResult → Talk (γ × FpcBepResult)}
    (hm : Keeps rounds m) (h : dev.Speaks P view m talk)
    (hnext : ∀ b, dev.Speaks P view' (f b) fun d => g (view b, d)) :
    dev.Speaks P view' (m >>= f) fun prev => talk prev >>= g := by
  intro c hmax hP
  rw [StateT.run_bind]
  refine Refines.bind ((h c hmax hP).keeping hm hP) ?_
  rintro ⟨b, c'⟩ ⟨a, d⟩ ⟨⟨rfl, rfl, hmax'⟩, hP'⟩
  exact hnext b c' hmax' hP'

/-- A callback or a busy wait says nothing. -/
theorem speaks_silent {view : β → α} {m₀ : Hcp Unit} {m : Hcp β}
    {talk : FpcBepResult → Talk (α × FpcBepResult)}
    (h₀ : ∀ c, Returns (m₀.run c) ((), c)) (h : dev.Speaks P view m talk) :
    dev.Speaks P view (m₀ >>= fun _ => m) talk := by
  intro c hmax hP
  rw [StateT.run_bind]
  exact Refines.of_returns (h₀ c) (h c hmax hP)

theorem callback_silent (cb : Callback) (c : HcpComm) : Returns ((callback cb).run c) ((), c) :=
  returns_of_runs (.touch (.refl _))

theorem busyWait_silent (ticks : Nat) (c : HcpComm) : Returns ((busyWait ticks).run c) ((), c) :=
  returns_of_runs (.touch (.refl _))

/-- The results of a command. -/
theorem speaks_send {m : Hcp FpcBepResult} {q : Command}
    (h : ∀ c, c.pktSizeMax = max →
      dev.Implements (m.run c) (Talk.command max q) (Sees max c.bepResult)) :
    dev.Speaks P id m fun prev => Talk.send max prev q := by
  intro c hmax _
  refine (h c hmax).andThen ?_
  rintro ⟨r, c'⟩ (_ | ⟨reply, d⟩) hsees
  · obtain ⟨hr, hmax', hprev⟩ := hsees
    exact Refines.ret ⟨hr, hprev, hmax'⟩
  · obtain ⟨hr, hcarries⟩ := hsees
    exact Refines.ret ⟨hr, hcarries.result_eq, hcarries.max_eq⟩

theorem speaks_sendCmd (hle : max ≤ 65535) (cmd : Nat) {argKey : Nat} (hkey : argKey < 65536) :
    dev.Speaks P id (bmliteSendCmd rounds cmd argKey) fun prev =>
      Talk.send max prev ⟨cmd, keyCall argKey hkey⟩ :=
  speaks_send fun _ hmax => Device.Implements.sendCmd cmd hkey hmax hle

theorem speaks_sendCmdArg (hle : max ≤ 65535) (cmd : Nat) {argKey : Nat} (hkey : argKey < 65536)
    (a : CmdArg) {d : List Byte} {n : Nat} (hd : d.take n = a.data) (hn : n = a.data.length) :
    dev.Speaks P id (bmliteSendCmdArg rounds cmd argKey a.type d n) fun prev =>
      Talk.send max prev ⟨cmd, keyCall argKey hkey ++ [a]⟩ :=
  speaks_send fun _ hmax => Device.Implements.sendCmdArg cmd hkey a hd hn hmax hle

/-- **A timeout of its own** does not matter on this line. -/
theorem speaks_withTimeout {body : Hcp FpcBepResult}
    {talk : FpcBepResult → Talk (FpcBepResult × FpcBepResult)} (h : dev.Speaks P id body talk)
    (t : Nat) : dev.Speaks P id (withTimeout t body) talk := by
  intro c hmax hP
  simp only [withTimeout, StateT.run_bind, StateT.run_get, StateT.run_modify, pure_eq, ret_bind]
  have hbody := h { c with phyRxTimeout := t } hmax hP
  intro e s hidle
  obtain ⟨⟨r, c'⟩, e', a, s', hrun, hidle', hout, hrel⟩ := hbody e s hidle
  refine ⟨(r, { c' with phyRxTimeout := c.phyRxTimeout }), e', a, s', ?_, hidle', hout, hrel⟩
  rw [runIn_bind, hrun]
  rfl

/-! ## Captures, enrolling and identifying -/

/-- The callbacks around a capture. -/
theorem speaks_captureCallbacks {body : Hcp FpcBepResult}
    {talk : FpcBepResult → Talk (FpcBepResult × FpcBepResult)} (h : dev.Speaks P id body talk) :
    dev.Speaks P id (do
      callback .onStartCapture
      let bepResult ← body
      callback .onFinishCapture
      return bepResult) talk := by
  refine speaks_silent (callback_silent _) fun c hmax hP => ?_
  rw [StateT.run_bind]
  refine (h c hmax hP).thenReturns ?_
  rintro ⟨r, c'⟩ a hrel
  exact ⟨(r, c'), returns_of_runs (.touch (.refl _)), hrel⟩

/-- **The loop of `bep_capture`.** -/
theorem speaks_attempts (hle : max ≤ 65535) (timeout left : Nat) : ∀ last : FpcBepResult,
    dev.Speaks P id (bepCapture.attempts rounds timeout left last) fun prev =>
      Talk.attempts max timeout left (last, prev) := by
  induction left with
  | zero => exact fun last => speaks_pure rfl
  | succ left ih =>
    intro last
    have hsend : dev.Speaks P id
        (bmliteSendCmdArg rounds CMD_CAPTURE ARG_NONE ARG_TIMEOUT (enc16 timeout) 2) fun prev =>
          Talk.send max prev ⟨CMD_CAPTURE, [timeoutArg timeout]⟩ :=
      speaks_sendCmdArg hle CMD_CAPTURE (by decide : ARG_NONE < 65536) (timeoutArg timeout) rfl rfl
    refine hsend.bind (composed_sendCmdArg ..) fun r => ?_
    intro c hmax hP
    simp only [StateT.run_bind, StateT.run_get, pure_eq, ret_bind, id]
    split
    · exact Refines.ret ⟨rfl, rfl, hmax⟩
    · exact ih r c hmax hP

theorem speaks_capture (hle : max ≤ 65535) (timeout : Nat) :
    dev.Speaks P id (bepCapture rounds timeout) fun prev => Talk.capture max prev timeout :=
  speaks_captureCallbacks (speaks_withTimeout (speaks_attempts hle timeout _ _) timeout)

theorem speaks_wait (hle : max ≤ 65535) {argKey : Nat} (hkey : argKey < 65536)
    (hne : argKey ≠ ARG_NONE) (timeout : Nat) :
    dev.Speaks P id (bmliteSendCmdArg rounds CMD_WAIT argKey ARG_TIMEOUT (enc16 timeout) 2)
      fun prev => Talk.wait max prev (.flag argKey hkey) timeout := by
  have hsend := @speaks_sendCmdArg S max rounds dev P hle CMD_WAIT argKey hkey (timeoutArg timeout)
    (enc16 timeout) 2 rfl rfl
  unfold keyCall at hsend
  rw [if_neg hne] at hsend
  exact hsend

/-- What the host reads after a search whose result it drops, `b` being where `arg` points then. -/
theorem shows_after_search {c : HcpComm} {r : Reply} {d : FpcBepResult} (hc : c.Carries max r d)
    {t : Nat} {b : HcpArg} (h : (c.findArg t).or c.arg = some b) (n : Nat) :
    r.Shows t n (slice c.pktBuffer b.data n) := by
  rcases search_cases hc.packet_eq hc.size_le t with ⟨ha, -⟩ | ⟨a, b', ha, hb, -, hdata⟩
  · exact shows_of_none ha n
  · rw [hb] at h
    cases h
    exact shows_of_slice ha hdata n

/-- **The loop of `bep_enroll_finger`.** -/
theorem speaks_samples (hle : max ≤ 65535) (hfound : P) (left : Nat) :
    dev.Speaks P id (bepEnrollFinger.samples rounds left) fun prev =>
      Talk.samples max left prev := by
  induction left with
  | zero => exact speaks_pure rfl
  | succ left ih =>
    refine speaks_silent (callback_silent _) <| (speaks_capture hle CAPTURE_TIMEOUT).bind
      (composed_capture (fun _ _ => trivial) trivial) fun r =>
        speaks_silent (callback_silent _) ?_
    by_cases hr : r = FPC_BEP_RESULT_OK
    · intro c hmax hP
      simp only [id, hr, ne_eq, not_true_eq_false, if_false]
      rw [StateT.run_bind]
      refine Refines.bind ((Device.Implements.sendCmd CMD_ENROLL (by decide : ARG_ADD < 65536) hmax
        hle).keeping (composed_sendCmd ..) hP) ?_
      rintro ⟨r, c'⟩ (_ | ⟨reply, d⟩) ⟨hsees, hP'⟩
      · obtain ⟨rfl, hmax', hprev⟩ := hsees
        rw [← hprev]
        exact ih c' hmax' hP'
      · obtain ⟨rfl, hc⟩ := hsees
        obtain rfl := hc.result_eq
        obtain ⟨r', hget⟩ := getArg_dropped c' ARG_COUNT
        obtain ⟨b, hb⟩ : ∃ b, (c'.findArg ARG_COUNT).or c'.arg = some b := by
          rw [← Option.isSome_iff_exists, Option.isSome_or, hP' hfound, Bool.or_true]
        simp only [not_true_eq_false, if_false]
        rw [StateT.run_bind]
        refine Refines.of_returns hget ?_
        rw [hb, StateT.run_bind, run_chainArg rfl, ret_bind, StateT.run_bind]
        refine Refines.of_returns (load32_returns _ _) ?_
        refine Refines.pick (shows_after_search hc hb 4) ?_
        simp only [Dialog.bind]
        split
        · exact Refines.ret ⟨rfl, rfl, hc.max_eq⟩
        · have hwait : dev.Speaks P id (do
              let _ ← sensorWaitFingerNotPresent rounds 0
              bepEnrollFinger.samples rounds left)
              fun prev => Talk.wait max prev fingerUp 0 >>= fun w => Talk.samples max left w.2 :=
            (speaks_withTimeout (speaks_wait hle _ (by decide) 0) 0).bind
              (.withTimeout trivial (composed_sendCmdArg ..)) fun _ => ih
          exact hwait _ hc.max_eq fun _ => rfl
    · intro c hmax hP
      simp only [id, hr, ne_eq, not_false_eq_true, if_true]
      exact ih c hmax hP

/-- **`exit_if_err`** around a function. -/
theorem speaks_exitIfErr {call : Hcp FpcBepResult}
    {talk : FpcBepResult → Talk (FpcBepResult × FpcBepResult)} (hcall : Keeps rounds call)
    (h : dev.Speaks P id call talk) {view : β → α} {exit next : FpcBepResult → Hcp β}
    {gexit gnext : FpcBepResult × FpcBepResult → Talk (α × FpcBepResult)}
    (hexit : ∀ r, dev.Speaks P view (exit r) fun d => gexit (r, d))
    (hnext : ∀ r, dev.Speaks P view (next r) fun d => gnext (r, d)) :
    dev.Speaks P view (exitIfErr call exit next) fun prev =>
      talk prev >>= fun x => if Fine x then gnext x else gexit x := by
  unfold exitIfErr
  refine h.bind hcall fun r => ?_
  intro c hmax hP
  simp only [StateT.run_bind, StateT.run_get, pure_eq, ret_bind, id]
  by_cases hfine : Fine (r, c.bepResult)
  · rw [if_pos hfine, if_neg]
    · exact hnext r c hmax hP
    · exact fun herr => herr.elim (fun hr => hr hfine.1) fun hd => hd hfine.2
  · rw [if_neg hfine, if_pos]
    · exact hexit r c hmax hP
    · by_contra hok
      rw [not_or, not_not, not_not] at hok
      exact hfine hok

/-- **`bep_enroll_finger`.** -/
theorem speaks_enroll (hle : max ≤ 65535) (hfound : P) :
    dev.Speaks P id (bepEnrollFinger rounds) fun prev => Talk.enroll max prev := by
  have hstart : dev.Speaks P id (bmliteSendCmd rounds CMD_ENROLL ARG_START) fun prev =>
      Talk.send max prev ⟨CMD_ENROLL, [.flag ARG_START start_lt]⟩ :=
    speaks_sendCmd hle CMD_ENROLL (by decide : ARG_START < 65536)
  have hfinish : dev.Speaks P id (bmliteSendCmd rounds CMD_ENROLL ARG_FINISH) fun prev =>
      Talk.send max prev ⟨CMD_ENROLL, [.flag ARG_FINISH finish_lt]⟩ :=
    speaks_sendCmd hle CMD_ENROLL (by decide : ARG_FINISH < 65536)
  refine speaks_silent (callback_silent _) <| speaks_exitIfErr (composed_sendCmd ..) hstart
    (fun _ => speaks_silent (callback_silent _) (speaks_pure rfl)) fun _ => ?_
  refine (speaks_samples hle hfound MAX_CAPTURE_ATTEMPTS).bind
    (composed_samples (fun _ _ => trivial) trivial trivial trivial _) fun done => ?_
  exact hfinish.bind (composed_sendCmd ..) fun r =>
    speaks_silent (callback_silent _) (speaks_pure rfl)

theorem exit_silent (templateId : Nat) (isMatch : Bool) (r : FpcBepResult) (c : HcpComm) :
    Returns ((bepIdentifyFinger.exit templateId isMatch r).run c) ((r, templateId, isMatch), c) :=
  returns_of_runs (.touch (.refl _))

/-- What is made of the reply to `CMD_IDENTIFY`. -/
theorem verdict_implements {c : HcpComm} {reply : Reply} (templateId : Nat)
    (hc : c.Carries max reply FPC_BEP_RESULT_OK) :
    dev.Implements ((exitIfErr (bmliteGetArg ARG_MATCH) (bepIdentifyFinger.exit templateId false)
        (bepIdentifyFinger.answer templateId)).run c)
      (Talk.verdict reply templateId) fun b a =>
        (b.1.1, Output.found b.1.2.1 b.1.2.2) = a ∧ b.2.bepResult = FPC_BEP_RESULT_OK ∧
          b.2.pktSizeMax = max := by
  have hget := getArg_returns c ARG_MATCH
  have hresult := hc.result_eq
  unfold exitIfErr Talk.verdict
  rw [StateT.run_bind]
  rcases search_cases hc.packet_eq hc.size_le ARG_MATCH with ⟨ha, hb⟩ | ⟨a, b, ha, hb, -, hdata⟩
  · rw [hb] at hget
    rw [ha]
    refine Refines.of_returns hget ?_
    have hexit := exit_silent templateId false FPC_BEP_RESULT_INVALID_ARGUMENT c
    exact Refines.silent hexit (fun _ => ⟨rfl, rfl⟩) ⟨rfl, hresult, hc.max_eq⟩
  rw [hb] at hget
  rw [ha]
  let c' : HcpComm := { c with arg := some b, bepResult := FPC_BEP_RESULT_OK }
  have hc' : c'.Carries max reply FPC_BEP_RESULT_OK := ⟨hc.packet_eq, hc.size_le, hc.max_eq, rfl⟩
  refine Refines.of_returns hget ?_
  simp only [StateT.run_bind, StateT.run_get, pure_eq, ret_bind, hresult, ne_eq,
    not_true_eq_false, or_self, if_false, bepIdentifyFinger.answer]
  rw [run_chainArg rfl, ret_bind]
  refine Refines.of_returns (returns_of_runs (.touch (.refl _))) ?_
  refine Refines.pick (shows_of_slice ha hdata 1) ?_
  simp only [Dialog.bind, HcpComm.mem_pkt]
  by_cases hmatch : slice c.pktBuffer b.data 1 = [0]
  · simp only [hmatch, not_true_eq_false, if_false]
    exact Refines.silent (exit_silent _ _ _ _) (fun _ => ⟨rfl, rfl⟩) ⟨rfl, rfl, hc.max_eq⟩
  · obtain ⟨r', hid⟩ := getArg_dropped c' ARG_ID
    obtain ⟨b', hb'⟩ : ∃ b', (c'.findArg ARG_ID).or c'.arg = some b' := by
      rw [← Option.isSome_iff_exists, Option.isSome_or]
      exact Bool.or_true _
    rw [hb'] at hid
    simp only [hmatch, not_false_eq_true, if_true]
    rw [StateT.run_bind]
    refine Refines.of_returns hid ?_
    rw [StateT.run_bind, run_chainArg rfl, ret_bind, StateT.run_bind]
    refine Refines.of_returns (load16_returns _ _) ?_
    refine Refines.pick (shows_after_search hc' hb' 2) ?_
    rw [StateT.run_bind]
    refine Refines.of_returns (busyWait_silent _ _) ?_
    exact Refines.silent (exit_silent _ _ _ _) (fun _ => ⟨rfl, rfl⟩) ⟨rfl, rfl, hc.max_eq⟩

/-- The results of `bep_identify_finger`, as an output. -/
abbrev foundOf (x : FpcBepResult × Nat × Bool) : FpcBepResult × Output :=
  (x.1, .found x.2.1 x.2.2)

/-- **`bep_identify_finger`.** -/
theorem speaks_identify (hle : max ≤ 65535) (timeout templateId : Nat) :
    dev.Speaks P foundOf (bepIdentifyFinger rounds timeout templateId) fun prev =>
      Talk.identify max prev timeout templateId := by
  have hexit (r : FpcBepResult) : dev.Speaks P foundOf
      (bepIdentifyFinger.exit templateId false r) fun prev =>
        .ret ((r, .found templateId false), prev) :=
    speaks_silent (callback_silent _) (speaks_pure rfl)
  have hextract : dev.Speaks P id (bepImageExtract rounds) fun prev =>
      Talk.send max prev ⟨CMD_IMAGE, [.flag ARG_EXTRACT extract_lt]⟩ :=
    speaks_sendCmd hle CMD_IMAGE (by decide : ARG_EXTRACT < 65536)
  refine speaks_silent (callback_silent _) <| speaks_exitIfErr
    (composed_capture (fun _ _ => trivial) trivial) (speaks_capture hle (timeout % 65536)) hexit
    fun _ => ?_
  refine speaks_exitIfErr (composed_sendCmd ..) hextract hexit fun _ => ?_
  intro c hmax _
  unfold exitIfErr
  rw [StateT.run_bind]
  refine Refines.bind
    (Device.Implements.sendCmd CMD_IDENTIFY (by decide : ARG_NONE < 65536) hmax hle) ?_
  rintro ⟨r, c'⟩ (_ | ⟨reply, d⟩) hsees
  · obtain ⟨rfl, hmax', hprev⟩ := hsees
    exact Refines.silent (exit_silent _ _ _ _) (fun _ => ⟨rfl, rfl⟩) ⟨rfl, hprev, hmax'⟩
  · obtain ⟨rfl, hc⟩ := hsees
    obtain rfl := hc.result_eq
    simp only [StateT.run_bind, StateT.run_get, pure_eq, ret_bind]
    by_cases hd : c'.bepResult = FPC_BEP_RESULT_OK
    · rw [hd] at hc ⊢
      simp only [not_true_eq_false, or_self, if_false, if_true, ne_eq]
      refine (verdict_implements templateId hc).andThen ?_
      rintro ⟨x, c''⟩ y ⟨hy, hresult, hmax''⟩
      exact Refines.ret ⟨hy, hresult, hmax''⟩
    · simp only [hd, not_false_eq_true, or_true, if_true, if_false, ne_eq]
      exact Refines.silent (exit_silent _ _ _ _) (fun _ => ⟨rfl, rfl⟩) ⟨rfl, rfl, hc.max_eq⟩

/-! ## Values and blocks -/

theorem speaks_withOutput {m : Hcp (FpcBepResult × α)} {out : α → Output}
    {talk : FpcBepResult → Talk ((FpcBepResult × Output) × FpcBepResult)}
    (h : dev.Speaks P (fun x => (x.1, out x.2)) m talk) :
    dev.Speaks P id (withOutput m out) talk := by
  intro c hmax hP
  unfold withOutput
  rw [StateT.run_bind]
  refine (h c hmax hP).thenReturns ?_
  rintro ⟨x, c'⟩ a hrel
  exact ⟨_, returns_of_runs (.refl _), hrel⟩

theorem speaks_bare {m : Hcp FpcBepResult}
    {talk : FpcBepResult → Talk (FpcBepResult × FpcBepResult)} (h : dev.Speaks P id m talk) :
    dev.Speaks P id (bare m) fun prev => Talk.plain (talk prev) := by
  intro c hmax hP
  unfold bare
  rw [StateT.run_bind]
  refine Refines.bind (h c hmax hP) ?_
  rintro ⟨r, c'⟩ ⟨a, d⟩ ⟨rfl, rfl, hmax'⟩
  exact Refines.ret ⟨rfl, rfl, hmax'⟩

/-- **A command, and what is made of an argument of its reply.** -/
theorem speaks_fetch {call : Hcp FpcBepResult} {q : Command} {unset : α} {t : Nat}
    {next : Hcp (FpcBepResult × α)} {view : α → Output}
    {out : Reply → CmdArg → Talk (FpcBepResult × Output)}
    (hcall : ∀ c, c.pktSizeMax = max →
      dev.Implements (call.run c) (Talk.command max q) (Sees max c.bepResult))
    (hnone : ∀ c, c.findArg t = none →
      Returns (next.run c) ((FPC_BEP_RESULT_INVALID_ARGUMENT, unset), c))
    (hsome : ∀ (c : HcpComm) (r : Reply) (a : CmdArg) (b : HcpArg), c.pktSizeMax = max →
      firstArg r.args t = some a → c.findArg t = some b → b.size = a.data.length →
      slice c.pktBuffer b.data a.data.length = a.data →
      dev.Implements (next.run c) (out r a) fun x y =>
        (x.1.1, view x.1.2) = y ∧ x.2.bepResult = c.bepResult ∧ x.2.pktSizeMax = max) :
    dev.Speaks P (fun x => (x.1, view x.2)) (assertOut call unset next) fun prev =>
      Talk.fetch max prev q t (view unset) out := by
  intro c hmax _
  unfold assertOut
  rw [StateT.run_bind]
  refine Refines.bind (hcall c hmax) ?_
  rintro ⟨r, c'⟩ (_ | ⟨reply, d⟩) hsees
  · obtain ⟨rfl, hmax', hprev⟩ := hsees
    exact Refines.ret ⟨rfl, hprev, hmax'⟩
  · obtain ⟨rfl, hc⟩ := hsees
    obtain rfl := hc.result_eq
    simp only [not_true_eq_false, if_false, ne_eq]
    rcases search_cases hc.packet_eq hc.size_le t with ⟨ha, hb⟩ | ⟨a, b, ha, hb, hsize, hdata⟩
    · rw [ha]
      exact Refines.silent (hnone c' hb) (fun _ => ⟨rfl, rfl⟩) ⟨rfl, rfl, hc.max_eq⟩
    · rw [ha]
      refine (hsome c' reply a b hc.max_eq ha hb hsize hdata).andThen ?_
      rintro ⟨x, c''⟩ y ⟨hy, hresult, hmax''⟩
      exact Refines.ret ⟨hy, hresult, hmax''⟩

/-- A number. -/
theorem speaks_number (hle : max ≤ 65535) {cmd argKey t n : Nat} (hkey : argKey < 65536)
    {unset : α} {read : Nat → Hcp α} {dec : List Byte → α} {view : α → Output}
    (hread : ∀ off c, Returns ((read off).run c) (dec (slice c.pktBuffer off n), c)) :
    dev.Speaks P (fun x => (x.1, view x.2))
      (assertOut (bmliteSendCmd rounds cmd argKey) unset <|
        assertOut (bmliteGetArg t) unset do
          let v ← read (← chainArg).data
          return (FPC_BEP_RESULT_OK, v))
      fun prev => Talk.fetch max prev ⟨cmd, keyCall argKey hkey⟩ t (view unset)
        fun r _ => do return (FPC_BEP_RESULT_OK, view (dec (← Talk.look r t n))) := by
  have hscalar := scalar_returns hread t unset
  refine speaks_fetch (fun c hmax => Device.Implements.sendCmd cmd hkey hmax hle)
    (fun c hb => ?_) fun c r a b hmax ha hb _ hdata => ?_
  · have hreturns := hscalar c
    rwa [hb] at hreturns
  · have hreturns := hscalar c
    rw [hb] at hreturns
    refine Refines.pick (shows_of_slice ha hdata n) ?_
    exact Refines.silent hreturns (fun _ => ⟨rfl, rfl⟩) ⟨rfl, rfl, hmax⟩

/-- A block. -/
theorem speaks_copy {call : Hcp FpcBepResult} {q : Command} {t : Nat} (dest : Option (Mem Byte))
    (n : Nat)
    (hcall : ∀ c, c.pktSizeMax = max →
      dev.Implements (call.run c) (Talk.command max q) (Sees max c.bepResult)) :
    dev.Speaks P (fun x => (x.1, Output.memory x.2))
      (assertOut call dest (bmliteCopyArg t dest n)) fun prev =>
        Talk.fetch max prev q t (.memory dest) (Talk.copy dest n) := by
  refine speaks_fetch hcall (fun c hb => ?_) fun c r a b hmax ha hb hsize hdata => ?_
  · have hreturns := copyArg_returns t dest n c
    rwa [hb] at hreturns
  · have hreturns := copyArg_returns t dest n c
    rw [hb] at hreturns
    unfold Talk.copy
    cases dest with
    | none => exact Refines.silent hreturns (fun _ => ⟨rfl, rfl⟩) ⟨rfl, rfl, hmax⟩
    | some m =>
      have hdata' : slice c.pktBuffer b.data (min n b.size) = a.data.take n := by
        rw [hsize, ← slice_take_min, hdata]
      simp only [hdata'] at hreturns
      exact Refines.silent hreturns (fun _ => ⟨rfl, rfl⟩) ⟨rfl, rfl, hmax⟩

/-- `assert` of a function that itself begins with an `assert`. -/
theorem assertOut_assertOk (call next : Hcp FpcBepResult) (out : α)
    (rest : Hcp (FpcBepResult × α)) :
    assertOut (assertOk call next) out rest = assertOut call out (assertOut next out rest) := by
  funext c
  unfold assertOut assertOk
  show StateT.run _ c = StateT.run _ c
  simp only [StateT.run_bind, proc_bind_assoc]
  congr 1
  funext x
  by_cases hr : x.1 = FPC_BEP_RESULT_OK
  · simp only [hr, ne_eq, not_true_eq_false, if_false, StateT.run_bind]
  · simp only [hr, ne_eq, not_false_eq_true, if_true, StateT.run_pure, pure_eq, ret_bind]

theorem readIds_eq : readIds rounds =
    assertOut (bmliteSendCmd rounds CMD_STORAGE_TEMPLATE ARG_ID) .nothing do
      let bepResult ← bmliteGetArg ARG_DATA
      if bepResult = FPC_BEP_RESULT_OK then
        let arg ← chainArg
        let d ← load .pkt arg.data arg.size
        return (bepResult, .ids d)
      else
        return (bepResult, .nothing) := by
  funext c
  unfold readIds bepTemplateGetIds assertOut assertOk
  show StateT.run _ c = StateT.run _ c
  simp only [StateT.run_bind, proc_bind_assoc]
  congr 1
  funext x
  by_cases hr : x.1 = FPC_BEP_RESULT_OK
  · simp only [hr, ne_eq, not_true_eq_false, if_false, StateT.run_bind]
  · simp only [hr, ne_eq, not_false_eq_true, if_true, if_false, StateT.run_pure, pure_eq, ret_bind]

/-- **`bep_template_get_ids`**, and what its caller reads. -/
theorem speaks_readIds (hle : max ≤ 65535) :
    dev.Speaks P id (readIds rounds) fun prev =>
      Talk.fetch max prev ⟨CMD_STORAGE_TEMPLATE, keyOf ARG_ID⟩ ARG_DATA .nothing
        fun _ a => return (FPC_BEP_RESULT_OK, .ids a.data) := by
  rw [readIds_eq]
  apply @speaks_fetch S max rounds dev Output P _ _ .nothing ARG_DATA _ id _
    (fun c hmax => Device.Implements.sendCmd CMD_STORAGE_TEMPLATE _ hmax hle)
  · intro c hb
    have hget := getArg_returns c ARG_DATA
    rw [hb] at hget
    rw [StateT.run_bind]
    exact hget.bind (returns_of_runs (.refl _))
  · intro c r a b hmax ha hb hsize hdata
    have hget := getArg_returns c ARG_DATA
    rw [hb] at hget
    rw [StateT.run_bind]
    refine Refines.of_returns hget ?_
    refine Refines.silent (returns_of_runs (.touch (.refl _))) (fun _ => ⟨rfl, rfl⟩) ⟨?_, rfl, hmax⟩
    rw [← hsize] at hdata
    exact congrArg (fun d => (FPC_BEP_RESULT_OK, Output.ids d)) hdata

/-- `bep_uart_speed_get` builds what `bmlite_send_cmd_arg` would. -/
theorem uartSpeedGet_eq (speed : Option (Mem Byte)) : bepUartSpeedGet rounds speed =
    assertOut (bmliteSendCmdArg rounds CMD_COMMUNICATION ARG_SPEED ARG_GET [] 0) speed
      (bmliteCopyArg ARG_DATA speed 4) := by
  unfold bepUartSpeedGet bmliteSendCmdArg
  rw [assertOut_assertOk, assertOut_assertOk]

/-- A command with an argument more than `bmlite_send_cmd_arg` has. -/
theorem Device.Implements.sendTwo {c : HcpComm} (cmd : Nat) {argKey : Nat} (hkey : argKey < 65536)
    (a b : CmdArg) (hmax : c.pktSizeMax = max) (hle : max ≤ 65535) :
    dev.Implements ((assertOk (bmliteInitCmd cmd argKey) <|
        assertOk (bmliteAddArg a.type a.data a.data.length) <|
          assertOk (bmliteAddArg b.type b.data b.data.length) (bmliteTranceive rounds)).run c)
      (Talk.command max ⟨cmd, keyCall argKey hkey ++ [a, b]⟩) (Sees max c.bepResult) := by
  refine Device.Implements.init cmd hkey hmax fun c₁ h₁ => ?_
  refine Device.Implements.add h₁ hle (List.take_length ..) rfl fun c₂ h₂ => ?_
  have hadd := @Device.Implements.add S max rounds dev c₂ cmd (keyCall argKey hkey ++ [a]) [] b
    c.bepResult b.data b.data.length h₂ hle (List.take_length ..) rfl (bmliteTranceive rounds)
    fun c₃ h₃ => Device.Implements.built h₃ hle
  rw [List.append_assoc] at hadd
  exact hadd

/-! ## All functions -/

theorem keyOf_eq {argKey : Nat} (hkey : argKey < 65536) : keyOf argKey = keyCall argKey hkey := by
  unfold keyOf keyCall
  simp only [Nat.mod_eq_of_lt hkey]

theorem cutArg_mod (t : Nat) (d : List Byte) (n : Nat) :
    cutArg t d (n % 65536) = cutArg t d n := by
  unfold cutArg
  simp only [Nat.mod_mod]

/-- A command with a key. -/
theorem implements_key (hle : max ≤ 65535) (cmd : Nat) {argKey : Nat} (hkey : argKey < 65536)
    (c : HcpComm) (hmax : c.pktSizeMax = max) :
    dev.Implements ((bmliteSendCmd rounds cmd argKey).run c)
      (Talk.command max ⟨cmd, keyOf argKey⟩) (Sees max c.bepResult) := by
  rw [keyOf_eq hkey]
  exact Device.Implements.sendCmd cmd hkey hmax hle

/-- A command with a key and `n` bytes of `d`. -/
theorem implements_cut (hle : max ≤ 65535) (cmd : Nat) {argKey t n : Nat} {d : List Byte}
    (hkey : argKey < 65536) (ht : t < 65536) (hn : n < 65536) (hd : n ≤ d.length) (c : HcpComm)
    (hmax : c.pktSizeMax = max) :
    dev.Implements ((bmliteSendCmdArg rounds cmd argKey t d n).run c)
      (Talk.command max ⟨cmd, keyOf argKey ++ [cutArg t d n]⟩) (Sees max c.bepResult) := by
  have htype : (cutArg t d n).type = t := Nat.mod_eq_of_lt ht
  have hdata : d.take n = (cutArg t d n).data := by
    simp [cutArg, Nat.mod_eq_of_lt hn]
  have hlen : n = (cutArg t d n).data.length := by
    rw [← hdata, List.length_take, Nat.min_eq_left hd]
  have hsend := @Device.Implements.sendCmdArg S max rounds dev c cmd argKey hkey (cutArg t d n) d n
    hdata hlen hmax hle
  rw [htype] at hsend
  rw [keyOf_eq hkey]
  exact hsend

/-- **Every call does what its dialog says.** -/
theorem call_implements (hle : max ≤ 65535) {call : BepCall} (hcall : call.Valid)
    (hfound : call = .enrollFinger → P) :
    dev.Speaks P id (call.run rounds) fun prev => call.talk max prev := by
  have hkey (cmd argKey : Nat) (h : argKey < 65536) :
      dev.Speaks P id (bare (bmliteSendCmd rounds cmd argKey)) fun prev =>
        Talk.simple max prev cmd (keyOf argKey) :=
    speaks_bare (speaks_send (implements_key hle cmd h))
  have hcut (cmd argKey t n : Nat) (d : List Byte) (h : argKey < 65536) (ht : t < 65536)
      (hn : n < 65536) (hd : n ≤ d.length) :
      dev.Speaks P id (bare (bmliteSendCmdArg rounds cmd argKey t d n)) fun prev =>
        Talk.simple max prev cmd (keyOf argKey ++ [cutArg t d n]) :=
    speaks_bare (speaks_send (implements_cut hle cmd h ht hn hd))
  cases call with
  | enrollFinger => exact speaks_bare (speaks_enroll hle (hfound rfl))
  | identifyFinger timeout templateId =>
    show dev.Speaks P id (withOutput (bepIdentifyFinger rounds timeout templateId) fun x =>
      .found x.1 x.2) fun prev => Talk.identify max prev timeout templateId
    apply speaks_withOutput
    exact speaks_identify hle timeout templateId
  | waitFingerPresent timeout =>
    exact speaks_bare (speaks_captureCallbacks
      (speaks_withTimeout (speaks_wait hle _ (by decide) timeout) timeout))
  | waitFingerNotPresent timeout =>
    exact speaks_bare (speaks_withTimeout (speaks_wait hle _ (by decide) timeout) timeout)
  | capture timeout => exact speaks_bare (speaks_capture hle timeout)
  | imageGetSize size =>
    exact speaks_withOutput (speaks_number hle (by decide : ARG_SIZE < 65536) load32_returns)
  | templateGetCount count =>
    exact speaks_withOutput (speaks_number hle (by decide : ARG_COUNT < 65536) load16_returns)
  | imageGet data size =>
    exact speaks_withOutput (speaks_copy data _ (implements_key hle CMD_IMAGE (by decide)))
  | templateGet data size =>
    exact speaks_withOutput (speaks_copy data _ (implements_key hle CMD_TEMPLATE (by decide)))
  | version text len =>
    exact speaks_withOutput (speaks_copy text _ (implements_cut hle CMD_INFO (by decide) (by decide)
      (by decide) (Nat.zero_le _)))
  | uniqueIdGet uniqueId =>
    exact speaks_withOutput (speaks_copy uniqueId _ (implements_cut hle CMD_INFO (by decide)
      (by decide) (by decide) (Nat.zero_le _)))
  | templateGetIds => exact speaks_readIds hle
  | uartSpeedSet speed =>
    exact speaks_bare (speaks_send fun c hmax => Device.Implements.sendTwo CMD_COMMUNICATION
      (by decide : ARG_SPEED < 65536) (cutArg ARG_SET [] 0) (cutArg ARG_DATA (enc32 speed) 4)
      hmax hle)
  | uartSpeedGet speed =>
    show dev.Speaks P id (withOutput (bepUartSpeedGet rounds speed) .memory) _
    rw [uartSpeedGet_eq]
    exact speaks_withOutput (speaks_copy speed _ (implements_cut hle CMD_COMMUNICATION (by decide)
      (by decide) (by decide) (Nat.zero_le _)))
  | imageCreate => exact hkey CMD_IMAGE ARG_CREATE (by decide)
  | imageDelete => exact hkey CMD_IMAGE ARG_DELETE (by decide)
  | imageExtract => exact hkey CMD_IMAGE ARG_EXTRACT (by decide)
  | identify => exact hkey CMD_IDENTIFY ARG_NONE (by decide)
  | templateRemoveRam => exact hkey CMD_TEMPLATE ARG_DELETE (by decide)
  | swReset => exact hkey CMD_RESET ARG_NONE (by decide)
  | sensorCalibrate => exact hkey CMD_STORAGE_CALIBRATION ARG_NONE (by decide)
  | sensorCalibrateRemove => exact hkey CMD_STORAGE_CALIBRATION ARG_DELETE (by decide)
  | sensorReset =>
    exact speaks_bare (speaks_silent (busyWait_silent 50)
      (speaks_send (implements_key hle CMD_SENSOR (by decide))))
  | sendCmd cmd argType => exact hkey cmd argType hcall
  | templateSave templateId =>
    exact hcut CMD_TEMPLATE ARG_SAVE ARG_ID 2 _ (by decide) (by decide) (by decide) (Nat.le_refl 2)
  | templateRemove templateId =>
    exact hcut CMD_STORAGE_TEMPLATE ARG_DELETE ARG_ID 2 _ (by decide) (by decide) (by decide)
      (Nat.le_refl 2)
  | templateLoadStorage templateId =>
    exact hcut CMD_STORAGE_TEMPLATE ARG_UPLOAD ARG_ID 2 _ (by decide) (by decide) (by decide)
      (Nat.le_refl 2)
  | templateRemoveAll =>
    exact hcut CMD_STORAGE_TEMPLATE ARG_DELETE ARG_ALL 0 [] (by decide) (by decide) (by decide)
      (Nat.le_refl 0)
  | imagePut data size =>
    have hput := hcut CMD_IMAGE ARG_DOWNLOAD ARG_DATA (size % 65536) data (by decide) (by decide)
      (Nat.mod_lt _ (by decide)) hcall
    rw [cutArg_mod] at hput
    exact hput
  | templatePut data length =>
    exact hcut CMD_TEMPLATE ARG_DOWNLOAD ARG_DATA length data (by decide) (by decide) hcall.1
      hcall.2
  | sendCmdArg cmd arg1Type arg2Type arg2Data arg2Length =>
    exact hcut cmd arg1Type arg2Type arg2Length arg2Data hcall.1 hcall.2.1 hcall.2.2.1 hcall.2.2.2

/-! ## Sequences of calls -/

/-- The dialogs of the calls, each going on with the module that the last one has left. -/
def Talk.session (max : Nat) :
    List BepCall → FpcBepResult → Talk (List ((FpcBepResult × Output) × FpcBepResult))
  | [], _ => return []
  | call :: calls, prev => do
    let x ← call.talk max prev
    return x :: (← Talk.session max calls x.2)

theorem session_steps (hle : max ≤ 65535) (calls : List BepCall)
    (hcalls : ∀ call ∈ calls, call.Valid) (hfound : .enrollFinger ∈ calls → P) :
    ∀ c : HcpComm, c.pktSizeMax = max → (P → c.arg.isSome) →
      dev.Implements ((session rounds calls).run c) (Talk.session max calls c.bepResult)
        fun b a => b.1 = a := by
  induction calls with
  | nil => exact fun _ _ _ => Refines.ret rfl
  | cons call calls ih =>
    intro c hmax hP
    have hfirst : call = .enrollFinger → P := fun h => hfound (h ▸ List.mem_cons_self ..)
    have hhead : dev.Speaks P id (call.run rounds) fun prev => call.talk max prev :=
      call_implements hle (hcalls call (List.mem_cons_self ..)) hfirst
    have hkeeps : Keeps rounds (call.run rounds) :=
      composed_call (fun _ _ => trivial) call.waits_true fun _ => trivial
    unfold session Talk.session
    rw [StateT.run_bind]
    refine Refines.bind ((hhead c hmax hP).keeping hkeeps hP) ?_
    rintro ⟨x, c'⟩ ⟨y, d⟩ ⟨⟨rfl, rfl, hmax'⟩, hP'⟩
    have htail := ih (fun j hj => hcalls j (List.mem_cons_of_mem call hj))
      (fun h => hfound (List.mem_cons_of_mem call h)) c' hmax' hP'
    simp only [StateT.run_bind, StateT.run_get, pure_eq, ret_bind]
    refine Refines.bind htail ?_
    rintro ⟨xs, c''⟩ ys rfl
    exact Refines.ret rfl

/-- The reply with these arguments, in chunks as the host would make them. -/
def Reply.of (cmd : Nat) (args : List CmdArg) (h : (encodePacket cmd args).length < 65536) :
    Reply :=
  ⟨cmd, args, segments _ h, numbered_segments _ h, reassemble_segments _ h⟩

theorem match_lt : ARG_MATCH < 65536 := by decide

theorem id_lt : ARG_ID < 65536 := by decide

theorem byte_lt (b : Byte) : [b].length < 65536 := (by decide : 1 < 65536)

theorem word_lt (a b : Byte) : [a, b].length < 65536 := (by decide : 2 < 65536)

/-- A match with the template 5. -/
def matchArgs : List CmdArg :=
  [⟨ARG_MATCH, [1], match_lt, byte_lt 1⟩, ⟨ARG_ID, [5, 0], id_lt, word_lt 5 0⟩]

theorem matchArgs_length (cmd : Nat) : (encodePacket cmd matchArgs).length = 15 :=
  encodePacket_length cmd matchArgs

/-- The module that answers every command with a match, and counts the commands. -/
def matching : Device Nat 5120 2 where
  serve s request :=
    (.of (dec16 (request.take 2)) matchArgs (by rw [matchArgs_length]; omega), s + 1)
  fits s request := by
    rw [Reply.reassembled]
    exact (matchArgs_length _).trans_lt (by omega)
  few s request := by
    show (segments _ _).length < 2
    rw [segments_length, matchArgs_length]
    decide

end BMLite
