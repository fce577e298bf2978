import BMLite.Bulk
import BMLite.Interface
import BMLite.Lib.Ensures
import BMLite.Report

/-!
# Timeouts

`phy_rx_timeout` is the timeout of the read for the header of a frame.  `bep_capture` and the two
functions that wait for a finger put their own in its place, and put it back.

* `inFlight`, `commandInFlight` — the command whose request has been written last;
* `Timed` — a function reads the headers with the timeouts that are allowed for these commands, and
  leaves the settings of the chain as they were;
* `timed_tranceive`, `timed_sendCmd`, `timed_withTimeout` — exchanges, and a timeout of their own;
* `timeouts_kept` — **every function of `bmlite_if.h`**.
-/

set_option autoImplicit false

namespace BMLite

open FlatMemory Process

variable {α β : Type}

/-! ## The command in flight -/

/-- The command in a frame. -/
def commandOf (frame : List Byte) : Nat := dec16 ((frame.drop 10).take 2)

/-- The command in the first frame written since the last exchange ended. -/
def inFlight : Option Nat → HcpEvent → Option Nat
  | _, .note _ => none
  | none, .write data _ _ => some (commandOf data)
  | s, _ => s

def commandInFlight (es : List HcpEvent) : Option Nat := es.foldl inFlight none

/-- The access by which the header of a frame is stored. -/
def headerAccess : Action := .access ⟨.txrx, true, 0, 4⟩

/-- The header of an answer to `cmd` is read with a timeout `t` for which `ok cmd t` holds. -/
def HeaderOk (ok : Nat → Nat → Prop) (s : Option Nat) (last : Option Action) (_ t : Nat) : Prop :=
  last = some headerAccess → ∃ cmd, s = some cmd ∧ ok cmd t

/-- Without notes, the command stays in flight. -/
theorem inFlight_of_exchanges {cmd : Nat} {es : List HcpEvent} (h : exchanges es = []) :
    es.foldl inFlight (some cmd) = some cmd := by
  induction es with
  | nil => rfl
  | cons e es ih =>
    cases e with
    | note x => cases h
    | write _ _ _ => exact ih h
    | read _ _ _ _ => exact ih h

theorem inFlight_sent {f : List Byte} {fs : List (List Byte)} {es : List HcpEvent}
    {r : FpcBepResult} (h : Sent (f :: fs) es r) :
    es.foldl inFlight none = some (commandOf f) := by
  have hnone := exchanges_sent h
  cases h with
  | fail _ => rfl
  | next _ _ => exact inFlight_of_exchanges hnone

/-! ## One exchange -/

variable {ok : Nat → Nat → Prop} {T : Nat}

/-- The settings of the chain are as they were. -/
def SameSettings (c c' : HcpComm) : Prop :=
  c'.phyRxTimeout = c.phyRxTimeout ∧ c'.pktSizeMax = c.pktSizeMax

theorem SameSettings.trans {c c₁ c₂ : HcpComm} (h : SameSettings c c₁) (h' : SameSettings c₁ c₂) :
    SameSettings c c₂ := ⟨h'.1.trans h.1, h'.2.trans h.2⟩

/-- A report is no request. -/
theorem ensures_reportIf {b : Prop} [Decidable b] {value : FpcBepResult} {p : HcpProc α}
    {last : Option Action} {s : Option Nat} {Q : α → Option Nat → Prop}
    (h : ∀ last, Ensures inFlight (HeaderOk ok) p last s Q) :
    Ensures inFlight (HeaderOk ok) (reportIf b value p) last s Q := by
  unfold reportIf
  split
  · exact h _
  · exact h _

theorem ensures_reportResult {y : FpcBepResult × HcpComm} {last : Option Action} {s : Option Nat}
    {Q : FpcBepResult × HcpComm → Option Nat → Prop} (h : Q y s) :
    Ensures inFlight (HeaderOk ok) (reportResult y) last s Q := by
  unfold reportResult
  exact ensures_reportIf fun _ => h

/-- `bmlite_send` reads no header. -/
theorem send_loop_ensures (rounds : Nat) :
    ∀ {c : HcpComm} {seqLen seqNr dataLeft p : Nat} {bepResult : FpcBepResult}
      {last : Option Action} {s : Option Nat},
      Ensures inFlight (HeaderOk ok)
        ((bmliteSend.loop APP_MTU seqLen rounds seqNr dataLeft p bepResult).run c) last s
        fun _ _ => True := by
  induction rounds with
  | zero =>
    intro c seqLen seqNr dataLeft p bepResult last s
    trivial
  | succ rounds ih =>
    intro c seqLen seqNr dataLeft p bepResult last s
    by_cases hgo : seqNr ≤ seqLen ∧ bepResult = FPC_BEP_RESULT_OK
    · obtain ⟨hgo, rfl⟩ := hgo
      rw [send_loop_run hgo, txLink_run]
      intro w
      refine ⟨fun hlast => ?_, fun r d => ?_⟩
      · cases hlast
      · exact Ensures.bind (ensures_reportIf fun _ _ => ih)
    · rw [bmliteSend.loop, if_neg hgo]
      trivial

/-- The command in the first frame that `bmlite_send` writes. -/
def HcpComm.command (c : HcpComm) : Nat := commandOf (c.frames.headD [])

/-- **`bmlite_send`** puts the command of its packet in flight. -/
theorem send_ensures (c : HcpComm) (last : Option Action) :
    Ensures inFlight (HeaderOk ok) (bmliteSend.run c) last none fun y u =>
      u = some c.command ∧ SameSettings c y.2 := by
  have htrue : Ensures inFlight (HeaderOk ok) (bmliteSend.run c) last none fun _ _ => True := by
    rw [send_run]
    exact Ensures.bind ((send_loop_ensures _).mono fun y u _ _ => ensures_reportResult trivial)
  refine htrue.of_runs ?_
  rintro es ⟨r, c'⟩ hrun
  obtain ⟨⟨t, rfl⟩, hsent⟩ := runs_send_cases hrun
  obtain ⟨f, fs, hframes⟩ := frames_ne_nil c
  have hcmd : c.command = commandOf f := by rw [HcpComm.command, hframes]; rfl
  change Sent c.frames es r at hsent
  rw [hframes] at hsent
  exact ⟨hcmd ▸ inFlight_sent hsent, rfl, rfl⟩

/-- **`_rx_link`** reads one header, with the timeout of the chain. -/
theorem rxLink_ensures {c : HcpComm} {last : Option Action} {cmd : Nat}
    (h : ok cmd c.phyRxTimeout) :
    Ensures inFlight (HeaderOk ok) (rxLink.run c) last (some cmd) fun y u =>
      u = some cmd ∧ SameSettings c y.2 := by
  rw [rxLink_run]
  refine ⟨fun _ => ⟨cmd, rfl, h⟩, fun r d => ?_⟩
  dsimp only
  split
  · exact ⟨rfl, rfl, rfl⟩
  rw [Ensures]
  split
  · exact ⟨rfl, rfl, rfl⟩
  -- the rest of the frame is stored at 4, and is read with a timeout of its own
  refine ⟨fun hlast => ?_, fun r' d' => ?_⟩
  · simp [headerAccess] at hlast
  rw [Ensures, Ensures]
  split
  · exact fun w => ⟨rfl, rfl, rfl⟩
  · exact ⟨rfl, rfl, rfl⟩

theorem takeChunk_settings (c : HcpComm) (p bufLen : Nat) (comResult : FpcBepResult) :
    SameSettings c (c.takeChunk p bufLen comResult).comm := by
  obtain ⟨b, hb⟩ := takeChunk_comm c p bufLen comResult
  rw [hb]
  exact ⟨rfl, rfl⟩

theorem copyChunk_ensures {c : HcpComm} {p bufLen : Nat} {q : HcpProc α} {last : Option Action}
    {s : Option Nat} {Q : α → Option Nat → Prop}
    (h : ∀ last, Ensures inFlight (HeaderOk ok) q last s Q) :
    Ensures inFlight (HeaderOk ok) (copyChunk c p bufLen q) last s Q := by
  unfold copyChunk
  rw [Ensures, Ensures, Ensures, Ensures]
  split
  · exact h _
  · exact h _

/-- **`bmlite_receive`** reads every header with the timeout of the chain. -/
theorem receive_loop_ensures (rounds : Nat) :
    ∀ {c : HcpComm} {seqNr seqLen p bufLen : Nat} {comResult : FpcBepResult}
      {last : Option Action} {cmd : Nat}, ok cmd c.phyRxTimeout →
      Ensures inFlight (HeaderOk ok)
        ((bmliteReceive.loop rounds seqNr seqLen p bufLen comResult).run c) last (some cmd)
        fun y u => u = some cmd ∧ SameSettings c y.2 := by
  induction rounds with
  | zero =>
    intro c seqNr seqLen p bufLen comResult last cmd h
    trivial
  | succ rounds ih =>
    intro c seqNr seqLen p bufLen comResult last cmd h
    by_cases hgo : seqNr < seqLen
    · rw [receive_round_run hgo]
      refine Ensures.bind ((rxLink_ensures h).mono ?_)
      rintro ⟨r, c₁⟩ u ⟨rfl, hsame⟩ last'
      dsimp only
      split
      · refine copyChunk_ensures fun last'' => ?_
        have htaken := hsame.trans (takeChunk_settings c₁ p bufLen comResult)
        refine (ih (by rw [htaken.1]; exact h)).mono ?_
        rintro y u ⟨hu, hy⟩
        exact ⟨hu, htaken.trans hy⟩
      · exact ensures_reportResult ⟨rfl, hsame⟩
    · rw [receive_exit_run hgo]
      exact ensures_reportResult ⟨rfl, rfl, rfl⟩

/-- **`bmlite_tranceive`** reads the headers of the answers to its command with the timeout of the
chain. -/
theorem tranceive_ensures {c : HcpComm} {rounds : Nat} {last : Option Action}
    (h : ok c.command c.phyRxTimeout) :
    Ensures inFlight (HeaderOk ok) ((bmliteTranceive rounds).run c) last none fun y u =>
      u = none ∧ SameSettings c y.2 := by
  simp only [bmliteTranceive, StateT.run_bind, StateT.run_get, pure_eq, ret_bind]
  refine Ensures.bind ((send_ensures c last).mono ?_)
  rintro ⟨r, c₁⟩ u ⟨rfl, hsame⟩ last₁
  dsimp only
  split
  · simp only [StateT.run_bind]
    refine Ensures.bind ((receive_loop_ensures rounds (by rw [hsame.1]; exact h)).mono ?_)
    rintro ⟨r', c₂⟩ u ⟨rfl, hsame'⟩ last₂
    refine Ensures.bind (.of_returns (getArg_returns c₂ ARG_RESULT) fun last₃ => ?_)
    cases c₂.findArg ARG_RESULT with
    | none => exact ⟨rfl, hsame.trans hsame'⟩
    | some a => exact ⟨rfl, hsame.trans hsame'⟩
  · exact ⟨rfl, hsame⟩

/-- The command of a packet is in its first frame. -/
theorem command_packet {c : HcpComm} {cmd : Nat} {args : List CmdArg}
    (h : c.packet = encodePacket cmd args) (hsize : c.pktSize < 65536) (hcmd : cmd < 65536) :
    c.command = cmd := by
  have hout : c.outgoing = encodePacket cmd args := (outgoing_eq_packet hsize).trans h
  have hfirst := segments_drop c.outgoing (outgoing_length_lt c) ⟨0, Nat.succ_pos _⟩
  rw [List.drop_zero] at hfirst
  have hpayload : (segment c.outgoing (outgoing_length_lt c) ⟨0, Nat.succ_pos _⟩).payload =
      (encodePacket cmd args).take APP_MTU := by rw [← hout]; rfl
  rw [HcpComm.command, HcpComm.frames, hfirst, List.map_cons, List.headD_cons, commandOf,
    Chunk.bytes_eq, hpayload]
  exact dec16_enc16_of_lt hcmd

/-! ## Functions on the chain -/

/-- Called with `phy_rx_timeout = T` while no command is in flight, the function reads headers with
allowed timeouts only, and leaves the settings of the chain as they were and no command in
flight. -/
def Timed (ok : Nat → Nat → Prop) (T : Nat) (m : Hcp α) : Prop :=
  ∀ (c : HcpComm) (last : Option Action), c.phyRxTimeout = T →
    Ensures inFlight (HeaderOk ok) (m.run c) last none fun y u => u = none ∧ SameSettings c y.2

theorem timed_pure (a : α) : Timed ok T (pure a : Hcp α) := fun _ _ _ => ⟨rfl, rfl, rfl⟩

theorem timed_get : Timed ok T (get : Hcp HcpComm) := fun _ _ _ => ⟨rfl, rfl, rfl⟩

theorem timed_callback (cb : Callback) : Timed ok T (callback cb) := fun _ _ _ => ⟨rfl, rfl, rfl⟩

theorem timed_busyWait (ticks : Nat) : Timed ok T (busyWait ticks) := fun _ _ _ => ⟨rfl, rfl, rfl⟩

theorem timed_chainArg : Timed ok T chainArg := by
  intro c last _
  rw [chainArg_run]
  split
  · exact ⟨rfl, rfl, rfl⟩
  · trivial

theorem Timed.bind {m : Hcp α} {f : α → Hcp β} (hm : Timed ok T m) (hf : ∀ a, Timed ok T (f a)) :
    Timed ok T (m >>= f) := by
  intro c last hc
  refine Ensures.bind ((hm c last hc).mono ?_)
  rintro ⟨a, c₁⟩ u ⟨rfl, hsame⟩ last'
  refine (hf a c₁ last' (hsame.1.trans hc)).mono ?_
  rintro y u ⟨hu, hy⟩
  exact ⟨hu, hsame.trans hy⟩

/-- A function that does not use the channel. -/
theorem timed_of_returns {m : Hcp α} {y : HcpComm → α × HcpComm}
    (h : ∀ c, Returns (m.run c) (y c)) (hy : ∀ c, SameSettings c (y c).2) : Timed ok T m :=
  fun c _ _ => .of_returns (h c) ⟨rfl, hy c⟩

theorem timed_load {b : Buffer} {off n : Nat} : Timed ok T (load b off n) :=
  fun _ _ _ => ⟨rfl, rfl, rfl⟩

theorem timed_load16 {b : Buffer} {off : Nat} : Timed ok T (load16 b off) :=
  fun _ _ _ => ⟨rfl, rfl, rfl⟩

theorem timed_load32 {b : Buffer} {off : Nat} : Timed ok T (load32 b off) :=
  fun _ _ _ => ⟨rfl, rfl, rfl⟩

theorem timed_assertOk {call next : Hcp FpcBepResult} (hcall : Timed ok T call)
    (hnext : Timed ok T next) : Timed ok T (assertOk call next) := by
  refine hcall.bind fun res => ?_
  split
  · exact timed_pure _
  · exact hnext

theorem timed_assertOut {call : Hcp FpcBepResult} {out : α} {next : Hcp (FpcBepResult × α)}
    (hcall : Timed ok T call) (hnext : Timed ok T next) : Timed ok T (assertOut call out next) := by
  refine hcall.bind fun res => ?_
  split
  · exact timed_pure _
  · exact hnext

theorem timed_exitIfErr {call : Hcp FpcBepResult} {exit next : FpcBepResult → Hcp α}
    (hcall : Timed ok T call) (hexit : ∀ r, Timed ok T (exit r))
    (hnext : ∀ r, Timed ok T (next r)) : Timed ok T (exitIfErr call exit next) := by
  refine hcall.bind fun r => timed_get.bind fun c => ?_
  split
  · exact hexit r
  · exact hnext r

theorem prepare_settings (c : HcpComm) (cmd argKey : Nat) :
    SameSettings c (c.prepare cmd argKey) := by
  unfold HcpComm.prepare
  split <;> exact ⟨rfl, rfl⟩

theorem timed_initCmd (cmd argKey : Nat) : Timed ok T (bmliteInitCmd cmd argKey) := by
  refine timed_of_returns (fun c => runs_initCmd c cmd argKey) fun c => ?_
  split
  · exact ⟨rfl, rfl⟩
  · exact prepare_settings c cmd argKey

theorem timed_addArg (t : Nat) (d : List Byte) (n : Nat) : Timed ok T (bmliteAddArg t d n) := by
  refine timed_of_returns (fun c => runs_addArg) fun c => ?_
  split <;> exact ⟨rfl, rfl⟩

theorem timed_getArg (t : Nat) : Timed ok T (bmliteGetArg t) := by
  refine timed_of_returns (fun c => getArg_returns c t) fun c => ?_
  split <;> exact ⟨rfl, rfl⟩

theorem timed_copyArg (t : Nat) (dest : Option (Mem Byte)) (n : Nat) :
    Timed ok T (bmliteCopyArg t dest n) := by
  refine timed_of_returns (fun c => copyArg_returns t dest n c) fun c => ?_
  split <;> exact ⟨rfl, rfl⟩

/-- An exchange of any packet. -/
theorem timed_tranceive (h : ∀ cmd, ok cmd T) (rounds : Nat) :
    Timed ok T (bmliteTranceive rounds) :=
  fun _ _ hc => tranceive_ensures (hc ▸ h _)

/-- `bmlite_send_cmd`, whatever its packet. -/
theorem timed_sendCmd_any (h : ∀ cmd, ok cmd T) (rounds cmd argKey : Nat) :
    Timed ok T (bmliteSendCmd rounds cmd argKey) :=
  timed_assertOk (timed_initCmd cmd argKey) (timed_tranceive h rounds)

/-- `bmlite_send_cmd_arg`, whatever its packet. -/
theorem timed_sendCmdArg_any (h : ∀ cmd, ok cmd T) (rounds cmd arg1Type arg2Type : Nat)
    (arg2Data : List Byte) (arg2Length : Nat) :
    Timed ok T (bmliteSendCmdArg rounds cmd arg1Type arg2Type arg2Data arg2Length) :=
  timed_assertOk (timed_initCmd cmd arg1Type) <|
    timed_assertOk (timed_addArg arg2Type arg2Data arg2Length) (timed_tranceive h rounds)

/-- The exchange of a packet that has been built in the chain. -/
theorem built_ensures {c c₁ : HcpComm} {rounds cmd : Nat} {args : List CmdArg}
    {last : Option Action} (hpkt : c₁.packet = encodePacket cmd args) (hsize : c₁.pktSize < 65536)
    (hcmd : cmd < 65536) (hsame : SameSettings c c₁) (h : ok cmd c.phyRxTimeout) :
    Ensures inFlight (HeaderOk ok) ((bmliteTranceive rounds).run c₁) last none fun y u =>
      u = none ∧ SameSettings c y.2 := by
  have hok : ok c₁.command c₁.phyRxTimeout := by
    rw [command_packet hpkt hsize hcmd, hsame.1]
    exact h
  refine (tranceive_ensures hok).mono ?_
  rintro y u ⟨hu, hy⟩
  exact ⟨hu, hsame.trans hy⟩

/-- **`bmlite_send_cmd`.** -/
theorem timed_sendCmd {rounds cmd argKey : Nat} (hcmd : cmd < 65536) (hkey : argKey < 65536)
    (h : ok cmd T) : Timed ok T (bmliteSendCmd rounds cmd argKey) := by
  intro c last hc
  have hsize := prepare_size_le c cmd argKey
  have hinit := runs_initCmd c cmd argKey
  split at hinit
  · exact Ensures.bind (.of_returns hinit fun last' => ⟨rfl, rfl, rfl⟩)
  · refine Ensures.bind (.of_returns hinit fun last' => ?_)
    exact built_ensures (prepare_packet c cmd hkey) (by omega) hcmd (prepare_settings c cmd argKey)
      (hc ▸ h)

/-- **`bmlite_send_cmd_arg`** with an argument of moderate size. -/
theorem timed_sendCmdArg {rounds cmd argKey : Nat} (hcmd : cmd < 65536) (hkey : argKey < 65536)
    (arg : CmdArg) (harg : arg.data.length ≤ 200) (h : ok cmd T) :
    Timed ok T (bmliteSendCmdArg rounds cmd argKey arg.type arg.data arg.data.length) := by
  intro c last hc
  have hsize := prepare_size_le c cmd argKey
  have hsame := prepare_settings c cmd argKey
  have hinit := runs_initCmd c cmd argKey
  have hadd := runs_addArg (c := c.prepare cmd argKey) (t := arg.type) (d := arg.data)
    (n := arg.data.length)
  split at hinit
  · exact Ensures.bind (.of_returns hinit fun last' => ⟨rfl, rfl, rfl⟩)
  refine Ensures.bind (.of_returns hinit fun last' => ?_)
  split at hadd
  · exact Ensures.bind (.of_returns hadd fun last'' => ⟨rfl, hsame⟩)
  · refine Ensures.bind (.of_returns hadd fun last'' => ?_)
    refine built_ensures (addArg_packet (prepare_packet c cmd hkey) (by omega)) ?_ hcmd hsame
      (hc ▸ h)
    show ((c.prepare cmd argKey).pktSize + (4 + arg.data.length)) % 2 ^ 32 < 65536
    omega

/-- **A timeout of its own**: it is put back when the body returns. -/
theorem timed_withTimeout {body : Hcp FpcBepResult} {t : Nat} (h : Timed ok t body) :
    Timed ok T (withTimeout t body) := by
  intro c last hc
  simp only [withTimeout, StateT.run_bind, StateT.run_get, StateT.run_modify, pure_eq, ret_bind]
  refine Ensures.bind ((h { c with phyRxTimeout := t } last rfl).mono ?_)
  rintro ⟨r, c₁⟩ u ⟨hu, -, hmax⟩ last'
  exact ⟨hu, rfl, hmax⟩

/-! ## Captures, enrolling and identifying -/

/-- The callbacks around a capture. -/
theorem timed_captureCallbacks {body : Hcp FpcBepResult} (h : Timed ok T body) :
    Timed ok T (do
      callback .onStartCapture
      let bepResult ← body
      callback .onFinishCapture
      return bepResult) :=
  (timed_callback _).bind fun _ => h.bind fun _ => (timed_callback _).bind fun _ => timed_pure _

theorem timed_attempts {rounds timeout : Nat} (h : ok CMD_CAPTURE T) (left : Nat) :
    ∀ bepResult, Timed ok T (bepCapture.attempts rounds timeout left bepResult) := by
  induction left with
  | zero => exact fun bepResult => timed_pure bepResult
  | succ left ih =>
    intro bepResult
    have hsend : Timed ok T
        (bmliteSendCmdArg rounds CMD_CAPTURE ARG_NONE ARG_TIMEOUT (enc16 timeout) 2) :=
      timed_sendCmdArg (by decide) (by decide) (timeoutArg timeout) (by decide : 2 ≤ 200) h
    refine hsend.bind fun r => timed_get.bind fun c => ?_
    split
    · exact timed_pure r
    · exact ih r

theorem timed_capture {rounds timeout : Nat} (h : ok CMD_CAPTURE timeout) :
    Timed ok T (bepCapture rounds timeout) :=
  timed_captureCallbacks <|
    timed_withTimeout (timed_attempts h MAX_SINGLE_CAPTURE_ATTEMPTS FPC_BEP_RESULT_OK)

theorem timed_wait {rounds argKey timeout : Nat} (hkey : argKey < 65536)
    (h : ok CMD_WAIT timeout) :
    Timed ok timeout (bmliteSendCmdArg rounds CMD_WAIT argKey ARG_TIMEOUT (enc16 timeout) 2) :=
  timed_sendCmdArg (by decide) hkey (timeoutArg timeout) (by decide : 2 ≤ 200) h

/-- The samples: between the captures, the timeout is that of the chain. -/
theorem timed_samples {rounds : Nat} (hcapture : ok CMD_CAPTURE CAPTURE_TIMEOUT)
    (hwait : ok CMD_WAIT 0) (hadd : ok CMD_ENROLL T) (left : Nat) :
    Timed ok T (bepEnrollFinger.samples rounds left) := by
  induction left with
  | zero => exact timed_pure false
  | succ left ih =>
    have hsend : Timed ok T (bmliteSendCmd rounds CMD_ENROLL ARG_ADD) :=
      timed_sendCmd (by decide) (by decide) hadd
    refine (timed_callback _).bind fun _ => (timed_capture hcapture).bind fun r =>
      (timed_callback _).bind fun _ => ?_
    split
    · exact ih
    refine hsend.bind fun r => ?_
    split
    · exact ih
    refine (timed_getArg ARG_COUNT).bind fun _ => timed_chainArg.bind fun a => ?_
    refine timed_load32.bind fun remaining => ?_
    split
    · exact timed_pure true
    · exact (timed_withTimeout (timed_wait (by decide) hwait)).bind fun _ => ih

theorem timed_enroll {rounds : Nat} (hcapture : ok CMD_CAPTURE CAPTURE_TIMEOUT)
    (hwait : ok CMD_WAIT 0) (hadd : ok CMD_ENROLL T) : Timed ok T (bepEnrollFinger rounds) := by
  have hsend (argKey : Nat) (hkey : argKey < 65536) :
      Timed ok T (bmliteSendCmd rounds CMD_ENROLL argKey) := timed_sendCmd (by decide) hkey hadd
  refine (timed_callback _).bind fun _ => timed_exitIfErr (hsend ARG_START (by decide))
    (fun _ => (timed_callback _).bind fun _ => timed_pure _) fun _ => ?_
  refine (timed_samples hcapture hwait hadd _).bind fun done => ?_
  exact (hsend ARG_FINISH (by decide)).bind fun r => (timed_callback _).bind fun _ => timed_pure _

theorem timed_identify_exit (templateId : Nat) (isMatch : Bool) (r : FpcBepResult) :
    Timed ok T (bepIdentifyFinger.exit templateId isMatch r) :=
  (timed_callback _).bind fun _ => timed_pure _

theorem timed_identify {rounds timeout templateId : Nat}
    (hcapture : ok CMD_CAPTURE (timeout % 65536)) (himage : ok CMD_IMAGE T)
    (hidentify : ok CMD_IDENTIFY T) : Timed ok T (bepIdentifyFinger rounds timeout templateId) := by
  have hexit := @timed_identify_exit ok T templateId false
  refine (timed_callback _).bind fun _ => timed_exitIfErr (timed_capture hcapture) hexit fun _ => ?_
  refine timed_exitIfErr (timed_sendCmd (by decide) (by decide) himage) hexit fun _ => ?_
  refine timed_exitIfErr (timed_sendCmd (by decide) (by decide) hidentify) hexit fun _ => ?_
  refine timed_exitIfErr (timed_getArg ARG_MATCH) hexit fun r => ?_
  refine timed_chainArg.bind fun a => timed_load.bind fun isMatch => ?_
  split
  · exact (timed_getArg ARG_ID).bind fun _ => timed_chainArg.bind fun b =>
      timed_load16.bind fun _ => (timed_busyWait 50).bind fun _ => timed_identify_exit _ _ _
  · exact hexit r

/-! ## All functions -/

/-- The timeout that is meant for the headers of the answers to `cmd`, in a call that finds
`phy_rx_timeout = entry`.  The timeout of `bep_capture` has 16 bits. -/
def BepCall.headerTimeout (call : BepCall) (entry cmd : Nat) : Nat :=
  match call with
  | .enrollFinger =>
    if cmd = CMD_CAPTURE then CAPTURE_TIMEOUT else if cmd = CMD_WAIT then 0 else entry
  | .identifyFinger timeout _ => if cmd = CMD_CAPTURE then timeout % 65536 else entry
  | .waitFingerPresent timeout => if cmd = CMD_WAIT then timeout else entry
  | .waitFingerNotPresent timeout => if cmd = CMD_WAIT then timeout else entry
  | .capture timeout => if cmd = CMD_CAPTURE then timeout else entry
  | _ => entry

theorem Timed.fst {m : Hcp (FpcBepResult × α)} (h : Timed ok T m) :
    Timed ok T (do return (← m).1) := h.bind fun _ => timed_pure _

/-- A packet of `CMD_COMMUNICATION`, which has an argument more. -/
theorem timed_uartSpeedSet (h : ∀ cmd, ok cmd T) (rounds : Nat) (speed : BitVec 32) :
    Timed ok T (bepUartSpeedSet rounds speed) :=
  timed_assertOk (timed_initCmd _ _) <| timed_assertOk (timed_addArg _ _ _) <|
    timed_assertOk (timed_addArg _ _ _) (timed_tranceive h rounds)

theorem timed_uartSpeedGet (h : ∀ cmd, ok cmd T) (rounds : Nat) (speed : Option (Mem Byte)) :
    Timed ok T (bepUartSpeedGet rounds speed) :=
  timed_assertOut (timed_initCmd _ _) <| timed_assertOut (timed_addArg _ _ _) <|
    timed_assertOut (timed_tranceive h rounds) (timed_copyArg _ _ _)

/-- A value that is read out of the answer. -/
theorem timed_value (h : ∀ cmd, ok cmd T) (rounds cmd argKey : Nat) {out : α}
    {read : Nat → Hcp α} (hread : ∀ off, Timed ok T (read off)) :
    Timed ok T (assertOut (bmliteSendCmd rounds cmd argKey) out <|
      assertOut (bmliteGetArg argKey) out do
        let v ← read (← chainArg).data
        return (FPC_BEP_RESULT_OK, v)) :=
  timed_assertOut (timed_sendCmd_any h rounds cmd argKey) <|
    timed_assertOut (timed_getArg argKey) <|
      timed_chainArg.bind fun a => (hread a.data).bind fun _ => timed_pure _

/-- **Every call** reads its headers with the timeouts that are meant. -/
theorem timed_call (call : BepCall) (rounds : Nat) :
    Timed (fun cmd t => t = call.headerTimeout T cmd) T (call.body rounds) := by
  cases call with
  | enrollFinger => exact timed_enroll (by rfl) (by rfl) (by rfl)
  | identifyFinger timeout templateId =>
    exact Timed.fst (timed_identify (by rfl) (by rfl) (by rfl))
  | waitFingerPresent timeout =>
    exact timed_captureCallbacks <|
      timed_withTimeout (timed_wait (by decide : ARG_FINGER_DOWN < 65536) (by rfl))
  | waitFingerNotPresent timeout =>
    exact timed_withTimeout (timed_wait (by decide : ARG_FINGER_UP < 65536) (by rfl))
  | capture timeout => exact timed_capture (by rfl)
  | imageGetSize size =>
    refine Timed.fst (timed_value ?_ rounds CMD_IMAGE ARG_SIZE fun _ => timed_load32)
    exact fun _ => rfl
  | templateGetCount count =>
    refine Timed.fst (timed_value ?_ rounds CMD_STORAGE_TEMPLATE ARG_COUNT fun _ => timed_load16)
    exact fun _ => rfl
  | imageGet _ _ | templateGet _ _ =>
    refine Timed.fst (timed_assertOut (timed_sendCmd_any ?_ rounds _ _) (timed_copyArg _ _ _))
    exact fun _ => rfl
  | version _ _ | uniqueIdGet _ =>
    refine Timed.fst (timed_assertOut (timed_sendCmdArg_any ?_ rounds _ _ _ _ _)
      (timed_copyArg _ _ _))
    exact fun _ => rfl
  | templateGetIds =>
    refine timed_assertOk (timed_sendCmd_any ?_ rounds _ _) (timed_getArg ARG_DATA)
    exact fun _ => rfl
  | uartSpeedSet speed =>
    refine timed_uartSpeedSet ?_ rounds speed
    exact fun _ => rfl
  | uartSpeedGet speed =>
    refine Timed.fst (timed_uartSpeedGet ?_ rounds speed)
    exact fun _ => rfl
  | imageCreate | imageDelete | imageExtract | identify | templateRemoveRam | swReset
  | sensorCalibrate | sensorCalibrateRemove | sendCmd _ _ =>
    refine timed_sendCmd_any ?_ rounds _ _
    exact fun _ => rfl
  | sensorReset =>
    refine (timed_busyWait 50).bind fun _ => timed_sendCmd_any ?_ rounds _ _
    exact fun _ => rfl
  | imagePut _ _ | templateSave _ | templatePut _ _ | templateRemove _ | templateRemoveAll
  | templateLoadStorage _ | sendCmdArg _ _ _ _ _ =>
    refine timed_sendCmdArg_any ?_ rounds _ _ _ _ _
    exact fun _ => rfl

/-- **The settings survive every call, and every header is read with the timeout that is meant for
its command**, whatever the channel does. -/
theorem timeouts_kept (call : BepCall) (rounds : Nat) (c : HcpComm) :
    (∀ (es : List HcpEvent) (r : FpcBepResult) (c' : HcpComm),
      Runs ((call.body rounds).run c) es (r, c') →
      c'.phyRxTimeout = c.phyRxTimeout ∧ c'.pktSizeMax = c.pktSizeMax) ∧
    ∀ (es : List HcpEvent) (n t : Nat)
      (k : FpcBepResult → List Byte → HcpProc (FpcBepResult × HcpComm)),
      Steps ((call.body rounds).run c) es (.touch headerAccess (.read n t k)) →
      ∃ cmd, commandInFlight es = some cmd ∧ t = call.headerTimeout c.phyRxTimeout cmd := by
  have hcall := timed_call (T := c.phyRxTimeout) call rounds c none rfl
  constructor
  · intro es r c' hrun
    exact (hcall.runs hrun).2
  · intro es n t k hsteps
    exact hcall.steps hsteps rfl

end BMLite
