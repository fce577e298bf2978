import BMLite.Exchange

/-!
# Commands and the exchanges they make

* `exchanges` — the exchanges noted in a run;
* `exchanges_tranceive` — `bmlite_tranceive` makes exactly one;
* `Commanded` — a command makes one exchange of its own packet, or rejects an argument and makes
  none; `sendCmd_commanded`, `sendCmdArg_commanded`;
* `runs_exitIfErr`, `exitIfErr_commanded` — when `exit_if_err` leaves the function;
* `capture_cases` — `bep_capture` makes captures only, and returns the communication result of the
  last one;
* `HcpComm.argument` — the argument of a type, if it lies inside the packet;
* `sendCmd_receivable`, `sendCmd_answered`, `sendCmdArg_answered` — every packet that fits may be the
  answer.
-/

set_option autoImplicit false

namespace BMLite

open FlatMemory Process

/-! ## Exchanges of a run -/

/-- The exchanges noted in a run, in their order. -/
def exchanges : List HcpEvent → List Exchange
  | [] => []
  | .note x :: es => x :: exchanges es
  | .write _ _ _ :: es => exchanges es
  | .read _ _ _ _ :: es => exchanges es

@[simp] theorem exchanges_append (es fs : List HcpEvent) :
    exchanges (es ++ fs) = exchanges es ++ exchanges fs := by
  induction es with
  | nil => rfl
  | cons e es ih => cases e <;> simp [exchanges, ih]

/-- The request of the exchange. -/
def Exchange.Requests (x : Exchange) (cmd : Nat) (args : List CmdArg) : Prop :=
  x.before.packet = encodePacket cmd args

/-- Both the communication result and the result of the device are OK. -/
def Exchange.Ok (x : Exchange) : Prop :=
  x.com = FPC_BEP_RESULT_OK ∧ x.after.bepResult = FPC_BEP_RESULT_OK

/-- A request tells its command. -/
theorem Exchange.Requests.cmd_eq {x : Exchange} {cmd cmd' : Nat} {args args' : List CmdArg}
    (h : x.Requests cmd args) (h' : x.Requests cmd' args') (hcmd : cmd < 65536)
    (hcmd' : cmd' < 65536) : cmd = cmd' := by
  have heq : encodePacket cmd args = encodePacket cmd' args' := h.symm.trans h'
  unfold encodePacket at heq
  rw [List.append_assoc, List.append_assoc] at heq
  exact enc16_injective hcmd hcmd' (List.append_inj heq rfl).1

theorem exchanges_rxLink {c c' : HcpComm} {es : List HcpEvent} {r : FpcBepResult}
    (h : RxLink c es r c') : exchanges es = [] := by
  cases h <;> rfl

theorem exchanges_sent {fs : List (List Byte)} {es : List HcpEvent} {r : FpcBepResult}
    (h : Sent fs es r) : exchanges es = [] := by
  induction h with
  | done => rfl
  | fail _ => rfl
  | next _ _ ih => exact ih

theorem RxRounds.exchanges_eq {c c' : HcpComm} {bufLen : Nat} {comResult r : FpcBepResult}
    {es : List HcpEvent} (h : RxRounds c bufLen comResult es r c') : exchanges es = [] := by
  induction h with
  | done c bufLen comResult => rfl
  | failed _ hlink => exact exchanges_rxLink hlink
  | next p hlink _ ih =>
    rw [exchanges_append, exchanges_rxLink hlink, ih]
    rfl

/-- The note of an exchange is the last event of `bmlite_tranceive`. -/
theorem tranceive_note {c c' : HcpComm} {rounds : Nat} {es : List HcpEvent} {r : FpcBepResult}
    (h : Runs ((bmliteTranceive rounds).run c) es (r, c')) :
    ∃ evs, es = evs ++ [.note ⟨c, r, c'⟩] ∧ exchanges evs = [] := by
  rcases runs_tranceive.1 h with ⟨-, es₁, rfl, hsend⟩ | ⟨es₁, es₂, c₁, c₂, rfl, hsend, hrecv, -⟩
  · obtain ⟨-, hsent⟩ := runs_send_cases hsend
    exact ⟨es₁, rfl, exchanges_sent hsent⟩
  · obtain ⟨-, hsent⟩ := runs_send_cases hsend
    refine ⟨es₁ ++ es₂, rfl, ?_⟩
    rw [exchanges_append, exchanges_sent hsent, (receive_loop_rounds rounds hrecv).exchanges_eq]
    rfl

/-- **`bmlite_tranceive` makes one exchange.** -/
theorem exchanges_tranceive {c c' : HcpComm} {rounds : Nat} {es : List HcpEvent} {r : FpcBepResult}
    (h : Runs ((bmliteTranceive rounds).run c) es (r, c')) : exchanges es = [⟨c, r, c'⟩] := by
  obtain ⟨evs, rfl, hevs⟩ := tranceive_note h
  rw [exchanges_append, hevs]
  rfl

/-! ## Single commands -/

/-- A command with the packet of `cmd` and `args` ended with `r` in the chain `c'`: it made one
exchange, or it rejected an argument and made none. -/
def Commanded (cmd : Nat) (args : List CmdArg) (xs : List Exchange) (r : FpcBepResult)
    (c' : HcpComm) : Prop :=
  (xs = [] ∧ r ≠ FPC_BEP_RESULT_OK) ∨ ∃ x : Exchange, xs = [x] ∧ x.Requests cmd args ∧
    x.com = r ∧ x.after = c'

theorem Commanded.mem {cmd : Nat} {args : List CmdArg} {xs : List Exchange} {r : FpcBepResult}
    {c' : HcpComm} (h : Commanded cmd args xs r c') {x : Exchange} (hx : x ∈ xs) :
    x.Requests cmd args ∧ x.com = r ∧ x.after = c' := by
  rcases h with ⟨rfl, -⟩ | ⟨y, rfl, hy⟩
  · cases hx
  · rw [List.mem_singleton] at hx
    subst hx
    exact hy

/-- A command that returns OK has made its exchange. -/
theorem Commanded.ok {cmd : Nat} {args : List CmdArg} {xs : List Exchange} {c' : HcpComm}
    (h : Commanded cmd args xs FPC_BEP_RESULT_OK c') :
    ∃ x : Exchange, xs = [x] ∧ x.Requests cmd args ∧ x.com = FPC_BEP_RESULT_OK ∧ x.after = c' := by
  rcases h with ⟨-, hr⟩ | h
  · exact absurd rfl hr
  · exact h

/-- **`bmlite_send_cmd`** makes its exchange, or its packet does not fit. -/
theorem sendCmd_cases {c c' : HcpComm} {rounds cmd argKey : Nat} (hkey : argKey < 65536)
    {es : List HcpEvent} {r : FpcBepResult}
    (h : Runs ((bmliteSendCmd rounds cmd argKey).run c) es (r, c')) :
    c'.pktSizeMax = c.pktSizeMax ∧
      if argKey ≠ ARG_NONE ∧ c.pktSizeMax < 8 then
        exchanges es = [] ∧ r = FPC_BEP_RESULT_NO_MEMORY
      else ∃ x : Exchange, exchanges es = [x] ∧ x.Requests cmd (keyCall argKey hkey) ∧ x.com = r ∧
        x.after = c' := by
  have hcases := runs_sendCmd.1 h
  split at hcases <;> rename_i hmax
  · obtain ⟨rfl, rfl, rfl⟩ := hcases
    exact ⟨rfl, by rw [if_pos hmax]; exact ⟨rfl, rfl⟩⟩
  · rw [if_neg hmax]
    refine ⟨(tranceive_max hcases).trans (prepare_max_eq c cmd argKey), ?_⟩
    exact ⟨_, exchanges_tranceive hcases, prepare_packet c cmd hkey, rfl, rfl⟩

/-- **`bmlite_send_cmd_arg`** makes its exchange, or its packet does not fit. -/
theorem sendCmdArg_cases {c c' : HcpComm} {rounds cmd argKey : Nat} (hkey : argKey < 65536)
    (arg : CmdArg) (harg : arg.data.length ≤ 255) {es : List HcpEvent} {r : FpcBepResult}
    (h : Runs ((bmliteSendCmdArg rounds cmd argKey arg.type arg.data arg.data.length).run c) es
      (r, c')) :
    c'.pktSizeMax = c.pktSizeMax ∧
      if c.pktSizeMax < (encodePacket cmd (keyCall argKey hkey ++ [arg])).length then
        exchanges es = [] ∧ r = FPC_BEP_RESULT_NO_MEMORY
      else ∃ x : Exchange, exchanges es = [x] ∧ x.Requests cmd (keyCall argKey hkey ++ [arg]) ∧
        x.com = r ∧ x.after = c' := by
  have hcases := (runs_sendCmdArg arg.size_lt).1 h
  have hprep := prepare_packet c cmd hkey
  have hsize := prepare_size_le c cmd argKey
  have hlen : (encodePacket cmd (keyCall argKey hkey ++ [arg])).length =
      (c.prepare cmd argKey).pktSize + 4 + arg.data.length := by
    rw [packet_size hprep, encodePacket_length, encodeArgs_append, List.length_append,
      encodeArgs_cons, encodeArgs_nil, List.append_nil, CmdArg.encode_length]
    omega
  rw [hlen]
  have hkeyfit : argKey ≠ ARG_NONE ∧ c.pktSizeMax < 8 →
      c.pktSizeMax < (c.prepare cmd argKey).pktSize + 4 + arg.data.length := by
    rintro ⟨hne, hlt⟩
    rw [packet_size hprep, keyCall, if_neg hne]
    simp
    omega
  split at hcases <;> rename_i hmax
  · obtain ⟨rfl, rfl, rfl⟩ := hcases
    exact ⟨rfl, by rw [if_pos (hkeyfit hmax)]; exact ⟨rfl, rfl⟩⟩
  · split at hcases <;> rename_i hfit
    · obtain ⟨rfl, rfl, rfl⟩ := hcases
      exact ⟨prepare_max_eq c cmd argKey, by rw [if_pos hfit]; exact ⟨rfl, rfl⟩⟩
    · rw [if_neg hfit]
      refine ⟨(tranceive_max hcases).trans (prepare_max_eq c cmd argKey), ?_⟩
      exact ⟨_, exchanges_tranceive hcases, addArg_packet hprep (by omega), rfl, rfl⟩

theorem sendCmd_commanded {c c' : HcpComm} {rounds cmd argKey : Nat} (hkey : argKey < 65536)
    {es : List HcpEvent} {r : FpcBepResult}
    (h : Runs ((bmliteSendCmd rounds cmd argKey).run c) es (r, c')) :
    Commanded cmd (keyCall argKey hkey) (exchanges es) r c' := by
  obtain ⟨-, hcases⟩ := sendCmd_cases hkey h
  split at hcases
  · obtain ⟨hnil, rfl⟩ := hcases
    exact .inl ⟨hnil, by decide⟩
  · exact .inr hcases

theorem sendCmdArg_commanded {c c' : HcpComm} {rounds cmd argKey : Nat} (hkey : argKey < 65536)
    (arg : CmdArg) (harg : arg.data.length ≤ 255) {es : List HcpEvent} {r : FpcBepResult}
    (h : Runs ((bmliteSendCmdArg rounds cmd argKey arg.type arg.data arg.data.length).run c) es
      (r, c')) : Commanded cmd (keyCall argKey hkey ++ [arg]) (exchanges es) r c' := by
  obtain ⟨-, hcases⟩ := sendCmdArg_cases hkey arg harg h
  split at hcases
  · obtain ⟨hnil, rfl⟩ := hcases
    exact .inl ⟨hnil, by decide⟩
  · exact .inr hcases

/-- **`exit_if_err`** looks at the result of the call and at that of the device. -/
theorem runs_exitIfErr {α : Type} {call : Hcp FpcBepResult} {exit next : FpcBepResult → Hcp α}
    {c : HcpComm} {es : List HcpEvent} {x : α × HcpComm} :
    Runs ((exitIfErr call exit next).run c) es x ↔ ∃ r c₁ es₁ es₂, es = es₁ ++ es₂ ∧
      Runs (call.run c) es₁ (r, c₁) ∧
      if r ≠ FPC_BEP_RESULT_OK ∨ c₁.bepResult ≠ FPC_BEP_RESULT_OK then
        Runs ((exit r).run c₁) es₂ x
      else Runs ((next r).run c₁) es₂ x := by
  simp only [exitIfErr, StateT.run_bind, StateT.run_get, pure_eq, ret_bind]
  rw [runs_bind]
  constructor
  · rintro ⟨⟨r, c₁⟩, es₁, es₂, rfl, hcall, hrest⟩
    refine ⟨r, c₁, es₁, es₂, rfl, hcall, ?_⟩
    split at hrest
    · rename_i herr
      rw [if_pos herr]
      exact hrest
    · rename_i herr
      rw [if_neg herr]
      exact hrest
  · rintro ⟨r, c₁, es₁, es₂, rfl, hcall, hrest⟩
    refine ⟨(r, c₁), es₁, es₂, rfl, hcall, ?_⟩
    split at hrest
    · rename_i herr
      simp only [if_pos herr]
      exact hrest
    · rename_i herr
      simp only [if_neg herr]
      exact hrest

/-- A command under `exit_if_err` fails, or its exchange succeeds and the function goes on. -/
theorem exitIfErr_commanded {α : Type} {call : Hcp FpcBepResult}
    {exit next : FpcBepResult → Hcp α} {c : HcpComm} {es : List HcpEvent} {y : α × HcpComm}
    {cmd : Nat} {args : List CmdArg}
    (hcall : ∀ {es r c'}, Runs (call.run c) es (r, c') → Commanded cmd args (exchanges es) r c')
    (h : Runs ((exitIfErr call exit next).run c) es y) :
    ∃ es₁ es₂, es = es₁ ++ es₂ ∧ ((∃ r c₁, (∀ x ∈ exchanges es₁, x.Requests cmd args ∧ ¬ x.Ok) ∧
        Runs ((exit r).run c₁) es₂ y) ∨
      ∃ x, exchanges es₁ = [x] ∧ x.Requests cmd args ∧ x.Ok ∧
        Runs ((next FPC_BEP_RESULT_OK).run x.after) es₂ y) := by
  obtain ⟨r, c₁, es₁, es₂, rfl, hrun, hrest⟩ := runs_exitIfErr.1 h
  have hcmd := hcall hrun
  refine ⟨es₁, es₂, rfl, ?_⟩
  split at hrest <;> rename_i herr
  · refine .inl ⟨r, c₁, fun x hx => ?_, hrest⟩
    obtain ⟨hreq, rfl, rfl⟩ := hcmd.mem hx
    refine ⟨hreq, ?_⟩
    rintro ⟨hcom, hdev⟩
    exact herr.elim (fun hr => hr hcom) fun hd => hd hdev
  · simp only [not_or, not_not] at herr
    obtain ⟨rfl, hdev⟩ := herr
    obtain ⟨x, hx, hreq, hcom, rfl⟩ := hcmd.ok
    exact .inr ⟨x, hx, hreq, ⟨hcom, hdev⟩, hrest⟩

/-- The same for a command whose packet fits. -/
theorem exitIfErr_exchanged {α : Type} {call : Hcp FpcBepResult}
    {exit next : FpcBepResult → Hcp α} {c : HcpComm} {es : List HcpEvent} {y : α × HcpComm}
    {cmd : Nat} {args : List CmdArg}
    (hcall : ∀ {es r c'}, Runs (call.run c) es (r, c') →
      ∃ x : Exchange, exchanges es = [x] ∧ x.Requests cmd args ∧ x.com = r ∧ x.after = c')
    (h : Runs ((exitIfErr call exit next).run c) es y) :
    ∃ es₁ es₂ x, es = es₁ ++ es₂ ∧ exchanges es₁ = [x] ∧ x.Requests cmd args ∧
      ((¬ x.Ok ∧ Runs ((exit x.com).run x.after) es₂ y) ∨
        (x.Ok ∧ Runs ((next FPC_BEP_RESULT_OK).run x.after) es₂ y)) := by
  obtain ⟨r, c₁, es₁, es₂, rfl, hrun, hrest⟩ := runs_exitIfErr.1 h
  obtain ⟨x, hx, hreq, rfl, rfl⟩ := hcall hrun
  refine ⟨es₁, es₂, x, rfl, hx, hreq, ?_⟩
  split at hrest <;> rename_i herr
  · refine .inl ⟨fun hok => ?_, hrest⟩
    exact herr.elim (fun hr => hr hok.1) fun hd => hd hok.2
  · simp only [not_or, not_not] at herr
    rw [herr.1] at hrest
    exact .inr ⟨herr, hrest⟩

/-! ## `bep_capture` -/

/-- The argument `ARG_TIMEOUT` of a 16-bit timeout. -/
def timeoutArg (timeout : Nat) : CmdArg := ⟨ARG_TIMEOUT, enc16 timeout, by decide, by simp⟩

/-- The captures of one call with `left` attempts, and the results of the last one: it is the first
that succeeded, or there were `left` of them. -/
inductive Attempted (timeout left : Nat) : List Exchange → FpcBepResult → FpcBepResult → Prop
  | intro {ys : List Exchange} {x : Exchange} :
      (∀ y ∈ ys, y.Requests CMD_CAPTURE [timeoutArg timeout] ∧ ¬ y.Ok) →
      x.Requests CMD_CAPTURE [timeoutArg timeout] → ys.length < left →
      (¬ x.Ok → ys.length + 1 = left) →
      Attempted timeout left (ys ++ [x]) x.com x.after.bepResult

theorem Attempted.single {timeout left : Nat} {x : Exchange}
    (hreq : x.Requests CMD_CAPTURE [timeoutArg timeout]) (hleft : ¬ x.Ok → left = 0) :
    Attempted timeout (left + 1) [x] x.com x.after.bepResult :=
  @Attempted.intro timeout (left + 1) [] x (by simp) hreq (Nat.succ_pos left) fun hfail => by
    rw [hleft hfail]
    rfl

theorem Attempted.cons {timeout left : Nat} {x : Exchange} {xs : List Exchange}
    {r dev : FpcBepResult} (h : Attempted timeout left xs r dev)
    (hreq : x.Requests CMD_CAPTURE [timeoutArg timeout]) (hfail : ¬ x.Ok) :
    Attempted timeout (left + 1) (x :: xs) r dev := by
  cases h with
  | @intro ys y hys hy hlt hlast =>
    refine @Attempted.intro timeout (left + 1) (x :: ys) y
      (List.forall_mem_cons.2 ⟨⟨hreq, hfail⟩, hys⟩) hy (Nat.succ_lt_succ hlt) fun hno => ?_
    rw [List.length_cons, hlast hno]

/-- The chain with a capture request. -/
def HcpComm.captureRequest (c : HcpComm) (timeout : Nat) : HcpComm :=
  (c.prepare CMD_CAPTURE ARG_NONE).addArg ARG_TIMEOUT (enc16 timeout) 2

theorem captureRequest_packet (c : HcpComm) (timeout : Nat) :
    (c.captureRequest timeout).packet = encodePacket CMD_CAPTURE [timeoutArg timeout] :=
  addArg_packet (a := timeoutArg timeout) (prepare_packet c CMD_CAPTURE (by decide : 0 < 65536))
    (show 4 + 4 + 2 ≤ 65535 by decide)

theorem captureRequest_max (c : HcpComm) (timeout : Nat) :
    (c.captureRequest timeout).pktSizeMax = c.pktSizeMax := prepare_max_eq c CMD_CAPTURE ARG_NONE

/-- One capture: the exchange of its request, whose 10 bytes may not fit the packet buffer. -/
theorem runs_capture {c c' : HcpComm} {rounds timeout : Nat} {es : List HcpEvent}
    {r : FpcBepResult} :
    Runs ((bmliteSendCmdArg rounds CMD_CAPTURE ARG_NONE ARG_TIMEOUT (enc16 timeout) 2).run c) es
        (r, c') ↔
      if c.pktSizeMax < 10 then
        es = [] ∧ r = FPC_BEP_RESULT_NO_MEMORY ∧ c' = c.prepare CMD_CAPTURE ARG_NONE
      else Runs ((bmliteTranceive rounds).run (c.captureRequest timeout)) es (r, c') := by
  rw [runs_sendCmdArg (by decide : 2 < 65536), if_neg (fun hne => hne.1 rfl)]
  rfl

/-- Captures that do not fit. -/
theorem attempts_rejected {rounds timeout : Nat} (left : Nat) :
    ∀ {bepResult : FpcBepResult} {c c' : HcpComm} {es : List HcpEvent} {r : FpcBepResult},
      c.pktSizeMax < 10 →
      Runs ((bepCapture.attempts rounds timeout (left + 1) bepResult).run c) es (r, c') →
      es = [] ∧ r = FPC_BEP_RESULT_NO_MEMORY ∧ c'.pktSizeMax = c.pktSizeMax := by
  have hno : FPC_BEP_RESULT_NO_MEMORY ≠ FPC_BEP_RESULT_OK := by decide
  induction left with
  | zero =>
    intro bepResult c c' es r hmax h
    simp only [bepCapture.attempts, StateT.run_bind, StateT.run_get, pure_eq, ret_bind] at h
    obtain ⟨⟨r₁, c₁⟩, es₁, es₂, rfl, hsend, hrest⟩ := runs_bind.1 h
    rw [runs_capture, if_pos hmax] at hsend
    obtain ⟨rfl, rfl, rfl⟩ := hsend
    rw [if_neg (fun hok => hno hok.1)] at hrest
    obtain ⟨rfl, ⟨⟩⟩ := runs_ret.1 hrest
    exact ⟨rfl, rfl, prepare_max_eq c CMD_CAPTURE ARG_NONE⟩
  | succ left ih =>
    intro bepResult c c' es r hmax h
    rw [bepCapture.attempts] at h
    simp only [StateT.run_bind, StateT.run_get, pure_eq, ret_bind] at h
    obtain ⟨⟨r₁, c₁⟩, es₁, es₂, rfl, hsend, hrest⟩ := runs_bind.1 h
    rw [runs_capture, if_pos hmax] at hsend
    obtain ⟨rfl, rfl, rfl⟩ := hsend
    rw [if_neg (fun hok => hno hok.1)] at hrest
    have hmax₁ := prepare_max_eq c CMD_CAPTURE ARG_NONE
    obtain ⟨rfl, hr, hmax'⟩ := ih (by rw [hmax₁]; exact hmax) hrest
    exact ⟨rfl, hr, hmax'.trans hmax₁⟩

/-- **One attempt**: its exchange, after which the loop has succeeded or goes on. -/
theorem attempt_step {rounds timeout left : Nat} {bepResult : FpcBepResult} {c c' : HcpComm}
    {es : List HcpEvent} {r : FpcBepResult} (hmax : 10 ≤ c.pktSizeMax)
    (h : Runs ((bepCapture.attempts rounds timeout (left + 1) bepResult).run c) es (r, c')) :
    ∃ evs x es₂, es = evs ++ .note x :: es₂ ∧ exchanges evs = [] ∧
      Runs ((bmliteTranceive rounds).run (c.captureRequest timeout)) (evs ++ [.note x])
        (x.com, x.after) ∧
      x.Requests CMD_CAPTURE [timeoutArg timeout] ∧ x.after.pktSizeMax = c.pktSizeMax ∧
      ((x.Ok ∧ es₂ = [] ∧ r = x.com ∧ c' = x.after) ∨
        (¬ x.Ok ∧ Runs ((bepCapture.attempts rounds timeout left x.com).run x.after) es₂
          (r, c'))) := by
  rw [bepCapture.attempts] at h
  simp only [StateT.run_bind, StateT.run_get, pure_eq, ret_bind] at h
  obtain ⟨⟨r₁, c₁⟩, es₁, es₂, rfl, hsend, hrest⟩ := runs_bind.1 h
  rw [runs_capture, if_neg (Nat.not_lt.2 hmax)] at hsend
  obtain ⟨evs, rfl, hevs⟩ := tranceive_note hsend
  refine ⟨evs, _, es₂, by simp, hevs, hsend, captureRequest_packet c timeout,
    (tranceive_max hsend).trans (captureRequest_max c timeout), ?_⟩
  split at hrest <;> rename_i hok
  · obtain ⟨rfl, ⟨⟩⟩ := runs_ret.1 hrest
    exact .inl ⟨hok, rfl, rfl, rfl⟩
  · exact .inr ⟨hok, hrest⟩

/-- **All attempts.** -/
theorem attempts_attempted {rounds timeout : Nat} (left : Nat) :
    ∀ {bepResult : FpcBepResult} {c c' : HcpComm} {es : List HcpEvent} {r : FpcBepResult},
      10 ≤ c.pktSizeMax →
      Runs ((bepCapture.attempts rounds timeout (left + 1) bepResult).run c) es (r, c') →
      Attempted timeout (left + 1) (exchanges es) r c'.bepResult ∧
        c'.pktSizeMax = c.pktSizeMax := by
  induction left with
  | zero =>
    intro bepResult c c' es r hmax h
    obtain ⟨evs, x, es₂, rfl, hevs, -, hreq, hmax₁, hrest⟩ := attempt_step hmax h
    have hend : es₂ = [] ∧ r = x.com ∧ c' = x.after := by
      rcases hrest with ⟨-, hend⟩ | ⟨-, hrest⟩
      · exact hend
      · obtain ⟨rfl, ⟨⟩⟩ := runs_ret.1 hrest
        exact ⟨rfl, rfl, rfl⟩
    obtain ⟨rfl, rfl, rfl⟩ := hend
    rw [exchanges_append, hevs]
    exact ⟨.single hreq fun _ => rfl, hmax₁⟩
  | succ left ih =>
    intro bepResult c c' es r hmax h
    obtain ⟨evs, x, es₂, rfl, hevs, -, hreq, hmax₁, hrest⟩ := attempt_step hmax h
    rw [exchanges_append, hevs]
    rcases hrest with ⟨hok, rfl, rfl, rfl⟩ | ⟨hfail, hrest⟩
    · exact ⟨.single hreq fun hfail => absurd hok hfail, hmax₁⟩
    · obtain ⟨hnext, hmax'⟩ := ih (by rw [hmax₁]; exact hmax) hrest
      exact ⟨hnext.cons hreq hfail, hmax'.trans hmax₁⟩

/-- A call with a timeout of its own is the call on a chain with this timeout. -/
theorem runs_withTimeout {call : Hcp FpcBepResult} {timeout : Nat} {c c' : HcpComm}
    {es : List HcpEvent} {r : FpcBepResult} :
    Runs ((withTimeout timeout call).run c) es (r, c') ↔
      ∃ c₁, Runs (call.run { c with phyRxTimeout := timeout }) es (r, c₁) ∧
        c' = { c₁ with phyRxTimeout := c.phyRxTimeout } := by
  simp only [withTimeout, StateT.run_bind, StateT.run_get, StateT.run_modify, pure_eq, ret_bind]
  constructor
  · intro h
    obtain ⟨⟨r₁, c₁⟩, es₁, es₂, rfl, hcall, hret⟩ := runs_bind.1 h
    obtain ⟨rfl, ⟨⟩⟩ := runs_ret.1 hret
    exact ⟨c₁, by rw [List.append_nil]; exact hcall, rfl⟩
  · rintro ⟨c₁, hcall, rfl⟩
    rw [← List.append_nil es]
    exact hcall.bind (.refl _)

/-- `bep_capture` is its attempts on a chain with its timeout. -/
theorem runs_bepCapture {rounds timeout : Nat} {c c' : HcpComm} {es : List HcpEvent}
    {r : FpcBepResult} :
    Runs ((bepCapture rounds timeout).run c) es (r, c') ↔
      ∃ c₁, Runs ((bepCapture.attempts rounds timeout MAX_SINGLE_CAPTURE_ATTEMPTS
          FPC_BEP_RESULT_OK).run { c with phyRxTimeout := timeout }) es (r, c₁) ∧
        c' = { c₁ with phyRxTimeout := c.phyRxTimeout } := by
  simp only [bepCapture, StateT.run_bind, run_callback, touch_bind, ret_bind, runs_touch]
  rw [← runs_withTimeout]
  constructor
  · intro h
    obtain ⟨⟨r₁, c₁⟩, es₁, es₂, rfl, hcall, hret⟩ := runs_bind.1 h
    obtain ⟨rfl, ⟨⟩⟩ := runs_ret.1 (runs_touch.1 hret)
    rw [List.append_nil]
    exact hcall
  · intro h
    rw [← List.append_nil es]
    exact h.bind (.touch (.refl _))

/-- **`bep_capture`** makes one to three captures and returns the communication result of the last
one, or its request does not fit the packet buffer. -/
theorem capture_cases {rounds timeout : Nat} {c c' : HcpComm} {es : List HcpEvent}
    {r : FpcBepResult} (h : Runs ((bepCapture rounds timeout).run c) es (r, c')) :
    c'.pktSizeMax = c.pktSizeMax ∧
      if c.pktSizeMax < 10 then exchanges es = [] ∧ r = FPC_BEP_RESULT_NO_MEMORY
      else Attempted timeout MAX_SINGLE_CAPTURE_ATTEMPTS (exchanges es) r c'.bepResult := by
  obtain ⟨c₁, hrun, rfl⟩ := runs_bepCapture.1 h
  split <;> rename_i hmax
  · obtain ⟨rfl, hr, hmax'⟩ := attempts_rejected 2 (by exact hmax) hrun
    exact ⟨hmax', rfl, hr⟩
  · obtain ⟨hcases, hmax'⟩ := attempts_attempted 2 (by exact Nat.not_lt.1 hmax) hrun
    exact ⟨hmax', hcases⟩

/-- **`bep_capture` makes captures only**, and has succeeded in one of them if it leaves both
results OK. -/
theorem capture_exchanges {rounds timeout : Nat} {c c' : HcpComm} {es : List HcpEvent}
    {r : FpcBepResult} (h : Runs ((bepCapture rounds timeout).run c) es (r, c')) :
    (∀ x ∈ exchanges es, x.Requests CMD_CAPTURE [timeoutArg timeout]) ∧
      (r = FPC_BEP_RESULT_OK → c'.bepResult = FPC_BEP_RESULT_OK → ∃ x ∈ exchanges es, x.Ok) := by
  obtain ⟨-, hcases⟩ := capture_cases h
  split at hcases
  · obtain ⟨hnil, rfl⟩ := hcases
    rw [hnil]
    exact ⟨by simp, fun hr => absurd hr (by decide)⟩
  · generalize exchanges es = xs at hcases ⊢
    generalize c'.bepResult = dev at hcases ⊢
    cases hcases with
    | @intro ys x hys hx _ _ =>
      refine ⟨fun y hy => ?_, fun hr hd => ⟨x, by simp, hr, hd⟩⟩
      rcases List.mem_append.1 hy with hy | hy
      · exact (hys y hy).1
      · rw [List.mem_singleton] at hy
        subst hy
        exact hx

/-! ## The arguments of an answer -/

/-- The argument of type `t` of the packet (the first one, which `bmlite_get_arg` finds), provided
that it lies inside the packet. -/
def HcpComm.argument (c : HcpComm) (t : Nat) : Option (List Byte) :=
  match c.findArg t with
  | some a => if a.data + a.size ≤ c.pktSize then some (slice c.pktBuffer a.data a.size) else none
  | none => none

theorem argument_eq_some {c : HcpComm} {t : Nat} {d : List Byte} :
    c.argument t = some d ↔ ∃ a, c.findArg t = some a ∧ a.data + a.size ≤ c.pktSize ∧
      slice c.pktBuffer a.data a.size = d := by
  unfold HcpComm.argument
  cases c.findArg t with
  | some a => simp
  | none => simp

/-- The first bytes of an argument. -/
theorem argument_take {c : HcpComm} {t n : Nat} {a : HcpArg} {d : List Byte}
    (h : c.argument t = some d) (ha : c.findArg t = some a) (hn : n ≤ d.length) :
    slice c.pktBuffer a.data n = d.take n := by
  obtain ⟨a', ha', -, rfl⟩ := argument_eq_some.1 h
  rw [ha] at ha'
  cases ha'
  rw [slice_length] at hn
  rw [slice_take _ _ hn]

theorem argument_packet {c : HcpComm} {cmd : Nat} {args : List CmdArg}
    (h : c.packet = encodePacket cmd args) (hsize : c.pktSize ≤ 65535) (t : Nat) :
    c.argument t = (firstArg args t).map CmdArg.data := by
  have hfind := findArg_packet h hsize t
  split at hfind <;> rename_i ha
  · obtain ⟨pre, post, -, -, hsome, hdata, hle⟩ := hfind
    rw [ha]
    exact argument_eq_some.2 ⟨_, hsome, hle, hdata⟩
  · rw [ha, HcpComm.argument, hfind]
    rfl

/-! ## Answers -/

/-- The chain holds the answer `args` to `cmd`. -/
structure Answered (c : HcpComm) (cmd : Nat) (args : List CmdArg) (max : Nat) : Prop where
  packet_eq : c.packet = encodePacket cmd args
  size_le : c.pktSize ≤ 65535
  result_eq : c.bepResult = resultOf args
  max_eq : c.pktSizeMax = max

/-- A packet can arrive in some chunks, within `rounds` rounds, in a buffer of `max` bytes. -/
structure Receivable (b : List Byte) (rounds max : Nat) : Prop where
  length_lt : b.length < max
  size_le : b.length ≤ 65535
  chunks : ∃ cs, Complete cs ∧ reassemble cs = b ∧ cs.length < rounds

theorem receivable_single {b : List Byte} {rounds max : Nat} (hrounds : 2 ≤ rounds)
    (hlen : b.length ≤ APP_MTU) (hmax : APP_MTU < max) : Receivable b rounds max := by
  have hle : b.length ≤ 242 := hlen
  exact ⟨hlen.trans_lt hmax, by omega, [singleChunk b hlen], Nat.le_refl 1,
    reassemble_single b hlen, hrounds⟩

theorem receivable_segments {b : List Byte} {rounds max : Nat} (hlt : b.length < 65536)
    (hrounds : b.length / APP_MTU + 1 < rounds) (hmax : b.length < max) :
    Receivable b rounds max :=
  ⟨hmax, Nat.le_of_lt_succ hlt, _, complete_segments b hlt, reassemble_segments b hlt,
    by rwa [segments_length]⟩

/-- An exchange that is answered. -/
theorem tranceive_answered {c : HcpComm} {rounds cmd : Nat} {args : List CmdArg}
    (harr : Receivable (encodePacket cmd args) rounds c.pktSizeMax)
    (hres : ∀ a ∈ args, a.type = ARG_RESULT → a.data ≠ []) :
    ∃ es c', Runs ((bmliteTranceive rounds).run c) es (FPC_BEP_RESULT_OK, c') ∧
      Answered c' cmd args c.pktSizeMax := by
  obtain ⟨hmax, hle, cs, hcs, hpacket, hrounds⟩ := harr
  obtain ⟨es₁, hsent⟩ := exists_sent
    ((segments c.outgoing (outgoing_length_lt c)).map Chunk.bytes)
  obtain ⟨es₂, harrive⟩ := exists_arrive c.phyRxTimeout cs
  obtain ⟨t, x, hx, hrun⟩ := tranceive_complete hsent harrive hcs hrounds
    (by rwa [hpacket]) (by rw [hpacket]; exact Nat.lt_succ_of_le hle)
  rw [hpacket] at hx
  obtain ⟨hresult, hpkt, hsize⟩ := withResult_holding c t cmd hle hres
  rw [← hx] at hresult hpkt hsize
  refine ⟨_, x, hrun, hpkt, hsize, hresult, ?_⟩
  rw [hx]
  unfold HcpComm.withResult
  split <;> rfl

/-- A command that is answered. -/
theorem sendCmd_receivable {c : HcpComm} {rounds : Nat} (cmd : Nat) {argKey : Nat}
    (hkey : argKey < 65536) (cmd' : Nat) (args : List CmdArg)
    (harr : Receivable (encodePacket cmd' args) rounds c.pktSizeMax) (hmax : APP_MTU < c.pktSizeMax)
    (hres : ∀ a ∈ args, a.type = ARG_RESULT → a.data ≠ []) :
    ∃ es x, Runs ((bmliteSendCmd rounds cmd argKey).run c) es (FPC_BEP_RESULT_OK, x.after) ∧
      exchanges es = [x] ∧ x.Requests cmd (keyCall argKey hkey) ∧ x.com = FPC_BEP_RESULT_OK ∧
      Answered x.after cmd' args c.pktSizeMax := by
  have hmax' : 242 < c.pktSizeMax := hmax
  obtain ⟨es, c', hrun, hans⟩ := tranceive_answered (c := c.prepare cmd argKey)
    (by rwa [prepare_max_eq]) hres
  rw [prepare_max_eq] at hans
  have hrun' := (@runs_sendCmd c c' rounds cmd argKey es FPC_BEP_RESULT_OK).2
    (by rw [if_neg (fun h => by omega)]; exact hrun)
  obtain ⟨x, hx, hreq, hcom, rfl⟩ := (sendCmd_commanded hkey hrun').ok
  exact ⟨es, x, hrun', hx, hreq, hcom, hans⟩

/-- A command that is answered in one chunk. -/
theorem sendCmd_answered {c : HcpComm} {rounds : Nat} (hrounds : 2 ≤ rounds) (cmd : Nat)
    {argKey : Nat} (hkey : argKey < 65536) (cmd' : Nat) (args : List CmdArg)
    (hlen : (encodePacket cmd' args).length ≤ APP_MTU) (hmax : APP_MTU < c.pktSizeMax)
    (hres : ∀ a ∈ args, a.type = ARG_RESULT → a.data ≠ []) :
    ∃ es x, Runs ((bmliteSendCmd rounds cmd argKey).run c) es (FPC_BEP_RESULT_OK, x.after) ∧
      exchanges es = [x] ∧ x.Requests cmd (keyCall argKey hkey) ∧ x.com = FPC_BEP_RESULT_OK ∧
      Answered x.after cmd' args c.pktSizeMax :=
  sendCmd_receivable cmd hkey cmd' args (receivable_single hrounds hlen hmax) hmax hres

theorem sendCmdArg_answered {c : HcpComm} {rounds : Nat} (hrounds : 2 ≤ rounds) (cmd : Nat)
    {argKey : Nat} (hkey : argKey < 65536) (arg : CmdArg) (harg : arg.data.length ≤ 200)
    (cmd' : Nat) (args : List CmdArg) (hlen : (encodePacket cmd' args).length ≤ APP_MTU)
    (hmax : APP_MTU < c.pktSizeMax) (hres : ∀ a ∈ args, a.type = ARG_RESULT → a.data ≠ []) :
    ∃ es x, Runs ((bmliteSendCmdArg rounds cmd argKey arg.type arg.data arg.data.length).run c) es
        (FPC_BEP_RESULT_OK, x.after) ∧
      exchanges es = [x] ∧ x.Requests cmd (keyCall argKey hkey ++ [arg]) ∧
      x.com = FPC_BEP_RESULT_OK ∧ Answered x.after cmd' args c.pktSizeMax := by
  have hmax' : 242 < c.pktSizeMax := hmax
  have hsize := prepare_size_le c cmd argKey
  have hmax₁ : ((c.prepare cmd argKey).addArg arg.type arg.data arg.data.length).pktSizeMax =
      c.pktSizeMax := prepare_max_eq c cmd argKey
  obtain ⟨es, c', hrun, hans⟩ := tranceive_answered
    (c := (c.prepare cmd argKey).addArg arg.type arg.data arg.data.length)
    (receivable_single hrounds hlen (by rwa [hmax₁])) hres
  rw [hmax₁] at hans
  have hrun' := (@runs_sendCmdArg c c' rounds cmd argKey arg.type arg.data.length arg.data es
    FPC_BEP_RESULT_OK arg.size_lt).2
      (by rw [if_neg (fun h => by omega), if_neg (by omega)]; exact hrun)
  obtain ⟨x, hx, hreq, hcom, rfl⟩ := (sendCmdArg_commanded hkey arg (by omega) hrun').ok
  exact ⟨es, x, hrun', hx, hreq, hcom, hans⟩

/-- A capture that succeeds at the first attempt. -/
theorem capture_answered {c : HcpComm} {rounds : Nat} (hrounds : 2 ≤ rounds) (timeout : Nat)
    (hmax : APP_MTU < c.pktSizeMax) :
    ∃ es x c', Runs ((bepCapture rounds timeout).run c) es (FPC_BEP_RESULT_OK, c') ∧
      exchanges es = [x] ∧ x.Requests CMD_CAPTURE [timeoutArg timeout] ∧ x.Ok ∧
      c'.bepResult = FPC_BEP_RESULT_OK ∧ c'.pktSizeMax = c.pktSizeMax := by
  obtain ⟨es, x, hrun, hx, hreq, hcom, hans⟩ := sendCmdArg_answered
    (c := { c with phyRxTimeout := timeout }) hrounds CMD_CAPTURE (by decide : ARG_NONE < 65536)
    (timeoutArg timeout) (by decide : 2 ≤ 200) CMD_CAPTURE [] (by decide) hmax (by simp)
  have hok : x.after.bepResult = FPC_BEP_RESULT_OK := hans.result_eq
  refine ⟨es, x, _, runs_bepCapture.2 ⟨x.after, ?_, rfl⟩, hx, hreq, ⟨hcom, hok⟩, hok, hans.max_eq⟩
  simp only [MAX_SINGLE_CAPTURE_ATTEMPTS, bepCapture.attempts, StateT.run_bind, StateT.run_get,
    pure_eq, ret_bind]
  rw [← List.append_nil es]
  refine Runs.bind hrun ?_
  simp only [hok, and_self, if_true]
  exact .refl _

end BMLite
