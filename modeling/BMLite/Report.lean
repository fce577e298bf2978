import BMLite.Commands

/-!
# What a failed exchange reports

* `SentExactly` — what the result of `bmlite_send` should say about its frames; `send_exact_iff` —
  **it says so exactly when** the value of the ACK is never read after a failed write, or by a read
  that fails;
* `HcpComm.setResult` — another `bep_result` before the exchange, which changes nothing in it
  (`send_setResult`, `receive_setResult`);
* `tranceive_result_iff` — **a failed `bmlite_tranceive` leaves `bep_result` alone exactly when**
  the transport has not acknowledged every frame of the request.
-/

set_option autoImplicit false

namespace BMLite

open FlatMemory Process

/-! ## What has been delivered -/

/-- A frame was delivered: its write, with result `w`, and the read that follows it succeeded, and
that read delivered the ACK. -/
def FrameAcked (w r : FpcBepResult) (ack : List Byte) : Prop :=
  w = FPC_BEP_RESULT_OK ∧ r = FPC_BEP_RESULT_OK ∧ dec32 (ack.take 4) = FPC_BEP_ACK

/-- The frames `fs` are written in order, up to the first one that is not delivered; the result is
OK if and only if there is none. -/
inductive SentExactly : List (List Byte) → List HcpEvent → FpcBepResult → Prop
  | done : SentExactly [] [] FPC_BEP_RESULT_OK
  | fail {f fs w r d res} : ¬ FrameAcked w r d → res ≠ FPC_BEP_RESULT_OK →
      SentExactly (f :: fs) [.write f 0 w, .read 4 500 r d] res
  | next {f fs w r d es res} : FrameAcked w r d → SentExactly fs es res →
      SentExactly (f :: fs) (.write f 0 w :: .read 4 500 r d :: es) res

/-- Wherever a write is followed by a read that does not time out and leaves the value of the ACK,
both of them succeeded. -/
def AcksMean : List HcpEvent → Prop
  | .write _ _ w :: .read _ _ r d :: es =>
    (r ≠ FPC_BEP_RESULT_TIMEOUT → dec32 (d.take 4) = FPC_BEP_ACK →
      w = FPC_BEP_RESULT_OK ∧ r = FPC_BEP_RESULT_OK) ∧ AcksMean es
  | _ => True

theorem ackResult_eq_ok {r : FpcBepResult} {ack : List Byte} :
    ackResult r ack = FPC_BEP_RESULT_OK ↔
      r ≠ FPC_BEP_RESULT_TIMEOUT ∧ dec32 ack = FPC_BEP_ACK := by
  unfold ackResult
  split <;> rename_i hr
  · refine iff_of_false (by decide) fun h => h.1 hr
  · split <;> rename_i hack
    · exact iff_of_false (by decide) fun h => hack h.2
    · exact iff_of_true rfl ⟨hr, not_not.1 hack⟩

theorem FrameAcked.ackResult {w r : FpcBepResult} {d : List Byte} (h : FrameAcked w r d) :
    ackResult r (d.take 4) = FPC_BEP_RESULT_OK := by
  obtain ⟨-, rfl, hack⟩ := h
  exact ackResult_eq_ok.2 ⟨by decide, hack⟩

theorem sent_exact_iff {fs : List (List Byte)} {es : List HcpEvent} {res : FpcBepResult}
    (h : Sent fs es res) : SentExactly fs es res ↔ AcksMean es := by
  induction h with
  | done => exact iff_of_true .done trivial
  | @fail f fs w r d hack =>
    refine iff_of_true (.fail (fun h => hack h.ackResult) hack) ⟨fun hr hd => ?_, trivial⟩
    exact absurd (ackResult_eq_ok.2 ⟨hr, hd⟩) hack
  | @next f fs w r d es res hack hsent ih =>
    obtain ⟨hr, hd⟩ := ackResult_eq_ok.1 hack
    constructor
    · intro h
      cases h with
      | fail _ hres =>
        cases hsent
        exact absurd rfl hres
      | next hacked hrest => exact ⟨fun _ _ => ⟨hacked.1, hacked.2.1⟩, ih.1 hrest⟩
    · intro h
      obtain ⟨hw, hr'⟩ := h.1 hr hd
      exact .next ⟨hw, hr', hd⟩ (ih.2 h.2)

/-- The frames of a request. -/
def HcpComm.frames (c : HcpComm) : List (List Byte) :=
  (segments c.outgoing (outgoing_length_lt c)).map Chunk.bytes

theorem frames_ne_nil (c : HcpComm) : ∃ f fs, c.frames = f :: fs := by
  refine List.exists_cons_of_ne_nil fun hnil => ?_
  have hlen := congrArg List.length hnil
  rw [HcpComm.frames, List.length_map, segments_length] at hlen
  cases hlen

/-- A request whose first frame is not acknowledged. -/
theorem tranceive_unacked (c : HcpComm) {r : FpcBepResult} {d : List Byte}
    (hack : ackResult r (d.take 4) = FPC_BEP_RESULT_IO_ERROR) :
    ∃ (f : List Byte) (x : Exchange), Runs ((bmliteTranceive 1).run c)
        [.write f 0 FPC_BEP_RESULT_OK, .read 4 500 r d, .note x]
        (FPC_BEP_RESULT_IO_ERROR, x.after) ∧
      x.after.pktSizeMax = c.pktSizeMax ∧ x.after.phyRxTimeout = c.phyRxTimeout ∧
      f ∈ c.frames := by
  obtain ⟨f, fs, hframes⟩ := frames_ne_nil c
  have hsent : Sent c.frames [.write f 0 FPC_BEP_RESULT_OK, .read 4 500 r d]
      FPC_BEP_RESULT_IO_ERROR := by
    rw [hframes, ← hack]
    exact .fail (by rw [hack]; decide)
  obtain ⟨t, hsend⟩ := runs_send.1.2 hsent
  exact ⟨f, ⟨_, FPC_BEP_RESULT_IO_ERROR, _⟩,
    runs_tranceive.2 (.inl ⟨by decide, _, rfl, hsend⟩), rfl, rfl, by simp [hframes]⟩

/-- **`bmlite_send` reports exactly what was delivered, exactly when** the value of the ACK is left
by reads that succeed, after writes that succeed. -/
theorem send_exact_iff {c c' : HcpComm} {es : List HcpEvent} {r : FpcBepResult}
    (h : Runs (bmliteSend.run c) es (r, c')) : SentExactly c.frames es r ↔ AcksMean es :=
  sent_exact_iff (runs_send_cases h).2

/-- The frame of an empty request. -/
def emptyFrame : List Byte := [0, 0, 6, 0, 0, 0, 1, 0, 1, 0, 0x87, 0xf7, 0x65, 0x10]

theorem frames_empty : hcpChain.frames = [emptyFrame] := by decide +kernel

/-- A packet of three frames, of which all are delivered, or all but the last. -/
theorem send_exact_three : (countingChain 600).frames.length = 3 ∧
    (∃ es c', Runs (bmliteSend.run (countingChain 600)) es (FPC_BEP_RESULT_OK, c') ∧
      SentExactly (countingChain 600).frames es FPC_BEP_RESULT_OK) ∧
    ∃ es c', Runs (bmliteSend.run (countingChain 600)) es (FPC_BEP_RESULT_IO_ERROR, c') ∧
      SentExactly (countingChain 600).frames es FPC_BEP_RESULT_IO_ERROR := by
  have hlen : (countingChain 600).frames.length = 3 := by
    rw [HcpComm.frames, List.length_map, segments_length, HcpComm.outgoing, slice_length]
    rfl
  obtain ⟨f₁, f₂, f₃, hfs⟩ := List.length_eq_three.1 hlen
  have hack : ackResult FPC_BEP_RESULT_OK (fpcComAck.take 4) = FPC_BEP_RESULT_OK := by decide
  have hnak : ackResult FPC_BEP_RESULT_TIMEOUT ([].take 4) = FPC_BEP_RESULT_IO_ERROR := by decide
  have hall : Sent (countingChain 600).frames
      [.write f₁ 0 FPC_BEP_RESULT_OK, .read 4 500 FPC_BEP_RESULT_OK fpcComAck,
        .write f₂ 0 FPC_BEP_RESULT_OK, .read 4 500 FPC_BEP_RESULT_OK fpcComAck,
        .write f₃ 0 FPC_BEP_RESULT_OK, .read 4 500 FPC_BEP_RESULT_OK fpcComAck]
      FPC_BEP_RESULT_OK := hfs ▸ .next hack (.next hack (.next hack .done))
  have hlast : Sent (countingChain 600).frames
      [.write f₁ 0 FPC_BEP_RESULT_OK, .read 4 500 FPC_BEP_RESULT_OK fpcComAck,
        .write f₂ 0 FPC_BEP_RESULT_OK, .read 4 500 FPC_BEP_RESULT_OK fpcComAck,
        .write f₃ 0 FPC_BEP_RESULT_OK, .read 4 500 FPC_BEP_RESULT_TIMEOUT []]
      FPC_BEP_RESULT_IO_ERROR :=
    hfs ▸ .next hack (.next hack (hnak ▸ .fail (by rw [hnak]; decide)))
  obtain ⟨t, hrun⟩ := runs_send.1.2 hall
  obtain ⟨t', hrun'⟩ := runs_send.1.2 hlast
  have hok : FPC_BEP_RESULT_OK = FPC_BEP_RESULT_OK ∧ FPC_BEP_RESULT_OK = FPC_BEP_RESULT_OK :=
    ⟨rfl, rfl⟩
  refine ⟨hlen, ⟨_, _, hrun, (send_exact_iff hrun).2 ?_⟩, _, _, hrun', (send_exact_iff hrun').2 ?_⟩
  · exact ⟨fun _ _ => hok, fun _ _ => hok, fun _ _ => hok, trivial⟩
  · exact ⟨fun _ _ => hok, fun _ _ => hok, fun h => absurd rfl h, trivial⟩

/-- **A write that fails is reported as OK** when the read that follows it delivers the ACK. -/
theorem send_failed_write : ∃ es c', Runs (bmliteSend.run hcpChain) es (FPC_BEP_RESULT_OK, c') ∧
    ¬ SentExactly hcpChain.frames es FPC_BEP_RESULT_OK := by
  have hsent : Sent hcpChain.frames [.write emptyFrame 0 FPC_BEP_RESULT_IO_ERROR,
      .read 4 500 FPC_BEP_RESULT_OK fpcComAck] FPC_BEP_RESULT_OK := by
    rw [frames_empty]
    exact .next (by decide) .done
  obtain ⟨t, hrun⟩ := runs_send.1.2 hsent
  refine ⟨_, _, hrun, fun h => ?_⟩
  rw [frames_empty] at h
  cases h with
  | fail _ hres => exact hres rfl
  | next hacked _ => exact absurd hacked.1 (by decide)

/-! ## The result of the command -/

/-- The chain with another `bep_result`. -/
def HcpComm.setResult (c : HcpComm) (v : FpcBepResult) : HcpComm := { c with bepResult := v }

theorem txLink_setResult {c c' : HcpComm} {es : List HcpEvent} {r : FpcBepResult}
    (h : Runs (txLink.run c) es (r, c')) (v : FpcBepResult) :
    Runs (txLink.run (c.setResult v)) es (r, c'.setResult v) := by
  obtain ⟨w, r₁, d, rfl, rfl, rfl⟩ := runs_txLink.1 h
  exact runs_txLink.2 ⟨w, r₁, d, rfl, rfl, rfl⟩

theorem send_loop_setResult (v : FpcBepResult) (rounds : Nat) :
    ∀ {c c' : HcpComm} {seqLen seqNr dataLeft p : Nat} {bepResult r : FpcBepResult}
      {es : List HcpEvent},
      Runs ((bmliteSend.loop APP_MTU seqLen rounds seqNr dataLeft p bepResult).run c) es (r, c') →
      Runs ((bmliteSend.loop APP_MTU seqLen rounds seqNr dataLeft p bepResult).run
        (c.setResult v)) es (r, c'.setResult v) := by
  induction rounds with
  | zero =>
    intro c c' seqLen seqNr dataLeft p bepResult r es h
    exact absurd h runs_out
  | succ rounds ih =>
    intro c c' seqLen seqNr dataLeft p bepResult r es h
    by_cases hgo : seqNr ≤ seqLen ∧ bepResult = FPC_BEP_RESULT_OK
    · obtain ⟨hle, rfl⟩ := hgo
      rw [(send_loop_step hle).runs_iff] at h ⊢
      obtain ⟨⟨r₁, c₁⟩, es₁, es₂, rfl, hlink, hrest⟩ := runs_bind.1 h
      exact (txLink_setResult hlink v).bind (ih hrest)
    · obtain ⟨rfl, rfl, rfl⟩ := (runs_send_exit hgo).1 h
      exact (runs_send_exit hgo).2 ⟨rfl, rfl, rfl⟩

/-- `bmlite_send` does not look at `bep_result`. -/
theorem send_setResult {c c' : HcpComm} {es : List HcpEvent} {r : FpcBepResult}
    (h : Runs (bmliteSend.run c) es (r, c')) (v : FpcBepResult) :
    Runs (bmliteSend.run (c.setResult v)) es (r, c'.setResult v) := by
  rw [send_run, runs_touch, runs_touch, runs_bind_reportResult] at h ⊢
  exact send_loop_setResult v _ h

theorem rxLink_setResult {c c' : HcpComm} {es : List HcpEvent} {r : FpcBepResult}
    (h : RxLink c es r c') (v : FpcBepResult) : RxLink (c.setResult v) es r (c'.setResult v) := by
  cases h with
  | noHeader hr => exact .noHeader hr
  | tooLong hc₁ hsize =>
    subst hc₁
    exact .tooLong rfl hsize
  | @badCrc d r d' c₁ c₂ hc₁ hsize hc₂ hcrc =>
    subst hc₁ hc₂
    exact @RxLink.badCrc (c.setResult v) d r d' ((c.fill 0 (d.take 4)).setResult v) _ rfl hsize rfl
      hcrc
  | @accepted d r d' w c₁ c₂ hc₁ hsize hc₂ hcrc =>
    subst hc₁ hc₂
    exact @RxLink.accepted (c.setResult v) d r d' w ((c.fill 0 (d.take 4)).setResult v) _ rfl hsize
      rfl hcrc

theorem takeChunk_setResult (c : HcpComm) (v : FpcBepResult) (p bufLen : Nat)
    (comResult : FpcBepResult) :
    (c.setResult v).takeChunk p bufLen comResult =
      ⟨(c.takeChunk p bufLen comResult).comm.setResult v, (c.takeChunk p bufLen comResult).p,
        (c.takeChunk p bufLen comResult).bufLen, (c.takeChunk p bufLen comResult).comResult⟩ := by
  by_cases hsize : (c.tSize : Int) ≠ (c.lnkSize : Int) - 6
  · rw [takeChunk_of_ne hsize, takeChunk_of_ne (c := c.setResult v) hsize]
  by_cases hfit : bufLen + c.tSize < c.pktSizeMax
  · rw [takeChunk_of_takes ⟨not_not.1 hsize, hfit⟩,
      takeChunk_of_takes (c := c.setResult v) ⟨not_not.1 hsize, hfit⟩]
    rfl
  · rw [takeChunk_of_full (not_not.1 hsize) hfit,
      takeChunk_of_full (c := c.setResult v) (not_not.1 hsize) hfit]

/-- Nor does `bmlite_receive`. -/
theorem receive_setResult (v : FpcBepResult) (rounds : Nat) :
    ∀ {c c' : HcpComm} {seqNr seqLen p bufLen : Nat} {comResult r : FpcBepResult}
      {es : List HcpEvent},
      Runs ((bmliteReceive.loop rounds seqNr seqLen p bufLen comResult).run c) es (r, c') →
      Runs ((bmliteReceive.loop rounds seqNr seqLen p bufLen comResult).run (c.setResult v)) es
        (r, c'.setResult v) := by
  induction rounds with
  | zero =>
    intro c c' seqNr seqLen p bufLen comResult r es h
    exact absurd h runs_out
  | succ rounds ih =>
    intro c c' seqNr seqLen p bufLen comResult r es h
    by_cases hgo : seqNr < seqLen
    · apply (runs_receive_round hgo).2
      rcases (runs_receive_round hgo).1 h with ⟨hr, hlink⟩ | ⟨es₁, es₂, c₁, rfl, hlink, hrest⟩
      · exact .inl ⟨hr, rxLink_setResult hlink v⟩
      · refine .inr ⟨es₁, es₂, c₁.setResult v, rfl, rxLink_setResult hlink v, ?_⟩
        rw [takeChunk_setResult]
        exact ih hrest
    · obtain ⟨rfl, rfl, rfl⟩ := (runs_receive_exit hgo).1 h
      exact (runs_receive_exit hgo).2 ⟨rfl, rfl, rfl⟩

/-- The result that is taken from a packet does not depend on the one that it replaces. -/
theorem withResult_setResult (c : HcpComm) (v : FpcBepResult) :
    (c.setResult v).withResult.bepResult = c.withResult.bepResult := by
  have hfind : (c.setResult v).findArg ARG_RESULT = c.findArg ARG_RESULT := rfl
  unfold HcpComm.withResult
  rw [hfind]
  cases c.findArg ARG_RESULT with
  | some a => rfl
  | none => rfl

variable {S : Type} {env : Env Byte FpcBepResult S}

/-- In the environment `env`, from its state `s`, an exchange that fails leaves `bep_result` as it
was, whatever it was. -/
def ResultKept (env : Env Byte FpcBepResult S) (s : S) (rounds : Nat) (c : HcpComm) : Prop :=
  ∀ v r c' s', ((bmliteTranceive rounds).run (c.setResult v)).runIn env s = some ((r, c'), s') →
    r ≠ FPC_BEP_RESULT_OK → c'.bepResult = v

/-- The environment acknowledges every frame of the request. -/
def Acknowledges (env : Env Byte FpcBepResult S) (s : S) (c : HcpComm) : Prop :=
  ∃ es s', Sent c.frames es FPC_BEP_RESULT_OK ∧ env.Answers s es s'

/-- **A failed exchange leaves `bep_result` alone exactly when** the transport has not acknowledged
every frame of the request. -/
theorem tranceive_result_iff {s s' : S} {rounds : Nat} {c c' : HcpComm} {r : FpcBepResult}
    (h : ((bmliteTranceive rounds).run c).runIn env s = some ((r, c'), s'))
    (hr : r ≠ FPC_BEP_RESULT_OK) : ResultKept env s rounds c ↔ ¬ Acknowledges env s c := by
  obtain ⟨es, hrun, hans⟩ := runIn_iff.1 h
  constructor
  · intro hkept hack
    rcases runs_tranceive.1 hrun with ⟨-, es₁, rfl, hsend⟩ | ⟨es₁, es₂, c₁, c₂, rfl, hsend, hrecv, -⟩
    · -- A request that is acknowledged is sent.
      obtain ⟨es₀, s₀, hsent, hans₀⟩ := hack
      obtain ⟨t, hsend₀⟩ := runs_send.1.2 hsent
      obtain ⟨s₁, hans₁, -⟩ := Env.answers_append.1 hans
      obtain ⟨-, heq, -⟩ := Env.runs_unique hsend hans₁ hsend₀ hans₀
      cases heq
      exact hr rfl
    · have hfinal (v : FpcBepResult) : c₂.withResult.bepResult = v := by
        have hrun' : Runs ((bmliteTranceive rounds).run (c.setResult v))
            (es₁ ++ es₂ ++ [.note ⟨c.setResult v, r, (c₂.setResult v).withResult⟩])
            (r, (c₂.setResult v).withResult) :=
          runs_tranceive.2 (.inr ⟨es₁, es₂, _, _, rfl, send_setResult hsend v,
            receive_setResult v rounds hrecv, rfl⟩)
        have hans' : env.Answers s
            (es₁ ++ es₂ ++ [.note ⟨c.setResult v, r, (c₂.setResult v).withResult⟩]) s' := by
          rw [Env.answers_append] at hans ⊢
          exact hans
        rw [← withResult_setResult c₂ v]
        exact hkept v r _ s' (runIn_iff.2 ⟨_, hrun', hans'⟩) hr
      have hboth : FPC_BEP_RESULT_OK = FPC_BEP_RESULT_GENERAL_ERROR :=
        (hfinal _).symm.trans (hfinal _)
      exact absurd hboth (by decide)
  · intro hno v r₁ c₁ s₁ h₁ hr₁
    obtain ⟨es₁, hrun₁, hans₁⟩ := runIn_iff.1 h₁
    rcases runs_tranceive.1 hrun₁ with ⟨-, es₂, rfl, hsend⟩ | ⟨es₂, es₃, c₂, c₃, rfl, hsend, -⟩
    · obtain ⟨⟨t, rfl⟩, -⟩ := runs_send_cases hsend
      rfl
    · obtain ⟨-, hsent⟩ := runs_send_cases hsend
      rw [List.append_assoc, Env.answers_append] at hans₁
      obtain ⟨s₂, hans₂, -⟩ := hans₁
      exact absurd ⟨es₂, s₂, hsent, hans₂⟩ hno

/-- A module that acknowledges every frame, or none, and never sends one. -/
def quietEnv (acks : Bool) : Env Byte FpcBepResult Unit where
  onWrite _ _ _ := some (FPC_BEP_RESULT_OK, ())
  onRead _ _ timeout := some
    (if acks ∧ timeout = 500 then (FPC_BEP_RESULT_OK, fpcComAck) else (FPC_BEP_RESULT_TIMEOUT, []),
      ())

/-- `CMD_IDENTIFY` in the chain of the example program, after a command that failed. -/
def identifyChain : HcpComm :=
  (hcpChain.initCmd CMD_IDENTIFY).setResult FPC_BEP_RESULT_GENERAL_ERROR

/-- A request that is not acknowledged. -/
theorem tranceive_result_unsent : ∃ r c',
    ((bmliteTranceive 1).run identifyChain).runIn (quietEnv false) () = some ((r, c'), ()) ∧
      r ≠ FPC_BEP_RESULT_OK ∧ ResultKept (quietEnv false) () 1 identifyChain := by
  have hres : (((bmliteTranceive 1).run identifyChain).runIn (quietEnv false) ()).map (·.1.1) =
      some FPC_BEP_RESULT_IO_ERROR := by
    decide +kernel
  obtain ⟨⟨⟨r, c'⟩, ⟨⟩⟩, hrun, hr⟩ := Option.map_eq_some_iff.1 hres
  have hne : r ≠ FPC_BEP_RESULT_OK := by
    rw [show r = FPC_BEP_RESULT_IO_ERROR from hr]
    decide
  refine ⟨r, c', hrun, hne, (tranceive_result_iff hrun hne).2 ?_⟩
  intro ⟨es, s', hsent, hans⟩
  have hlen : identifyChain.frames.length = 1 := by decide +kernel
  obtain ⟨f, hf⟩ := List.length_eq_one_iff.1 hlen
  rw [hf] at hsent
  generalize hok : FPC_BEP_RESULT_OK = res at hsent
  cases hsent with
  | fail hack => exact hack hok.symm
  | next hack _ =>
    obtain ⟨⟨⟩, -, ⟨⟩, hread, -⟩ := hans
    cases hread
    exact absurd hack (by decide)

/-- **The result of a command whose answer never came is OK.** -/
theorem tranceive_result_lost :
    (((bmliteTranceive 1).run identifyChain).runIn (quietEnv true) ()).map
        (fun x => (x.1.1, x.1.2.bepResult)) = some (FPC_BEP_RESULT_TIMEOUT, FPC_BEP_RESULT_OK) ∧
      identifyChain.bepResult ≠ FPC_BEP_RESULT_OK := by
  decide +kernel

end BMLite
