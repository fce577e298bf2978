import BMLite.Send

/-!
# `bmlite_receive`

* `HcpComm.takeChunk` — what one accepted frame does to the packet;
* `receive_round_run`, `runs_receive_round` — one round of the loop; `RxRounds` — all of them;
* `Arrive` — the events by which chunks are received;
* `receive_arrive` — chunks that end the packet, and fit, are received and put together;
* `receive_ok` — **what an accepted packet consists of**: the payloads of all frames that were
  consumed, in the order of their arrival;
* `burst_rejected` — **a frame damaged by an error burst ends the reception with `IO_ERROR`**, and
  nothing of it is copied.
-/

set_option autoImplicit false

namespace BMLite

open FlatMemory Process

/-! ## One round -/

/-- The chain and the loop's variables after a frame. -/
structure Taken where
  comm : HcpComm
  p : Nat
  bufLen : Nat
  comResult : FpcBepResult

/-- The accepted frame in `txrx_buffer` is skipped or appended to the packet. -/
def HcpComm.takeChunk (c : HcpComm) (p bufLen : Nat) (comResult : FpcBepResult) : Taken :=
  if (c.tSize : Int) ≠ (c.lnkSize : Int) - 6 then ⟨c, p, bufLen, FPC_BEP_RESULT_IO_ERROR⟩
  else if bufLen + c.tSize < c.pktSizeMax then
    ⟨{ c with pktBuffer := blit c.pktBuffer p (slice c.txrxBuffer 10 c.tSize) }, p + c.tSize,
      (bufLen + c.tSize) % 65536, comResult⟩
  else ⟨c, p, bufLen, FPC_BEP_RESULT_NO_MEMORY⟩

/-- The accepted frame in `txrx_buffer` is appended to the packet. -/
def HcpComm.Takes (c : HcpComm) (bufLen : Nat) : Prop :=
  (c.tSize : Int) = (c.lnkSize : Int) - 6 ∧ bufLen + c.tSize < c.pktSizeMax

instance (c : HcpComm) (bufLen : Nat) : Decidable (c.Takes bufLen) :=
  inferInstanceAs (Decidable (_ ∧ _))

theorem takeChunk_of_takes {c : HcpComm} {bufLen : Nat} (h : c.Takes bufLen) (p : Nat)
    (comResult : FpcBepResult) :
    c.takeChunk p bufLen comResult =
      ⟨{ c with pktBuffer := blit c.pktBuffer p (slice c.txrxBuffer 10 c.tSize) }, p + c.tSize,
        (bufLen + c.tSize) % 65536, comResult⟩ := by
  unfold HcpComm.takeChunk
  rw [if_neg (not_not.2 h.1), if_pos h.2]

/-- A frame whose sizes do not agree is skipped. -/
theorem takeChunk_of_ne {c : HcpComm} (h : (c.tSize : Int) ≠ (c.lnkSize : Int) - 6) (p bufLen : Nat)
    (comResult : FpcBepResult) :
    c.takeChunk p bufLen comResult = ⟨c, p, bufLen, FPC_BEP_RESULT_IO_ERROR⟩ :=
  if_pos h

/-- A frame that does not fit is skipped. -/
theorem takeChunk_of_full {c : HcpComm} {bufLen : Nat} (h : (c.tSize : Int) = (c.lnkSize : Int) - 6)
    (hfull : ¬ bufLen + c.tSize < c.pktSizeMax) (p : Nat) (comResult : FpcBepResult) :
    c.takeChunk p bufLen comResult = ⟨c, p, bufLen, FPC_BEP_RESULT_NO_MEMORY⟩ := by
  unfold HcpComm.takeChunk
  rw [if_neg (not_not.2 h), if_neg hfull]

/-- The accesses after an accepted frame. -/
def copyChunk {α : Type} (c : HcpComm) (p bufLen : Nat) (next : HcpProc α) : HcpProc α :=
  .touch (.access ⟨.txrx, false, 6, 2⟩) <| .touch (.access ⟨.txrx, false, 8, 2⟩) <|
    .touch (.access ⟨.txrx, false, 4, 2⟩) <| .touch (.access ⟨.txrx, false, 2, 2⟩) <|
      if c.Takes bufLen then
        .touch (.access ⟨.txrx, false, 10, c.tSize⟩) <|
          .touch (.access ⟨.pkt, true, p, c.tSize⟩) next
      else next

theorem copyChunk_steps {α : Type} (c : HcpComm) (p bufLen : Nat) (next : HcpProc α) :
    Steps (copyChunk c p bufLen next) [] next := by
  refine .touch <| .touch <| .touch <| .touch ?_
  split
  · exact .touch <| .touch <| .refl _
  · exact .refl _

/-- A round is a call of `_rx_link`, followed by the next round or by the return of its error. -/
theorem receive_round_run {c : HcpComm} {rounds seqNr seqLen p bufLen : Nat}
    {comResult : FpcBepResult} (h : seqNr < seqLen) :
    (bmliteReceive.loop (rounds + 1) seqNr seqLen p bufLen comResult).run c =
      (rxLink.run c >>= fun x =>
        if x.1 = FPC_BEP_RESULT_OK then
          copyChunk x.2 p bufLen
            ((bmliteReceive.loop rounds x.2.seqNr x.2.seqLen (x.2.takeChunk p bufLen comResult).p
              (x.2.takeChunk p bufLen comResult).bufLen
              (x.2.takeChunk p bufLen comResult).comResult).run
                (x.2.takeChunk p bufLen comResult).comm)
        else reportResult x) := by
  simp only [bmliteReceive.loop, h, if_true, StateT.run_bind]
  congr 1
  funext x
  split
  · simp only [StateT.run_bind, run_load16, touch_bind, ret_bind]
    refine congrArg _ <| congrArg _ <| congrArg _ <| congrArg _ ?_
    by_cases hsize : (x.2.tSize : Int) ≠ (x.2.lnkSize : Int) - 6
    · have hno : ¬ x.2.Takes bufLen := fun ht => hsize ht.1
      rw [takeChunk_of_ne hsize, if_neg hno]
      exact congrArg (StateT.run · x.2) (if_pos hsize)
    · refine (congrArg (StateT.run · x.2) (if_neg hsize)).trans ?_
      simp only [StateT.run_bind, StateT.run_get, pure_eq, ret_bind]
      by_cases hfit : bufLen + x.2.tSize < x.2.pktSizeMax
      · have hyes : x.2.Takes bufLen := ⟨not_not.1 hsize, hfit⟩
        rw [takeChunk_of_takes hyes, if_pos hyes]
        refine (congrArg (StateT.run · x.2) (if_pos hfit)).trans ?_
        simp only [StateT.run_bind, run_load, run_store, touch_bind, ret_bind, slice_length]
        rfl
      · have hno : ¬ x.2.Takes bufLen := fun ht => hfit ht.2
        rw [takeChunk_of_full (not_not.1 hsize) hfit, if_neg hno]
        exact congrArg (StateT.run · x.2) (if_neg hfit)
  · rename_i hr
    exact (if_pos hr).symm

/-- A frame that is accepted leads to the next round. -/
theorem receive_round_step {c c₁ : HcpComm} {rounds seqNr seqLen p bufLen : Nat}
    {comResult : FpcBepResult} {es : List HcpEvent} (h : seqNr < seqLen)
    (hlink : Runs (rxLink.run c) es (FPC_BEP_RESULT_OK, c₁)) :
    Steps ((bmliteReceive.loop (rounds + 1) seqNr seqLen p bufLen comResult).run c) es
      ((bmliteReceive.loop rounds c₁.seqNr c₁.seqLen (c₁.takeChunk p bufLen comResult).p
        (c₁.takeChunk p bufLen comResult).bufLen (c₁.takeChunk p bufLen comResult).comResult).run
          (c₁.takeChunk p bufLen comResult).comm) := by
  rw [receive_round_run h, ← List.append_nil es]
  exact hlink.bind (copyChunk_steps ..)

/-- **One round of the loop.** -/
theorem runs_receive_round {c c' : HcpComm} {rounds seqNr seqLen p bufLen : Nat}
    {comResult r : FpcBepResult} {es : List HcpEvent} (h : seqNr < seqLen) :
    Runs ((bmliteReceive.loop (rounds + 1) seqNr seqLen p bufLen comResult).run c) es (r, c') ↔
      (r ≠ FPC_BEP_RESULT_OK ∧ RxLink c es r c') ∨
      ∃ es₁ es₂ c₁, es = es₁ ++ es₂ ∧ RxLink c es₁ FPC_BEP_RESULT_OK c₁ ∧
        Runs ((bmliteReceive.loop rounds c₁.seqNr c₁.seqLen (c₁.takeChunk p bufLen comResult).p
          (c₁.takeChunk p bufLen comResult).bufLen (c₁.takeChunk p bufLen comResult).comResult).run
            (c₁.takeChunk p bufLen comResult).comm) es₂ (r, c') := by
  rw [receive_round_run h, runs_bind]
  constructor
  · rintro ⟨⟨r₁, c₁⟩, es₁, es₂, rfl, hlink, hrest⟩
    split at hrest <;> rename_i hr
    · cases hr
      exact .inr ⟨es₁, es₂, c₁, rfl, runs_rxLink.1 hlink, (copyChunk_steps ..).runs_iff.1 hrest⟩
    · obtain ⟨rfl, ⟨⟩⟩ := runs_reportResult.1 hrest
      exact .inl ⟨hr, by rw [List.append_nil]; exact runs_rxLink.1 hlink⟩
  · rintro (⟨hr, hlink⟩ | ⟨es₁, es₂, c₁, rfl, hlink, hrest⟩)
    · refine ⟨(r, c'), es, [], by simp, runs_rxLink.2 hlink, ?_⟩
      rw [if_neg hr]
      exact runs_reportResult.2 ⟨rfl, rfl⟩
    · refine ⟨_, es₁, es₂, rfl, runs_rxLink.2 hlink, ?_⟩
      rw [if_pos rfl]
      exact (copyChunk_steps ..).runs_iff.2 hrest

/-- The end of the loop. -/
theorem receive_exit_run {c : HcpComm} {rounds seqNr seqLen p bufLen : Nat}
    {comResult : FpcBepResult} (h : ¬ seqNr < seqLen) :
    (bmliteReceive.loop (rounds + 1) seqNr seqLen p bufLen comResult).run c =
      reportResult (comResult, { c with pktSize := bufLen }) := by
  simp only [bmliteReceive.loop, h, if_false, StateT.run_bind, StateT.run_modify, pure_eq, ret_bind]
  unfold reportResult reportIf
  split <;> rfl

theorem runs_receive_exit {c c' : HcpComm} {rounds seqNr seqLen p bufLen : Nat}
    {comResult r : FpcBepResult} {es : List HcpEvent} (h : ¬ seqNr < seqLen) :
    Runs ((bmliteReceive.loop (rounds + 1) seqNr seqLen p bufLen comResult).run c) es (r, c') ↔
      es = [] ∧ r = comResult ∧ c' = { c with pktSize := bufLen } := by
  rw [receive_exit_run h, runs_reportResult, Prod.mk.injEq]
  exact and_congr_right' (and_congr eq_comm eq_comm)

theorem rxLink_sizes_eq {c c₁ : HcpComm} {es : List HcpEvent} {r : FpcBepResult}
    (h : RxLink c es r c₁) : c₁.pktSize = c.pktSize ∧ c₁.pktSizeMax = c.pktSizeMax := by
  cases h with
  | noHeader _ => exact ⟨rfl, rfl⟩
  | tooLong hc₁ _ => subst hc₁; exact ⟨rfl, rfl⟩
  | badCrc hc₁ _ hc₂ _ => subst hc₁ hc₂; exact ⟨rfl, rfl⟩
  | accepted hc₁ _ hc₂ _ => subst hc₁ hc₂; exact ⟨rfl, rfl⟩

/-- Only the packet buffer is written. -/
theorem takeChunk_comm (c : HcpComm) (p bufLen : Nat) (comResult : FpcBepResult) :
    ∃ b, (c.takeChunk p bufLen comResult).comm = { c with pktBuffer := b } := by
  unfold HcpComm.takeChunk
  split
  · exact ⟨c.pktBuffer, rfl⟩
  · split <;> exact ⟨_, rfl⟩

theorem takeChunk_sizes (c : HcpComm) (p bufLen : Nat) (comResult : FpcBepResult) :
    (c.takeChunk p bufLen comResult).comm.pktSize = c.pktSize ∧
      (c.takeChunk p bufLen comResult).comm.pktSizeMax = c.pktSizeMax := by
  obtain ⟨b, hb⟩ := takeChunk_comm c p bufLen comResult
  rw [hb]
  exact ⟨rfl, rfl⟩

/-- The count of the received bytes is left, or goes up within the packet buffer. -/
theorem takeChunk_bufLen (c : HcpComm) (p bufLen : Nat) (comResult : FpcBepResult) :
    (c.takeChunk p bufLen comResult).bufLen = bufLen ∨
      bufLen + c.tSize < c.pktSizeMax ∧
        (c.takeChunk p bufLen comResult).bufLen = (bufLen + c.tSize) % 65536 := by
  unfold HcpComm.takeChunk
  split
  · exact .inl rfl
  · split <;> rename_i hfit
    · exact .inr ⟨hfit, rfl⟩
    · exact .inl rfl

/-- The rounds of a loop that has received `bufLen` bytes before, with the result `comResult`. -/
inductive RxRounds : HcpComm → Nat → FpcBepResult → List HcpEvent → FpcBepResult → HcpComm → Prop
  | done (c : HcpComm) (bufLen : Nat) (comResult : FpcBepResult) :
    RxRounds c bufLen comResult [] comResult { c with pktSize := bufLen }
  | failed {c c' : HcpComm} {bufLen : Nat} {comResult r : FpcBepResult} {es : List HcpEvent} :
    r ≠ FPC_BEP_RESULT_OK → RxLink c es r c' → RxRounds c bufLen comResult es r c'
  | next {c c₁ c' : HcpComm} {bufLen : Nat} {comResult r : FpcBepResult}
      {es₁ es₂ : List HcpEvent} (p : Nat) :
    RxLink c es₁ FPC_BEP_RESULT_OK c₁ →
    RxRounds (c₁.takeChunk p bufLen comResult).comm (c₁.takeChunk p bufLen comResult).bufLen
      (c₁.takeChunk p bufLen comResult).comResult es₂ r c' →
    RxRounds c bufLen comResult (es₁ ++ es₂) r c'

theorem receive_loop_rounds (rounds : Nat) :
    ∀ {c c' : HcpComm} {seqNr seqLen p bufLen : Nat} {comResult r : FpcBepResult}
      {es : List HcpEvent},
      Runs ((bmliteReceive.loop rounds seqNr seqLen p bufLen comResult).run c) es (r, c') →
      RxRounds c bufLen comResult es r c' := by
  induction rounds with
  | zero =>
    intro c c' seqNr seqLen p bufLen comResult r es h
    exact absurd h runs_out
  | succ rounds ih =>
    intro c c' seqNr seqLen p bufLen comResult r es h
    by_cases hgo : seqNr < seqLen
    · rcases (runs_receive_round hgo).1 h with ⟨hr, hlink⟩ | ⟨es₁, es₂, c₁, rfl, hlink, hrest⟩
      · exact .failed hr hlink
      · exact .next p hlink (ih hrest)
    · obtain ⟨rfl, rfl, rfl⟩ := (runs_receive_exit hgo).1 h
      exact .done c bufLen r

section

variable {c c' : HcpComm} {bufLen : Nat} {comResult r : FpcBepResult} {es : List HcpEvent}

/-- `pkt_size_max` is not changed. -/
theorem RxRounds.max_eq (h : RxRounds c bufLen comResult es r c') :
    c'.pktSizeMax = c.pktSizeMax := by
  induction h with
  | done c bufLen comResult => rfl
  | failed _ hlink => exact (rxLink_sizes_eq hlink).2
  | @next c c₁ c' bufLen comResult r es₁ es₂ p hlink _ ih =>
    rw [ih, (takeChunk_sizes c₁ p bufLen comResult).2, (rxLink_sizes_eq hlink).2]

theorem takeChunk_bufLen_lt {bufLen : Nat} (h : bufLen < 65536) (c : HcpComm) (p : Nat)
    (comResult : FpcBepResult) : (c.takeChunk p bufLen comResult).bufLen < 65536 := by
  rcases takeChunk_bufLen c p bufLen comResult with heq | ⟨-, heq⟩
  · rw [heq]
    exact h
  · rw [heq]
    exact Nat.mod_lt _ (by decide)

/-- A reception that returns OK leaves a size of 16 bits. -/
theorem RxRounds.size_lt (h : RxRounds c bufLen comResult es r c')
    (hok : r = FPC_BEP_RESULT_OK) (hlt : bufLen < 65536) : c'.pktSize < 65536 := by
  induction h with
  | done c bufLen comResult => exact hlt
  | failed hr _ => exact absurd hok hr
  | @next c c₁ c' bufLen comResult r es₁ es₂ p _ _ ih =>
    exact ih hok (takeChunk_bufLen_lt hlt c₁ p comResult)

end

/-! ## Chunks that arrive -/

/-- The events by which the chunks `cs` are received: for each, the read for its header with
timeout `t`, that for its body, and its ACK. -/
inductive Arrive (t : Nat) : List Chunk → List HcpEvent → Prop
  | nil : Arrive t [] []
  | cons {ch cs es w} : Arrive t cs es →
      Arrive t (ch :: cs) (.read 4 t FPC_BEP_RESULT_OK ch.link.header ::
        .read (ch.body.length + 4) 100 FPC_BEP_RESULT_OK ch.link.tail ::
        .write fpcComAck 0 w :: es)

theorem chunk_fill_fields (c : HcpComm) (ch : Chunk) :
    (c.fill 0 ch.bytes).lnkSize = ch.payload.length + 6 ∧
      (c.fill 0 ch.bytes).tSize = ch.payload.length ∧ (c.fill 0 ch.bytes).seqNr = ch.seqNr ∧
      (c.fill 0 ch.bytes).seqLen = ch.seqLen ∧
      slice (c.fill 0 ch.bytes).txrxBuffer 10 ch.payload.length = ch.payload :=
  chunk_fields (holds_blit c.txrxBuffer 0 ch.bytes)

/-- A chunk is appended, or skipped if it does not fit. -/
theorem takeChunk_chunk (c : HcpComm) (ch : Chunk) (p bufLen : Nat) (comResult : FpcBepResult) :
    (c.fill 0 ch.bytes).takeChunk p bufLen comResult =
      if bufLen + ch.payload.length < c.pktSizeMax then
        ⟨{ c.fill 0 ch.bytes with pktBuffer := blit c.pktBuffer p ch.payload },
          p + ch.payload.length, (bufLen + ch.payload.length) % 65536, comResult⟩
      else ⟨c.fill 0 ch.bytes, p, bufLen, FPC_BEP_RESULT_NO_MEMORY⟩ := by
  obtain ⟨hlnk, hsize, -, -, hpld⟩ := chunk_fill_fields c ch
  unfold HcpComm.takeChunk
  rw [hlnk, hsize, hpld, if_neg (by omega)]
  rfl

theorem takeChunk_fits {c : HcpComm} {ch : Chunk} {p bufLen : Nat} {comResult : FpcBepResult}
    (h : bufLen + ch.payload.length < c.pktSizeMax) :
    (c.fill 0 ch.bytes).takeChunk p bufLen comResult =
      ⟨{ c.fill 0 ch.bytes with pktBuffer := blit c.pktBuffer p ch.payload },
        p + ch.payload.length, (bufLen + ch.payload.length) % 65536, comResult⟩ := by
  rw [takeChunk_chunk, if_pos h]

/-- The round that receives a chunk that fits. -/
theorem receive_chunk_step {c : HcpComm} {ch : Chunk} {rounds seqNr seqLen p bufLen : Nat}
    {comResult : FpcBepResult} (w : FpcBepResult) (hgo : seqNr < seqLen)
    (h : bufLen + ch.payload.length < c.pktSizeMax) :
    Steps ((bmliteReceive.loop (rounds + 1) seqNr seqLen p bufLen comResult).run c)
      [.read 4 c.phyRxTimeout FPC_BEP_RESULT_OK ch.link.header,
        .read (ch.body.length + 4) 100 FPC_BEP_RESULT_OK ch.link.tail, .write fpcComAck 0 w]
      ((bmliteReceive.loop rounds ch.seqNr ch.seqLen (p + ch.payload.length)
        ((bufLen + ch.payload.length) % 65536) comResult).run
          { c.fill 0 ch.bytes with pktBuffer := blit c.pktBuffer p ch.payload }) := by
  obtain ⟨-, -, hnr, hlen, -⟩ := chunk_fill_fields c ch
  have hstep := @receive_round_step c (c.fill 0 ch.bytes) rounds seqNr seqLen p bufLen comResult _
    hgo (rxLink_frame c ch.link FPC_BEP_RESULT_OK w)
  rw [takeChunk_fits h, hnr, hlen] at hstep
  exact hstep

/-- **Chunks that end the packet, and fit, are received and put together.**  The count of their
bytes has 16 bits. -/
theorem receive_arrive (cs : List Chunk) :
    ∀ {c : HcpComm} {rounds seqNr seqLen p bufLen : Nat} {comResult : FpcBepResult}
      {es : List HcpEvent}, Arrive c.phyRxTimeout cs es → Complete cs → seqNr < seqLen →
      cs.length < rounds → bufLen ≤ p → p + (reassemble cs).length < c.pktSizeMax →
      ∃ t, Runs ((bmliteReceive.loop rounds seqNr seqLen p bufLen comResult).run c) es
        (comResult, { c with
          txrxBuffer := t, pktBuffer := blit c.pktBuffer p (reassemble cs),
          pktSize := (bufLen + (reassemble cs).length) % 65536 }) := by
  induction cs with
  | nil =>
    intro c rounds seqNr seqLen p bufLen comResult es _ hcomplete
    exact hcomplete.elim
  | cons ch cs ih =>
    intro c rounds seqNr seqLen p bufLen comResult es harrive hcomplete hgo hrounds hle hmax
    obtain ⟨rounds, rfl⟩ := Nat.exists_eq_add_of_lt (Nat.zero_lt_of_lt hrounds)
    simp only [Nat.zero_add, List.length_cons, Nat.add_lt_add_iff_right] at hrounds ⊢
    rw [reassemble_cons, List.length_append] at hmax
    cases harrive with
    | @cons _ _ es w harrive =>
      have hstep := @receive_chunk_step c ch rounds seqNr seqLen p bufLen comResult w hgo (by omega)
      rcases complete_cons.1 hcomplete with ⟨rfl, hlast⟩ | ⟨hnext, hcomplete⟩
      · cases harrive
        obtain ⟨rounds, rfl⟩ := Nat.exists_eq_add_of_lt hrounds
        simp only [List.length_nil, Nat.zero_add, reassemble_cons, reassemble_nil,
          List.append_nil] at hstep ⊢
        exact ⟨_, hstep.trans ((runs_receive_exit (Nat.not_lt.2 hlast)).2 ⟨rfl, rfl, rfl⟩)⟩
      · obtain ⟨t, hrest⟩ := @ih { c.fill 0 ch.bytes with
            pktBuffer := blit c.pktBuffer p ch.payload } rounds _ _ (p + ch.payload.length)
          ((bufLen + ch.payload.length) % 65536) comResult es harrive hcomplete hnext hrounds
          ((Nat.mod_le _ _).trans (Nat.add_le_add_right hle _)) (by rw [Nat.add_assoc]; exact hmax)
        refine ⟨t, ?_⟩
        rw [Nat.mod_add_mod, Nat.add_assoc] at hrest
        rw [reassemble_cons, ← blit_blit_append, List.length_append]
        exact hstep.trans hrest

/-- A frame that was read and whose sizes agree is a chunk. -/
theorem chunk_of_rxLink {c c₁ : HcpComm} {es : List HcpEvent}
    (h : RxLink c es FPC_BEP_RESULT_OK c₁) (hes : ∀ e ∈ es, ReadOk e)
    (ht : (c₁.tSize : Int) = (c₁.lnkSize : Int) - 6) :
    ∃ (ch : Chunk) (w : FpcBepResult), c₁ = c.fill 0 ch.bytes ∧
      es = [.read 4 c.phyRxTimeout FPC_BEP_RESULT_OK ch.link.header,
        .read (ch.body.length + 4) 100 FPC_BEP_RESULT_OK ch.link.tail, .write fpcComAck 0 w] := by
  obtain ⟨d, d', w, rfl, hc₁, hd, hd', hsize, hcrc⟩ := rxLink_accepts h hes
  rw [hc₁] at hd' hsize hcrc ht
  obtain ⟨ch, rfl, rfl⟩ := exists_chunk_of_reads hd hd' hsize hcrc ht
  refine ⟨ch, w, hc₁, ?_⟩
  have hlnk : c₁.lnkSize = ch.body.length := by
    rw [hc₁, ch.body_length]
    exact (chunk_fill_fields c ch).1
  rw [hlnk]

/-- A loop that returns OK on successful reads has taken in every frame that it consumed. -/
theorem receive_loop_ok (rounds : Nat) :
    ∀ {c c' : HcpComm} {seqNr seqLen p bufLen : Nat} {comResult : FpcBepResult}
      {es : List HcpEvent},
      Runs ((bmliteReceive.loop rounds seqNr seqLen p bufLen comResult).run c) es
        (FPC_BEP_RESULT_OK, c') → (∀ e ∈ es, ReadOk e) → bufLen < 65536 →
      comResult = FPC_BEP_RESULT_OK ∧ ∃ cs, (if seqNr < seqLen then Complete cs else cs = []) ∧
        Arrive c.phyRxTimeout cs es ∧ c'.pktBuffer = blit c.pktBuffer p (reassemble cs) ∧
        c'.pktSize = (bufLen + (reassemble cs).length) % 65536 ∧
        (c.pktSizeMax ≤ 65536 → cs ≠ [] → bufLen + (reassemble cs).length < c.pktSizeMax) := by
  induction rounds with
  | zero =>
    intro c c' seqNr seqLen p bufLen comResult es h
    exact absurd h runs_out
  | succ rounds ih =>
    intro c c' seqNr seqLen p bufLen comResult es h hes hbuf
    by_cases hgo : seqNr < seqLen
    · rcases (runs_receive_round hgo).1 h with ⟨hr, -⟩ | ⟨es₁, es₂, c₁, rfl, hlink, hrest⟩
      · exact absurd rfl hr
      have hes₁ : ∀ e ∈ es₁, ReadOk e := fun e he => hes e (List.mem_append_left _ he)
      have hes₂ : ∀ e ∈ es₂, ReadOk e := fun e he => hes e (List.mem_append_right _ he)
      by_cases ht : (c₁.tSize : Int) ≠ (c₁.lnkSize : Int) - 6
      · rw [takeChunk_of_ne ht] at hrest
        obtain ⟨hcom, -⟩ := ih hrest hes₂ hbuf
        cases hcom
      by_cases hfit : ¬ bufLen + c₁.tSize < c₁.pktSizeMax
      · rw [takeChunk_of_full (not_not.1 ht) hfit] at hrest
        obtain ⟨hcom, -⟩ := ih hrest hes₂ hbuf
        cases hcom
      obtain ⟨ch, w, rfl, rfl⟩ := chunk_of_rxLink hlink hes₁ (not_not.1 ht)
      obtain ⟨-, hsize, hnr, hlen, -⟩ := chunk_fill_fields c ch
      have hfit' : bufLen + ch.payload.length < c.pktSizeMax := by
        rw [← hsize]
        exact not_not.1 hfit
      rw [takeChunk_fits hfit', hnr, hlen] at hrest
      obtain ⟨rfl, cs, hcs, harrive, hpkt, hsz, hle⟩ := ih hrest hes₂ (Nat.mod_lt _ (by decide))
      refine ⟨rfl, ch :: cs, ?_, .cons harrive, ?_, ?_, ?_⟩
      · rw [if_pos hgo, complete_cons]
        split at hcs
        · exact .inr ⟨by assumption, hcs⟩
        · exact .inl ⟨hcs, Nat.not_lt.1 (by assumption)⟩
      · rw [hpkt, reassemble_cons, ← blit_blit_append]
      · rw [hsz, reassemble_cons, List.length_append, Nat.mod_add_mod, Nat.add_assoc]
      · intro hmax _
        rw [reassemble_cons, List.length_append]
        by_cases hne : cs = []
        · subst hne
          simpa using hfit'
        · have hlt := hle hmax hne
          rw [Nat.mod_eq_of_lt (by omega)] at hlt
          rw [← Nat.add_assoc]
          exact hlt
    · obtain ⟨rfl, rfl, rfl⟩ := (runs_receive_exit hgo).1 h
      refine ⟨rfl, [], by rw [if_neg hgo], .nil, by simp, ?_, fun _ hne => absurd rfl hne⟩
      simp [Nat.mod_eq_of_lt hbuf]

/-! ## What an accepted packet consists of -/

/-- **On successful reads, `bmlite_receive` returns OK only if** every frame that it consumed had
agreeing sizes, each but the last was numbered below its own `t_seq_len`, and the last was not.
The packet is what the frames carried, each once and in the order of their arrival. -/
theorem receive_ok {rounds : Nat} {c c' : HcpComm} {es : List HcpEvent}
    (h : Runs ((bmliteReceive rounds).run c) es (FPC_BEP_RESULT_OK, c'))
    (hes : ∀ e ∈ es, ReadOk e) :
    ∃ cs, Complete cs ∧ Arrive c.phyRxTimeout cs es ∧
      slice c'.pktBuffer 0 (reassemble cs).length = reassemble cs ∧
      c'.pktSize = (reassemble cs).length % 65536 ∧
      (c.pktSizeMax ≤ 65536 →
        (reassemble cs).length < c.pktSizeMax ∧ c'.packet = reassemble cs) := by
  obtain ⟨-, cs, hcs, harrive, hpkt, hsize, hmax⟩ := receive_loop_ok rounds h hes (by decide)
  rw [if_pos Nat.zero_lt_one] at hcs
  rw [Nat.zero_add] at hsize hmax
  have hslice : slice c'.pktBuffer 0 (reassemble cs).length = reassemble cs := by
    rw [hpkt]
    exact slice_blit_self ..
  refine ⟨cs, hcs, harrive, hslice, hsize, fun hle => ?_⟩
  have hlt := hmax hle (by rintro rfl; exact hcs)
  refine ⟨hlt, ?_⟩
  rw [HcpComm.packet, hsize, Nat.mod_eq_of_lt (by omega), hslice]

theorem Arrive.readOk {t : Nat} {cs : List Chunk} {es : List HcpEvent} (h : Arrive t cs es) :
    ∀ e ∈ es, ReadOk e := by
  induction h with
  | nil => simp
  | @cons ch _ _ _ _ ih =>
    have hlen : ch.link.tail.length = ch.body.length + 4 := ch.link.tail_length
    simpa [ReadOk, hlen] using ih

/-- Chunks have a way to arrive. -/
theorem exists_arrive (t : Nat) (cs : List Chunk) : ∃ es, Arrive t cs es := by
  induction cs with
  | nil => exact ⟨[], .nil⟩
  | cons ch cs ih =>
    obtain ⟨es, h⟩ := ih
    exact ⟨_, .cons (w := FPC_BEP_RESULT_OK) h⟩

/-- The chain with a received packet; `t` is what is left in `txrx_buffer`. -/
def HcpComm.holding (c : HcpComm) (t : Mem Byte) (b : List Byte) : HcpComm :=
  { c with txrxBuffer := t, pktBuffer := blit c.pktBuffer 0 b, pktSize := b.length }

@[simp] theorem packet_holding (c : HcpComm) (t : Mem Byte) (b : List Byte) :
    (c.holding t b).packet = b := slice_blit_self c.pktBuffer 0 b

/-- Reception of chunks that end the packet and fit. -/
theorem receive_complete {c : HcpComm} {cs : List Chunk} {rounds : Nat} {es : List HcpEvent}
    (harrive : Arrive c.phyRxTimeout cs es) (hcs : Complete cs) (hrounds : cs.length < rounds)
    (hmax : (reassemble cs).length < c.pktSizeMax) (hlt : (reassemble cs).length < 65536) :
    ∃ t, Runs ((bmliteReceive rounds).run c) es
      (FPC_BEP_RESULT_OK, c.holding t (reassemble cs)) := by
  obtain ⟨t, h⟩ := receive_arrive cs harrive hcs Nat.zero_lt_one hrounds (Nat.le_refl 0)
    (by rwa [Nat.zero_add])
  rw [Nat.zero_add, Nat.mod_eq_of_lt hlt] at h
  exact ⟨t, h⟩

/-- A chunk with one byte of payload. -/
def byteChunk (seqNr seqLen : Nat) (b : Byte) (h : seqNr < 65536) (h' : seqLen < 65536) : Chunk :=
  ⟨0, seqNr, seqLen, [b], chn_zero_lt, h, h', by simp [APP_MTU, MTU]⟩

/-- The chunks of a packet that fits. -/
theorem receive_segments {c : HcpComm} {b : List Byte} (hb : b.length < 65536) {rounds : Nat}
    {es : List HcpEvent} (harrive : Arrive c.phyRxTimeout (segments b hb) es)
    (hrounds : b.length / APP_MTU + 1 < rounds) (hmax : b.length < c.pktSizeMax) :
    ∃ t, Runs ((bmliteReceive rounds).run c) es (FPC_BEP_RESULT_OK, c.holding t b) := by
  have hpkt := reassemble_segments b hb
  obtain ⟨t, hrun⟩ := receive_complete harrive (complete_segments b hb)
    (by rwa [segments_length]) (by rwa [hpkt]) (by rwa [hpkt])
  exact ⟨t, hpkt ▸ hrun⟩

/-- A packet of three chunks. -/
theorem receive_ok_three : ∃ es c' cs,
    Runs ((bmliteReceive 4).run hcpChain) es (FPC_BEP_RESULT_OK, c') ∧ Complete cs ∧
      Arrive 2000 cs es ∧ c'.packet = reassemble cs ∧
      reassemble cs = (countingChain 600).packet := by
  have hlen := countingChain_length 600
  have hlt := countingChain_lt (by decide : 600 < 65536)
  obtain ⟨es, harrive⟩ := exists_arrive 2000 (segments (countingChain 600).packet hlt)
  obtain ⟨t, hrun⟩ := @receive_segments hcpChain _ hlt 4 _ harrive
    (by rw [hlen]; decide) (by rw [hlen]; decide)
  obtain ⟨cs, hcs, hcs', -, -, hpkt⟩ := receive_ok hrun harrive.readOk
  have hall := (hpkt (by decide)).2
  exact ⟨es, _, cs, hrun, hcs, hcs', hall, hall.symm.trans (packet_holding ..)⟩

/-- **A chunk that is sent again is accepted again**: the frames 1, 1, 2 of 2 make a packet. -/
theorem receive_duplicate :
    let a := byteChunk 1 2 0x41 (by decide) (by decide)
    let b := byteChunk 2 2 0x42 (by decide) (by decide)
    ¬ Numbered [a, a, b] ∧ ∃ es c', Arrive 2000 [a, a, b] es ∧ (∀ e ∈ es, ReadOk e) ∧
      Runs ((bmliteReceive 4).run hcpChain) es (FPC_BEP_RESULT_OK, c') ∧
      c'.packet = [0x41, 0x41, 0x42] := by
  intro a b
  obtain ⟨es, harrive⟩ := exists_arrive 2000 [a, a, b]
  obtain ⟨t, hrun⟩ := receive_complete (c := hcpChain)
    (show Arrive hcpChain.phyRxTimeout [a, a, b] es from harrive)
    ⟨Nat.le_refl 2, Nat.le_refl 2, Nat.le_refl 2⟩ (Nat.le_refl 4) (by decide) (by decide)
  refine ⟨fun h => ?_, es, _, harrive, harrive.readOk, hrun, ?_⟩
  · cases h.2.2.1
  · exact packet_holding ..

/-! ## Damaged frames -/

/-- **A frame damaged by an error burst of at most 32 bits is rejected**, by `_rx_link` and by
`bmlite_receive` wherever its loop calls it: the result is `IO_ERROR`, no ACK is written, and
nothing but `txrx_buffer` changes. -/
theorem burst_rejected {f : LinkFrame} {x : List Byte} (hx : x.length = f.body.length + 4)
    (hne : x ≠ f.tail) {a : Nat}
    (hwin : ∀ i, (byteBits f.tail)[i]? ≠ (byteBits x)[i]? → a ≤ i ∧ i < a + 32) :
    (∀ c c' t n t' r es,
      Runs (rxLink.run c) (.read 4 t FPC_BEP_RESULT_OK f.header ::
          .read n t' FPC_BEP_RESULT_OK x :: es) (r, c') ↔
        t = c.phyRxTimeout ∧ n = f.body.length + 4 ∧ t' = 100 ∧ es = [] ∧
        r = FPC_BEP_RESULT_IO_ERROR ∧ c' = c.fill 0 (f.header ++ x)) ∧
    ∀ rounds c es₁ rounds' seqNr seqLen p bufLen comResult c₁, seqNr < seqLen →
      Steps ((bmliteReceive rounds).run c) es₁
        ((bmliteReceive.loop (rounds' + 1) seqNr seqLen p bufLen comResult).run c₁) →
      ∀ c' t n t' r es₂,
        Runs ((bmliteReceive rounds).run c) (es₁ ++ .read 4 t FPC_BEP_RESULT_OK f.header ::
            .read n t' FPC_BEP_RESULT_OK x :: es₂) (r, c') ↔
          t = c₁.phyRxTimeout ∧ n = f.body.length + 4 ∧ t' = 100 ∧ es₂ = [] ∧
          r = FPC_BEP_RESULT_IO_ERROR ∧ c' = c₁.fill 0 (f.header ++ x) := by
  refine ⟨fun c c' t n t' r es => rxLink_burst hx hne hwin, ?_⟩
  intro rounds c es₁ rounds' seqNr seqLen p bufLen comResult c₁ hgo hsteps c' t n t' r es₂
  rw [hsteps.runs_append, runs_receive_round hgo]
  constructor
  · rintro (⟨-, hlink⟩ | ⟨es, es', c₂, heq, hlink, -⟩)
    · exact (rxLink_burst hx hne hwin).1 (runs_rxLink.2 hlink)
    · cases hlink with
      | noHeader hr => exact absurd rfl hr
      | accepted hc₁ hsize hc₂ hcrc =>
        simp only [List.cons_append, List.cons.injEq, Event.read.injEq] at heq
        obtain ⟨⟨-, -, -, rfl⟩, ⟨-, -, -, rfl⟩, -⟩ := heq
        have hbad := (rxLink_burst hx hne hwin).1
          (runs_rxLink.2 (.accepted (w := FPC_BEP_RESULT_OK) (r := r) hc₁ hsize hc₂ hcrc))
        cases hbad.2.2.2.1
  · rintro ⟨rfl, rfl, rfl, rfl, rfl, rfl⟩
    refine .inl ⟨by decide, runs_rxLink.1 ((rxLink_burst hx hne hwin).2 ?_)⟩
    exact ⟨rfl, rfl, rfl, rfl, rfl, rfl⟩

/-- One flipped bit in the count of a request. -/
theorem burst_rejected_bit :
    Runs (rxLink.run hcpChain) [.read 4 2000 FPC_BEP_RESULT_OK [0, 0, 10, 0],
        .read 14 100 FPC_BEP_RESULT_OK
          [4, 0, 1, 0, 1, 0, 3, 0, 1, 0, 0xd9, 0xb4, 0x22, 0xff]]
      (FPC_BEP_RESULT_IO_ERROR, hcpChain.fill 0
        [0, 0, 10, 0, 4, 0, 1, 0, 1, 0, 3, 0, 1, 0, 0xd9, 0xb4, 0x22, 0xff]) := by
  let f : LinkFrame := ⟨0, [4, 0, 1, 0, 1, 0, 3, 0, 0, 0], by decide, by decide⟩
  let x : List Byte := [4, 0, 1, 0, 1, 0, 3, 0, 1, 0, 0xd9, 0xb4, 0x22, 0xff]
  have htail : f.tail = identifyFrame.drop 4 := by decide +kernel
  have hbits : ∀ i < 112, (byteBits (identifyFrame.drop 4))[i]? ≠ (byteBits x)[i]? →
      64 ≤ i ∧ i < 64 + 32 := by decide +kernel
  have hhdr : f.header = [0, 0, 10, 0] := by decide
  have hwin : ∀ i, (byteBits f.tail)[i]? ≠ (byteBits x)[i]? → 64 ≤ i ∧ i < 64 + 32 := by
    intro i hi
    rw [htail] at hi
    by_cases hlt : i < 112
    · exact hbits i hlt hi
    · rw [List.getElem?_eq_none (by rw [byteBits_length]; simp [identifyFrame]; omega),
        List.getElem?_eq_none (by rw [byteBits_length]; simp [x]; omega)] at hi
      exact absurd rfl hi
  have hrun := (burst_rejected (f := f) (x := x) (a := 64) rfl (by rw [htail]; decide) hwin).1
    hcpChain (hcpChain.fill 0 (f.header ++ x)) 2000 14 100 FPC_BEP_RESULT_IO_ERROR []
  rw [hhdr] at hrun
  exact hrun.2 ⟨rfl, rfl, rfl, rfl, rfl, rfl⟩

end BMLite
