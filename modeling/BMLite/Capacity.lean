import BMLite.Bounds

/-!
# Capacity and length of a packet

What `bmlite_receive` makes of chunks that arrive in order, at every size of the packet buffer, and
how many bytes the frames of `bmlite_send` announce.

* `receive_full` — chunks that do not fit end in `NO_MEMORY`;
* `receive_capacity_iff` — **the packet buffer can be filled, except for its last byte**;
* `arrive_touches` — chunks that fit are written within the buffer, whatever its size;
* `length_conserved_iff` — **the length of a packet is kept if and only if** it has 16 bits.
-/

set_option autoImplicit false

namespace BMLite

open FlatMemory Process

/-! ## Chunks that do not fit -/

/-- The events by which one chunk is received. -/
def Chunk.arrival (ch : Chunk) (t : Nat) (w : FpcBepResult) : List HcpEvent :=
  [.read 4 t FPC_BEP_RESULT_OK ch.link.header,
    .read (ch.body.length + 4) 100 FPC_BEP_RESULT_OK ch.link.tail, .write fpcComAck 0 w]

/-- The round that receives a chunk of a packet of which `n` bytes more are to come.  Once the
packet cannot fit, the result is `NO_MEMORY`, or the rest cannot fit. -/
theorem receive_chunk_over {c : HcpComm} {ch : Chunk} {rounds seqNr seqLen p n : Nat}
    {comResult : FpcBepResult} (w : FpcBepResult) (hmax : c.pktSizeMax ≤ 65536)
    (hgo : seqNr < seqLen) (hover : comResult = FPC_BEP_RESULT_NO_MEMORY ∨
      c.pktSizeMax ≤ p + (ch.payload.length + n)) :
    ∃ (c₁ : HcpComm) (p₁ : Nat) (comResult₁ : FpcBepResult), c₁.pktSizeMax = c.pktSizeMax ∧
      c₁.phyRxTimeout = c.phyRxTimeout ∧
      (comResult₁ = FPC_BEP_RESULT_NO_MEMORY ∨
        p₁ < c.pktSizeMax ∧ c.pktSizeMax ≤ p₁ + n) ∧
      Steps ((bmliteReceive.loop (rounds + 1) seqNr seqLen p p comResult).run c)
        (ch.arrival c.phyRxTimeout w)
        ((bmliteReceive.loop rounds ch.seqNr ch.seqLen p₁ p₁ comResult₁).run c₁) := by
  by_cases hfit : p + ch.payload.length < c.pktSizeMax
  · have hstep := @receive_chunk_step c ch rounds seqNr seqLen p p comResult w hgo hfit
    rw [Nat.mod_eq_of_lt (by omega)] at hstep
    refine ⟨{ c.fill 0 ch.bytes with pktBuffer := blit c.pktBuffer p ch.payload },
      p + ch.payload.length, comResult, rfl, rfl, ?_, hstep⟩
    rcases hover with hcom | hle
    · exact .inl hcom
    · exact .inr ⟨hfit, by omega⟩
  · obtain ⟨-, -, hnr, hlen, -⟩ := chunk_fill_fields c ch
    have hstep := @receive_round_step c (c.fill 0 ch.bytes) rounds seqNr seqLen p p comResult _
      hgo (rxLink_frame c ch.link FPC_BEP_RESULT_OK w)
    rw [takeChunk_chunk, if_neg hfit, hnr, hlen] at hstep
    exact ⟨c.fill 0 ch.bytes, p, FPC_BEP_RESULT_NO_MEMORY, rfl, rfl, .inl rfl, hstep⟩

/-- **Chunks that end the packet, and do not fit, end in `NO_MEMORY`**, as they do if an earlier
one did not fit. -/
theorem receive_full (cs : List Chunk) :
    ∀ {c : HcpComm} {rounds seqNr seqLen p : Nat} {comResult : FpcBepResult}
      {es : List HcpEvent}, c.pktSizeMax ≤ 65536 → Arrive c.phyRxTimeout cs es → Complete cs →
      seqNr < seqLen → cs.length < rounds →
      comResult = FPC_BEP_RESULT_NO_MEMORY ∨ c.pktSizeMax ≤ p + (reassemble cs).length →
      ∃ c', Runs ((bmliteReceive.loop rounds seqNr seqLen p p comResult).run c) es
        (FPC_BEP_RESULT_NO_MEMORY, c') := by
  induction cs with
  | nil =>
    intro c rounds seqNr seqLen p comResult es _ _ hcomplete
    exact hcomplete.elim
  | cons ch cs ih =>
    intro c rounds seqNr seqLen p comResult es hmax harrive hcomplete hgo hrounds hover
    obtain ⟨rounds, rfl⟩ := Nat.exists_eq_add_of_lt (Nat.zero_lt_of_lt hrounds)
    simp only [Nat.zero_add, List.length_cons, Nat.add_lt_add_iff_right] at hrounds ⊢
    rw [reassemble_cons, List.length_append] at hover
    cases harrive with
    | @cons _ _ es w harrive =>
      obtain ⟨c₁, p₁, comResult₁, hmax₁, htimeout₁, hover₁, hstep⟩ :=
        @receive_chunk_over c ch rounds seqNr seqLen p _ comResult w hmax hgo hover
      rcases complete_cons.1 hcomplete with ⟨rfl, hlast⟩ | ⟨hnext, hcomplete⟩
      · cases harrive
        obtain ⟨rounds, rfl⟩ := Nat.exists_eq_add_of_lt hrounds
        rcases hover₁ with rfl | ⟨hlt, hle⟩
        · exact ⟨_, hstep.trans ((runs_receive_exit (Nat.not_lt.2 hlast)).2 ⟨rfl, rfl, rfl⟩)⟩
        · exact absurd hlt (Nat.not_lt.2 hle)
      · rw [← htimeout₁] at harrive
        obtain ⟨c', hrest⟩ := ih (by rw [hmax₁]; exact hmax) harrive hcomplete hnext hrounds
          (hover₁.imp_right fun h => by rw [hmax₁]; exact h.2)
        exact ⟨c', hstep.trans hrest⟩

/-! ## Capacity -/

/-- Nothing is written to the packet buffer at or behind `max`. -/
def WritesBelow {α : Type} (max : Nat) (p : HcpProc α) (es : List HcpEvent) : Prop :=
  ∀ acc, Touches p es (.access acc) → acc.buffer = .pkt → acc.isWrite = true →
    acc.offset + acc.length ≤ max

theorem Access.Receiving.le {acc : Access} {max : Nat} (h : acc.Receiving max)
    (hpkt : acc.buffer = .pkt) : acc.offset + acc.length ≤ max := by
  rcases h with ⟨htxrx, -⟩ | ⟨-, -, hle⟩
  · rw [hpkt] at htxrx
    cases htxrx
  · exact hle

/-- What should become of the chunks of a packet, in whatever way they arrive: the packet is
received if the buffer is large enough for it, and is refused without an overrun if not. -/
def Capacity (c : HcpComm) (cs : List Chunk) : Prop :=
  ∀ rounds es, cs.length < rounds → Arrive c.phyRxTimeout cs es →
    ∃ r c', Runs ((bmliteReceive rounds).run c) es (r, c') ∧
      if (reassemble cs).length ≤ c.pktSizeMax then
        r = FPC_BEP_RESULT_OK ∧ c'.pktSize = (reassemble cs).length ∧ c'.packet = reassemble cs
      else
        r = FPC_BEP_RESULT_NO_MEMORY ∧
          WritesBelow c.pktSizeMax ((bmliteReceive rounds).run c) es

/-- A packet that fills the buffer to its last byte is refused. -/
theorem not_capacity {c : HcpComm} {cs : List Chunk} (hmax : c.pktSizeMax ≤ 65536)
    (hcomplete : Complete cs) (heq : (reassemble cs).length = c.pktSizeMax) : ¬ Capacity c cs := by
  intro hcap
  obtain ⟨es, harrive⟩ := exists_arrive c.phyRxTimeout cs
  obtain ⟨r, c', hrun, hres⟩ := hcap _ es (Nat.lt_succ_self _) harrive
  rw [if_pos (Nat.le_of_eq heq)] at hres
  obtain ⟨c'', hfull⟩ := receive_full cs hmax harrive hcomplete Nat.zero_lt_one
    (Nat.lt_succ_self _) (.inr (by rw [Nat.zero_add]; exact Nat.le_of_eq heq.symm))
  have hr := (Prod.mk.inj (hrun.unique hfull (show es ++ [] = es ++ [] from rfl)).2).1
  rw [hres.1] at hr
  cases hr

/-- **A packet buffer takes what it is large enough for, except** a packet that fills it to the
last byte. -/
theorem receive_capacity_iff {c : HcpComm} {cs : List Chunk} (hmax : c.pktSizeMax ≤ 65535)
    (hcs : Numbered cs) (hne : cs ≠ []) (hlen : (reassemble cs).length ≤ 65535) :
    Capacity c cs ↔ (reassemble cs).length ≠ c.pktSizeMax := by
  have hcomplete := hcs.complete hne
  constructor
  · intro hcap heq
    exact not_capacity (by omega) hcomplete heq hcap
  · intro hneq rounds es hrounds harrive
    by_cases hfit : (reassemble cs).length ≤ c.pktSizeMax
    · obtain ⟨t, hrun⟩ := receive_complete harrive hcomplete hrounds (by omega) (by omega)
      refine ⟨_, _, hrun, ?_⟩
      rw [if_pos hfit]
      exact ⟨rfl, rfl, packet_holding ..⟩
    · obtain ⟨c', hrun⟩ := receive_full cs (by omega) harrive hcomplete Nat.zero_lt_one hrounds
        (.inr (by omega))
      refine ⟨_, c', hrun, ?_⟩
      rw [if_neg hfit]
      exact ⟨rfl, fun acc hacc hpkt _ => (receive_loop_touches rounds (by omega) hacc).le hpkt⟩

/-- There are packets of every length that has 16 bits. -/
theorem exists_numbered {n : Nat} (h : n < 65536) : ∃ cs, Numbered cs ∧ cs ≠ [] ∧
    cs.length = n / APP_MTU + 1 ∧ (reassemble cs).length = n := by
  have hlen := segments_length (countingChain n).packet (countingChain_lt h)
  refine ⟨_, numbered_segments _ (countingChain_lt h), fun hnil => ?_, ?_, ?_⟩
  · simp [hnil] at hlen
  · rw [hlen, countingChain_length]
  · rw [reassemble_segments, countingChain_length]

/-- A packet of three chunks is received into a buffer with a byte to spare, and refused by one
that is a byte too small. -/
theorem receive_capacity_three : ∃ cs, Numbered cs ∧ cs.length = 3 ∧
    (reassemble cs).length = 600 ∧ Capacity { hcpChain with pktSizeMax := 601 } cs ∧
      Capacity { hcpChain with pktSizeMax := 599 } cs := by
  obtain ⟨cs, hnum, hne, hlen, hall⟩ := exists_numbered (by decide : 600 < 65536)
  refine ⟨cs, hnum, hlen, hall, ?_, ?_⟩
  · exact (receive_capacity_iff (by decide) hnum hne (by rw [hall]; decide)).2
      (by rw [hall]; decide)
  · exact (receive_capacity_iff (by decide) hnum hne (by rw [hall]; decide)).2
      (by rw [hall]; decide)

/-- **A packet that can be built in a buffer of 8 bytes cannot be received into it.** -/
theorem receive_capacity_full :
    ∃ c ch, Returns ((bmliteInitCmd CMD_IMAGE ARG_EXTRACT).run { hcpChain with pktSizeMax := 8 })
        (FPC_BEP_RESULT_OK, c) ∧
      c.packet = [5, 0, 1, 0, 8, 0, 0, 0] ∧ c.pktSizeMax = 8 ∧ Numbered [ch] ∧
      reassemble [ch] = c.packet ∧ ¬ Capacity c [ch] := by
  have hinit := runs_initCmd { hcpChain with pktSizeMax := 8 } CMD_IMAGE ARG_EXTRACT
  rw [if_neg (fun h => absurd h.2 (Nat.lt_irrefl 8))] at hinit
  have hpacket : ({ hcpChain with pktSizeMax := 8 }.prepare CMD_IMAGE ARG_EXTRACT).packet =
      [5, 0, 1, 0, 8, 0, 0, 0] := prepare_packet _ _ (show ARG_EXTRACT < 65536 by decide)
  refine ⟨_, singleChunk [5, 0, 1, 0, 8, 0, 0, 0] (by decide), hinit, hpacket, rfl,
    ⟨rfl, rfl, rfl⟩, hpacket.symm, ?_⟩
  exact not_capacity (by decide) (Nat.le_refl 1) rfl

/-! ## Length -/

/-- The accesses of the round that receives a chunk that fits. -/
theorem touches_chunk {c : HcpComm} {ch : Chunk} {rounds seqNr seqLen p bufLen : Nat}
    {comResult w : FpcBepResult} {es : List HcpEvent} {acc : Access} (hgo : seqNr < seqLen)
    (hfit : bufLen + ch.payload.length < c.pktSizeMax)
    (h : Touches ((bmliteReceive.loop (rounds + 1) seqNr seqLen p bufLen comResult).run c)
      (ch.arrival c.phyRxTimeout w ++ es) (.access acc)) :
    acc.InTxrx ∨ acc = ⟨.pkt, true, p, ch.payload.length⟩ ∨
      Touches ((bmliteReceive.loop rounds ch.seqNr ch.seqLen (p + ch.payload.length)
        ((bufLen + ch.payload.length) % 65536) comResult).run
          { c.fill 0 ch.bytes with pktBuffer := blit c.pktBuffer p ch.payload }) es
            (.access acc) := by
  have hlink : Runs (rxLink.run c) (ch.arrival c.phyRxTimeout w)
      (FPC_BEP_RESULT_OK, c.fill 0 ch.bytes) := rxLink_frame c ch.link FPC_BEP_RESULT_OK w
  rw [receive_round_run hgo, touches_bind] at h
  rcases h with h | ⟨x, es₁, es₂, heq, hrun, h⟩
  · exact .inl (rxLink_touches h)
  obtain ⟨rfl, rfl⟩ := hrun.unique hlink heq.symm
  obtain rfl := List.append_cancel_left heq
  rw [if_pos rfl] at h
  obtain ⟨-, hsize, hnr, hlen, -⟩ := chunk_fill_fields c ch
  rcases touches_copyChunk (rxLink_lnkSize_le (runs_rxLink.1 hlink)) h with h | ⟨-, rfl⟩ | h
  · exact .inl h
  · exact .inr (.inl (by rw [hsize]))
  · rw [takeChunk_fits hfit, hnr, hlen] at h
    exact .inr (.inr h)

/-- **Chunks that fit are written within the buffer**, whether or not the count of their bytes
wraps. -/
theorem arrive_touches (cs : List Chunk) :
    ∀ {c : HcpComm} {rounds seqNr seqLen p bufLen : Nat} {comResult : FpcBepResult}
      {es : List HcpEvent} {acc : Access}, Arrive c.phyRxTimeout cs es → Complete cs →
      seqNr < seqLen → cs.length < rounds → bufLen ≤ p →
      p + (reassemble cs).length < c.pktSizeMax →
      Touches ((bmliteReceive.loop rounds seqNr seqLen p bufLen comResult).run c) es
        (.access acc) →
      acc.Receiving c.pktSizeMax := by
  induction cs with
  | nil =>
    intro c rounds seqNr seqLen p bufLen comResult es acc _ hcomplete
    exact hcomplete.elim
  | cons ch cs ih =>
    intro c rounds seqNr seqLen p bufLen comResult es acc harrive hcomplete hgo hrounds hle hmax h
    obtain ⟨rounds, rfl⟩ := Nat.exists_eq_add_of_lt (Nat.zero_lt_of_lt hrounds)
    simp only [Nat.zero_add, List.length_cons, Nat.add_lt_add_iff_right] at hrounds h
    rw [reassemble_cons, List.length_append] at hmax
    cases harrive with
    | cons harrive =>
      rcases touches_chunk hgo (by omega) h with h | rfl | h
      · exact .inl h
      · exact .inr ⟨rfl, rfl, show p + ch.payload.length ≤ c.pktSizeMax by omega⟩
      rcases complete_cons.1 hcomplete with ⟨rfl, hlast⟩ | ⟨hnext, hcomplete⟩
      · obtain ⟨rounds, rfl⟩ := Nat.exists_eq_add_of_lt hrounds
        simp only [receive_exit_run (Nat.not_lt.2 hlast)] at h
        exact absurd h touches_reportResult
      · exact @ih { c.fill 0 ch.bytes with pktBuffer := blit c.pktBuffer p ch.payload } _ _ _ _ _ _
          _ _ harrive hcomplete hnext hrounds
          ((Nat.mod_le _ _).trans (Nat.add_le_add_right hle _))
          (by rw [Nat.add_assoc]; exact hmax) h

/-- The `t_size` fields of the frames that were written. -/
def sentSizes (es : List HcpEvent) : List Nat :=
  es.filterMap fun
    | .write d _ _ => some (dec16 ((d.drop 4).take 2))
    | _ => none

theorem tSize_bytes (ch : Chunk) : dec16 ((ch.bytes.drop 4).take 2) = ch.payload.length := by
  have hle := ch.payload_le
  simp only [APP_MTU, MTU] at hle
  have hcut : (ch.bytes.drop 4).take 2 = enc16 ch.payload.length := by
    rw [ch.bytes_eq]
    rfl
  rw [hcut, dec16_enc16_of_lt (by omega)]

/-- The frames of some chunks announce the bytes that the chunks carry. -/
theorem Sent.sizes {cs : List Chunk} {es : List HcpEvent}
    (h : Sent (cs.map Chunk.bytes) es FPC_BEP_RESULT_OK) :
    (sentSizes es).sum = (reassemble cs).length := by
  induction cs generalizing es with
  | nil =>
    cases h
    rfl
  | cons ch cs ih =>
    generalize hr : FPC_BEP_RESULT_OK = r at h
    cases h with
    | fail hack => exact absurd hr.symm hack
    | next _ h =>
      subst hr
      rw [reassemble_cons, List.length_append, ← ih h, ← tSize_bytes ch]
      exact List.sum_cons

/-- The frames of `bmlite_send` announce the whole packet. -/
def SendKeepsLength (c : HcpComm) : Prop :=
  ∀ es c', Runs (bmliteSend.run c) es (FPC_BEP_RESULT_OK, c') → (sentSizes es).sum = c.pktSize

/-- `bmlite_receive` reports the length of what the chunks carry, and does not overrun the
buffer. -/
def ReceiveKeepsLength (c : HcpComm) (cs : List Chunk) : Prop :=
  ∀ rounds es c', cs.length < rounds → Arrive c.phyRxTimeout cs es →
    Runs ((bmliteReceive rounds).run c) es (FPC_BEP_RESULT_OK, c') →
    c'.pktSize = (reassemble cs).length ∧
      WritesBelow c.pktSizeMax ((bmliteReceive rounds).run c) es

/-- What the frames of `bmlite_send` announce: `data_left` has 16 bits. -/
theorem send_sizes {c c' : HcpComm} {es : List HcpEvent}
    (h : Runs (bmliteSend.run c) es (FPC_BEP_RESULT_OK, c')) :
    (sentSizes es).sum = c.pktSize % 65536 := by
  rw [(runs_send_cases h).2.sizes, reassemble_segments, HcpComm.outgoing, slice_length]

theorem sendKeepsLength_iff (c : HcpComm) : SendKeepsLength c ↔ c.pktSize ≤ 65535 := by
  constructor
  · intro hkeeps
    obtain ⟨es, hsent⟩ := exists_sent ((segments c.outgoing (outgoing_length_lt c)).map Chunk.bytes)
    obtain ⟨t, hrun⟩ := runs_send.1.2 hsent
    have hsum := hkeeps es _ hrun
    rw [send_sizes hrun] at hsum
    omega
  · intro hle es c' hrun
    rw [send_sizes hrun, Nat.mod_eq_of_lt (by omega)]

theorem receiveKeepsLength_iff {c : HcpComm} {cs : List Chunk} (hcomplete : Complete cs)
    (hmax : (reassemble cs).length < c.pktSizeMax) :
    ReceiveKeepsLength c cs ↔ (reassemble cs).length ≤ 65535 := by
  have hmax' : 0 + (reassemble cs).length < c.pktSizeMax := by rwa [Nat.zero_add]
  have hsize {rounds : Nat} {es : List HcpEvent} {c' : HcpComm} (hrounds : cs.length < rounds)
      (harrive : Arrive c.phyRxTimeout cs es)
      (hrun : Runs ((bmliteReceive rounds).run c) es (FPC_BEP_RESULT_OK, c')) :
      c'.pktSize = (reassemble cs).length % 65536 := by
    obtain ⟨t, hall⟩ := @receive_arrive cs c rounds 0 1 0 0 FPC_BEP_RESULT_OK es harrive hcomplete
      Nat.zero_lt_one hrounds (Nat.le_refl 0) hmax'
    rw [Nat.zero_add] at hall
    obtain ⟨-, heq⟩ := hrun.unique hall (show es ++ [] = es ++ [] from rfl)
    rw [(Prod.mk.inj heq).2]
  constructor
  · intro hkeeps
    obtain ⟨es, harrive⟩ := exists_arrive c.phyRxTimeout cs
    obtain ⟨t, hrun⟩ := @receive_arrive cs c (cs.length + 1) 0 1 0 0 FPC_BEP_RESULT_OK es harrive
      hcomplete Nat.zero_lt_one (Nat.lt_succ_self _) (Nat.le_refl 0) hmax'
    have hlen := (hkeeps _ es _ (Nat.lt_succ_self _) harrive hrun).1
    rw [hsize (Nat.lt_succ_self _) harrive hrun] at hlen
    omega
  · intro hle rounds es c' hrounds harrive hrun
    refine ⟨by rw [hsize hrounds harrive hrun, Nat.mod_eq_of_lt (by omega)], ?_⟩
    intro acc hacc hpkt _
    exact (arrive_touches cs harrive hcomplete Nat.zero_lt_one hrounds (Nat.le_refl 0) hmax'
      hacc).le hpkt

/-- **The transport keeps the length of a packet if and only if** it has 16 bits, although
`pkt_size` and `pkt_size_max` have 32. -/
theorem length_conserved_iff (c : HcpComm) :
    (SendKeepsLength c ↔ c.pktSize ≤ 65535) ∧
    ∀ cs, Numbered cs → cs ≠ [] → (reassemble cs).length < c.pktSizeMax →
      (ReceiveKeepsLength c cs ↔ (reassemble cs).length ≤ 65535) :=
  ⟨sendKeepsLength_iff c, fun _ hcs hne hmax => receiveKeepsLength_iff (hcs.complete hne) hmax⟩

/-- The longest packet whose length is kept is sent, and received, in 271 frames. -/
theorem length_conserved_longest : ∃ cs, Numbered cs ∧ cs.length = 271 ∧
    (reassemble cs).length = 65535 ∧ SendKeepsLength (countingChain 65535) ∧
      ReceiveKeepsLength { hcpChain with pktSizeMax := 65536 } cs := by
  obtain ⟨cs, hnum, hne, hlen, hall⟩ := exists_numbered (by decide : 65535 < 65536)
  refine ⟨cs, hnum, hlen, hall, ?_, ?_⟩
  · exact (length_conserved_iff (countingChain 65535)).1.2 (Nat.le_refl _)
  · exact ((length_conserved_iff { hcpChain with pktSizeMax := 65536 }).2 cs hnum hne
      (by rw [hall]; decide)).2 (Nat.le_of_eq hall)

/-- **A packet of 65536 bytes is sent as one empty frame**, and the call returns OK. -/
theorem length_lost :
    let c : HcpComm := { hcpChain with pktSizeMax := 65536, pktSize := 65536 }
    c.pktSize ≤ c.pktSizeMax ∧ c.pktSizeMax < 2 ^ 32 ∧ ¬ SendKeepsLength c ∧
      ∃ es c', Runs (bmliteSend.run c) es (FPC_BEP_RESULT_OK, c') ∧ sentSizes es = [0] := by
  intro c
  refine ⟨Nat.le_refl _, by decide, fun h => ?_, ?_⟩
  · exact absurd ((sendKeepsLength_iff c).1 h) (by decide)
  · have hnil : c.outgoing = [] := by
      refine List.eq_nil_of_length_eq_zero ?_
      rw [HcpComm.outgoing, slice_length]
      exact Nat.mod_self 65536
    obtain ⟨ch, hch, hpld⟩ := segments_single (outgoing_length_lt c) (by rw [hnil]; decide)
    have hsent : Sent ((segments c.outgoing (outgoing_length_lt c)).map Chunk.bytes)
        [.write ch.bytes 0 FPC_BEP_RESULT_OK, .read 4 500 FPC_BEP_RESULT_OK fpcComAck]
        FPC_BEP_RESULT_OK := by
      rw [hch]
      exact .next (by decide) .done
    obtain ⟨t, hrun⟩ := runs_send.1.2 hsent
    refine ⟨_, _, hrun, ?_⟩
    have hsize : dec16 ((ch.bytes.drop 4).take 2) = 0 := by
      rw [tSize_bytes, hpld, hnil]
      rfl
    exact congrArg (fun n => [n]) hsize

end BMLite
