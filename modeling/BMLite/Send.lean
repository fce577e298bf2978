import BMLite.Segment

/-!
# `bmlite_send`

* `Sent` — what becomes of a list of frames: each is written and its ACK awaited, until one is
  not acknowledged;
* `send_loop_run` — one round of the loop builds and sends one chunk;
* `runs_send` — **`bmlite_send` sends the chunks of its packet**, and changes nothing but
  `txrx_buffer`.
-/

set_option autoImplicit false

namespace BMLite

open FlatMemory Process

/-- `fs` are written in order, each followed by the read for its ACK, up to the first one whose
ACK does not come; the result is that of the last read. -/
inductive Sent : List (List Byte) → List HcpEvent → FpcBepResult → Prop
  | done : Sent [] [] FPC_BEP_RESULT_OK
  | fail {f fs w r d} : ackResult r (d.take 4) ≠ FPC_BEP_RESULT_OK →
      Sent (f :: fs) [.write f 0 w, .read 4 500 r d] (ackResult r (d.take 4))
  | next {f fs w r d es res} : ackResult r (d.take 4) = FPC_BEP_RESULT_OK → Sent fs es res →
      Sent (f :: fs) (.write f 0 w :: .read 4 500 r d :: es) res

/-- Frames have a way to be sent. -/
theorem exists_sent (fs : List (List Byte)) : ∃ es, Sent fs es FPC_BEP_RESULT_OK := by
  induction fs with
  | nil => exact ⟨[], .done⟩
  | cons f fs ih =>
    obtain ⟨es, h⟩ := ih
    exact ⟨_, .next (w := FPC_BEP_RESULT_OK) (r := FPC_BEP_RESULT_OK) (d := fpcComAck)
      (by decide) h⟩

/-! ## One round -/

/-- The chain after a chunk of `n` bytes has been put into `txrx_buffer`. -/
def HcpComm.putChunk (c : HcpComm) (seqNr n p : Nat) : HcpComm :=
  { c with
    txrxBuffer := blit (blit (blit (blit c.txrxBuffer 6 (enc16 seqNr)) 4 (enc16 n)) 10
      (slice c.pktBuffer p n)) 2 (enc16 (n + 6)) }

/-- The size of the next chunk. -/
def chunkSize (dataLeft : Nat) : Nat := if dataLeft < APP_MTU then dataLeft else APP_MTU

theorem chunkSize_eq (dataLeft : Nat) : chunkSize dataLeft = min dataLeft APP_MTU := by
  unfold chunkSize
  split <;> omega

/-- The accesses of a round that builds a chunk of `n` bytes, `seqNr` being stored already. -/
def buildChunk {α : Type} (n p : Nat) (next : HcpProc α) : HcpProc α :=
  .touch (.access ⟨.txrx, true, 4, 2⟩) <| .touch (.access ⟨.txrx, false, 4, 2⟩) <|
    .touch (.access ⟨.pkt, false, p, n⟩) <| .touch (.access ⟨.txrx, true, 10, n⟩) <|
      .touch (.access ⟨.txrx, false, 4, 2⟩) <| .touch (.access ⟨.txrx, true, 2, 2⟩) <|
        .touch (.access ⟨.txrx, false, 4, 2⟩) next

/-- The rest of the round, once the size `n` of the chunk is known. -/
theorem send_chunk_run {c : HcpComm} {rounds seqNr seqLen dataLeft n p : Nat} (hn : n ≤ APP_MTU) :
    (do
        store16 .txrx 4 n
        store .txrx 10 (← load .pkt p (← load16 .txrx 4))
        store16 .txrx 2 ((← load16 .txrx 4) + 6)
        let tSize ← load16 .txrx 4
        let bepResult ← txLink
        bmliteSend.loop APP_MTU seqLen rounds ((seqNr + 1) % 65536)
          ((dataLeft + 65536 - tSize) % 65536) (p + tSize) bepResult : Hcp FpcBepResult).run
        (c.setMem .txrx (blit c.txrxBuffer 6 (enc16 seqNr))) =
      buildChunk n p (txLink.run (c.putChunk seqNr n p) >>= fun x =>
        (bmliteSend.loop APP_MTU seqLen rounds ((seqNr + 1) % 65536)
          ((dataLeft + 65536 - n) % 65536) (p + n) x.1).run x.2) := by
  simp only [APP_MTU, MTU] at hn
  have hsize (m : Mem Byte) : dec16 (slice (blit m 4 (enc16 n)) 4 2) = n :=
    dec16_of_holds (holds_blit _ _ _) (by omega)
  have hsize' (m : Mem Byte) (bs : List Byte) :
      dec16 (slice (blit (blit m 4 (enc16 n)) 10 bs) 4 2) = n := by
    rw [slice_blit_disjoint _ _ (by omega), hsize]
  have hsize'' (m : Mem Byte) (bs : List Byte) (v : Nat) :
      dec16 (slice (blit (blit (blit m 4 (enc16 n)) 10 bs) 2 (enc16 v)) 4 2) = n := by
    rw [slice_blit_disjoint _ _ (by simp), hsize']
  simp only [StateT.run_bind, run_store16, run_load16, run_load, run_store, touch_bind, ret_bind,
    HcpComm.mem_txrx, HcpComm.mem_pkt, HcpComm.setMem_txrx, hsize, hsize', hsize'', slice_length]
  rfl

/-- **One round of the loop** stores the fields of a chunk and its payload, and sends it. -/
theorem send_loop_run {c : HcpComm} {rounds seqNr seqLen dataLeft p : Nat} (hgo : seqNr ≤ seqLen) :
    (bmliteSend.loop APP_MTU seqLen (rounds + 1) seqNr dataLeft p FPC_BEP_RESULT_OK).run c =
      .touch (.access ⟨.txrx, true, 6, 2⟩) (buildChunk (chunkSize dataLeft) p
        (txLink.run (c.putChunk seqNr (chunkSize dataLeft) p) >>= fun x =>
          (bmliteSend.loop APP_MTU seqLen rounds ((seqNr + 1) % 65536)
            ((dataLeft + 65536 - chunkSize dataLeft) % 65536) (p + chunkSize dataLeft) x.1).run
              x.2)) := by
  simp only [bmliteSend.loop, hgo, true_and, if_true, StateT.run_bind, run_store16, touch_bind,
    ret_bind, HcpComm.mem_txrx]
  congr 1
  unfold chunkSize
  split
  · exact send_chunk_run (by omega)
  · exact send_chunk_run (le_refl _)

theorem send_loop_step {c : HcpComm} {rounds seqNr seqLen dataLeft p : Nat}
    (hgo : seqNr ≤ seqLen) :
    Steps ((bmliteSend.loop APP_MTU seqLen (rounds + 1) seqNr dataLeft p FPC_BEP_RESULT_OK).run c) []
      (txLink.run (c.putChunk seqNr (chunkSize dataLeft) p) >>= fun x =>
        (bmliteSend.loop APP_MTU seqLen rounds ((seqNr + 1) % 65536)
          ((dataLeft + 65536 - chunkSize dataLeft) % 65536) (p + chunkSize dataLeft) x.1).run
            x.2) := by
  rw [send_loop_run hgo]
  exact .touch <| .touch <| .touch <| .touch <| .touch <| .touch <| .touch <| .touch <| .refl _

/-- **What `_tx_link` sends is the chunk.** -/
theorem seal_chunk {c : HcpComm} (ch : Chunk) {p : Nat} (hchn : Holds c.txrxBuffer 0 (enc16 ch.chn))
    (hlen : Holds c.txrxBuffer 8 (enc16 ch.seqLen))
    (hp : slice c.pktBuffer p ch.payload.length = ch.payload) :
    (c.putChunk ch.seqNr ch.payload.length p).lnkSize = ch.payload.length + 6 ∧
      Holds (c.putChunk ch.seqNr ch.payload.length p).seal.txrxBuffer 0 ch.bytes := by
  have hle := ch.payload_le
  simp only [APP_MTU, MTU] at hle
  have hlnk : (c.putChunk ch.seqNr ch.payload.length p).lnkSize = ch.payload.length + 6 :=
    dec16_of_holds (holds_blit _ _ _) (by omega)
  have hbody : Holds (c.putChunk ch.seqNr ch.payload.length p).txrxBuffer 4 ch.body := by
    simp only [Chunk.body, HcpComm.putChunk, hp]
    refine holds_append.2 ⟨holds_append.2 ⟨holds_append.2 ⟨?_, ?_⟩, ?_⟩, ?_⟩
    · exact ((holds_blit _ _ _).blit _ (by simp)).blit _ (by simp)
    · exact (((holds_blit _ _ _).blit _ (by simp)).blit _ (by simp)).blit _ (by simp)
    · exact (((hlen.blit _ (by simp)).blit _ (by simp)).blit _ (by simp)).blit _ (by simp)
    · exact (holds_blit _ _ _).blit _ (by simp)
  have hhdr : Holds (c.putChunk ch.seqNr ch.payload.length p).txrxBuffer 0
      (enc16 ch.chn ++ enc16 ch.body.length) := by
    rw [ch.body_length]
    refine holds_append.2 ⟨?_, holds_blit _ _ _⟩
    exact (((hchn.blit _ (by simp)).blit _ (by simp)).blit _ (by simp)).blit _ (by simp)
  refine ⟨hlnk, ?_⟩
  have hslice := hbody.eq ch.body_length.symm
  rw [HcpComm.seal, hlnk, hslice, ch.bytes_body]
  refine holds_append.2 ⟨(holds_append.2 ⟨hhdr, hbody⟩).blit _ ?_, ?_⟩
  · simp [ch.body_length]; omega
  · have hoff : 0 + (enc16 ch.chn ++ enc16 ch.body.length ++ ch.body).length =
        ch.payload.length + 6 + 4 := by simp [ch.body_length]; omega
    rw [hoff]
    exact holds_blit _ _ _

/-- One round on a chunk: it is written, an ACK is read, and the loop goes on with the result. -/
theorem runs_send_chunk {c c' : HcpComm} (ch : Chunk) {rounds dataLeft p : Nat}
    {es : List HcpEvent} {r : FpcBepResult} (hgo : ch.seqNr ≤ ch.seqLen)
    (hchn : Holds c.txrxBuffer 0 (enc16 ch.chn)) (hlen : Holds c.txrxBuffer 8 (enc16 ch.seqLen))
    (hn : ch.payload.length = chunkSize dataLeft)
    (hp : slice c.pktBuffer p ch.payload.length = ch.payload) :
    Runs ((bmliteSend.loop APP_MTU ch.seqLen (rounds + 1) ch.seqNr dataLeft p
        FPC_BEP_RESULT_OK).run c) es (r, c') ↔
      ∃ w r₁ d es', es = .write ch.bytes 0 w :: .read 4 500 r₁ d :: es' ∧
        Runs ((bmliteSend.loop APP_MTU ch.seqLen rounds ((ch.seqNr + 1) % 65536)
          ((dataLeft + 65536 - chunkSize dataLeft) % 65536) (p + chunkSize dataLeft)
          (ackResult r₁ (d.take 4))).run
            (c.putChunk ch.seqNr (chunkSize dataLeft) p).seal) es' (r, c') := by
  obtain ⟨hlnk, hframe⟩ := seal_chunk ch hchn hlen hp
  have hle := ch.payload_le
  simp only [APP_MTU, MTU] at hle
  rw [hn] at hlnk hframe
  have hbytes : slice (c.putChunk ch.seqNr (chunkSize dataLeft) p).seal.txrxBuffer 0
      (((c.putChunk ch.seqNr (chunkSize dataLeft) p).lnkSize + 8) % 65536) = ch.bytes :=
    hframe.eq (by rw [hlnk, ch.bytes_length]; omega)
  rw [(send_loop_step hgo).runs_iff, runs_bind]
  constructor
  · rintro ⟨⟨r', c₁⟩, es₁, es₂, rfl, h1, h2⟩
    obtain ⟨w, r₁, d, rfl, rfl, rfl⟩ := runs_txLink.1 h1
    exact ⟨w, r₁, d, es₂, by rw [hbytes]; rfl, h2⟩
  · rintro ⟨w, r₁, d, es', rfl, h⟩
    exact ⟨_, _, es', by rw [hbytes]; rfl, runs_txLink.2 ⟨w, r₁, d, rfl, rfl, rfl⟩, h⟩

/-- The loop ends after a failure, or after the last chunk. -/
theorem runs_send_exit {c c' : HcpComm} {rounds seqNr seqLen dataLeft p : Nat}
    {es : List HcpEvent} {r bepResult : FpcBepResult}
    (h : ¬ (seqNr ≤ seqLen ∧ bepResult = FPC_BEP_RESULT_OK)) :
    Runs ((bmliteSend.loop APP_MTU seqLen (rounds + 1) seqNr dataLeft p bepResult).run c)
        es (r, c') ↔ es = [] ∧ r = bepResult ∧ c' = c := by
  simp [bmliteSend.loop, h, eq_comm]

/-! ## All rounds -/

theorem segment_length (b : List Byte) (hb : b.length < 65536) (i : Fin (b.length / APP_MTU + 1)) :
    (segment b hb i).payload.length = chunkSize (b.length - APP_MTU * i) := by
  simp only [segment, List.length_take, List.length_drop, chunkSize_eq, Nat.min_comm]

theorem segment_slice {b : List Byte} (hb : b.length < 65536) {c : HcpComm}
    (h : Holds c.pktBuffer 0 b) (i : Fin (b.length / APP_MTU + 1)) :
    slice c.pktBuffer (APP_MTU * i) (segment b hb i).payload.length =
      (segment b hb i).payload := by
  have hlen := segment_length b hb i
  have hle : APP_MTU * i ≤ b.length :=
    Nat.le_trans (Nat.mul_le_mul_left _ (Nat.le_of_lt_succ i.isLt)) (Nat.mul_div_le ..)
  have hcut := h.slice (o := APP_MTU * i) (n := (segment b hb i).payload.length)
    (by rw [hlen, chunkSize_eq]; omega)
  rw [Nat.zero_add] at hcut
  rw [hcut]
  simp only [segment, List.length_take, List.take_eq_take_iff, List.length_drop]
  omega

/-- The round on segment `i` changes only `txrx_buffer`, and keeps the header fields that are
stored once. -/
theorem send_segment {b : List Byte} (hb : b.length < 65536) (i : Fin (b.length / APP_MTU + 1))
    {c : HcpComm} (h0 : Holds c.txrxBuffer 0 (enc16 0))
    (h8 : Holds c.txrxBuffer 8 (enc16 (b.length / APP_MTU + 1))) (hpkt : Holds c.pktBuffer 0 b) :
    ∃ t, Holds t 0 (enc16 0) ∧ Holds t 8 (enc16 (b.length / APP_MTU + 1)) ∧
      ∀ {rounds : Nat} {es : List HcpEvent} {r : FpcBepResult} {c' : HcpComm},
        Runs ((bmliteSend.loop APP_MTU (b.length / APP_MTU + 1) (rounds + 1) (i + 1)
            (b.length - APP_MTU * i) (APP_MTU * i) FPC_BEP_RESULT_OK).run c) es (r, c') ↔
          ∃ w r₁ d es', es = .write (segment b hb i).bytes 0 w :: .read 4 500 r₁ d :: es' ∧
            Runs ((bmliteSend.loop APP_MTU (b.length / APP_MTU + 1) rounds (i + 1 + 1)
              (b.length - APP_MTU * (i + 1)) (APP_MTU * i + (segment b hb i).payload.length)
              (ackResult r₁ (d.take 4))).run { c with txrxBuffer := t }) es' (r, c') := by
  have hlen := segment_length b hb i
  have hslice := segment_slice hb hpkt i
  have hgo : (segment b hb i).seqNr ≤ (segment b hb i).seqLen := i.isLt
  have hle : (i : Nat) + 1 ≤ b.length / APP_MTU + 1 := i.isLt
  obtain ⟨h0', h8'⟩ := Chunk.holds_bytes (seal_chunk (segment b hb i) h0 h8 hslice).2
  have hnext : ((segment b hb i).seqNr + 1) % 65536 = i + 1 + 1 := by
    show ((i : Nat) + 1 + 1) % 65536 = i + 1 + 1
    simp only [APP_MTU, MTU] at hle
    omega
  have hleft : (b.length - APP_MTU * i + 65536 - chunkSize (b.length - APP_MTU * i)) % 65536 =
      b.length - APP_MTU * (i + 1) := by
    rw [chunkSize_eq]
    simp only [APP_MTU, MTU]
    omega
  refine ⟨_, h0', h8', fun {rounds es r c'} => ?_⟩
  have hstep := @runs_send_chunk c c' (segment b hb i) rounds (b.length - APP_MTU * i)
    (APP_MTU * i) es r hgo h0 h8 hlen hslice
  rw [hleft, hnext, ← hlen] at hstep
  exact hstep

/-- The next segment begins where this one ends, unless it is the last one. -/
theorem segment_end {b : List Byte} (hb : b.length < 65536) (i : Fin (b.length / APP_MTU + 1))
    (hi : (i : Nat) ≠ b.length / APP_MTU) :
    APP_MTU * i + (segment b hb i).payload.length = APP_MTU * (i + 1) := by
  have hle := i.isLt
  rw [segment_length, chunkSize_eq]
  simp only [APP_MTU, MTU] at hi hle ⊢
  omega

/-- The rounds from chunk `k` on, `m` chunks being left. -/
theorem runs_send_loop {b : List Byte} (hb : b.length < 65536) (m : Nat) :
    ∀ {k p : Nat} {c : HcpComm} {es : List HcpEvent} {r : FpcBepResult},
      k + m = b.length / APP_MTU + 1 → (m ≠ 0 → p = APP_MTU * k) →
      Holds c.txrxBuffer 0 (enc16 0) → Holds c.txrxBuffer 8 (enc16 (b.length / APP_MTU + 1)) →
      Holds c.pktBuffer 0 b →
      ((∃ t, Runs ((bmliteSend.loop APP_MTU (b.length / APP_MTU + 1) (m + 1) (k + 1)
          (b.length - APP_MTU * k) p FPC_BEP_RESULT_OK).run c) es
          (r, { c with txrxBuffer := t })) ↔
        Sent (((segments b hb).drop k).map Chunk.bytes) es r) ∧
      ∀ c', Runs ((bmliteSend.loop APP_MTU (b.length / APP_MTU + 1) (m + 1) (k + 1)
          (b.length - APP_MTU * k) p FPC_BEP_RESULT_OK).run c) es (r, c') →
        ∃ t, c' = { c with txrxBuffer := t } := by
  induction m with
  | zero =>
    intro k p c es r hk _ _ _ _
    have hexit : ¬ (k + 1 ≤ b.length / APP_MTU + 1 ∧ FPC_BEP_RESULT_OK = FPC_BEP_RESULT_OK) := by
      omega
    simp only [runs_send_exit hexit]
    rw [List.drop_of_length_le (by simp; omega)]
    refine ⟨⟨?_, ?_⟩, ?_⟩
    · rintro ⟨t, rfl, rfl, -⟩
      exact .done
    · rintro ⟨⟩
      exact ⟨c.txrxBuffer, rfl, rfl, rfl⟩
    · rintro c' ⟨-, -, rfl⟩
      exact ⟨c'.txrxBuffer, rfl⟩
  | succ m ih =>
    intro k p c es r hk hp h0 h8 hpkt
    obtain rfl := hp (by omega)
    let i : Fin (b.length / APP_MTU + 1) := ⟨k, by omega⟩
    obtain ⟨t, h0', h8', hstep⟩ := send_segment hb i h0 h8 hpkt
    have hp' : m ≠ 0 → APP_MTU * k + (segment b hb i).payload.length = APP_MTU * (k + 1) :=
      fun hm => segment_end hb i (show k ≠ b.length / APP_MTU by omega)
    have hrest {es' : List HcpEvent} :=
      @ih (k + 1) _ { c with txrxBuffer := t } es' r (by omega) hp' h0' h8' hpkt
    rw [segments_drop b hb i, List.map_cons]
    refine ⟨⟨?_, ?_⟩, ?_⟩
    · rintro ⟨t, hrun⟩
      obtain ⟨w, r₁, d, es', rfl, h⟩ := hstep.1 hrun
      by_cases hack : ackResult r₁ (d.take 4) = FPC_BEP_RESULT_OK
      · rw [hack] at h
        exact .next hack (hrest.1.1 ⟨t, h⟩)
      · obtain ⟨rfl, rfl, -⟩ := (runs_send_exit (fun hgo' => hack hgo'.2)).1 h
        exact .fail hack
    · intro hsent
      cases hsent with
      | fail hack =>
        exact ⟨_, hstep.2 ⟨_, _, _, [], rfl,
          (runs_send_exit (fun hgo' => hack hgo'.2)).2 ⟨rfl, rfl, rfl⟩⟩⟩
      | next hack h =>
        obtain ⟨t, h⟩ := hrest.1.2 h
        exact ⟨t, hstep.2 ⟨_, _, _, _, rfl, by rw [hack]; exact h⟩⟩
    · intro c' hrun
      obtain ⟨w, r₁, d, es', rfl, h⟩ := hstep.1 hrun
      by_cases hack : ackResult r₁ (d.take 4) = FPC_BEP_RESULT_OK
      · rw [hack] at h
        obtain ⟨t, rfl⟩ := hrest.2 _ h
        exact ⟨t, rfl⟩
      · obtain ⟨-, -, rfl⟩ := (runs_send_exit (fun hgo' => hack hgo'.2)).1 h
        exact ⟨_, rfl⟩

/-- What `bmlite_send` sends: its count of the bytes that are left has 16 bits. -/
def HcpComm.outgoing (c : HcpComm) : List Byte := slice c.pktBuffer 0 (c.pktSize % 65536)

theorem outgoing_length_lt (c : HcpComm) : c.outgoing.length < 65536 := by
  rw [HcpComm.outgoing, slice_length]
  exact Nat.mod_lt _ (by decide)

theorem outgoing_eq_packet {c : HcpComm} (h : c.pktSize < 65536) : c.outgoing = c.packet := by
  rw [HcpComm.outgoing, Nat.mod_eq_of_lt h, HcpComm.packet]

/-- The header fields that are stored once, the loop, and the report of its error. -/
theorem send_run (c : HcpComm) :
    bmliteSend.run c = .touch (.access ⟨.txrx, true, 0, 2⟩) (.touch (.access ⟨.txrx, true, 8, 2⟩)
      ((bmliteSend.loop APP_MTU (c.outgoing.length / APP_MTU + 1)
        (c.outgoing.length / APP_MTU + 1 + 1) (0 + 1) (c.outgoing.length - APP_MTU * 0) 0
        FPC_BEP_RESULT_OK).run { c with
          txrxBuffer := blit (blit c.txrxBuffer 0 (enc16 0)) 8
            (enc16 (c.outgoing.length / APP_MTU + 1)) } >>= reportResult)) := by
  simp only [bmliteSend, StateT.run_bind, StateT.run_get, pure_eq, ret_bind, run_store16,
    touch_bind, HcpComm.mem_txrx, HcpComm.setMem_txrx, HcpComm.outgoing, slice_length]
  congr 3
  funext x
  unfold reportResult reportIf
  split <;> rfl

/-- **`bmlite_send` sends the chunks of its packet, one by one, until one is not acknowledged**,
and changes nothing but `txrx_buffer`. -/
theorem runs_send {c : HcpComm} {es : List HcpEvent} {r : FpcBepResult} :
    ((∃ t, Runs (bmliteSend.run c) es (r, { c with txrxBuffer := t })) ↔
      Sent ((segments c.outgoing (outgoing_length_lt c)).map Chunk.bytes) es r) ∧
    ∀ c', Runs (bmliteSend.run c) es (r, c') → ∃ t, c' = { c with txrxBuffer := t } := by
  simp only [send_run c, runs_touch, runs_bind_reportResult]
  refine runs_send_loop (outgoing_length_lt c) _ (Nat.zero_add _) (fun _ => rfl)
    ((holds_blit _ _ _).blit _ (by simp)) (holds_blit _ _ _) ?_
  exact holds_slice ..

/-- A run of `bmlite_send`. -/
theorem runs_send_cases {c c' : HcpComm} {es : List HcpEvent} {r : FpcBepResult}
    (h : Runs (bmliteSend.run c) es (r, c')) :
    (∃ t, c' = { c with txrxBuffer := t }) ∧
      Sent ((segments c.outgoing (outgoing_length_lt c)).map Chunk.bytes) es r := by
  obtain ⟨t, rfl⟩ := runs_send.2 c' h
  exact ⟨⟨t, rfl⟩, runs_send.1.1 ⟨t, h⟩⟩

end BMLite
