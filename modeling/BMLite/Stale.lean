import BMLite.Exchange

/-!
# Stale data in a reception

Reads that succeed take their bytes from a stream.  Two receptions from the same stream, by chains
that agree on `pkt_size_max` only, are compared.

* `readFrame`, `rxLink_stream` — what `_rx_link` makes of the next frame of the stream;
* `Fresh` — how much of the two chains agrees between two rounds;
* `receive_fresh` — **the two receptions do the same**, unless the first frame is too short for
  its own header, and leave the same packet unless the last frame is rejected.
-/

set_option autoImplicit false

namespace BMLite

open FlatMemory Process

/-! ## The next frame -/

/-- The size in the header of the frame at `pos`. -/
def frameSize (src : Mem Byte) (pos : Nat) : Nat := dec16 (slice src (pos + 2) 2)

/-- The CRC of the frame at `pos` is that of its body. -/
def FrameValid (src : Mem Byte) (pos : Nat) : Prop :=
  fpcCrc 0 (slice src (pos + 4) (frameSize src pos)) =
    dec32 (slice src (pos + 4 + frameSize src pos) 4)

instance (src : Mem Byte) (pos : Nat) : Decidable (FrameValid src pos) :=
  inferInstanceAs (Decidable (_ = _))

/-- A call of `_rx_link` on a stream: its result, the bytes it takes, and the blocks it writes. -/
structure FrameRead where
  result : FpcBepResult
  bytes : List Byte
  acks : List (List Byte)

/-- What `_rx_link` makes of the frame at `pos`. -/
def readFrame (src : Mem Byte) (pos : Nat) : FrameRead :=
  if MTU < frameSize src pos + 8 then ⟨FPC_BEP_RESULT_IO_ERROR, slice src pos 4, []⟩
  else if FrameValid src pos then
    ⟨FPC_BEP_RESULT_OK, slice src pos (4 + (frameSize src pos + 4)), [fpcComAck]⟩
  else ⟨FPC_BEP_RESULT_IO_ERROR, slice src pos (4 + (frameSize src pos + 4)), []⟩

/-- Every event but the last may be anything; the last, if there is one, writes an ACK. -/
def EndsInAck (es : List HcpEvent) : Prop := ∀ e ∈ es.getLast?, ∃ w, e = .write fpcComAck 0 w

theorem EndsInAck.right {es fs : List HcpEvent} (h : EndsInAck (es ++ fs)) : EndsInAck fs := by
  intro e he
  refine h e ?_
  rw [Option.mem_def] at he ⊢
  rw [List.getLast?_append, he]
  rfl

variable {src : Mem Byte} {res : Nat → FpcBepResult}

theorem crcValid_frame (src : Mem Byte) (c : HcpComm) (pos : Nat) :
    (c.fill 0 (slice src pos (4 + (frameSize src pos + 4)))).CrcValid (frameSize src pos) ↔
      FrameValid src pos := by
  have h := holds_blit c.txrxBuffer 0 (slice src pos (4 + (frameSize src pos + 4)))
  rw [slice_append, slice_append, ← List.append_assoc, holds_append, holds_append] at h
  obtain ⟨⟨-, hbody⟩, hcrc⟩ := h
  rw [List.length_append, slice_length, slice_length] at hcrc
  rw [slice_length] at hbody
  have hbody' := hbody.eq (slice_length ..).symm
  have hcrc' := hcrc.eq (slice_length ..).symm
  rw [Nat.zero_add] at hbody' hcrc'
  unfold HcpComm.CrcValid FrameValid
  rw [slice_append, slice_append, ← List.append_assoc]
  unfold HcpComm.fill
  rw [hbody', hcrc']

/-- **`_rx_link` on a stream** depends on the stream only. -/
theorem rxLink_stream (src : Mem Byte) (res : Nat → FpcBepResult) (c : HcpComm) (s : Stream Byte) :
    ∃ es, RxLink c es (readFrame src s.pos).result (c.fill 0 (readFrame src s.pos).bytes) ∧
      (streamEnv src FPC_BEP_RESULT_OK res).Answers s es
        ⟨s.pos + (readFrame src s.pos).bytes.length, s.sent ++ (readFrame src s.pos).acks⟩ ∧
      (EndsInAck es → (readFrame src s.pos).result = FPC_BEP_RESULT_OK) := by
  have htake {n pos : Nat} : (slice src pos n).take n = slice src pos n :=
    List.take_of_length_le (by simp)
  have hlnk : (c.fill 0 ((slice src s.pos 4).take 4)).lnkSize = frameSize src s.pos := by
    rw [htake, lnkSize_fill c (slice_length ..), slice_drop _ _ (by decide)]
    rfl
  unfold readFrame
  split
  · rename_i hsize
    rw [← hlnk] at hsize
    refine ⟨_, by rw [← @htake 4 s.pos]; exact .tooLong rfl hsize, ?_, ?_⟩
    · exact answers_read.2 ⟨rfl, rfl, by simp [Env.Answers]⟩
    · rintro h
      obtain ⟨w, hw⟩ := h _ rfl
      cases hw
  · rename_i hsize
    have hle : frameSize src s.pos + 8 ≤ MTU := Nat.not_lt.1 hsize
    have hfill : c.fill 0 (slice src s.pos (4 + (frameSize src s.pos + 4))) =
        (c.fill 0 ((slice src s.pos 4).take 4)).fill 4
          ((slice src (s.pos + 4) (frameSize src s.pos + 4)).take (frameSize src s.pos + 4)) := by
      rw [htake, htake, slice_append, ← fill_fill, slice_length, Nat.zero_add]
    have hcrc := crcValid_frame src c s.pos
    rw [hfill] at hcrc
    split <;> rename_i hvalid
    · refine ⟨_, RxLink.accepted (w := res s.sent.length) (r := FPC_BEP_RESULT_OK) rfl
        (by rw [hlnk]; exact hle) (by rw [hlnk]; exact hfill)
        (by rw [hlnk, hfill]; exact hcrc.2 hvalid), ?_, fun _ => rfl⟩
      refine answers_read.2 ⟨rfl, rfl, answers_read.2 ⟨rfl, ?_, answers_write.2 ⟨rfl, ?_⟩⟩⟩
      · rw [hlnk]
      · rw [hlnk]; simp [Env.Answers, Nat.add_assoc]
    · refine ⟨_, RxLink.badCrc (r := FPC_BEP_RESULT_OK) rfl (by rw [hlnk]; exact hle)
        (by rw [hlnk]; exact hfill) (by rw [hlnk, hfill]; exact fun h => hvalid (hcrc.1 h)), ?_, ?_⟩
      · refine answers_read.2 ⟨rfl, rfl, answers_read.2 ⟨rfl, ?_, ?_⟩⟩
        · rw [hlnk]
        · rw [hlnk]; simp [Env.Answers, Nat.add_assoc]
      · rintro h
        obtain ⟨w, hw⟩ := h _ rfl
        cases hw

/-- A frame that is accepted is a valid one, taken as a whole. -/
theorem readFrame_ok {pos : Nat} (h : (readFrame src pos).result = FPC_BEP_RESULT_OK) :
    FrameValid src pos ∧
      (readFrame src pos).bytes = slice src pos (4 + (frameSize src pos + 4)) := by
  unfold readFrame at h ⊢
  split at h
  · cases h
  · rename_i hsize
    split at h
    · rename_i hvalid
      rw [if_neg hsize, if_pos hvalid]
      exact ⟨hvalid, rfl⟩
    · cases h

theorem lnkSize_frame (c : HcpComm) (pos : Nat) :
    (c.fill 0 (slice src pos (4 + (frameSize src pos + 4)))).lnkSize = frameSize src pos := by
  have h := holds_blit c.txrxBuffer 0 (slice src pos (4 + (frameSize src pos + 4)))
  have hsize := h.slice (o := 2) (n := 2) (by rw [slice_length]; omega)
  rw [slice_drop _ _ (by omega), slice_take _ _ (by omega)] at hsize
  exact congrArg dec16 hsize

/-! ## Two chains -/

/-- The chains agree on the first `n` bytes of `txrx_buffer` and on the first `p` bytes of
`pkt_buffer`. -/
structure Fresh (c₁ c₂ : HcpComm) (n p : Nat) : Prop where
  max_eq : c₁.pktSizeMax = c₂.pktSizeMax
  txrx_eq : slice c₁.txrxBuffer 0 n = slice c₂.txrxBuffer 0 n
  pkt_eq : slice c₁.pktBuffer 0 p = slice c₂.pktBuffer 0 p

/-- A range inside an agreed one. -/
theorem slice_eq_of_le {m m' : Mem Byte} {n o k : Nat} (h : slice m 0 n = slice m' 0 n)
    (hk : o + k ≤ n) : slice m o k = slice m' o k := by
  have hcut := slice_of_slice h hk
  rw [Nat.zero_add] at hcut
  rw [hcut, slice_drop _ _ (by omega), slice_take _ _ (by omega), Nat.zero_add]

/-- Storing the same bytes extends the agreement. -/
theorem slice_blit_eq {m m' : Mem Byte} {n off : Nat} (xs : List Byte)
    (h : slice m 0 n = slice m' 0 n) (hoff : off ≤ n) :
    slice (blit m off xs) 0 (max n (off + xs.length)) =
      slice (blit m' off xs) 0 (max n (off + xs.length)) := by
  rw [slice_eq_iff] at h ⊢
  intro i hi
  refine blit_congr off xs fun hout => ?_
  have hcell := h i
  simp only [Nat.zero_add] at hcell hout ⊢
  exact hcell (by omega)

theorem Fresh.fill {c₁ c₂ : HcpComm} {n p : Nat} (h : Fresh c₁ c₂ n p) (bs : List Byte) :
    Fresh (c₁.fill 0 bs) (c₂.fill 0 bs) (max n bs.length) p := by
  refine ⟨h.max_eq, ?_, h.pkt_eq⟩
  have htxrx := slice_blit_eq bs h.txrx_eq (Nat.zero_le n)
  rwa [Nat.zero_add] at htxrx

theorem Fresh.header {c₁ c₂ : HcpComm} {n p : Nat} (h : Fresh c₁ c₂ n p) (hn : 10 ≤ n) :
    c₁.lnkSize = c₂.lnkSize ∧ c₁.tSize = c₂.tSize ∧ c₁.seqNr = c₂.seqNr ∧ c₁.seqLen = c₂.seqLen := by
  refine ⟨?_, ?_, ?_, ?_⟩ <;> exact congrArg dec16 (slice_eq_of_le h.txrx_eq (by omega))

/-- **Both chains treat an accepted frame alike**, and still agree on the packet. -/
theorem Fresh.takeChunk {c₁ c₂ : HcpComm} {n p : Nat} (h : Fresh c₁ c₂ n p) (hn : 10 ≤ n)
    (hlnk : c₁.lnkSize + 8 ≤ n) {bufLen : Nat} (hle : bufLen ≤ p) (comResult : FpcBepResult) :
    ∃ d₁ d₂ p' bufLen' comResult', c₁.takeChunk p bufLen comResult = ⟨d₁, p', bufLen', comResult'⟩ ∧
      c₂.takeChunk p bufLen comResult = ⟨d₂, p', bufLen', comResult'⟩ ∧ Fresh d₁ d₂ n p' ∧
      bufLen' ≤ p' := by
  obtain ⟨hlnk', hsize, -, -⟩ := h.header hn
  unfold HcpComm.takeChunk
  rw [← hlnk', ← hsize, ← h.max_eq]
  split
  · exact ⟨c₁, c₂, _, _, _, rfl, rfl, h, hle⟩
  · split
    · have hpld : slice c₁.txrxBuffer 10 c₁.tSize = slice c₂.txrxBuffer 10 c₁.tSize :=
        slice_eq_of_le h.txrx_eq (by omega)
      rw [← hpld]
      refine ⟨_, _, _, _, _, rfl, rfl, ⟨rfl, h.txrx_eq, ?_⟩, ?_⟩
      · have hpkt := slice_blit_eq (slice c₁.txrxBuffer 10 c₁.tSize) h.pkt_eq (Nat.le_refl p)
        rwa [slice_length, Nat.max_eq_right (by omega)] at hpkt
      · exact (Nat.mod_le _ _).trans (Nat.add_le_add_right hle _)
    · exact ⟨c₁, c₂, _, _, _, rfl, rfl, h, hle⟩

/-! ## Two receptions -/

/-- The loop on two chains.  Before the first frame they may agree on nothing; a frame that is
accepted makes them agree on the header. -/
theorem receive_loop_fresh (rounds : Nat) :
    ∀ {c₁ c₂ : HcpComm} {n seqNr seqLen p bufLen : Nat} {comResult : FpcBepResult}
      {es₁ : List HcpEvent} {r : FpcBepResult} {c₁' : HcpComm} {s s' : Stream Byte},
      Fresh c₁ c₂ n p → (10 ≤ n ∨ (FrameValid src s.pos → 2 ≤ frameSize src s.pos)) → bufLen ≤ p →
      Runs ((bmliteReceive.loop rounds seqNr seqLen p bufLen comResult).run c₁) es₁ (r, c₁') →
      (streamEnv src FPC_BEP_RESULT_OK res).Answers s es₁ s' →
      ∃ es₂ c₂', Runs ((bmliteReceive.loop rounds seqNr seqLen p bufLen comResult).run c₂) es₂
          (r, c₂') ∧ (streamEnv src FPC_BEP_RESULT_OK res).Answers s es₂ s' ∧
        (EndsInAck es₁ → c₂'.pktSize = c₁'.pktSize ∧ c₂'.packet = c₁'.packet) := by
  induction rounds with
  | zero =>
    intro c₁ c₂ n seqNr seqLen p bufLen comResult es₁ r c₁' s s' _ _ _ h
    exact absurd h runs_out
  | succ rounds ih =>
    intro c₁ c₂ n seqNr seqLen p bufLen comResult es₁ r c₁' s s' hfresh hfirst hle h hans
    by_cases hgo : seqNr < seqLen
    · obtain ⟨es, hlink₁, hans₁, hack⟩ := rxLink_stream src res c₁ s
      obtain ⟨es', hlink₂, hans₂, -⟩ := rxLink_stream src res c₂ s
      rcases (runs_receive_round hgo).1 h with ⟨hr, hlink⟩ | ⟨es₀, es₁, c₀, rfl, hlink, hrest⟩
      · -- The frame is rejected.
        obtain ⟨rfl, heq, rfl⟩ := Env.runs_unique (runs_rxLink.2 hlink) hans
          (runs_rxLink.2 hlink₁) hans₁
        cases heq
        refine ⟨es', _, (runs_receive_round hgo).2 (.inl ⟨hr, hlink₂⟩), hans₂, fun hends => ?_⟩
        exact absurd (hack hends) hr
      · -- The frame is accepted.
        obtain ⟨s₀, hans₀, hans⟩ := Env.answers_append.1 hans
        obtain ⟨rfl, heq, rfl⟩ := Env.runs_unique (runs_rxLink.2 hlink) hans₀
          (runs_rxLink.2 hlink₁) hans₁
        obtain ⟨hok, rfl⟩ := Prod.mk.inj heq
        obtain ⟨hvalid, hbytes⟩ := readFrame_ok hok.symm
        rw [← hok] at hlink₂
        rw [hbytes] at hlink₂ hrest
        have hfresh' := hfresh.fill (slice src s.pos (4 + (frameSize src s.pos + 4)))
        rw [slice_length] at hfresh'
        have hn : 10 ≤ max n (4 + (frameSize src s.pos + 4)) := by
          rcases hfirst with hn | hsize
          · omega
          · have := hsize hvalid
            omega
        obtain ⟨-, -, hnr, hlen⟩ := hfresh'.header hn
        obtain ⟨d₁, d₂, p', bufLen', comResult', htake₁, htake₂, hfresh'', hle'⟩ :=
          hfresh'.takeChunk hn (by rw [lnkSize_frame]; omega) hle comResult
        rw [htake₁] at hrest
        obtain ⟨es₂, c₂', hrun, hans', hpkt⟩ := ih hfresh'' (.inl hn) hle' hrest hans
        refine ⟨es' ++ es₂, c₂', (runs_receive_round hgo).2 (.inr ⟨es', es₂, _, rfl, hlink₂, ?_⟩),
          Env.answers_append.2 ⟨_, hans₂, hans'⟩, fun hends => hpkt hends.right⟩
        rw [htake₂, ← hnr, ← hlen]
        exact hrun
    · obtain ⟨rfl, rfl, rfl⟩ := (runs_receive_exit hgo).1 h
      refine ⟨[], _, (runs_receive_exit hgo).2 ⟨rfl, rfl, rfl⟩, hans, fun _ => ⟨rfl, ?_⟩⟩
      exact (slice_eq_of_le hfresh.pkt_eq (by rwa [Nat.zero_add])).symm

/-- **Stale data does not decide a reception** from a stream whose first frame, if it is valid,
has at least two bytes.  Two chains that agree on `pkt_size_max` finish it alike: with the same
result, at the same position of the stream and after the same ACKs.  The packets are the same as
well, if the reception did not end in a frame that `_rx_link` rejected. -/
theorem receive_fresh {c₁ c₂ : HcpComm} (hmax : c₁.pktSizeMax = c₂.pktSizeMax) {s : Stream Byte}
    (hfirst : FrameValid src s.pos → 2 ≤ frameSize src s.pos) {rounds : Nat}
    {es₁ : List HcpEvent} {r₁ : FpcBepResult} {c₁' : HcpComm} {s₁ : Stream Byte}
    (h₁ : Runs ((bmliteReceive rounds).run c₁) es₁ (r₁, c₁'))
    (hans₁ : (streamEnv src FPC_BEP_RESULT_OK res).Answers s es₁ s₁) :
    (∃ es₂ x s₂, Runs ((bmliteReceive rounds).run c₂) es₂ x ∧
      (streamEnv src FPC_BEP_RESULT_OK res).Answers s es₂ s₂) ∧
    ∀ es₂ r₂ c₂' s₂, Runs ((bmliteReceive rounds).run c₂) es₂ (r₂, c₂') →
      (streamEnv src FPC_BEP_RESULT_OK res).Answers s es₂ s₂ →
      r₂ = r₁ ∧ s₂ = s₁ ∧
        (EndsInAck es₁ → c₂'.pktSize = c₁'.pktSize ∧ c₂'.packet = c₁'.packet) := by
  obtain ⟨es, c, hrun, hans, hpkt⟩ := receive_loop_fresh rounds (n := 0) (p := 0)
    ⟨hmax, rfl, rfl⟩ (.inr hfirst) (Nat.le_refl 0) h₁ hans₁
  refine ⟨⟨es, _, s₁, hrun, hans⟩, fun es₂ r₂ c₂' s₂ hrun₂ hans₂ => ?_⟩
  obtain ⟨rfl, heq, rfl⟩ := Env.runs_unique hrun hans hrun₂ hans₂
  cases heq
  exact ⟨rfl, rfl, hpkt⟩

/-- One frame, received over buffers of zeros and over buffers of ones. -/
theorem receive_fresh_request :
    let env := streamEnv (fun i => identifyFrame.getD i 0) FPC_BEP_RESULT_OK
      fun _ => FPC_BEP_RESULT_OK
    let c : HcpComm := { hcpChain with pktBuffer := fun _ => 0xff, txrxBuffer := fun _ => 0xff }
    ∃ es₁ r c₁' s₁ es₂ c₂', Runs ((bmliteReceive 2).run hcpChain) es₁ (r, c₁') ∧
      env.Answers ⟨0, []⟩ es₁ s₁ ∧ Runs ((bmliteReceive 2).run c) es₂ (r, c₂') ∧
      env.Answers ⟨0, []⟩ es₂ s₁ := by
  intro env c
  have hsome : (((bmliteReceive 2).run hcpChain).runIn env ⟨0, []⟩).isSome = true := by
    decide +kernel
  obtain ⟨⟨⟨r, c₁'⟩, s₁⟩, hrun⟩ := Option.isSome_iff_exists.1 hsome
  obtain ⟨es₁, hrun₁, hans₁⟩ := runIn_iff.1 hrun
  obtain ⟨⟨es₂, ⟨r₂, c₂'⟩, s₂, hrun₂, hans₂⟩, hsame⟩ := receive_fresh
    (show hcpChain.pktSizeMax = c.pktSizeMax from rfl) (fun _ => by decide) hrun₁ hans₁
  obtain ⟨rfl, rfl, -⟩ := hsame es₂ r₂ c₂' s₂ hrun₂ hans₂
  exact ⟨es₁, r₂, c₁', s₂, es₂, c₂', hrun₁, hans₁, hrun₂, hans₂⟩

/-- **What stale data does decide**: a rejected frame leaves the packet as it was, and the end of a
reception whose only frame has no body is decided by the `t_seq_len` of an earlier one. -/
theorem receive_stale :
    let run (c : HcpComm) (src : Mem Byte) := ((bmliteReceive 3).run c).runIn
      (streamEnv src FPC_BEP_RESULT_OK fun _ => FPC_BEP_RESULT_OK) ⟨0, []⟩
    let old (b : Byte) : HcpComm := { hcpChain with pktBuffer := fun _ => b, pktSize := 1 }
    let badCrc : Mem Byte := fun i => if i = 4 then 1 else 0
    let short : Mem Byte := fun i => if i < 10 then 0 else 0xff
    let c := hcpChain.fill 8 [1]
    ((run (old 0) badCrc).map (·.1.2.packet) = some [0] ∧
      (run (old 1) badCrc).map (·.1.2.packet) = some [1]) ∧
    (run hcpChain short).map (·.2.pos) = some 8 ∧ (run c short).map (·.2.pos) = some 12 := by
  decide +kernel

end BMLite
