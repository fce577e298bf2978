import BMLite.Stale

/-!
# Streams without an end

`bmlite_receive` on a stream of frames that goes on for ever, every read succeeding.

* `framePos`, `txrxAfter` — where the frames lie, and what they leave in `txrx_buffer`;
* `receive_frame` — one round of the loop takes one frame;
* `repeat_endless` — a chunk that is repeated for ever, and is not a last one, never ends the loop;
* `receive_returns_iff` — **the call returns if and only if** a frame is rejected or says that it
  is the last one, and takes the frames up to the first of that kind.
-/

set_option autoImplicit false

namespace BMLite

open FlatMemory Process

/-! ## The frames of a stream -/

section Frames

variable (src : Mem Byte) (pos : Nat) (m : Mem Byte)

/-- The start of frame `k`, counted from 0. -/
def framePos : (k : Nat) → Nat
  | 0 => pos
  | k + 1 => framePos k + (readFrame src (framePos k)).bytes.length

/-- `txrx_buffer` after `k` frames, `m` being what it held before. -/
def txrxAfter : (k : Nat) → Mem Byte
  | 0 => m
  | k + 1 => blit (txrxAfter k) 0 (readFrame src (framePos src pos k)).bytes

/-- `t_seq_nr` after frame `k`. -/
def frameNr (k : Nat) : Nat := dec16 (slice (txrxAfter src pos m (k + 1)) 6 2)

/-- `t_seq_len` after frame `k`. -/
def frameLen (k : Nat) : Nat := dec16 (slice (txrxAfter src pos m (k + 1)) 8 2)

/-- `_rx_link` accepts frame `k`. -/
def FrameAccepted (k : Nat) : Prop :=
  (readFrame src (framePos src pos k)).result = FPC_BEP_RESULT_OK

/-- Frame `k` ends the reception. -/
def Ends (k : Nat) : Prop := ¬ FrameAccepted src pos k ∨ frameLen src pos m k ≤ frameNr src pos m k

/-- Frame `k` is the first to end the reception. -/
def EndsAt (k : Nat) : Prop := Ends src pos m k ∧ ∀ i < k, ¬ Ends src pos m i

end Frames

/-! ## One round -/

variable {src : Mem Byte} {res : Nat → FpcBepResult}

theorem takeChunk_txrx (c : HcpComm) (p bufLen : Nat) (comResult : FpcBepResult) :
    (c.takeChunk p bufLen comResult).comm.txrxBuffer = c.txrxBuffer := by
  obtain ⟨b, hb⟩ := takeChunk_comm c p bufLen comResult
  rw [hb]

/-- **One round of the loop** on a stream takes one frame. -/
theorem receive_frame {c : HcpComm} {rounds seqNr seqLen p bufLen : Nat} {comResult : FpcBepResult}
    {s : Stream Byte} (hgo : seqNr < seqLen) :
    let f := readFrame src s.pos
    let c₁ := c.fill 0 f.bytes
    let s₁ : Stream Byte := ⟨s.pos + f.bytes.length, s.sent ++ f.acks⟩
    ((bmliteReceive.loop (rounds + 1) seqNr seqLen p bufLen comResult).run c).runIn
        (streamEnv src FPC_BEP_RESULT_OK res) s =
      if f.result = FPC_BEP_RESULT_OK then
        ((bmliteReceive.loop rounds c₁.seqNr c₁.seqLen (c₁.takeChunk p bufLen comResult).p
          (c₁.takeChunk p bufLen comResult).bufLen (c₁.takeChunk p bufLen comResult).comResult).run
            (c₁.takeChunk p bufLen comResult).comm).runIn
              (streamEnv src FPC_BEP_RESULT_OK res) s₁
      else some ((f.result, c₁), s₁) := by
  intro f c₁ s₁
  obtain ⟨es, hlink, hans, -⟩ := rxLink_stream src res c s
  refine Option.ext fun ⟨x, s'⟩ => ?_
  rw [runIn_iff]
  constructor
  · rintro ⟨es', hrun, hans'⟩
    rcases (runs_receive_round hgo).1 hrun with ⟨hr, hlink'⟩ | ⟨es₁, es₂, c₂, rfl, hlink', hrest⟩
    · obtain ⟨-, hx, rfl⟩ := Env.runs_unique (runs_rxLink.2 hlink') hans' (runs_rxLink.2 hlink) hans
      rw [(Prod.mk.inj hx).1] at hr
      rw [if_neg hr]
      exact congrArg (fun y => some (y, s₁)) hx.symm
    · obtain ⟨s₂, hans₁, hans₂⟩ := Env.answers_append.1 hans'
      obtain ⟨-, hx, rfl⟩ := Env.runs_unique (runs_rxLink.2 hlink') hans₁ (runs_rxLink.2 hlink) hans
      obtain ⟨hr, rfl⟩ := Prod.mk.inj hx
      rw [if_pos hr.symm, runIn_iff]
      exact ⟨es₂, hrest, hans₂⟩
  · intro h
    split at h <;> rename_i hr
    · obtain ⟨es₂, hrest, hans₂⟩ := runIn_iff.1 h
      have hlink' : RxLink c es FPC_BEP_RESULT_OK c₁ := hr ▸ hlink
      exact ⟨es ++ es₂, (runs_receive_round hgo).2 (.inr ⟨es, es₂, c₁, rfl, hlink', hrest⟩),
        Env.answers_append.2 ⟨s₁, hans, hans₂⟩⟩
    · cases h
      exact ⟨es, (runs_receive_round hgo).2 (.inl ⟨hr, hlink⟩), hans⟩

/-- The loop is left after a last frame. -/
theorem receive_exit {c : HcpComm} {rounds seqNr seqLen p bufLen : Nat} {comResult : FpcBepResult}
    {s : Stream Byte} (h : ¬ seqNr < seqLen) :
    ((bmliteReceive.loop (rounds + 1) seqNr seqLen p bufLen comResult).run c).runIn
      (streamEnv src FPC_BEP_RESULT_OK res) s =
        some ((comResult, { c with pktSize := bufLen }), s) :=
  runIn_iff.2 ⟨[], (runs_receive_exit h).2 ⟨rfl, rfl, rfl⟩, rfl⟩

/-! ## All rounds -/

variable {pos : Nat} {m : Mem Byte}

theorem seq_fill {c : HcpComm} {s : Stream Byte} {k : Nat}
    (hc : c.txrxBuffer = txrxAfter src pos m k) (hs : s.pos = framePos src pos k) :
    (c.fill 0 (readFrame src s.pos).bytes).txrxBuffer = txrxAfter src pos m (k + 1) ∧
      (c.fill 0 (readFrame src s.pos).bytes).seqNr = frameNr src pos m k ∧
      (c.fill 0 (readFrame src s.pos).bytes).seqLen = frameLen src pos m k := by
  have htxrx : (c.fill 0 (readFrame src s.pos).bytes).txrxBuffer = txrxAfter src pos m (k + 1) := by
    rw [HcpComm.fill, hc, hs]
    rfl
  unfold HcpComm.seqNr HcpComm.seqLen
  rw [htxrx]
  exact ⟨rfl, rfl, rfl⟩

/-- A loop that is left, is left after the first frame that ends it. -/
theorem receive_loop_stops (rounds : Nat) :
    ∀ {c : HcpComm} {seqNr seqLen p bufLen k : Nat} {comResult : FpcBepResult} {s s' : Stream Byte}
      {x : FpcBepResult × HcpComm}, c.txrxBuffer = txrxAfter src pos m k →
      s.pos = framePos src pos k → seqNr < seqLen →
      ((bmliteReceive.loop rounds seqNr seqLen p bufLen comResult).run c).runIn
        (streamEnv src FPC_BEP_RESULT_OK res) s = some (x, s') →
      ∃ n, k ≤ n ∧ Ends src pos m n ∧ (∀ i, k ≤ i → i < n → ¬ Ends src pos m i) ∧
        s'.pos = framePos src pos (n + 1) := by
  induction rounds with
  | zero =>
    intro c seqNr seqLen p bufLen k comResult s s' x _ _ _ h
    cases h
  | succ rounds ih =>
    intro c seqNr seqLen p bufLen k comResult s s' x hc hs hgo h
    obtain ⟨htxrx, hnr, hlen⟩ := seq_fill hc hs
    have hpos : s.pos + (readFrame src s.pos).bytes.length = framePos src pos (k + 1) := by
      rw [hs]
      rfl
    have hnone : ∀ i, k ≤ i → i < k → ¬ Ends src pos m i := by
      intro i hle hlt
      omega
    rw [receive_frame hgo] at h
    simp only [hnr, hlen] at h
    split at h <;> rename_i hr
    · by_cases hnext : frameNr src pos m k < frameLen src pos m k
      · have hgoes : ¬ Ends src pos m k := by
          intro hends
          rcases hends with hrej | hle
          · exact hrej (by rw [FrameAccepted, ← hs]; exact hr)
          · exact absurd hnext (Nat.not_lt.2 hle)
        obtain ⟨n, hle, hends, hfirst, hpos'⟩ :=
          ih (by rw [takeChunk_txrx]; exact htxrx) hpos hnext h
        refine ⟨n, by omega, hends, fun i hi hlt => ?_, hpos'⟩
        by_cases heq : i = k
        · rw [heq]
          exact hgoes
        · exact hfirst i (by omega) hlt
      · cases rounds with
        | zero => cases h
        | succ rounds =>
          rw [receive_exit hnext] at h
          cases h
          exact ⟨k, Nat.le_refl k, .inr (Nat.not_lt.1 hnext), hnone, hpos⟩
    · cases h
      refine ⟨k, Nat.le_refl k, .inl fun hacc => ?_, hnone, hpos⟩
      rw [FrameAccepted, ← hs] at hacc
      exact hr hacc

/-- A frame that ends the loop is reached, and the loop is left. -/
theorem receive_loop_returns (d : Nat) :
    ∀ {c : HcpComm} {rounds seqNr seqLen p bufLen k : Nat} {comResult : FpcBepResult}
      {s : Stream Byte}, c.txrxBuffer = txrxAfter src pos m k → s.pos = framePos src pos k →
      seqNr < seqLen → Ends src pos m (k + d) → (∀ i, k ≤ i → i < k + d → ¬ Ends src pos m i) →
      d + 2 ≤ rounds →
      (((bmliteReceive.loop rounds seqNr seqLen p bufLen comResult).run c).runIn
        (streamEnv src FPC_BEP_RESULT_OK res) s).isSome = true := by
  induction d with
  | zero =>
    intro c rounds seqNr seqLen p bufLen k comResult s hc hs hgo hends _ hrounds
    obtain ⟨rounds, rfl⟩ := Nat.exists_eq_add_of_le' hrounds
    obtain ⟨-, hnr, hlen⟩ := seq_fill hc hs
    rw [receive_frame hgo]
    by_cases hr : (readFrame src s.pos).result = FPC_BEP_RESULT_OK
    · have hlast : ¬ frameNr src pos m k < frameLen src pos m k := by
        rcases hends with hrej | hle
        · rw [FrameAccepted, Nat.add_zero, ← hs] at hrej
          exact absurd hr hrej
        · exact Nat.not_lt.2 hle
      rw [if_pos hr, hnr, hlen, receive_exit hlast]
      rfl
    · rw [if_neg hr]
      rfl
  | succ d ih =>
    intro c rounds seqNr seqLen p bufLen k comResult s hc hs hgo hends hfirst hrounds
    obtain ⟨rounds, rfl⟩ := Nat.exists_eq_add_of_le' (show 1 ≤ rounds by omega)
    obtain ⟨htxrx, hnr, hlen⟩ := seq_fill hc hs
    have hgoes := hfirst k (Nat.le_refl k) (by omega)
    unfold Ends at hgoes
    rw [not_or, not_not, FrameAccepted, ← hs, Nat.not_le] at hgoes
    obtain ⟨hr, hnext⟩ := hgoes
    have hpos : s.pos + (readFrame src s.pos).bytes.length = framePos src pos (k + 1) := by
      rw [hs]
      rfl
    rw [Nat.add_comm d 1, ← Nat.add_assoc] at hends
    rw [receive_frame hgo, if_pos hr, hnr, hlen]
    refine ih ?_ hpos hnext hends (fun i hi hlt => hfirst i (by omega) (by omega)) (by omega)
    rw [takeChunk_txrx]
    exact htxrx

/-! ## Repeated frames -/

/-- A frame of the stream is read as a whole. -/
theorem readFrame_link {pos : Nat} {f : LinkFrame} (h : Holds src pos f.bytes) :
    readFrame src pos = ⟨FPC_BEP_RESULT_OK, f.bytes, [fpcComAck]⟩ := by
  obtain ⟨hhdr, htail⟩ := holds_append.1 h
  obtain ⟨hbody, hcrc⟩ := holds_append.1 htail
  have hsize : frameSize src pos = f.body.length := dec16_of_holds (holds_append.1 hhdr).2 f.size_lt
  have hfit : ¬ MTU < frameSize src pos + 8 := by
    rw [hsize]
    exact Nat.not_lt.2 f.body_le
  have hvalid : FrameValid src pos := by
    have hcrc' : slice src (pos + 4 + f.body.length) 4 = enc32 (fpcCrc 0 f.body) := hcrc
    have hbody' : slice src (pos + 4) f.body.length = f.body := hbody
    unfold FrameValid
    rw [hsize, hbody', hcrc', dec32_enc32]
  have hbytes : slice src pos (4 + (frameSize src pos + 4)) = f.bytes :=
    h.eq (by rw [hsize, f.bytes_length]; omega)
  rw [readFrame, if_neg hfit, if_pos hvalid, hbytes]

variable {ch : Chunk}

theorem framePos_repeated (ch : Chunk) (k : Nat) :
    framePos (repeated ch.bytes 0) 0 k = k * ch.bytes.length := by
  induction k with
  | zero => rw [framePos, Nat.zero_mul]
  | succ k ih =>
    rw [framePos, ih, readFrame_link (f := ch.link) (holds_repeated ch.bytes 0 k), Nat.succ_mul]
    rfl

/-- **A chunk that is not a last one, repeated for ever, keeps the host in the loop.** -/
theorem repeat_endless (h : ch.seqNr < ch.seqLen) (m : Mem Byte) (k : Nat) :
    ¬ Ends (repeated ch.bytes 0) 0 m k := by
  have hread : readFrame (repeated ch.bytes 0) (framePos (repeated ch.bytes 0) 0 k) =
      ⟨FPC_BEP_RESULT_OK, ch.bytes, [fpcComAck]⟩ := by
    rw [framePos_repeated]
    exact readFrame_link (f := ch.link) (holds_repeated ch.bytes 0 k)
  have htxrx : txrxAfter (repeated ch.bytes 0) 0 m (k + 1) =
      blit (txrxAfter (repeated ch.bytes 0) 0 m k) 0 ch.bytes := by
    rw [txrxAfter, hread]
  have hholds : Holds (txrxAfter (repeated ch.bytes 0) 0 m (k + 1)) 0 ch.bytes := by
    rw [htxrx]
    exact holds_blit ..
  generalize hm : txrxAfter (repeated ch.bytes 0) 0 m (k + 1) = m' at hholds
  obtain ⟨-, -, hnr, hlen, -⟩ := chunk_fields (c := { hcpChain with txrxBuffer := m' }) hholds
  intro hends
  rcases hends with hrej | hle
  · exact hrej (by rw [FrameAccepted, hread])
  · have hle' : ch.seqLen ≤ ch.seqNr := by
      rw [frameNr, frameLen, hm] at hle
      rw [← hnr, ← hlen]
      exact hle
    exact absurd h (Nat.not_lt.2 hle')

/-! ## When the call returns -/

/-- Each accepted frame has a greater number than the one before it, and no greater
`t_seq_len`. -/
def Ordered (src : Mem Byte) (pos : Nat) (m : Mem Byte) : Prop :=
  ∀ k, FrameAccepted src pos (k + 1) →
    frameNr src pos m k < frameNr src pos m (k + 1) ∧
      frameLen src pos m (k + 1) ≤ frameLen src pos m k

theorem exists_endsAt {b : Nat} (h : ∃ n ≤ b, Ends src pos m n) : ∃ n ≤ b, EndsAt src pos m n := by
  classical
  obtain ⟨n, hle, hends⟩ := h
  have hex : ∃ n, Ends src pos m n := ⟨n, hends⟩
  refine ⟨Nat.find hex, (Nat.find_min' hex hends).trans hle, Nat.find_spec hex, ?_⟩
  intro i hi
  exact Nat.find_min hex hi

/-- How far the numbers have come after `k` more frames. -/
theorem ordered_progress (hord : Ordered src pos m) (k : Nat)
    (hacc : ∀ i ≤ k, FrameAccepted src pos i) :
    frameNr src pos m 0 + k ≤ frameNr src pos m k ∧
      frameLen src pos m k ≤ frameLen src pos m 0 := by
  induction k with
  | zero => exact ⟨Nat.le_refl _, Nat.le_refl _⟩
  | succ k ih =>
    obtain ⟨hnr, hlen⟩ := ih fun i hi => hacc i (Nat.le_succ_of_le hi)
    obtain ⟨hlt, hle⟩ := hord k (hacc (k + 1) (Nat.le_refl _))
    exact ⟨by omega, hle.trans hlen⟩

/-- Frames in order do not go on for ever. -/
theorem ordered_ends (hord : Ordered src pos m) :
    ∃ n ≤ frameLen src pos m 0 - frameNr src pos m 0, Ends src pos m n := by
  by_contra hno
  have hgoes : ∀ n ≤ frameLen src pos m 0 - frameNr src pos m 0, ¬ Ends src pos m n :=
    fun n hle hends => hno ⟨n, hle, hends⟩
  have hlast := hgoes _ (Nat.le_refl _)
  obtain ⟨hnr, hlen⟩ := ordered_progress hord (frameLen src pos m 0 - frameNr src pos m 0)
    fun i hi => not_not.1 fun hrej => hgoes i hi (.inl hrej)
  exact hlast (.inr (by omega))

/-- A call that returns has taken the frames up to the first one that ends it. -/
theorem receive_stops {c : HcpComm} {s s' : Stream Byte} {rounds : Nat}
    {x : FpcBepResult × HcpComm} (h : ((bmliteReceive rounds).run c).runIn
      (streamEnv src FPC_BEP_RESULT_OK res) s = some (x, s')) :
    ∃ n, EndsAt src s.pos c.txrxBuffer n ∧ s'.pos = framePos src s.pos (n + 1) := by
  obtain ⟨n, -, hends, hfirst, hpos⟩ := @receive_loop_stops src res s.pos c.txrxBuffer rounds c 0 1
    0 0 0 FPC_BEP_RESULT_OK s s' x rfl rfl Nat.zero_lt_one h
  exact ⟨n, ⟨hends, fun i hi => hfirst i (Nat.zero_le i) hi⟩, hpos⟩

theorem receive_returns {c : HcpComm} {s : Stream Byte} {n : Nat}
    (h : EndsAt src s.pos c.txrxBuffer n) :
    (((bmliteReceive (n + 2)).run c).runIn (streamEnv src FPC_BEP_RESULT_OK res) s).isSome =
      true := by
  obtain ⟨hends, hfirst⟩ := h
  refine receive_loop_returns (k := 0) n rfl rfl Nat.zero_lt_one ?_ ?_ (Nat.le_refl _)
  · rw [Nat.zero_add]
    exact hends
  · intro i _ hi
    exact hfirst i (by rwa [Nat.zero_add] at hi)

/-- **When a reception from an endless stream of frames returns**: if and only if a frame is
rejected or says that it is a last one, and after the first frame of that kind.  Frames in order
have one, and as many frames are taken as the first one says at most. -/
theorem receive_returns_iff (src : Mem Byte) (res : Nat → FpcBepResult) (c : HcpComm)
    (s : Stream Byte) :
    let run (rounds : Nat) :=
      ((bmliteReceive rounds).run c).runIn (streamEnv src FPC_BEP_RESULT_OK res) s
    ((∃ rounds x s', run rounds = some (x, s')) ↔ ∃ n, Ends src s.pos c.txrxBuffer n) ∧
    (∀ rounds x s', run rounds = some (x, s') →
      ∃ n, EndsAt src s.pos c.txrxBuffer n ∧ s'.pos = framePos src s.pos (n + 1)) ∧
    (Ordered src s.pos c.txrxBuffer →
      ∃ rounds x s' n, run rounds = some (x, s') ∧ s'.pos = framePos src s.pos (n + 1) ∧
        n ≤ frameLen src s.pos c.txrxBuffer 0 - frameNr src s.pos c.txrxBuffer 0) := by
  intro run
  have hreturns {n : Nat} (hends : EndsAt src s.pos c.txrxBuffer n) :
      ∃ rounds x s', run rounds = some (x, s') := by
    obtain ⟨⟨x, s'⟩, hrun⟩ := Option.isSome_iff_exists.1 (@receive_returns src res c s n hends)
    exact ⟨n + 2, x, s', hrun⟩
  refine ⟨⟨?_, ?_⟩, fun rounds x s' hrun => receive_stops hrun, fun hord => ?_⟩
  · rintro ⟨rounds, x, s', hrun⟩
    obtain ⟨n, hends, -⟩ := receive_stops hrun
    exact ⟨n, hends.1⟩
  · rintro ⟨n, hends⟩
    obtain ⟨n, -, hends⟩ := exists_endsAt ⟨n, Nat.le_refl n, hends⟩
    exact hreturns hends
  · obtain ⟨n, hle, hends⟩ := exists_endsAt (ordered_ends hord)
    obtain ⟨rounds, x, s', hrun⟩ := hreturns hends
    obtain ⟨k, hends', hpos⟩ := receive_stops hrun
    refine ⟨rounds, x, s', k, hrun, hpos, ?_⟩
    have hk : k ≤ n := Nat.not_lt.1 fun hlt => hends'.2 n hlt hends.1
    exact hk.trans hle

/-- A reception that ends with its first frame. -/
theorem receive_returns_request : ∃ rounds x s',
    ((bmliteReceive rounds).run hcpChain).runIn (streamEnv (fun i => identifyFrame.getD i 0)
      FPC_BEP_RESULT_OK fun _ => FPC_BEP_RESULT_OK) ⟨0, []⟩ = some (x, s') := by
  refine (receive_returns_iff _ _ hcpChain ⟨0, []⟩).1.2 ⟨0, .inr ?_⟩
  decide +kernel

/-- **The first of two chunks, repeated for ever**: every frame is a valid one that carries the
same numbers, and the call does not return. -/
theorem receive_endless :
    let ch := byteChunk 1 2 0x41 (by decide) (by decide)
    let src : Mem Byte := repeated ch.bytes 0
    (∀ k, Holds src (k * 15) ch.bytes) ∧ ∀ rounds,
      ((bmliteReceive rounds).run hcpChain).runIn
        (streamEnv src FPC_BEP_RESULT_OK fun _ => FPC_BEP_RESULT_OK) ⟨0, []⟩ = none := by
  intro ch src
  refine ⟨holds_repeated ch.bytes 0, fun rounds => ?_⟩
  by_contra hsome
  obtain ⟨⟨x, s'⟩, hrun⟩ := Option.ne_none_iff_exists'.1 hsome
  obtain ⟨n, hends, -⟩ := receive_stops hrun
  exact @repeat_endless ch (Nat.lt_succ_self 1) _ n hends.1

end BMLite
