import BMLite.Link

/-!
# Chunks: the transport layer's frames

* `Chunk` — a frame that carries a part of a packet, and where its fields lie in `txrx_buffer`
  (`chunk_fields`);
* `exists_chunk` — every accepted frame whose sizes agree is a chunk;
* `segments`, `reassemble` — a packet cut into chunks the way `bmlite_send` cuts it, and put
  together again;
* `reassemble_segments` — **nothing is lost between the two**;
* `Complete`, `Numbered` — when chunks end a packet, and when they are numbered in order.
-/

set_option autoImplicit false

namespace BMLite

open FlatMemory Process

/-! ## Chunks -/

/-- The most payload that a frame holds (`app_mtu`). -/
def APP_MTU : Nat := MTU - 6 - 8

/-- A frame of the transport layer, `t_size` being the length of its payload. -/
structure Chunk where
  chn : Nat
  seqNr : Nat
  seqLen : Nat
  payload : List Byte
  chn_lt : chn < 65536
  seqNr_lt : seqNr < 65536
  seqLen_lt : seqLen < 65536
  payload_le : payload.length ≤ APP_MTU

def Chunk.body (ch : Chunk) : List Byte :=
  enc16 ch.payload.length ++ enc16 ch.seqNr ++ enc16 ch.seqLen ++ ch.payload

theorem Chunk.body_length (ch : Chunk) : ch.body.length = ch.payload.length + 6 := by
  simp [Chunk.body]; omega

/-- The chunk as a frame of the link layer: `lnk_size` is `t_size + 6`. -/
def Chunk.link (ch : Chunk) : LinkFrame where
  chn := ch.chn
  body := ch.body
  chn_lt := ch.chn_lt
  body_le := by
    have h := ch.payload_le
    rw [ch.body_length]
    simp only [APP_MTU, MTU] at h ⊢
    omega

def Chunk.bytes (ch : Chunk) : List Byte := ch.link.bytes

theorem Chunk.bytes_body (ch : Chunk) :
    ch.bytes = enc16 ch.chn ++ enc16 ch.body.length ++ ch.body ++ enc32 (fpcCrc 0 ch.body) := by
  simp [Chunk.bytes, LinkFrame.bytes, LinkFrame.header, LinkFrame.tail, Chunk.link]

theorem Chunk.bytes_eq (ch : Chunk) :
    ch.bytes = enc16 ch.chn ++ enc16 (ch.payload.length + 6) ++
      (enc16 ch.payload.length ++ enc16 ch.seqNr ++ enc16 ch.seqLen ++ ch.payload) ++
      enc32 (fpcCrc 0 ch.body) := by
  rw [ch.bytes_body, ch.body_length]
  rfl

theorem Chunk.bytes_length (ch : Chunk) : ch.bytes.length = ch.payload.length + 14 := by
  simp [Chunk.bytes, Chunk.link, ch.body_length]

/-- The fields of a chunk that `bmlite_send` writes only once. -/
theorem Chunk.holds_bytes {m : Mem Byte} {ch : Chunk} (h : Holds m 0 ch.bytes) :
    Holds m 0 (enc16 ch.chn) ∧ Holds m 8 (enc16 ch.seqLen) := by
  rw [ch.bytes_eq] at h
  obtain ⟨hhdr, hbody⟩ := holds_append.1 (holds_append.1 h).1
  exact ⟨(holds_append.1 hhdr).1, (holds_append.1 (holds_append.1 hbody).1).2⟩

/-- Where the fields of a received chunk lie. -/
theorem chunk_fields {c : HcpComm} {ch : Chunk} (h : Holds c.txrxBuffer 0 ch.bytes) :
    c.lnkSize = ch.payload.length + 6 ∧ c.tSize = ch.payload.length ∧ c.seqNr = ch.seqNr ∧
      c.seqLen = ch.seqLen ∧ slice c.txrxBuffer 10 ch.payload.length = ch.payload := by
  have hle := ch.payload_le
  simp only [APP_MTU, MTU] at hle
  rw [ch.bytes_eq] at h
  simp only [List.append_assoc] at h
  obtain ⟨-, h⟩ := holds_word h ch.chn_lt
  obtain ⟨hlnk, h⟩ := holds_word h (by omega)
  obtain ⟨hsize, h⟩ := holds_word h (by omega)
  obtain ⟨hnr, h⟩ := holds_word h ch.seqNr_lt
  obtain ⟨hlen, h⟩ := holds_word h ch.seqLen_lt
  exact ⟨hlnk, hsize, hnr, hlen, (holds_append.1 h).1⟩

/-- **An accepted frame whose sizes agree is a chunk.** -/
theorem exists_chunk {c : HcpComm} (hsize : c.lnkSize + 8 ≤ MTU) (hcrc : c.CrcValid c.lnkSize)
    (ht : (c.tSize : Int) = (c.lnkSize : Int) - 6) :
    ∃ ch : Chunk, slice c.txrxBuffer 0 (c.lnkSize + 8) = ch.bytes ∧ ch.seqNr = c.seqNr ∧
      ch.seqLen = c.seqLen ∧ ch.payload = slice c.txrxBuffer 10 c.tSize := by
  simp only [MTU] at hsize
  let ch : Chunk := ⟨dec16 (slice c.txrxBuffer 0 2), c.seqNr, c.seqLen,
    slice c.txrxBuffer 10 c.tSize, dec16_lt _, dec16_lt _, dec16_lt _,
    by simp [APP_MTU, MTU]; omega⟩
  have hlnk : c.lnkSize = 2 + (2 + (2 + c.tSize)) := by omega
  have hbody : ch.body = slice c.txrxBuffer 4 c.lnkSize := by
    rw [hlnk, slice_append, slice_append, slice_append]
    simp [ch, Chunk.body, HcpComm.tSize, HcpComm.seqNr, HcpComm.seqLen, enc16_dec16]
  have hword : enc16 c.lnkSize = slice c.txrxBuffer 2 2 := enc16_dec16 (slice_length ..)
  have hchn : enc16 ch.chn = slice c.txrxBuffer 0 2 := enc16_dec16 (slice_length ..)
  refine ⟨ch, ?_, rfl, rfl, rfl⟩
  rw [ch.bytes_body, hbody, slice_length, hword, hchn, hcrc, enc32_dec32 (slice_length ..),
    show c.lnkSize + 8 = 2 + 2 + c.lnkSize + 4 by omega, slice_append, slice_append, slice_append]
  simp only [Nat.zero_add, Nat.reduceAdd]

/-- The two reads that fetch a chunk. -/
theorem exists_chunk_of_reads {c : HcpComm} {d d' : List Byte} (hd : d.length = 4)
    (hd' : d'.length = (c.fill 0 (d ++ d')).lnkSize + 4)
    (hsize : (c.fill 0 (d ++ d')).lnkSize + 8 ≤ MTU)
    (hcrc : (c.fill 0 (d ++ d')).CrcValid (c.fill 0 (d ++ d')).lnkSize)
    (ht : ((c.fill 0 (d ++ d')).tSize : Int) = ((c.fill 0 (d ++ d')).lnkSize : Int) - 6) :
    ∃ ch : Chunk, d = ch.link.header ∧ d' = ch.link.tail := by
  obtain ⟨ch, hch, -⟩ := exists_chunk hsize hcrc ht
  refine ⟨ch, List.append_inj ?_ (by rw [hd, LinkFrame.header_length])⟩
  have hall : slice (c.fill 0 (d ++ d')).txrxBuffer 0 (d ++ d').length = d ++ d' :=
    holds_blit c.txrxBuffer 0 (d ++ d')
  rw [List.length_append, hd, hd', Nat.add_left_comm] at hall
  exact hall.symm.trans hch

/-! ## Segmentation -/

/-- The chunk number `i` of a packet, counted from 0. -/
def segment (b : List Byte) (hb : b.length < 65536) (i : Fin (b.length / APP_MTU + 1)) : Chunk where
  chn := 0
  seqNr := i + 1
  seqLen := b.length / APP_MTU + 1
  payload := (b.drop (APP_MTU * i)).take APP_MTU
  chn_lt := by omega
  seqNr_lt := by
    have := i.isLt
    simp only [APP_MTU, MTU] at this
    omega
  seqLen_lt := by simp only [APP_MTU, MTU]; omega
  payload_le := List.length_take_le ..

/-- The chunks of a packet. -/
def segments (b : List Byte) (hb : b.length < 65536) : List Chunk := List.ofFn (segment b hb)

/-- The bytes that chunks carry. -/
def reassemble (cs : List Chunk) : List Byte := cs.flatMap (·.payload)

@[simp] theorem reassemble_nil : reassemble [] = [] := rfl

@[simp] theorem reassemble_cons (ch : Chunk) (cs : List Chunk) :
    reassemble (ch :: cs) = ch.payload ++ reassemble cs := rfl

@[simp] theorem segments_length (b : List Byte) (hb : b.length < 65536) :
    (segments b hb).length = b.length / APP_MTU + 1 := by
  simp [segments]

theorem chn_zero_lt : 0 < 65536 := by decide

theorem seq_one_lt : 1 < 65536 := by decide

/-- A packet in one chunk. -/
def singleChunk (b : List Byte) (h : b.length ≤ APP_MTU) : Chunk :=
  ⟨0, 1, 1, b, chn_zero_lt, seq_one_lt, seq_one_lt, h⟩

theorem reassemble_single (b : List Byte) (h : b.length ≤ APP_MTU) :
    reassemble [singleChunk b h] = b := List.append_nil b

/-- The chain of the example program with a packet of `n` bytes that count up. -/
def countingChain (n : Nat) : HcpComm :=
  { hcpChain with pktBuffer := fun i => BitVec.ofNat 8 i, pktSize := n }

@[simp] theorem countingChain_length (n : Nat) : (countingChain n).packet.length = n :=
  slice_length ..

theorem countingChain_lt {n : Nat} (h : n < 65536) : (countingChain n).packet.length < 65536 := by
  rwa [countingChain_length]

theorem segments_drop (b : List Byte) (hb : b.length < 65536) (i : Fin (b.length / APP_MTU + 1)) :
    (segments b hb).drop i = segment b hb i :: (segments b hb).drop (i + 1) := by
  rw [List.drop_eq_getElem_cons (by rw [segments_length]; exact i.isLt)]
  congr 1
  exact List.getElem_ofFn _

theorem reassemble_drop (b : List Byte) (hb : b.length < 65536) (m : Nat) :
    ∀ k, k + m = b.length / APP_MTU + 1 →
      reassemble ((segments b hb).drop k) = b.drop (APP_MTU * k) := by
  induction m with
  | zero =>
    intro k hk
    rw [List.drop_of_length_le (by simp; omega), List.drop_of_length_le]
    · rfl
    · rw [Nat.add_zero] at hk
      rw [hk]
      simp only [APP_MTU, MTU]
      omega
  | succ m ih =>
    intro k hk
    rw [segments_drop b hb ⟨k, by omega⟩, reassemble_cons, ih (k + 1) (by omega)]
    show (b.drop (APP_MTU * k)).take APP_MTU ++ b.drop (APP_MTU * (k + 1)) = _
    rw [Nat.mul_add, Nat.mul_one, ← List.drop_drop, List.take_append_drop]

/-- **Reassembling the chunks of a packet gives the packet.** -/
theorem reassemble_segments (b : List Byte) (hb : b.length < 65536) :
    reassemble (segments b hb) = b :=
  reassemble_drop b hb _ 0 (Nat.zero_add _)

/-- A packet of one frame. -/
theorem segments_single {b : List Byte} (hb : b.length < 65536) (h : b.length < APP_MTU) :
    ∃ ch, segments b hb = [ch] ∧ ch.payload = b := by
  have hlen := segments_length b hb
  rw [Nat.div_eq_of_lt h] at hlen
  obtain ⟨ch, hch⟩ := List.length_eq_one_iff.1 hlen
  refine ⟨ch, hch, ?_⟩
  rw [← reassemble_segments b hb, hch]
  exact (List.append_nil _).symm

/-- The last chunk, and no other, says that the packet is complete. -/
def Complete : List Chunk → Prop
  | [] => False
  | [ch] => ch.seqLen ≤ ch.seqNr
  | ch :: cs => ch.seqNr < ch.seqLen ∧ Complete cs

theorem complete_cons {ch : Chunk} {cs : List Chunk} :
    Complete (ch :: cs) ↔
      cs = [] ∧ ch.seqLen ≤ ch.seqNr ∨ ch.seqNr < ch.seqLen ∧ Complete cs := by
  cases cs <;> simp [Complete]

/-- The chunks are numbered from `k + 1` to `n`, and each says that there are `n`. -/
def NumberedFrom (n : Nat) : (k : Nat) → List Chunk → Prop
  | k, [] => k = n
  | k, ch :: cs => ch.seqNr = k + 1 ∧ ch.seqLen = n ∧ NumberedFrom n (k + 1) cs

/-- The chunks are numbered from 1 to their number. -/
def Numbered (cs : List Chunk) : Prop := NumberedFrom cs.length 0 cs

theorem NumberedFrom.le {n k : Nat} {cs : List Chunk} (h : NumberedFrom n k cs) : k ≤ n := by
  induction cs generalizing k with
  | nil => exact Nat.le_of_eq h
  | cons ch cs ih => exact Nat.le_of_succ_le (ih h.2.2)

theorem NumberedFrom.complete {n k : Nat} {cs : List Chunk} (h : NumberedFrom n k cs)
    (hne : cs ≠ []) : Complete cs := by
  induction cs generalizing k with
  | nil => exact absurd rfl hne
  | cons ch cs ih =>
    obtain ⟨hnr, hlen, h⟩ := h
    rw [complete_cons]
    by_cases hcs : cs = []
    · subst hcs
      exact .inl ⟨rfl, by rw [hnr, hlen]; exact Nat.le_of_eq h.symm⟩
    · refine .inr ⟨?_, ih h hcs⟩
      cases cs with
      | nil => exact absurd rfl hcs
      | cons ch' cs => rw [hnr, hlen]; exact h.2.2.le

theorem Numbered.complete {cs : List Chunk} (h : Numbered cs) (hne : cs ≠ []) : Complete cs :=
  NumberedFrom.complete h hne

theorem numbered_drop (b : List Byte) (hb : b.length < 65536) (m : Nat) :
    ∀ k, k + m = b.length / APP_MTU + 1 →
      NumberedFrom (b.length / APP_MTU + 1) k ((segments b hb).drop k) := by
  induction m with
  | zero =>
    intro k hk
    rw [List.drop_of_length_le (by simp; omega)]
    exact hk
  | succ m ih =>
    intro k hk
    rw [segments_drop b hb ⟨k, by omega⟩]
    exact ⟨rfl, rfl, ih (k + 1) (by omega)⟩

theorem numbered_segments (b : List Byte) (hb : b.length < 65536) : Numbered (segments b hb) := by
  rw [Numbered, segments_length]
  exact numbered_drop b hb _ 0 (Nat.zero_add _)

theorem complete_segments (b : List Byte) (hb : b.length < 65536) : Complete (segments b hb) :=
  (numbered_segments b hb).complete fun h => by simpa [h] using segments_length b hb

end BMLite
