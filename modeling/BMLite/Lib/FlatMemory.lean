import Mathlib

/-!
# Flat memory and little-endian words

Memory seen from a base address: a total map from offsets to cells.  A range is read as a list
(`slice`) and a list is stored at an offset (`blit`); both are total, so a range that leaves the
object at the base address reads, or changes, whatever cells follow it.

* `slice_blit_self`, `slice_blit_disjoint` — what a stored range leaves in a range read later;
* `blit_blit_append` — two adjacent stores are one;
* `dec16_enc16`, `dec32_enc32` — little-endian words of two and four bytes.
-/

set_option autoImplicit false

namespace FlatMemory

/-- Memory from a base address on. -/
abbrev Mem (α : Type) := Nat → α

variable {α : Type}

/-- The `n` cells from `off` on. -/
def slice (m : Mem α) (off n : Nat) : List α := (List.range n).map fun i => m (off + i)

/-- Store the cells `xs` from `off` on. -/
def blit (m : Mem α) (off : Nat) (xs : List α) : Mem α :=
  fun i => if off ≤ i then xs[i - off]?.getD (m i) else m i

/-! ## Reading a range -/

@[simp] theorem slice_length (m : Mem α) (off n : Nat) : (slice m off n).length = n := by
  simp [slice]

@[simp] theorem slice_zero (m : Mem α) (off : Nat) : slice m off 0 = [] := rfl

theorem slice_getElem? (m : Mem α) (off n i : Nat) :
    (slice m off n)[i]? = if i < n then some (m (off + i)) else none := by
  split
  · rename_i h; simp [slice, h]
  · rename_i h; simpa [slice] using h

theorem slice_append (m : Mem α) (off a b : Nat) :
    slice m off (a + b) = slice m off a ++ slice m (off + a) b := by
  simp [slice, List.range_add, Nat.add_assoc]

theorem slice_succ (m : Mem α) (off n : Nat) :
    slice m off (n + 1) = slice m off n ++ [m (off + n)] := slice_append m off n 1

theorem slice_cons (m : Mem α) (off : Nat) {n : Nat} (h : 0 < n) :
    slice m off n = m off :: slice m (off + 1) (n - 1) := by
  obtain ⟨j, rfl⟩ := Nat.exists_eq_add_of_le h
  rw [slice_append, Nat.add_sub_cancel_left]
  rfl

theorem slice_take (m : Mem α) (off : Nat) {a n : Nat} (h : a ≤ n) :
    (slice m off n).take a = slice m off a := by
  obtain ⟨b, rfl⟩ := Nat.exists_eq_add_of_le h
  rw [slice_append, List.take_left' (slice_length ..)]

theorem slice_drop (m : Mem α) (off : Nat) {a n : Nat} (h : a ≤ n) :
    (slice m off n).drop a = slice m (off + a) (n - a) := by
  obtain ⟨b, rfl⟩ := Nat.exists_eq_add_of_le h
  rw [slice_append, List.drop_left' (slice_length ..), Nat.add_sub_cancel_left]

/-- Two memories read the same range alike exactly when they agree on it. -/
theorem slice_eq_iff {m m' : Mem α} {off n : Nat} :
    slice m off n = slice m' off n ↔ ∀ i < n, m (off + i) = m' (off + i) := by
  simp [slice]

theorem slice_congr {m m' : Mem α} {off n : Nat} (h : ∀ i < n, m (off + i) = m' (off + i)) :
    slice m off n = slice m' off n := slice_eq_iff.2 h

/-- A sub-range of a known range. -/
theorem slice_of_slice {m : Mem α} {off n : Nat} {xs : List α} (h : slice m off n = xs)
    {o k : Nat} (hk : o + k ≤ n) : slice m (off + o) k = (xs.drop o).take k := by
  rw [← h, slice_drop m off (by omega), slice_take m _ (by omega)]

/-! ## Storing a range -/

@[simp] theorem blit_nil (m : Mem α) (off : Nat) : blit m off [] = m := by
  funext i; simp [blit]

theorem blit_of_lt (m : Mem α) {off i : Nat} (xs : List α) (h : i < off) :
    blit m off xs i = m i := by
  simp [blit, Nat.not_le.2 h]

theorem blit_of_ge (m : Mem α) {off i : Nat} (xs : List α) (h : off + xs.length ≤ i) :
    blit m off xs i = m i := by
  simp [blit, show off ≤ i by omega, List.getElem?_eq_none (show xs.length ≤ i - off by omega)]

theorem blit_add (m : Mem α) (off : Nat) {i : Nat} (xs : List α) (h : i < xs.length) :
    blit m off xs (off + i) = xs[i] := by
  simp [blit, List.getElem?_eq_getElem h]

theorem slice_blit_self (m : Mem α) (off : Nat) (xs : List α) :
    slice (blit m off xs) off xs.length = xs := by
  apply List.ext_getElem? fun i => ?_
  rw [slice_getElem?]
  split
  · rename_i h; rw [blit_add m off xs h, List.getElem?_eq_getElem h]
  · rename_i h; rw [List.getElem?_eq_none (by omega)]

theorem slice_blit_disjoint (m : Mem α) {off o n : Nat} (xs : List α)
    (h : o + n ≤ off ∨ off + xs.length ≤ o) : slice (blit m off xs) o n = slice m o n := by
  refine slice_congr fun i hi => ?_
  rcases h with h | h
  · exact blit_of_lt m xs (by omega)
  · exact blit_of_ge m xs (by omega)

/-- Two adjacent stores are one. -/
theorem blit_blit_append (m : Mem α) (off : Nat) (xs ys : List α) :
    blit (blit m off xs) (off + xs.length) ys = blit m off (xs ++ ys) := by
  funext i
  by_cases h1 : i < off
  · rw [blit_of_lt _ _ (by omega), blit_of_lt _ _ h1, blit_of_lt _ _ h1]
  by_cases h2 : i < off + xs.length
  · obtain ⟨j, rfl⟩ := Nat.exists_eq_add_of_le (Nat.not_lt.1 h1)
    have hj : j < xs.length := by omega
    rw [blit_of_lt _ _ h2, blit_add m off xs hj, blit_add m off (xs ++ ys) (by simp; omega),
      List.getElem_append_left hj]
  · obtain ⟨j, rfl⟩ := Nat.exists_eq_add_of_le (Nat.not_lt.1 h2)
    by_cases h3 : j < ys.length
    · rw [blit_add _ _ ys h3, Nat.add_assoc, blit_add m off (xs ++ ys) (by simp; omega),
        List.getElem_append_right (by omega)]
      simp
    · rw [blit_of_ge _ _ (by omega), blit_of_ge _ _ (by omega), blit_of_ge _ _ (by simp; omega)]

/-- Where two memories agree, and the same cells are stored, they still agree. -/
theorem blit_congr {m m' : Mem α} (off : Nat) (xs : List α) {i : Nat}
    (h : i < off ∨ off + xs.length ≤ i → m i = m' i) : blit m off xs i = blit m' off xs i := by
  by_cases h1 : i < off
  · rw [blit_of_lt _ _ h1, blit_of_lt _ _ h1, h (.inl h1)]
  by_cases h2 : off + xs.length ≤ i
  · rw [blit_of_ge _ _ h2, blit_of_ge _ _ h2, h (.inr h2)]
  · obtain ⟨j, rfl⟩ := Nat.exists_eq_add_of_le (Nat.not_lt.1 h1)
    rw [blit_add _ _ _ (by omega), blit_add _ _ _ (by omega)]

/-! ## Cells at an offset -/

/-- The cells `xs` lie at `off`. -/
def Holds (m : Mem α) (off : Nat) (xs : List α) : Prop := slice m off xs.length = xs

instance [DecidableEq α] (m : Mem α) (off : Nat) (xs : List α) : Decidable (Holds m off xs) :=
  inferInstanceAs (Decidable (_ = _))

theorem holds_slice (m : Mem α) (off n : Nat) : Holds m off (slice m off n) := by
  rw [Holds, slice_length]

@[simp] theorem holds_nil (m : Mem α) (off : Nat) : Holds m off [] := rfl

theorem holds_append {m : Mem α} {off : Nat} {xs ys : List α} :
    Holds m off (xs ++ ys) ↔ Holds m off xs ∧ Holds m (off + xs.length) ys := by
  unfold Holds
  rw [List.length_append, slice_append]
  exact ⟨fun h => List.append_inj h (slice_length ..), fun ⟨h1, h2⟩ => by rw [h1, h2]⟩

theorem holds_blit (m : Mem α) (off : Nat) (xs : List α) : Holds (blit m off xs) off xs :=
  slice_blit_self m off xs

theorem Holds.blit {m : Mem α} {off o : Nat} {xs : List α} (h : Holds m o xs) (ys : List α)
    (hd : o + xs.length ≤ off ∨ off + ys.length ≤ o) : Holds (blit m off ys) o xs := by
  rw [Holds, slice_blit_disjoint m ys hd, h]

/-- A range inside known cells. -/
theorem Holds.slice {m : Mem α} {off : Nat} {xs : List α} (h : Holds m off xs) {o n : Nat}
    (hn : o + n ≤ xs.length) : slice m (off + o) n = (xs.drop o).take n :=
  slice_of_slice h hn

theorem Holds.eq {m : Mem α} {off n : Nat} {xs : List α} (h : Holds m off xs)
    (hn : n = xs.length) : FlatMemory.slice m off n = xs := by
  rw [hn, h]

/-! ## Little-endian words -/

/-- The two bytes of a 16-bit word, least significant first. -/
def enc16 (v : Nat) : List (BitVec 8) := [BitVec.ofNat 8 v, BitVec.ofNat 8 (v / 256)]

/-- The 16-bit word of two bytes, least significant first. -/
def dec16 : List (BitVec 8) → Nat
  | [a, b] => a.toNat + 256 * b.toNat
  | _ => 0

/-- The four bytes of a 32-bit word, least significant first. -/
def enc32 (v : BitVec 32) : List (BitVec 8) :=
  [v.extractLsb' 0 8, v.extractLsb' 8 8, v.extractLsb' 16 8, v.extractLsb' 24 8]

/-- The 32-bit word of four bytes, least significant first. -/
def dec32 : List (BitVec 8) → BitVec 32
  | [a, b, c, d] => d ++ c ++ b ++ a
  | _ => 0

@[simp] theorem enc16_length (v : Nat) : (enc16 v).length = 2 := rfl

@[simp] theorem enc32_length (v : BitVec 32) : (enc32 v).length = 4 := rfl

theorem dec16_lt (bs : List (BitVec 8)) : dec16 bs < 65536 := by
  unfold dec16
  split
  · rename_i a b; have := a.isLt; have := b.isLt; omega
  · omega

theorem dec16_enc16 (v : Nat) : dec16 (enc16 v) = v % 65536 := by
  simp only [enc16, dec16, BitVec.toNat_ofNat]
  omega

theorem dec16_enc16_of_lt {v : Nat} (h : v < 65536) : dec16 (enc16 v) = v := by
  rw [dec16_enc16, Nat.mod_eq_of_lt h]

theorem enc16_injective {v w : Nat} (hv : v < 65536) (hw : w < 65536) (h : enc16 v = enc16 w) :
    v = w := by
  rw [← dec16_enc16_of_lt hv, h, dec16_enc16_of_lt hw]

theorem enc16_dec16 {bs : List (BitVec 8)} (h : bs.length = 2) : enc16 (dec16 bs) = bs := by
  match bs, h with
  | [a, b], _ =>
    have ha := a.isLt
    have hb := b.isLt
    simp only [dec16, enc16, List.cons.injEq, and_true]
    refine ⟨?_, ?_⟩ <;> apply BitVec.eq_of_toNat_eq <;> simp only [BitVec.toNat_ofNat] <;> omega

theorem dec32_enc32 (v : BitVec 32) : dec32 (enc32 v) = v := by
  apply BitVec.eq_of_getLsbD_eq
  intro i hi
  simp only [dec32, enc32, BitVec.getLsbD_append, BitVec.getLsbD_extractLsb']
  split
  · rename_i h; simp [h]
  split
  · rename_i h1 h2; simp [h2, show 8 + (i - 8) = i by omega]
  split
  · rename_i h1 h2 h3; simp [h3, show 16 + (i - 8 - 8) = i by omega]
  · simp [show i - 8 - 8 - 8 < 8 by omega, show 24 + (i - 8 - 8 - 8) = i by omega]

theorem enc32_dec32 {bs : List (BitVec 8)} (h : bs.length = 4) : enc32 (dec32 bs) = bs := by
  match bs, h with
  | [a, b, c, d], _ =>
    simp only [dec32, enc32, List.cons.injEq, and_true]
    refine ⟨?_, ?_, ?_, ?_⟩ <;> apply BitVec.eq_of_getLsbD_eq <;> intro i hi <;>
      simp only [BitVec.getLsbD_extractLsb', BitVec.getLsbD_append, hi, decide_true, Bool.true_and]
    · simp [hi]
    · rw [if_neg (by omega), if_pos (by omega)]; congr 1; omega
    · rw [if_neg (by omega), if_neg (by omega), if_pos (by omega)]; congr 1; omega
    · rw [if_neg (by omega), if_neg (by omega), if_neg (by omega)]; congr 1; omega

/-! ## Words in memory -/

theorem dec16_of_holds {m : Mem (BitVec 8)} {off v : Nat} (h : Holds m off (enc16 v))
    (hv : v < 65536) : dec16 (slice m off 2) = v := by
  rw [show slice m off 2 = enc16 v from h, dec16_enc16_of_lt hv]

/-- A word that lies in memory, and what follows it. -/
theorem holds_word {m : Mem (BitVec 8)} {off v : Nat} {xs : List (BitVec 8)}
    (h : Holds m off (enc16 v ++ xs)) (hv : v < 65536) :
    dec16 (slice m off 2) = v ∧ Holds m (off + 2) xs := by
  obtain ⟨h1, h2⟩ := holds_append.1 h
  exact ⟨dec16_of_holds h1 hv, h2⟩

end FlatMemory
