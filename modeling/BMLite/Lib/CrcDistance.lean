import BMLite.Lib.CrcRegister

/-!
# Errors of three bits

What a reflected CRC register makes of a few wrong bits, however far they lie apart.

* `Spread p n` — a single one goes through `n` registers of which no two agree but for the lowest
  bit;
* `spread_of_distinct` — this can be computed, with one mark for each register;
* `feeds_sparse` — then one, two or three ones among `n` bits never leave the empty register empty;
* `sparse_detected` — **a check word never agrees with a message when one, two or three of their
  bits are wrong**.
-/

set_option autoImplicit false

namespace CrcRegister

variable {w : Nat} {p : BitVec w}

/-! ## Shifts -/

theorem shifts_add (m n : Nat) (s : BitVec w) : shifts p (m + n) s = shifts p n (shifts p m s) := by
  induction m generalizing s with
  | zero => rw [Nat.zero_add]; rfl
  | succ m ih => rw [Nat.succ_add]; exact ih (shift p s)

theorem bit_true : bit w true = 1 := by
  apply BitVec.eq_of_toNat_eq
  simp [bit]

theorem one_ushiftRight : (1 : BitVec w) >>> 1 = 0 := by
  have hle := Nat.mod_le 1 (2 ^ w)
  apply BitVec.eq_of_toNat_eq
  rw [BitVec.toNat_ushiftRight, Nat.shiftRight_eq_div_pow]
  show 1 % 2 ^ w / 2 ^ 1 = 0 % 2 ^ w
  rw [Nat.zero_mod]
  omega

/-- Zeros, and a one after them. -/
theorem feeds_one {as : List Bool} (h : ∀ b ∈ as, b = false) (s : BitVec w) (bs : List Bool) :
    feeds p s (as ++ true :: bs) = feeds p (shift p (shifts p as.length s ^^^ 1)) bs := by
  rw [feeds_append, feeds_zeros p h, feeds, List.foldl_cons, ← feeds, feed, bit_true]

/-- The first one of a list. -/
theorem first_one {bs : List Bool} (h : true ∈ bs) : ∃ as cs, bs = as ++ true :: cs ∧
    (∀ b ∈ as, b = false) ∧ bs.count true = cs.count true + 1 := by
  obtain ⟨as, cs, rfl, hno⟩ := List.eq_append_cons_of_mem h
  refine ⟨as, cs, rfl, fun b hb => ?_, ?_⟩
  · cases b with
    | false => rfl
    | true => exact absurd hb hno
  · rw [List.count_append, List.count_cons_self, List.count_eq_zero_of_not_mem hno, Nat.zero_add]

theorem no_one {bs : List Bool} (h : ¬ true ∈ bs) : ∀ b ∈ bs, b = false := by
  intro b hb
  cases b with
  | false => rfl
  | true => exact absurd hb h

/-! ## Registers that a single one goes through -/

/-- No two of the first `n` registers agree but for the lowest bit. -/
def Spread (p : BitVec w) (n : Nat) : Prop :=
  ∀ a b, a < b → b < n → shifts p a 1 >>> 1 ≠ shifts p b 1 >>> 1

/-- The place of a register among `2 ^ k` marks. -/
def place (k : Nat) (s : BitVec w) : Nat := (s >>> 1).toNat % 2 ^ k

/-- Mark the registers from `s` on; no place is marked twice. -/
def distinct (p : BitVec w) (k : Nat) : (n : Nat) → (s : BitVec w) → (marks : Nat) → Bool
  | 0, _, _ => true
  | n + 1, s, marks =>
    !marks.testBit (place k s) && distinct p k n (shift p s) (marks ||| 1 <<< place k s)

theorem distinct_places {k : Nat} (n : Nat) : ∀ {s : BitVec w} {marks : Nat},
    distinct p k n s marks = true →
      (∀ a < n, marks.testBit (place k (shifts p a s)) = false) ∧
      ∀ a b, a < b → b < n → place k (shifts p a s) ≠ place k (shifts p b s) := by
  induction n with
  | zero => exact fun _ => ⟨fun a ha => absurd ha (Nat.not_lt_zero a), fun a b _ hb =>
      absurd hb (Nat.not_lt_zero b)⟩
  | succ n ih =>
    intro s marks h
    rw [distinct, Bool.and_eq_true, Bool.not_eq_true'] at h
    obtain ⟨hmarks, hplaces⟩ := ih h.2
    have hrest {a : Nat} (ha : a < n) : marks.testBit (place k (shifts p (a + 1) s)) = false ∧
        place k s ≠ place k (shifts p (a + 1) s) := by
      have hmark := hmarks a ha
      rw [Nat.testBit_or, Nat.one_shiftLeft, Nat.testBit_two_pow, Bool.or_eq_false_iff,
        decide_eq_false_iff_not] at hmark
      exact hmark
    constructor
    · intro a ha
      cases a with
      | zero => exact h.1
      | succ a => exact (hrest (by omega)).1
    · intro a b hab hb
      obtain ⟨b, rfl⟩ := Nat.exists_eq_add_of_lt hab
      cases a with
      | zero =>
        have hlt : b < n := by omega
        rw [Nat.zero_add]
        exact (hrest hlt).2
      | succ a =>
        have hlt : a + b + 1 < n := by omega
        have hindex : a + 1 + b + 1 = a + b + 1 + 1 := by omega
        rw [hindex]
        exact hplaces a (a + b + 1) (by omega) hlt

theorem spread_of_distinct {k n : Nat} (h : distinct p k n 1 0 = true) : Spread p n := by
  intro a b hab hb heq
  refine (distinct_places n h).2 a b hab hb ?_
  rw [place, place, heq]

/-! ## Few ones -/

theorem one_ne_zero_of_top (hp : p.getLsbD (w - 1) = true) : (1 : BitVec w) ≠ 0 := by
  rintro h
  have hw : 0 < w := by
    rcases Nat.eq_zero_or_pos w with rfl | hw
    · simp at hp
    · exact hw
  have hlow := congrArg (·.getLsbD 0) h
  simp [hw] at hlow

/-- **Three ones at most, among `n` bits, never leave the empty register empty.** -/
theorem feeds_sparse (hp : p.getLsbD (w - 1) = true) {n : Nat} (hspread : Spread p n)
    {bs : List Bool} (hlen : bs.length ≤ n) (h1 : true ∈ bs) (h3 : bs.count true ≤ 3) :
    feeds p 0 bs ≠ 0 := by
  obtain ⟨as₁, bs₁, rfl, has₁, hcount₁⟩ := first_one h1
  simp only [List.length_append, List.length_cons] at hlen
  have hstart : (0 : BitVec w) ^^^ 1 = 1 := BitVec.zero_xor
  rw [feeds_one has₁, shifts_zero, hstart]
  by_cases h₁ : true ∈ bs₁
  · obtain ⟨as₂, bs₂, rfl, has₂, hcount₂⟩ := first_one h₁
    simp only [List.length_append, List.length_cons] at hlen
    have hstate : shifts p as₂.length (shift p 1) = shifts p (as₂.length + 1) 1 := rfl
    have hne : shifts p (as₂.length + 1) 1 ^^^ 1 ≠ 0 := by
      intro h
      refine hspread 0 (as₂.length + 1) (Nat.succ_pos _) (by omega) ?_
      rw [BitVec.xor_eq_zero_iff.1 h]
      rfl
    rw [feeds_one has₂, hstate]
    by_cases h₂ : true ∈ bs₂
    · obtain ⟨as₃, bs₃, rfl, has₃, hcount₃⟩ := first_one h₂
      simp only [List.length_append, List.length_cons] at hlen
      have hno : ¬ true ∈ bs₃ := fun hmem => by
        have hpos := List.count_pos_iff.2 hmem
        omega
      have hstate' : shifts p as₃.length (shift p (shifts p (as₂.length + 1) 1 ^^^ 1)) =
          shifts p (as₂.length + 1 + (as₃.length + 1)) 1 ^^^ shifts p (as₃.length + 1) 1 := by
        rw [shifts_add (as₂.length + 1) (as₃.length + 1), ← shifts_xor]
        rfl
      rw [feeds_one has₃, hstate', feeds_zeros p (no_one hno)]
      refine shifts_ne_zero hp _ (shift_ne_zero hp fun h => ?_)
      refine hspread (as₃.length + 1) (as₂.length + 1 + (as₃.length + 1)) (by omega) (by omega) ?_
      rw [BitVec.xor_assoc] at h
      rw [BitVec.xor_eq_zero_iff.1 h, BitVec.ushiftRight_xor_distrib, one_ushiftRight]
      exact BitVec.xor_zero.symm
    · rw [feeds_zeros p (no_one h₂)]
      exact shifts_ne_zero hp _ (shift_ne_zero hp hne)
  · rw [feeds_zeros p (no_one h₁)]
    exact shifts_ne_zero hp _ (shift_ne_zero hp (one_ne_zero_of_top hp))

/-! ## Detection -/

/-- The difference of two valid pairs leaves the empty register empty. -/
theorem feeds_undetected {s k c c' : BitVec w} {m m' : List Bool} (hm : m.length = m'.length)
    (hc : c = feeds p s m ^^^ k) (hc' : c' = feeds p s m' ^^^ k) :
    feeds p 0 (List.zipWith xor (m ++ bits c) (m' ++ bits c')) = 0 := by
  have hcheck {n : List Bool} {d : BitVec w} (hd : d = feeds p s n ^^^ k) :
      feeds p s (n ++ bits d) = shifts p w k := by
    rw [feeds_append, feeds_word p _ (by simp), bits_length, word_bits, BitVec.setWidth_eq, hd,
      ← BitVec.xor_assoc, BitVec.xor_self, BitVec.zero_xor]
  have hxor := feeds_xor p s s (show (m ++ bits c).length = (m' ++ bits c').length by simp [hm])
  rw [BitVec.xor_self, hcheck hc, hcheck hc', BitVec.xor_self] at hxor
  exact hxor

/-- **A check word never agrees when one, two or three bits are wrong**, in the message or in the
check word itself. -/
theorem sparse_detected (hp : p.getLsbD (w - 1) = true) {n : Nat} (hspread : Spread p n)
    {s k c c' : BitVec w} {m m' : List Bool} (hm : m.length = m'.length) (hlen : m.length + w ≤ n)
    (hc : c = feeds p s m ^^^ k) (hne : m ++ bits c ≠ m' ++ bits c')
    (hfew : (List.zipWith xor (m ++ bits c) (m' ++ bits c')).count true ≤ 3) :
    c' ≠ feeds p s m' ^^^ k := by
  intro hc'
  have hall : (m ++ bits c).length = (m' ++ bits c').length := by simp [hm]
  refine feeds_sparse hp hspread ?_ (mem_zipWith_xor hall hne) hfew (feeds_undetected hm hc hc')
  rw [List.length_zipWith, ← hall, Nat.min_self, List.length_append, bits_length]
  exact hlen

end CrcRegister
