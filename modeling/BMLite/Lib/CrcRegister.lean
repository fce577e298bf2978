import Mathlib

/-!
# Reflected CRC registers

A cyclic redundancy check of any width `w`, least significant bit first: the register takes one
message bit into its lowest position and moves down by one place, and the polynomial `p` is added
when a one falls out (`feed`).

* `shift_xor`, `feeds_xor` — the register is linear over exclusive or;
* `shift_ne_zero` — with a non-zero constant term (the highest bit of the reflected `p`) no
  non-zero register is ever shifted to zero;
* `feeds_word` — up to `w` bits fed one by one are added to the register at once;
* `burst_detected` — **a check word never agrees with a message when together they differ from a
  valid pair by a non-zero error confined to `w` consecutive bits**.
-/

set_option autoImplicit false

namespace CrcRegister

variable {w : Nat}

/-- Move the register down by one place. -/
def shift (p s : BitVec w) : BitVec w := if s.getLsbD 0 then s >>> 1 ^^^ p else s >>> 1

def shifts (p : BitVec w) : Nat → BitVec w → BitVec w
  | 0, s => s
  | n + 1, s => shifts p n (shift p s)

/-- A message bit in the lowest position. -/
def bit (w : Nat) (b : Bool) : BitVec w := (BitVec.ofBool b).setWidth w

/-- Take in one message bit. -/
def feed (p s : BitVec w) (b : Bool) : BitVec w := shift p (s ^^^ bit w b)

def feeds (p s : BitVec w) (bs : List Bool) : BitVec w := bs.foldl (feed p) s

/-- The bits of a word, least significant first. -/
def bits {n : Nat} (x : BitVec n) : List Bool := (List.range n).map x.getLsbD

@[simp] theorem bits_length {n : Nat} (x : BitVec n) : (bits x).length = n := by simp [bits]

theorem bits_getElem {n : Nat} (x : BitVec n) (i : Nat) (h : i < (bits x).length) :
    (bits x)[i] = x.getLsbD i := by
  simp [bits]

theorem bits_injective {n : Nat} {x y : BitVec n} (h : bits x = bits y) : x = y := by
  apply BitVec.eq_of_getLsbD_eq
  intro i hi
  have := List.getElem_of_eq h (show i < (bits x).length by simpa using hi)
  rwa [bits_getElem, bits_getElem] at this

/-! ## Linearity -/

theorem shift_xor (p a b : BitVec w) : shift p (a ^^^ b) = shift p a ^^^ shift p b := by
  unfold shift
  simp only [BitVec.getLsbD_xor, BitVec.ushiftRight_xor_distrib]
  cases a.getLsbD 0 <;> cases b.getLsbD 0 <;> simp
  · ac_rfl
  · ac_rfl
  · rw [show a >>> 1 ^^^ p ^^^ (b >>> 1 ^^^ p) = a >>> 1 ^^^ b >>> 1 ^^^ (p ^^^ p) by ac_rfl,
      BitVec.xor_self, BitVec.xor_zero]

@[simp] theorem shift_zero (p : BitVec w) : shift p 0 = 0 := by simp [shift]

theorem shifts_xor (p a b : BitVec w) (n : Nat) :
    shifts p n (a ^^^ b) = shifts p n a ^^^ shifts p n b := by
  induction n generalizing a b with
  | zero => rfl
  | succ n ih => simp only [shifts, shift_xor, ih]

@[simp] theorem shifts_zero (p : BitVec w) (n : Nat) : shifts p n 0 = 0 := by
  induction n with
  | zero => rfl
  | succ n ih => rw [shifts, shift_zero, ih]

theorem bit_xor (a b : Bool) : bit w (a ^^ b) = bit w a ^^^ bit w b := by
  cases a <;> cases b <;> simp [bit]

@[simp] theorem bit_false : bit w false = 0 := by simp [bit]

theorem feed_xor (p s t : BitVec w) (a b : Bool) :
    feed p (s ^^^ t) (a ^^ b) = feed p s a ^^^ feed p t b := by
  unfold feed
  rw [bit_xor, ← shift_xor]
  congr 1
  ac_rfl

/-- **The register is linear.** -/
theorem feeds_xor (p s t : BitVec w) {as bs : List Bool} (h : as.length = bs.length) :
    feeds p (s ^^^ t) (List.zipWith xor as bs) = feeds p s as ^^^ feeds p t bs := by
  induction as generalizing s t bs with
  | nil => rw [List.length_eq_zero_iff.1 h.symm]; rfl
  | cons a as ih =>
    match bs, h with
    | b :: bs, h =>
      simp only [feeds, List.zipWith_cons_cons, List.foldl_cons, feed_xor] at ih ⊢
      exact ih _ _ (by simpa using h)

theorem feeds_append (p s : BitVec w) (as bs : List Bool) :
    feeds p s (as ++ bs) = feeds p (feeds p s as) bs := List.foldl_append

/-! ## Shifting loses nothing -/

theorem shift_ne_zero {p : BitVec w} (hp : p.getLsbD (w - 1) = true) {s : BitVec w}
    (h : s ≠ 0) : shift p s ≠ 0 := by
  have hw : 0 < w := by
    rcases Nat.eq_zero_or_pos w with rfl | hw
    · simp at hp
    · exact hw
  intro h0
  unfold shift at h0
  split at h0
  · -- the polynomial's highest bit survives: nothing is shifted into that place
    have hb := congrArg (·.getLsbD (w - 1)) h0
    simp [hp, show 1 + (w - 1) = w by omega] at hb
  · rename_i hlow
    apply h
    apply BitVec.eq_of_getLsbD_eq
    intro i hi
    cases i with
    | zero => simpa using hlow
    | succ i =>
      have hb := congrArg (·.getLsbD i) h0
      simpa [Nat.add_comm] using hb

theorem shifts_ne_zero {p : BitVec w} (hp : p.getLsbD (w - 1) = true) {s : BitVec w} (n : Nat)
    (h : s ≠ 0) : shifts p n s ≠ 0 := by
  induction n generalizing s with
  | zero => exact h
  | succ n ih => exact ih (shift_ne_zero hp h)

/-- Shifting undoes a move up that lost no bit. -/
theorem shift_shiftLeft (p : BitVec w) {y : BitVec w} (h : y.getLsbD (w - 1) = false) :
    shift p (y <<< 1) = y := by
  have h0 : (y <<< 1).getLsbD 0 = false := by simp
  rw [shift, h0, if_neg (by simp)]
  apply BitVec.eq_of_getLsbD_eq
  intro i hi
  by_cases hl : i = w - 1
  · subst hl; simp [h, show 1 + (w - 1) = w by omega]
  · simp [show 1 + i < w by omega, BitVec.getLsbD_eq_getElem hi]

/-! ## Bits taken in one by one, or all at once -/

/-- The word whose lowest bits are `bs`. -/
def word (w : Nat) : List Bool → BitVec w
  | [] => 0
  | b :: bs => bit w b ^^^ word w bs <<< 1

theorem word_getLsbD (bs : List Bool) (i : Nat) :
    (word w bs).getLsbD i = (decide (i < w) && bs.getD i false) := by
  induction bs generalizing i with
  | nil => simp [word]
  | cons b bs ih =>
    simp only [word, BitVec.getLsbD_xor, BitVec.getLsbD_shiftLeft, bit, BitVec.getLsbD_setWidth,
      BitVec.getLsbD_ofBool, ih]
    cases i with
    | zero => simp
    | succ i => by_cases h : i + 1 < w <;> simp [h]; omega

theorem word_bits {n : Nat} (x : BitVec n) : word w (bits x) = x.setWidth w := by
  apply BitVec.eq_of_getLsbD_eq
  intro i hi
  rw [word_getLsbD, BitVec.getLsbD_setWidth]
  by_cases h : i < n
  · simp [hi, bits, h]
  · simp [hi, bits, h, BitVec.getLsbD_of_ge x i (by omega)]

theorem feeds_word (p s : BitVec w) {bs : List Bool} (h : bs.length ≤ w) :
    feeds p s bs = shifts p bs.length (s ^^^ word w bs) := by
  induction bs generalizing s with
  | nil => simp [feeds, shifts, word]
  | cons b bs ih =>
    simp only [List.length_cons] at h
    have htop : (word w bs).getLsbD (w - 1) = false := by
      simp [word_getLsbD, List.getElem?_eq_none (show bs.length ≤ w - 1 by omega)]
    have hfeed : feed p s b ^^^ word w bs = shift p (s ^^^ word w (b :: bs)) := by
      rw [word, ← BitVec.xor_assoc, shift_xor, shift_shiftLeft p htop, feed]
    rw [feeds, List.foldl_cons, ← feeds, ih _ (by omega), hfeed]
    rfl

/-- Zeros leave the empty register empty. -/
theorem feeds_zeros (p : BitVec w) {bs : List Bool} (h : ∀ b ∈ bs, b = false) (s : BitVec w) :
    feeds p s bs = shifts p bs.length s := by
  induction bs generalizing s with
  | nil => rfl
  | cons b bs ih =>
    have hb := h b (by simp)
    subst hb
    rw [feeds, List.foldl_cons, ← feeds, ih (fun b hb => h b (by simp [hb]))]
    simp [feed, shifts]

/-- The lowest `n` bits of the register decide what is added to it in `n` shifts. -/
theorem shifts_low (p : BitVec w) {x lo : BitVec w} (n : Nat)
    (h : x = lo ^^^ (x >>> n) <<< n) : shifts p n x = shifts p n lo ^^^ x >>> n := by
  have hup : ∀ (k : Nat) (y : BitVec w), (∀ i, w - k ≤ i → y.getLsbD i = false) →
      shifts p k (y <<< k) = y := by
    intro k
    induction k with
    | zero => intro y _; simp [shifts]
    | succ k ih =>
      intro y hy
      have hk : y <<< (k + 1) = y <<< k <<< 1 := by rw [← BitVec.shiftLeft_add]
      have htop : (y <<< k).getLsbD (w - 1) = false := by
        by_cases hw : w - 1 < k
        · simp [hw]
        · simp [hy (w - 1 - k) (by omega)]
      rw [shifts, hk, shift_shiftLeft p htop, ih y (fun i hi => hy i (by omega))]
  conv => lhs; rw [h]
  rw [shifts_xor, hup n (x >>> n)]
  intro i hi
  rw [BitVec.getLsbD_ushiftRight, BitVec.getLsbD_of_ge x _ (by omega)]

/-! ## Burst errors -/

/-- A list whose ones all lie in a window is zeros, the window, zeros. -/
theorem window_split {bs : List Bool} {a k : Nat}
    (h : ∀ i, bs[i]? = some true → a ≤ i ∧ i < a + k) :
    (∀ b ∈ bs.take a, b = false) ∧ (∀ b ∈ (bs.drop a).drop k, b = false) := by
  constructor
  · intro b hb
    obtain ⟨i, hi, rfl⟩ := List.mem_iff_getElem.1 hb
    by_contra hne
    have hlt : i < a := by simp at hi; omega
    have := h i (by rw [← List.getElem?_take_of_lt hlt, List.getElem?_eq_getElem hi]; simpa using hne)
    omega
  · intro b hb
    obtain ⟨i, hi, rfl⟩ := List.mem_iff_getElem.1 hb
    by_contra hne
    have hg : bs[a + (k + i)]? = some true := by
      rw [← List.getElem?_drop, ← List.getElem?_drop, List.getElem?_eq_getElem hi]
      simpa using hne
    have := h _ hg
    omega

/-- **A burst of at most `w` bits never leaves the empty register empty.** -/
theorem feeds_burst {p : BitVec w} (hp : p.getLsbD (w - 1) = true) {bs : List Bool} {a : Nat}
    (h1 : true ∈ bs) (h : ∀ i, bs[i]? = some true → a ≤ i ∧ i < a + w) : feeds p 0 bs ≠ 0 := by
  obtain ⟨hl, hr⟩ := window_split h
  have hsplit : bs = bs.take a ++ ((bs.drop a).take w ++ (bs.drop a).drop w) := by
    rw [List.take_append_drop, List.take_append_drop]
  have hlen : ((bs.drop a).take w).length ≤ w := by simp
  have hne : word w ((bs.drop a).take w) ≠ 0 := by
    obtain ⟨i, hi⟩ := List.mem_iff_getElem?.1 h1
    obtain ⟨ha, hw⟩ := h i hi
    intro h0
    have hb : (word w ((bs.drop a).take w)).getLsbD (i - a) = false := by rw [h0]; simp
    rw [word_getLsbD, List.getD_eq_getElem?_getD, List.getElem?_take_of_lt (by omega),
      List.getElem?_drop, show a + (i - a) = i by omega, hi] at hb
    simp [show i - a < w by omega] at hb
  rw [hsplit, feeds_append, feeds_append, feeds_zeros p hl, shifts_zero, feeds_zeros p hr,
    feeds_word p 0 hlen]
  refine shifts_ne_zero hp _ (shifts_ne_zero hp _ ?_)
  simpa using hne

theorem mem_zipWith_xor {as bs : List Bool} (hlen : as.length = bs.length) (h : as ≠ bs) :
    true ∈ List.zipWith xor as bs := by
  induction as generalizing bs with
  | nil => exact absurd (List.length_eq_zero_iff.1 hlen.symm).symm h
  | cons a as ih =>
    match bs, hlen with
    | b :: bs, hlen =>
      simp only [List.zipWith_cons_cons, List.mem_cons]
      by_cases hab : a = b
      · subst hab
        exact .inr (ih (by simpa using hlen) (fun e => h (by rw [e])))
      · left; cases a <;> cases b <;> simp_all

/-- **A check word never agrees after a burst error.**  `c` is the check word of `m`, for a
register started at `s` and finally added to `k`; `m'` and `c'` differ from them inside a window
of `w` bits. -/
theorem burst_detected {p s k c c' : BitVec w} (hp : p.getLsbD (w - 1) = true) {m m' : List Bool}
    (hm : m.length = m'.length) (hc : c = feeds p s m ^^^ k) (hne : m ++ bits c ≠ m' ++ bits c')
    {a : Nat} (hwin : ∀ i, (m ++ bits c)[i]? ≠ (m' ++ bits c')[i]? → a ≤ i ∧ i < a + w) :
    c' ≠ feeds p s m' ^^^ k := by
  intro hc'
  have hlen : (m ++ bits c).length = (m' ++ bits c').length := by simp [hm]
  -- fed with the whole error, the empty register would end up empty
  have hzero : feeds p 0 (List.zipWith xor (m ++ bits c) (m' ++ bits c')) = 0 := by
    have hcheck : ∀ (n : List Bool) (d : BitVec w), d = feeds p s n ^^^ k →
        feeds p s (n ++ bits d) = shifts p w k := by
      intro n d hd
      rw [feeds_append, feeds_word p _ (by simp), bits_length, word_bits, BitVec.setWidth_eq, hd,
        ← BitVec.xor_assoc, BitVec.xor_self, BitVec.zero_xor]
    have h := feeds_xor p s s hlen
    rw [BitVec.xor_self, hcheck m c hc, hcheck m' c' hc', BitVec.xor_self] at h
    exact h
  refine feeds_burst hp (a := a) (mem_zipWith_xor hlen hne) (fun i hi => hwin i ?_) hzero
  intro heq
  rw [List.getElem?_zipWith, heq] at hi
  cases h : (m' ++ bits c')[i]? with
  | none => rw [h] at hi; cases hi
  | some b => rw [h] at hi; cases b <;> cases hi

end CrcRegister
