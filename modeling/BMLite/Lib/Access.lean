import BMLite.Lib.Process

/-!
# Memory accesses of a process

* `Touches p es acc` — while the answers are those of `es`, `p` makes the access `acc`;
* `touches_bind` — **the accesses of a sequence** are those of its first part, and those of the
  second part after a run of the first.
-/

set_option autoImplicit false

namespace Process

variable {A X D R α β : Type}

/-- `p` makes the access `acc` on its way through the events `es`, or through the first of them. -/
inductive Touches : Proc A X D R α → List (Event X D R) → A → Prop
  | here {acc p es} : Touches (.touch acc p) es acc
  | touch {acc acc' p es} : Touches p es acc → Touches (.touch acc' p) es acc
  | note {x p es acc} : Touches p es acc → Touches (.note x p) (.note x :: es) acc
  | write {data t k r es acc} : Touches (k r) es acc →
      Touches (.write data t k) (.write data t r :: es) acc
  | read {n t k r d es acc} : Touches (k r d) es acc →
      Touches (.read n t k) (.read n t r d :: es) acc

variable {acc : A} {es : List (Event X D R)}

@[simp] theorem touches_ret {a : α} : ¬ Touches (.ret a : Proc A X D R α) es acc := by
  intro h
  cases h

@[simp] theorem touches_out : ¬ Touches (.out : Proc A X D R α) es acc := by
  intro h
  cases h

@[simp] theorem touches_touch {acc' : A} {p : Proc A X D R α} :
    Touches (.touch acc' p) es acc ↔ acc = acc' ∨ Touches p es acc := by
  constructor
  · intro h
    cases h with
    | here => exact .inl rfl
    | touch h => exact .inr h
  · intro h
    rcases h with rfl | h
    · exact .here
    · exact .touch h

@[simp] theorem touches_note {x : X} {p : Proc A X D R α} :
    Touches (.note x p) es acc ↔ ∃ fs, es = .note x :: fs ∧ Touches p fs acc := by
  constructor
  · intro h
    cases h with | note h => exact ⟨_, rfl, h⟩
  · rintro ⟨fs, rfl, h⟩
    exact .note h

@[simp] theorem touches_write {data : List D} {t : Nat} {k : R → Proc A X D R α} :
    Touches (.write data t k) es acc ↔
      ∃ r fs, es = .write data t r :: fs ∧ Touches (k r) fs acc := by
  constructor
  · intro h
    cases h with | write h => exact ⟨_, _, rfl, h⟩
  · rintro ⟨r, fs, rfl, h⟩
    exact .write h

@[simp] theorem touches_read {n t : Nat} {k : R → List D → Proc A X D R α} :
    Touches (.read n t k) es acc ↔
      ∃ r d fs, es = .read n t r d :: fs ∧ Touches (k r d) fs acc := by
  constructor
  · intro h
    cases h with | read h => exact ⟨_, _, _, rfl, h⟩
  · rintro ⟨r, d, fs, rfl, h⟩
    exact .read h

theorem Touches.bind {p : Proc A X D R α} (h : Touches p es acc) (f : α → Proc A X D R β) :
    Touches (p >>= f) es acc := by
  induction h with
  | here => exact .here
  | touch _ ih => exact .touch ih
  | note _ ih => exact .note ih
  | write _ ih => exact .write ih
  | read _ ih => exact .read ih

/-- What a process does after some events, it does after them in the whole. -/
theorem Steps.touches {p q : Proc A X D R α} {fs : List (Event X D R)} (h : Steps p fs q)
    (hq : Touches q es acc) : Touches p (fs ++ es) acc := by
  induction h with
  | refl p => exact hq
  | touch _ ih => exact .touch (ih hq)
  | note _ ih => exact .note (ih hq)
  | write _ ih => exact .write (ih hq)
  | read _ ih => exact .read (ih hq)

/-- **The accesses of a sequence.** -/
theorem touches_bind {p : Proc A X D R α} {f : α → Proc A X D R β} :
    Touches (p >>= f) es acc ↔ Touches p es acc ∨
      ∃ a es₁ es₂, es = es₁ ++ es₂ ∧ Runs p es₁ a ∧ Touches (f a) es₂ acc := by
  constructor
  · intro h
    induction p generalizing es with
    | ret a => exact .inr ⟨a, [], es, rfl, .refl _, h⟩
    | out => exact absurd h touches_out
    | touch acc' p ih =>
      rcases touches_touch.1 h with rfl | h
      · exact .inl .here
      rcases ih h with h | ⟨a, es₁, es₂, rfl, hrun, h⟩
      · exact .inl (.touch h)
      · exact .inr ⟨a, es₁, es₂, rfl, .touch hrun, h⟩
    | note x p ih =>
      obtain ⟨fs, rfl, hp⟩ := touches_note.1 h
      rcases ih hp with h | ⟨a, es₁, es₂, rfl, hrun, h⟩
      · exact .inl (.note h)
      · exact .inr ⟨a, .note x :: es₁, es₂, rfl, .note hrun, h⟩
    | write data t k ih =>
      obtain ⟨r, fs, rfl, hk⟩ := touches_write.1 h
      rcases ih r hk with h | ⟨a, es₁, es₂, rfl, hrun, h⟩
      · exact .inl (.write h)
      · exact .inr ⟨a, .write data t r :: es₁, es₂, rfl, .write hrun, h⟩
    | read n t k ih =>
      obtain ⟨r, d, fs, rfl, hk⟩ := touches_read.1 h
      rcases ih r d hk with h | ⟨a, es₁, es₂, rfl, hrun, h⟩
      · exact .inl (.read h)
      · exact .inr ⟨a, .read n t r d :: es₁, es₂, rfl, .read hrun, h⟩
  · intro h
    rcases h with h | ⟨a, es₁, es₂, rfl, hrun, h⟩
    · exact h.bind f
    · exact (Steps.bind hrun f).touches h

end Process
