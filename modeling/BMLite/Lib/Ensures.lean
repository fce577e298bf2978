import BMLite.Lib.Process

/-!
# What a process ensures

A weakest precondition for processes whose environment may answer anything.  The events are
followed by a monitor, which goes from one state to the next by `next`; whenever the process asks
for a block, `ok` judges the request by the state of the monitor and by the memory access made
right before, if there is one.

* `Ensures` — every request on the way is allowed, and whatever is returned satisfies `Q`;
* `Ensures.bind` — the rule for sequences; `Ensures.mono` — the rule of consequence;
* `Ensures.of_returns` — a process that does not use the channel; `Ensures.of_runs` — the
  postcondition may be shown for complete runs only;
* `Ensures.runs`, `Ensures.steps` — **soundness**: what is ensured holds in every run, and at every
  request, whether or not it is ever answered.
-/

set_option autoImplicit false

namespace Process

variable {A X D R α β M : Type} (next : M → Event X D R → M)
  (ok : M → Option A → (size timeout : Nat) → Prop)

/-- From the state `s` of the monitor, and right after the access `last`, the process makes only
requests that are allowed; if it returns, the result and the state of the monitor satisfy `Q`. -/
def Ensures : Proc A X D R α → (last : Option A) → (s : M) → (Q : α → M → Prop) → Prop
  | .ret a, _, s, Q => Q a s
  | .out, _, _, _ => True
  | .touch acc p, _, s, Q => Ensures p (some acc) s Q
  | .note x p, _, s, Q => Ensures p none (next s (.note x)) Q
  | .write data t k, _, s, Q => ∀ r, Ensures (k r) none (next s (.write data t r)) Q
  | .read n t k, last, s, Q =>
    ok s last n t ∧ ∀ r d, Ensures (k r d) none (next s (.read n t r d)) Q

variable {next ok}

theorem Ensures.mono {p : Proc A X D R α} {last : Option A} {s : M} {P Q : α → M → Prop}
    (h : Ensures next ok p last s P) (himp : ∀ a s, P a s → Q a s) :
    Ensures next ok p last s Q := by
  induction p generalizing last s with
  | ret a => exact himp a s h
  | out => trivial
  | touch acc p ih => exact ih h
  | note x p ih => exact ih h
  | write data t k ih => exact fun r => ih r (h r)
  | read n t k ih => exact ⟨h.1, fun r d => ih r d (h.2 r d)⟩

/-- **A sequence.** -/
theorem Ensures.bind {p : Proc A X D R α} {f : α → Proc A X D R β} {last : Option A} {s : M}
    {Q : β → M → Prop}
    (h : Ensures next ok p last s fun a s' => ∀ last', Ensures next ok (f a) last' s' Q) :
    Ensures next ok (p >>= f) last s Q := by
  induction p generalizing last s with
  | ret a => exact h last
  | out => trivial
  | touch acc p ih => exact ih h
  | note x p ih => exact ih h
  | write data t k ih => exact fun r => ih r (h r)
  | read n t k ih => exact ⟨h.1, fun r d => ih r d (h.2 r d)⟩

/-- Without the channel, the postcondition is all there is to show. -/
theorem Ensures.of_returns {p : Proc A X D R α} {a : α} {last : Option A} {s : M}
    {Q : α → M → Prop} (h : Returns p a) (hQ : Q a s) : Ensures next ok p last s Q := by
  have hrun := (h [] a).2 ⟨rfl, rfl⟩
  clear h
  induction p generalizing last with
  | ret b =>
    obtain ⟨-, rfl⟩ := runs_ret.1 hrun
    exact hQ
  | out => trivial
  | touch acc p ih => exact ih (runs_touch.1 hrun)
  | note x p ih =>
    obtain ⟨fs, hnil, -⟩ := runs_note.1 hrun
    cases hnil
  | write data t k ih =>
    obtain ⟨r, fs, hnil, -⟩ := runs_write.1 hrun
    cases hnil
  | read n t k ih =>
    obtain ⟨r, d, fs, hnil, -⟩ := runs_read.1 hrun
    cases hnil

/-- **What is ensured holds in every run.** -/
theorem Ensures.runs {p : Proc A X D R α} {last : Option A} {s : M} {Q : α → M → Prop}
    (h : Ensures next ok p last s Q) {es : List (Event X D R)} {a : α} (hrun : Runs p es a) :
    Q a (es.foldl next s) := by
  induction p generalizing last s es with
  | ret b =>
    obtain ⟨rfl, rfl⟩ := runs_ret.1 hrun
    exact h
  | out => exact absurd hrun runs_out
  | touch acc p ih => exact ih h (runs_touch.1 hrun)
  | note x p ih =>
    obtain ⟨fs, rfl, hrest⟩ := runs_note.1 hrun
    exact ih h hrest
  | write data t k ih =>
    obtain ⟨r, fs, rfl, hrest⟩ := runs_write.1 hrun
    exact ih r (h r) hrest
  | read n t k ih =>
    obtain ⟨r, d, fs, rfl, hrest⟩ := runs_read.1 hrun
    exact ih r d (h.2 r d) hrest

/-- A postcondition that holds in every run is ensured. -/
theorem Ensures.of_runs {p : Proc A X D R α} {last : Option A} {s : M} {Q : α → M → Prop}
    (h : Ensures next ok p last s fun _ _ => True)
    (hQ : ∀ es a, Runs p es a → Q a (es.foldl next s)) : Ensures next ok p last s Q := by
  induction p generalizing last s with
  | ret a => exact hQ [] a (.refl _)
  | out => trivial
  | touch acc p ih => exact ih h fun es a hrun => hQ es a (.touch hrun)
  | note x p ih => exact ih h fun es a hrun => hQ _ a (.note hrun)
  | write data t k ih => exact fun r => ih r (h r) fun es a hrun => hQ _ a (.write hrun)
  | read n t k ih =>
    exact ⟨h.1, fun r d => ih r d (h.2 r d) fun es a hrun => hQ _ a (.read hrun)⟩

/-- **Every request on the way is allowed**, also one that is never answered. -/
theorem Ensures.steps {p : Proc A X D R α} {last : Option A} {s : M} {Q : α → M → Prop}
    (h : Ensures next ok p last s Q) {es : List (Event X D R)} {acc : A} {n t : Nat}
    {k : R → List D → Proc A X D R α} (hsteps : Steps p es (.touch acc (.read n t k))) :
    ok (es.foldl next s) (some acc) n t := by
  generalize hq : Proc.touch acc (.read n t k) = q at hsteps
  induction hsteps generalizing last s with
  | refl p =>
    subst hq
    exact h.1
  | touch _ ih => exact ih h hq
  | note _ ih => exact ih h hq
  | @write _ _ _ r _ _ _ ih => exact ih (h r) hq
  | @read _ _ _ r d _ _ _ ih => exact ih (h.2 r d) hq

end Process
