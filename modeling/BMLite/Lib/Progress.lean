import BMLite.Lib.Confined

/-!
# Processes that come to an end

A machine answers a process and also does what its accesses ask for, which may take it from one state
to another.  Neither need ever return.

* `Machine`, `Machine.exec` — a machine, and how a process ends in it: with a result, or cut off;
* `exec_steps` — what it goes through are steps of the process; `exec_bind` — a sequence;
* `Confined.ends` — **a process comes to an end** if the machine returns from whatever the process may
  ask for, from every state of an invariant;
* `steps_out_bind` and the lemmas before it — how a process comes to be cut off.

A machine that may be cut off itself is given with a parameter, such as the rounds of its loops; what
holds of it holds along a filter, such as for all sufficiently large ones.
-/

set_option autoImplicit false

namespace Process

open Filter

variable {A X D R S F α β : Type}

/-! ## Hosts -/

/-- An environment that also makes the accesses; `none` is one that never returns. -/
structure Machine (A D R S : Type) extends Env D R S where
  onTouch : S → A → Option S

/-- The end of a process in a machine; it has no result if the process is cut off. -/
structure Ending (X D R S α : Type) where
  result : Option α
  events : List (Event X D R)
  state : S

/-- What has gone before. -/
def Ending.after (es : List (Event X D R)) (y : Ending X D R S α) : Ending X D R S α :=
  { y with events := es ++ y.events }

/-- Run a process in a machine, from a state of it. -/
def Machine.exec (h : Machine A D R S) : Proc A X D R α → S → Option (Ending X D R S α)
  | .ret a, s => some ⟨some a, [], s⟩
  | .out, s => some ⟨none, [], s⟩
  | .touch acc p, s => (h.onTouch s acc).bind (h.exec p)
  | .note x p, s => (h.exec p s).map (.after [.note x])
  | .write data t k, s =>
    (h.onWrite s data t).bind fun y => (h.exec (k y.1) y.2).map (.after [.write data t y.1])
  | .read n t k, s =>
    (h.onRead s n t).bind fun y =>
      (h.exec (k y.1.1 y.1.2) y.2).map (.after [.read n t y.1.1 y.1.2])

/-- Where the process stops. -/
def Ending.last (y : Ending X D R S α) : Proc A X D R α := y.result.elim .out .ret

variable {h : Machine A D R S} {s : S} {p : Proc A X D R α} {y : Ending X D R S α}

/-- **What a process goes through in a machine** are steps of it. -/
theorem exec_steps (hexec : h.exec p s = some y) : Steps p y.events y.last := by
  induction p generalizing s y with
  | ret a =>
    cases hexec
    exact .refl _
  | out =>
    cases hexec
    exact .refl _
  | touch acc p ih =>
    obtain ⟨s₁, -, hexec⟩ := Option.bind_eq_some_iff.1 hexec
    exact .touch (ih hexec)
  | note x p ih =>
    obtain ⟨y₁, hp, rfl⟩ := Option.map_eq_some_iff.1 hexec
    exact .note (ih hp)
  | write data t k ih =>
    obtain ⟨⟨r, s₁⟩, -, hexec⟩ := Option.bind_eq_some_iff.1 hexec
    obtain ⟨y₁, hp, rfl⟩ := Option.map_eq_some_iff.1 hexec
    exact .write (ih r hp)
  | read n t k ih =>
    obtain ⟨⟨⟨r, d⟩, s₁⟩, -, hexec⟩ := Option.bind_eq_some_iff.1 hexec
    obtain ⟨y₁, hp, rfl⟩ := Option.map_eq_some_iff.1 hexec
    exact .read (ih r d hp)

/-- **A sequence**: its first part is cut off, or the second goes on in the state that it has left. -/
theorem exec_bind {f : α → Proc A X D R β} {z : Ending X D R S β}
    (hexec : h.exec (p >>= f) s = some z) : ∃ y, h.exec p s = some y ∧
      (y.result = none ∧ z = ⟨none, y.events, y.state⟩ ∨
        ∃ a z₁, y.result = some a ∧ h.exec (f a) y.state = some z₁ ∧ z = z₁.after y.events) := by
  induction p generalizing s z with
  | ret a => exact ⟨_, rfl, .inr ⟨a, z, rfl, hexec, rfl⟩⟩
  | out =>
    cases hexec
    exact ⟨_, rfl, .inl ⟨rfl, rfl⟩⟩
  | touch acc p ih =>
    obtain ⟨s₁, htouch, hexec⟩ := Option.bind_eq_some_iff.1 hexec
    obtain ⟨y, hy, hz⟩ := ih hexec
    exact ⟨y, Option.bind_eq_some_iff.2 ⟨s₁, htouch, hy⟩, hz⟩
  | note x p ih =>
    obtain ⟨z₁, hp, rfl⟩ := Option.map_eq_some_iff.1 hexec
    obtain ⟨y, hy, hz⟩ := ih hp
    refine ⟨_, Option.map_eq_some_iff.2 ⟨y, hy, rfl⟩, ?_⟩
    rcases hz with ⟨hcut, rfl⟩ | ⟨a, z₂, ha, hrest, rfl⟩
    · exact .inl ⟨hcut, rfl⟩
    · exact .inr ⟨a, z₂, ha, hrest, rfl⟩
  | write data t k ih =>
    obtain ⟨⟨r, s₁⟩, hwrite, hexec⟩ := Option.bind_eq_some_iff.1 hexec
    obtain ⟨z₁, hp, rfl⟩ := Option.map_eq_some_iff.1 hexec
    obtain ⟨y, hy, hz⟩ := ih r hp
    refine ⟨_, Option.bind_eq_some_iff.2 ⟨(r, s₁), hwrite, Option.map_eq_some_iff.2
      ⟨y, hy, rfl⟩⟩, ?_⟩
    rcases hz with ⟨hcut, rfl⟩ | ⟨a, z₂, ha, hrest, rfl⟩
    · exact .inl ⟨hcut, rfl⟩
    · exact .inr ⟨a, z₂, ha, hrest, rfl⟩
  | read n t k ih =>
    obtain ⟨⟨⟨r, d⟩, s₁⟩, hread, hexec⟩ := Option.bind_eq_some_iff.1 hexec
    obtain ⟨z₁, hp, rfl⟩ := Option.map_eq_some_iff.1 hexec
    obtain ⟨y, hy, hz⟩ := ih r d hp
    refine ⟨_, Option.bind_eq_some_iff.2 ⟨((r, d), s₁), hread, Option.map_eq_some_iff.2
      ⟨y, hy, rfl⟩⟩, ?_⟩
    rcases hz with ⟨hcut, rfl⟩ | ⟨a, z₂, ha, hrest, rfl⟩
    · exact .inl ⟨hcut, rfl⟩
    · exact .inr ⟨a, z₂, ha, hrest, rfl⟩

/-- **Progress.**  The process returns, or it is cut off after its own rounds. -/
theorem Confined.ends {l : Filter F} {machine : F → Machine A D R S} {I : S → Prop} {pol : Policy A D}
    (htouch : ∀ s acc, I s → pol.access acc →
      ∃ s', I s' ∧ ∀ᶠ x in l, (machine x).onTouch s acc = some s')
    (hwrite : ∀ s data t, I s → ∃ y, I y.2 ∧ ∀ᶠ x in l, (machine x).onWrite s data t = some y)
    (hread : ∀ s n t, I s → pol.read n t →
      ∃ y, I y.2 ∧ ∀ᶠ x in l, (machine x).onRead s n t = some y)
    {Q : α → Prop} (hconf : Confined pol p Q) (hs : I s) :
    ∃ y, I y.state ∧ ∀ᶠ x in l, (machine x).exec p s = some y := by
  induction p generalizing s with
  | ret a => exact ⟨⟨some a, [], s⟩, hs, .of_forall fun _ => rfl⟩
  | out => exact ⟨⟨none, [], s⟩, hs, .of_forall fun _ => rfl⟩
  | touch acc p ih =>
    obtain ⟨s₁, hs₁, htouched⟩ := htouch s acc hs hconf.1
    obtain ⟨y, hy, hrest⟩ := ih hconf.2 hs₁
    refine ⟨y, hy, ?_⟩
    filter_upwards [htouched, hrest] with x hx hrest
    exact Option.bind_eq_some_iff.2 ⟨s₁, hx, hrest⟩
  | note x p ih =>
    obtain ⟨y, hy, hrest⟩ := ih hconf hs
    exact ⟨y.after [.note x], hy, hrest.mono fun _ hrest =>
      Option.map_eq_some_iff.2 ⟨y, hrest, rfl⟩⟩
  | write data t k ih =>
    obtain ⟨⟨r, s₁⟩, hs₁, hanswer⟩ := hwrite s data t hs
    obtain ⟨y, hy, hrest⟩ := ih r (hconf.2 r) hs₁
    refine ⟨y.after [.write data t r], hy, ?_⟩
    filter_upwards [hanswer, hrest] with x hx hrest
    exact Option.bind_eq_some_iff.2 ⟨(r, s₁), hx, Option.map_eq_some_iff.2 ⟨y, hrest, rfl⟩⟩
  | read n t k ih =>
    obtain ⟨⟨⟨r, d⟩, s₁⟩, hs₁, hanswer⟩ := hread s n t hs hconf.1
    obtain ⟨y, hy, hrest⟩ := ih r d (hconf.2 r d) hs₁
    refine ⟨y.after [.read n t r d], hy, ?_⟩
    filter_upwards [hanswer, hrest] with x hx hrest
    exact Option.bind_eq_some_iff.2 ⟨((r, d), s₁), hx, Option.map_eq_some_iff.2 ⟨y, hrest, rfl⟩⟩

/-! ## Being cut off -/

variable {es : List (Event X D R)}

@[simp] theorem steps_out_ret {a : α} : ¬ Steps (.ret a : Proc A X D R α) es .out := by
  intro h
  cases h

@[simp] theorem steps_out_touch {acc : A} {p : Proc A X D R α} :
    Steps (.touch acc p) es .out ↔ Steps p es .out := by
  constructor
  · intro h; cases h; assumption
  · exact .touch

@[simp] theorem steps_out_note {x : X} {p : Proc A X D R α} :
    Steps (.note x p) es .out ↔ ∃ fs, es = .note x :: fs ∧ Steps p fs .out := by
  constructor
  · intro h; cases h with | note h => exact ⟨_, rfl, h⟩
  · rintro ⟨fs, rfl, h⟩; exact .note h

@[simp] theorem steps_out_write {data : List D} {t : Nat} {k : R → Proc A X D R α} :
    Steps (.write data t k) es .out ↔
      ∃ r fs, es = .write data t r :: fs ∧ Steps (k r) fs .out := by
  constructor
  · intro h; cases h with | write h => exact ⟨_, _, rfl, h⟩
  · rintro ⟨r, fs, rfl, h⟩; exact .write h

@[simp] theorem steps_out_read {n t : Nat} {k : R → List D → Proc A X D R α} :
    Steps (.read n t k) es .out ↔
      ∃ r d fs, es = .read n t r d :: fs ∧ Steps (k r d) fs .out := by
  constructor
  · intro h; cases h with | read h => exact ⟨_, _, _, rfl, h⟩
  · rintro ⟨r, d, fs, rfl, h⟩; exact .read h

/-- A sequence is cut off in its first part, or in its second. -/
theorem steps_out_bind {p : Proc A X D R α} {f : α → Proc A X D R β}
    (h : Steps (p >>= f) es .out) :
    Steps p es .out ∨ ∃ a es₁ es₂, es = es₁ ++ es₂ ∧ Runs p es₁ a ∧ Steps (f a) es₂ .out := by
  induction p generalizing es with
  | ret a => exact .inr ⟨a, [], es, rfl, .refl _, h⟩
  | out =>
    cases h
    exact .inl (.refl _)
  | touch acc p ih =>
    rcases ih (steps_out_touch.1 h) with h | ⟨a, es₁, es₂, rfl, hrun, hrest⟩
    · exact .inl (.touch h)
    · exact .inr ⟨a, es₁, es₂, rfl, .touch hrun, hrest⟩
  | note x p ih =>
    obtain ⟨fs, rfl, hp⟩ := steps_out_note.1 h
    rcases ih hp with h | ⟨a, es₁, es₂, rfl, hrun, hrest⟩
    · exact .inl (.note h)
    · exact .inr ⟨a, .note x :: es₁, es₂, rfl, .note hrun, hrest⟩
  | write data t k ih =>
    obtain ⟨r, fs, rfl, hp⟩ := steps_out_write.1 h
    rcases ih r hp with h | ⟨a, es₁, es₂, rfl, hrun, hrest⟩
    · exact .inl (.write h)
    · exact .inr ⟨a, .write data t r :: es₁, es₂, rfl, .write hrun, hrest⟩
  | read n t k ih =>
    obtain ⟨r, d, fs, rfl, hp⟩ := steps_out_read.1 h
    rcases ih r d hp with h | ⟨a, es₁, es₂, rfl, hrun, hrest⟩
    · exact .inl (.read h)
    · exact .inr ⟨a, .read n t r d :: es₁, es₂, rfl, .read hrun, hrest⟩

/-- A process that returns at once is not cut off. -/
theorem Returns.not_out {p : Proc A X D R α} {a : α} (h : Returns p a) : ¬ Steps p es .out := by
  have hrun : Runs p [] a := (h [] a).2 ⟨rfl, rfl⟩
  clear h
  induction p with
  | ret b => exact steps_out_ret
  | out => exact absurd hrun runs_out
  | touch acc p ih => exact fun h => ih (runs_touch.1 hrun) (steps_out_touch.1 h)
  | note x p ih =>
    obtain ⟨fs, hnil, -⟩ := runs_note.1 hrun
    cases hnil
  | write data t k ih =>
    obtain ⟨r, fs, hnil, -⟩ := runs_write.1 hrun
    cases hnil
  | read n t k ih =>
    obtain ⟨r, d, fs, hnil, -⟩ := runs_read.1 hrun
    cases hnil

end Process
