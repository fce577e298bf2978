import BMLite.Lib.Access

/-!
# What a process is confined to

* `Policy` — the accesses, the blocks written and the reads that a process may make;
* `Confined` — it makes no others, whatever its environment answers;
* `Confined.bind` — the rule for sequences; `Confined.mono` — the rule of consequence;
* `Confined.of_touches`, `Confined.of_runs` — accesses and results may be shown by themselves;
* `Confined.touches`, `Confined.write_ok`, `Confined.events`, `Confined.runs` — **soundness**: for
  every access, for every block on its way, whether or not the write ever returns, for every event
  and for every result;
* `Proc.accesses` — the accesses of a run, in their order; `Confined.accesses` — they are allowed.
-/

set_option autoImplicit false

namespace Process

variable {A X D R α β : Type}

structure Policy (A D : Type) where
  access : A → Prop
  write : List D → Prop
  read : (size timeout : Nat) → Prop

/-- Every access is allowed. -/
def Policy.anyAccess (pol : Policy A D) : Policy A D := { pol with access := fun _ => True }

/-- The event is allowed. -/
def Policy.Meets (pol : Policy A D) : Event X D R → Prop
  | .note _ => True
  | .write data _ _ => pol.write data
  | .read n t _ _ => pol.read n t

/-- The process does only what it may; if it returns, its result satisfies `Q`. -/
def Confined (pol : Policy A D) : Proc A X D R α → (Q : α → Prop) → Prop
  | .ret a, Q => Q a
  | .out, _ => True
  | .touch acc p, Q => pol.access acc ∧ Confined pol p Q
  | .note _ p, Q => Confined pol p Q
  | .write data _ k, Q => pol.write data ∧ ∀ r, Confined pol (k r) Q
  | .read n t k, Q => pol.read n t ∧ ∀ r d, Confined pol (k r d) Q

variable {pol pol' : Policy A D}

theorem Confined.mono {p : Proc A X D R α} {P Q : α → Prop} (h : Confined pol p P)
    (hA : ∀ acc, pol.access acc → pol'.access acc)
    (hW : ∀ data, pol.write data → pol'.write data)
    (hR : ∀ n t, pol.read n t → pol'.read n t) (hQ : ∀ a, P a → Q a) : Confined pol' p Q := by
  induction p with
  | ret a => exact hQ a h
  | out => trivial
  | touch acc p ih => exact ⟨hA acc h.1, ih h.2⟩
  | note x p ih => exact ih h
  | write data t k ih => exact ⟨hW data h.1, fun r => ih r (h.2 r)⟩
  | read n t k ih => exact ⟨hR n t h.1, fun r d => ih r d (h.2 r d)⟩

/-- A weaker postcondition. -/
theorem Confined.imp {p : Proc A X D R α} {P Q : α → Prop} (h : Confined pol p P)
    (hQ : ∀ a, P a → Q a) : Confined pol p Q :=
  h.mono (fun _ => id) (fun _ => id) (fun _ _ => id) hQ

/-- **A sequence.** -/
theorem Confined.bind {p : Proc A X D R α} {f : α → Proc A X D R β} {Q : β → Prop}
    (h : Confined pol p fun a => Confined pol (f a) Q) :
    Confined pol (p >>= f) Q := by
  induction p with
  | ret a => exact h
  | out => trivial
  | touch acc p ih => exact ⟨h.1, ih h.2⟩
  | note x p ih => exact ih h
  | write data t k ih => exact ⟨h.1, fun r => ih r (h.2 r)⟩
  | read n t k ih => exact ⟨h.1, fun r d => ih r d (h.2 r d)⟩

/-- The accesses may be judged by themselves. -/
theorem Confined.of_touches {p : Proc A X D R α} {Q : α → Prop}
    (h : Confined pol.anyAccess p Q) (hA : ∀ es acc, Touches p es acc → pol.access acc) :
    Confined pol p Q := by
  induction p with
  | ret a => exact h
  | out => trivial
  | touch acc p ih => exact ⟨hA [] acc .here, ih h.2 fun es acc' ht => hA es acc' (.touch ht)⟩
  | note x p ih => exact ih h fun es acc ht => hA _ acc (.note ht)
  | write data t k ih => exact ⟨h.1, fun r => ih r (h.2 r) fun es acc ht => hA _ acc (.write ht)⟩
  | read n t k ih => exact ⟨h.1, fun r d => ih r d (h.2 r d) fun es acc ht =>
    hA _ acc (.read ht)⟩

/-- A postcondition may be shown for complete runs only. -/
theorem Confined.of_runs {p : Proc A X D R α} {Q : α → Prop}
    (h : Confined pol p fun _ => True) (hQ : ∀ es a, Runs p es a → Q a) :
    Confined pol p Q := by
  induction p with
  | ret a => exact hQ [] a (.refl _)
  | out => trivial
  | touch acc p ih => exact ⟨h.1, ih h.2 fun es a hrun => hQ es a (.touch hrun)⟩
  | note x p ih => exact ih h fun es a hrun => hQ _ a (.note hrun)
  | write data t k ih => exact ⟨h.1, fun r => ih r (h.2 r) fun es a hrun => hQ _ a (.write hrun)⟩
  | read n t k ih => exact ⟨h.1, fun r d => ih r d (h.2 r d) fun es a hrun =>
    hQ _ a (.read hrun)⟩

/-- A process that does not use the channel. -/
theorem Confined.of_returns {p : Proc A X D R α} {a : α} {Q : α → Prop} (h : Returns p a)
    (hA : ∀ es acc, Touches p es acc → pol.access acc) (hQ : Q a) : Confined pol p Q := by
  refine Confined.of_touches ?_ hA
  have hrun := (h [] a).2 ⟨rfl, rfl⟩
  clear h hA
  induction p with
  | ret b =>
    obtain ⟨-, rfl⟩ := runs_ret.1 hrun
    exact hQ
  | out => trivial
  | touch acc p ih => exact ⟨trivial, ih (runs_touch.1 hrun)⟩
  | note x p ih =>
    obtain ⟨fs, hnil, -⟩ := runs_note.1 hrun
    cases hnil
  | write data t k ih =>
    obtain ⟨r, fs, hnil, -⟩ := runs_write.1 hrun
    cases hnil
  | read n t k ih =>
    obtain ⟨r, d, fs, hnil, -⟩ := runs_read.1 hrun
    cases hnil

/-- **Every access is allowed.** -/
theorem Confined.touches {p : Proc A X D R α} {Q : α → Prop} (h : Confined pol p Q)
    {es : List (Event X D R)} {acc : A} (ht : Touches p es acc) : pol.access acc := by
  induction ht with
  | here => exact h.1
  | touch _ ih => exact ih h.2
  | note _ ih => exact ih h
  | @write _ _ _ r _ _ _ ih => exact ih (h.2 r)
  | @read _ _ _ r d _ _ _ ih => exact ih (h.2 r d)

/-- The accesses that the process makes while the answers are those of `es`, in their order. -/
def Proc.accesses : Proc A X D R α → List (Event X D R) → List A
  | .touch acc p, es => acc :: p.accesses es
  | .note _ p, .note _ :: es => p.accesses es
  | .write _ _ k, .write _ _ r :: es => (k r).accesses es
  | .read _ _ k, .read _ _ r d :: es => (k r d).accesses es
  | _, _ => []

/-- **The accesses of a run** are allowed. -/
theorem Confined.accesses {p : Proc A X D R α} {Q : α → Prop} (h : Confined pol p Q)
    {es : List (Event X D R)} : ∀ acc ∈ p.accesses es, pol.access acc := by
  fun_induction Proc.accesses p es with
  | case1 acc p es ih => exact List.forall_mem_cons.2 ⟨h.1, ih h.2⟩
  | case2 _ p _ es ih => exact ih h
  | case3 _ _ k _ _ r es ih => exact ih (h.2 r)
  | case4 _ _ k _ _ r d es ih => exact ih (h.2 r d)
  | case5 => exact fun acc hmem => absurd hmem List.not_mem_nil

/-- What has been allowed for the whole is allowed for the rest. -/
theorem Confined.steps {p q : Proc A X D R α} {Q : α → Prop} (h : Confined pol p Q)
    {es : List (Event X D R)} (hsteps : Steps p es q) : Confined pol q Q := by
  induction hsteps with
  | refl p => exact h
  | touch _ ih => exact ih h.2
  | note _ ih => exact ih h
  | @write _ _ _ r _ _ _ ih => exact ih (h.2 r)
  | @read _ _ _ r d _ _ _ ih => exact ih (h.2 r d)

/-- **Every block is allowed**, also one whose write never returns. -/
theorem Confined.write_ok {p : Proc A X D R α} {Q : α → Prop} (h : Confined pol p Q)
    {es : List (Event X D R)} {data : List D} {t : Nat} {k : R → Proc A X D R α}
    (hsteps : Steps p es (.write data t k)) : pol.write data :=
  (h.steps hsteps).1

/-- **Every event is allowed**, in a run and in a part of one. -/
theorem Confined.events {p q : Proc A X D R α} {Q : α → Prop} (h : Confined pol p Q)
    {es : List (Event X D R)} (hsteps : Steps p es q) {e : Event X D R} (hmem : e ∈ es) :
    pol.Meets e := by
  induction hsteps with
  | refl p => cases hmem
  | touch _ ih => exact ih h.2 hmem
  | note _ ih =>
    cases hmem with
    | head => trivial
    | tail _ hmem => exact ih h hmem
  | @write _ _ _ r _ _ _ ih =>
    cases hmem with
    | head => exact h.1
    | tail _ hmem => exact ih (h.2 r) hmem
  | @read _ _ _ r d _ _ _ ih =>
    cases hmem with
    | head => exact h.1
    | tail _ hmem => exact ih (h.2 r d) hmem

/-- **Every result satisfies the postcondition.** -/
theorem Confined.runs {p : Proc A X D R α} {Q : α → Prop} (h : Confined pol p Q)
    {es : List (Event X D R)} {a : α} (hrun : Runs p es a) : Q a :=
  h.steps hrun

end Process
