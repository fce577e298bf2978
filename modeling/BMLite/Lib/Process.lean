import Mathlib

/-!
# Processes on a byte channel

A sequential program that talks over a channel is a resumption (`Proc`): it has returned, or it
writes a block or asks for one and goes on with the answer.  Two further constructors carry no
answer: `touch` marks a memory access and `note` marks a point of the program that statements
refer to.  A loop is cut off after a given number of rounds and then has no result (`out`).

* `Steps p es q` — `p` goes through the events `es` to `q`; `Runs p es a` — it returns `a`;
* `runs_bind`, `Steps.split`, `Runs.unique` — runs compose, split, and are determined by the
  answers;
* `Env` — an environment that answers reads and writes from a state of its own; `runIn_iff` —
  running in an environment is a run whose answers are the environment's; `Env.runs_unique` —
  there is at most one.
-/

set_option autoImplicit false

namespace Process

/-- `A` memory accesses, `X` notes, `D` cells of the channel, `R` result codes of the two
channel operations. -/
inductive Proc (A X D R α : Type) where
  | ret (a : α)
  | out
  | touch (acc : A) (p : Proc A X D R α)
  | note (x : X) (p : Proc A X D R α)
  | write (data : List D) (timeout : Nat) (k : R → Proc A X D R α)
  | read (size timeout : Nat) (k : R → List D → Proc A X D R α)

/-- What an observer of the channel sees, answers included, with the notes in between. -/
inductive Event (X D R : Type) where
  | note (x : X)
  | write (data : List D) (timeout : Nat) (res : R)
  | read (size timeout : Nat) (res : R) (data : List D)
  deriving DecidableEq

variable {A X D R α β : Type}

def Proc.bind (p : Proc A X D R α) (f : α → Proc A X D R β) : Proc A X D R β :=
  match p with
  | .ret a => f a
  | .out => .out
  | .touch acc p => .touch acc (p.bind f)
  | .note x p => .note x (p.bind f)
  | .write data t k => .write data t fun r => (k r).bind f
  | .read n t k => .read n t fun r d => (k r d).bind f

instance : Monad (Proc A X D R) where
  pure := .ret
  bind := .bind

@[simp] theorem pure_eq (a : α) : (pure a : Proc A X D R α) = .ret a := rfl

@[simp] theorem ret_bind (a : α) (f : α → Proc A X D R β) : (.ret a >>= f) = f a := rfl

@[simp] theorem out_bind (f : α → Proc A X D R β) : (.out >>= f) = .out := rfl

@[simp] theorem touch_bind (acc : A) (p : Proc A X D R α) (f : α → Proc A X D R β) :
    (.touch acc p >>= f) = .touch acc (p >>= f) := rfl

@[simp] theorem note_bind (x : X) (p : Proc A X D R α) (f : α → Proc A X D R β) :
    (.note x p >>= f) = .note x (p >>= f) := rfl

@[simp] theorem write_bind (data : List D) (t : Nat) (k : R → Proc A X D R α)
    (f : α → Proc A X D R β) : (.write data t k >>= f) = .write data t fun r => k r >>= f := rfl

@[simp] theorem read_bind (n t : Nat) (k : R → List D → Proc A X D R α)
    (f : α → Proc A X D R β) : (.read n t k >>= f) = .read n t fun r d => k r d >>= f := rfl

/-! ## Steps and runs -/

/-- `p` goes through the events `es` to `q`; memory accesses are not observed. -/
inductive Steps : Proc A X D R α → List (Event X D R) → Proc A X D R α → Prop
  | refl (p) : Steps p [] p
  | touch {acc p es q} : Steps p es q → Steps (.touch acc p) es q
  | note {x p es q} : Steps p es q → Steps (.note x p) (.note x :: es) q
  | write {data t k r es q} : Steps (k r) es q → Steps (.write data t k) (.write data t r :: es) q
  | read {n t k r d es q} : Steps (k r d) es q → Steps (.read n t k) (.read n t r d :: es) q

/-- `p` returns `a` after the events `es`. -/
def Runs (p : Proc A X D R α) (es : List (Event X D R)) (a : α) : Prop := Steps p es (.ret a)

theorem Steps.trans {p q r : Proc A X D R α} {es fs : List (Event X D R)} (h : Steps p es q)
    (h' : Steps q fs r) : Steps p (es ++ fs) r := by
  induction h with
  | refl p => exact h'
  | touch _ ih => exact .touch (ih h')
  | note _ ih => exact .note (ih h')
  | write _ ih => exact .write (ih h')
  | read _ ih => exact .read (ih h')

/-- A process stops anywhere on its way. -/
theorem Steps.split {p q : Proc A X D R α} {es fs : List (Event X D R)}
    (h : Steps p (es ++ fs) q) : ∃ m, Steps p es m ∧ Steps m fs q := by
  generalize hl : es ++ fs = l at h
  induction h generalizing es with
  | refl p =>
    obtain ⟨rfl, rfl⟩ := List.append_eq_nil_iff.1 hl
    exact ⟨p, .refl p, .refl p⟩
  | touch _ ih =>
    obtain ⟨m, h1, h2⟩ := ih hl
    exact ⟨m, .touch h1, h2⟩
  | note h ih =>
    cases es with
    | nil => subst hl; exact ⟨_, .refl _, .note h⟩
    | cons e es =>
      obtain ⟨rfl, hl'⟩ := List.cons.inj hl
      obtain ⟨m, h1, h2⟩ := ih hl'
      exact ⟨m, .note h1, h2⟩
  | write h ih =>
    cases es with
    | nil => subst hl; exact ⟨_, .refl _, .write h⟩
    | cons e es =>
      obtain ⟨rfl, hl'⟩ := List.cons.inj hl
      obtain ⟨m, h1, h2⟩ := ih hl'
      exact ⟨m, .write h1, h2⟩
  | read h ih =>
    cases es with
    | nil => subst hl; exact ⟨_, .refl _, .read h⟩
    | cons e es =>
      obtain ⟨rfl, hl'⟩ := List.cons.inj hl
      obtain ⟨m, h1, h2⟩ := ih hl'
      exact ⟨m, .read h1, h2⟩

theorem Steps.bind {p q : Proc A X D R α} {es : List (Event X D R)} (h : Steps p es q)
    (f : α → Proc A X D R β) : Steps (p >>= f) es (q >>= f) := by
  induction h with
  | refl p => exact .refl _
  | touch _ ih => exact .touch ih
  | note _ ih => exact .note ih
  | write _ ih => exact .write ih
  | read _ ih => exact .read ih

theorem Runs.bind {p : Proc A X D R α} {f : α → Proc A X D R β} {q : Proc A X D R β} {a : α}
    {es fs : List (Event X D R)} (h : Runs p es a) (h' : Steps (f a) fs q) :
    Steps (p >>= f) (es ++ fs) q :=
  (Steps.bind h f).trans h'

@[simp] theorem runs_ret {a b : α} {es : List (Event X D R)} :
    Runs (.ret b : Proc A X D R α) es a ↔ es = [] ∧ b = a := by
  constructor
  · intro h; cases h; exact ⟨rfl, rfl⟩
  · rintro ⟨rfl, rfl⟩; exact .refl _

@[simp] theorem runs_out {a : α} {es : List (Event X D R)} :
    ¬ Runs (.out : Proc A X D R α) es a := by
  intro h; cases h

@[simp] theorem runs_touch {acc : A} {p : Proc A X D R α} {a : α} {es : List (Event X D R)} :
    Runs (.touch acc p) es a ↔ Runs p es a := by
  constructor
  · intro h; cases h; assumption
  · exact .touch

@[simp] theorem runs_note {x : X} {p : Proc A X D R α} {a : α} {es : List (Event X D R)} :
    Runs (.note x p) es a ↔ ∃ fs, es = .note x :: fs ∧ Runs p fs a := by
  constructor
  · intro h; cases h with | note h => exact ⟨_, rfl, h⟩
  · rintro ⟨fs, rfl, h⟩; exact .note h

@[simp] theorem runs_write {data : List D} {t : Nat} {k : R → Proc A X D R α} {a : α}
    {es : List (Event X D R)} :
    Runs (.write data t k) es a ↔ ∃ r fs, es = .write data t r :: fs ∧ Runs (k r) fs a := by
  constructor
  · intro h; cases h with | write h => exact ⟨_, _, rfl, h⟩
  · rintro ⟨r, fs, rfl, h⟩; exact .write h

@[simp] theorem runs_read {n t : Nat} {k : R → List D → Proc A X D R α} {a : α}
    {es : List (Event X D R)} :
    Runs (.read n t k) es a ↔ ∃ r d fs, es = .read n t r d :: fs ∧ Runs (k r d) fs a := by
  constructor
  · intro h; cases h with | read h => exact ⟨_, _, _, rfl, h⟩
  · rintro ⟨r, d, fs, rfl, h⟩; exact .read h

/-- **Runs compose.** -/
theorem runs_bind {p : Proc A X D R α} {f : α → Proc A X D R β} {b : β}
    {es : List (Event X D R)} :
    Runs (p >>= f) es b ↔ ∃ a es₁ es₂, es = es₁ ++ es₂ ∧ Runs p es₁ a ∧ Runs (f a) es₂ b := by
  constructor
  · intro h
    induction p generalizing es with
    | ret a => exact ⟨a, [], es, rfl, .refl _, h⟩
    | out => exact absurd h runs_out
    | touch acc p ih =>
      obtain ⟨a, es₁, es₂, rfl, h1, h2⟩ := ih (runs_touch.1 h)
      exact ⟨a, es₁, es₂, rfl, .touch h1, h2⟩
    | note x p ih =>
      obtain ⟨fs, rfl, hf⟩ := runs_note.1 h
      obtain ⟨a, es₁, es₂, rfl, h1, h2⟩ := ih hf
      exact ⟨a, .note x :: es₁, es₂, rfl, .note h1, h2⟩
    | write data t k ih =>
      obtain ⟨r, fs, rfl, hf⟩ := runs_write.1 h
      obtain ⟨a, es₁, es₂, rfl, h1, h2⟩ := ih r hf
      exact ⟨a, .write data t r :: es₁, es₂, rfl, .write h1, h2⟩
    | read n t k ih =>
      obtain ⟨r, d, fs, rfl, hf⟩ := runs_read.1 h
      obtain ⟨a, es₁, es₂, rfl, h1, h2⟩ := ih r d hf
      exact ⟨a, .read n t r d :: es₁, es₂, rfl, .read h1, h2⟩
  · rintro ⟨a, es₁, es₂, rfl, h1, h2⟩
    exact h1.bind h2

/-- **The answers determine the run**: two runs of one process whose events do not diverge are
the same. -/
theorem Runs.unique {p : Proc A X D R α} {a a' : α} {es es' fs fs' : List (Event X D R)}
    (h : Runs p es a) (h' : Runs p es' a') (he : es ++ fs = es' ++ fs') : es = es' ∧ a = a' := by
  induction p generalizing es es' with
  | ret b =>
    obtain ⟨rfl, rfl⟩ := runs_ret.1 h
    obtain ⟨rfl, rfl⟩ := runs_ret.1 h'
    exact ⟨rfl, rfl⟩
  | out => exact absurd h runs_out
  | touch acc p ih => exact ih (runs_touch.1 h) (runs_touch.1 h') he
  | note x p ih =>
    obtain ⟨gs, rfl, hg⟩ := runs_note.1 h
    obtain ⟨gs', rfl, hg'⟩ := runs_note.1 h'
    obtain ⟨rfl, rfl⟩ := ih hg hg' (List.cons.inj he).2
    exact ⟨rfl, rfl⟩
  | write data t k ih =>
    obtain ⟨r, gs, rfl, hg⟩ := runs_write.1 h
    obtain ⟨r', gs', rfl, hg'⟩ := runs_write.1 h'
    obtain ⟨he1, he2⟩ := List.cons.inj he
    cases he1
    obtain ⟨rfl, rfl⟩ := ih r hg hg' he2
    exact ⟨rfl, rfl⟩
  | read n t k ih =>
    obtain ⟨r, d, gs, rfl, hg⟩ := runs_read.1 h
    obtain ⟨r', d', gs', rfl, hg'⟩ := runs_read.1 h'
    obtain ⟨he1, he2⟩ := List.cons.inj he
    cases he1
    obtain ⟨rfl, rfl⟩ := ih r d hg hg' he2
    exact ⟨rfl, rfl⟩

/-- **A run through a point on its way** is a run from that point. -/
theorem Steps.runs_append {p q : Proc A X D R α} {es fs : List (Event X D R)}
    (h : Steps p es q) {a : α} : Runs p (es ++ fs) a ↔ Runs q fs a := by
  refine ⟨fun hp => ?_, fun hq => h.trans hq⟩
  induction h with
  | refl p => exact hp
  | touch _ ih => exact ih (runs_touch.1 hp)
  | note _ ih => cases hp with | note hp => exact ih hp
  | write _ ih => cases hp with | write hp => exact ih hp
  | read _ ih => cases hp with | read hp => exact ih hp

/-- What comes before the first event does not change the runs. -/
theorem Steps.runs_iff {p q : Proc A X D R α} (h : Steps p [] q) {a : α}
    {es : List (Event X D R)} : Runs p es a ↔ Runs q es a := h.runs_append

/-- `p` returns `a`, and nothing else, without using the channel. -/
def Returns (p : Proc A X D R α) (a : α) : Prop := ∀ es b, Runs p es b ↔ es = [] ∧ b = a

theorem returns_of_runs {p : Proc A X D R α} {a : α} (h : Runs p [] a) : Returns p a := by
  intro es b
  constructor
  · intro hb
    obtain ⟨he, rfl⟩ := h.unique hb (show [] ++ es = es ++ [] by simp)
    exact ⟨he.symm, rfl⟩
  · rintro ⟨rfl, rfl⟩; exact h

theorem Returns.runs_bind {p : Proc A X D R α} {f : α → Proc A X D R β} {a : α} {b : β}
    {es : List (Event X D R)} (h : Returns p a) : Runs (p >>= f) es b ↔ Runs (f a) es b := by
  rw [Process.runs_bind]
  constructor
  · rintro ⟨a', es₁, es₂, rfl, h1, h2⟩
    obtain ⟨rfl, rfl⟩ := (h _ _).1 h1
    exact h2
  · intro hf
    exact ⟨a, [], es, rfl, (h _ _).2 ⟨rfl, rfl⟩, hf⟩

theorem Returns.bind {p : Proc A X D R α} {f : α → Proc A X D R β} {a : α} {b : β}
    (h : Returns p a) (h' : Returns (f a) b) : Returns (p >>= f) b :=
  returns_of_runs (Runs.bind ((h _ _).2 ⟨rfl, rfl⟩) ((h' _ _).2 ⟨rfl, rfl⟩))

/-! ## Environments -/

/-- An environment answers from a state of its own; `none` is an operation that never returns. -/
structure Env (D R S : Type) where
  onWrite : S → List D → Nat → Option (R × S)
  onRead : S → Nat → Nat → Option ((R × List D) × S)

variable {S : Type}

/-- Run a process in an environment, from a state of it. -/
def Proc.runIn (env : Env D R S) : Proc A X D R α → S → Option (α × S)
  | .ret a, s => some (a, s)
  | .out, _ => none
  | .touch _ p, s => p.runIn env s
  | .note _ p, s => p.runIn env s
  | .write data t k, s =>
    match env.onWrite s data t with
    | none => none
    | some (r, s') => (k r).runIn env s'
  | .read n t k, s =>
    match env.onRead s n t with
    | none => none
    | some ((r, d), s') => (k r d).runIn env s'

/-- The environment gives the answers in `es`, going from `s` to `s'`. -/
def Env.Answers (env : Env D R S) : S → List (Event X D R) → S → Prop
  | s, [], s' => s = s'
  | s, .note _ :: es, s' => env.Answers s es s'
  | s, .write data t r :: es, s' =>
    ∃ s₁, env.onWrite s data t = some (r, s₁) ∧ env.Answers s₁ es s'
  | s, .read n t r d :: es, s' =>
    ∃ s₁, env.onRead s n t = some ((r, d), s₁) ∧ env.Answers s₁ es s'

theorem Env.answers_append {env : Env D R S} {s s' : S} {es fs : List (Event X D R)} :
    env.Answers s (es ++ fs) s' ↔ ∃ m, env.Answers s es m ∧ env.Answers m fs s' := by
  induction es generalizing s with
  | nil => simp [Env.Answers]
  | cons e es ih =>
    cases e with
    | note x => simpa [Env.Answers] using ih
    | write data t r =>
      simp only [List.cons_append, Env.Answers, ih]
      constructor
      · rintro ⟨s₁, h, m, h1, h2⟩; exact ⟨m, ⟨s₁, h, h1⟩, h2⟩
      · rintro ⟨m, ⟨s₁, h, h1⟩, h2⟩; exact ⟨s₁, h, m, h1, h2⟩
    | read n t r d =>
      simp only [List.cons_append, Env.Answers, ih]
      constructor
      · rintro ⟨s₁, h, m, h1, h2⟩; exact ⟨m, ⟨s₁, h, h1⟩, h2⟩
      · rintro ⟨m, ⟨s₁, h, h1⟩, h2⟩; exact ⟨s₁, h, m, h1, h2⟩

/-- **Running in an environment** is a run whose answers are the environment's. -/
theorem runIn_iff {env : Env D R S} {p : Proc A X D R α} {s s' : S} {a : α} :
    p.runIn env s = some (a, s') ↔ ∃ es, Runs p es a ∧ env.Answers s es s' := by
  induction p generalizing s with
  | ret b => simp [Proc.runIn, Env.Answers, and_assoc]
  | out => simp [Proc.runIn]
  | touch acc p ih => simpa [Proc.runIn] using ih
  | note x p ih =>
    simp only [Proc.runIn, ih, runs_note]
    constructor
    · rintro ⟨es, h1, h2⟩; exact ⟨_, ⟨es, rfl, h1⟩, h2⟩
    · rintro ⟨_, ⟨es, rfl, h1⟩, h2⟩; exact ⟨es, h1, h2⟩
  | write data t k ih =>
    simp only [Proc.runIn, runs_write]
    constructor
    · intro h
      split at h
      · cases h
      · rename_i r s₁ hw
        obtain ⟨es, h1, h2⟩ := (ih r).1 h
        exact ⟨_, ⟨r, es, rfl, h1⟩, s₁, hw, h2⟩
    · rintro ⟨_, ⟨r, es, rfl, h1⟩, s₁, hw, h2⟩
      rw [hw]
      exact (ih r).2 ⟨es, h1, h2⟩
  | read n t k ih =>
    simp only [Proc.runIn, runs_read]
    constructor
    · intro h
      split at h
      · cases h
      · rename_i r d s₁ hw
        obtain ⟨es, h1, h2⟩ := (ih r d).1 h
        exact ⟨_, ⟨r, d, es, rfl, h1⟩, s₁, hw, h2⟩
    · rintro ⟨_, ⟨r, d, es, rfl, h1⟩, s₁, hw, h2⟩
      rw [hw]
      exact (ih r d).2 ⟨es, h1, h2⟩

/-- **An environment determines the run.** -/
theorem Env.runs_unique {env : Env D R S} {p : Proc A X D R α} {s s₁ s₂ : S} {a b : α}
    {es fs : List (Event X D R)} (h : Runs p es a) (ha : env.Answers s es s₁) (h' : Runs p fs b)
    (hb : env.Answers s fs s₂) : es = fs ∧ a = b ∧ s₁ = s₂ := by
  induction p generalizing s es fs with
  | ret c =>
    obtain ⟨rfl, rfl⟩ := runs_ret.1 h
    obtain ⟨rfl, rfl⟩ := runs_ret.1 h'
    exact ⟨rfl, rfl, ha.symm.trans hb⟩
  | out => exact absurd h runs_out
  | touch acc p ih => exact ih (runs_touch.1 h) ha (runs_touch.1 h') hb
  | note x p ih =>
    obtain ⟨gs, rfl, hg⟩ := runs_note.1 h
    obtain ⟨gs', rfl, hg'⟩ := runs_note.1 h'
    obtain ⟨rfl, rfl, rfl⟩ := ih hg ha hg' hb
    exact ⟨rfl, rfl, rfl⟩
  | write data t k ih =>
    obtain ⟨r, gs, rfl, hg⟩ := runs_write.1 h
    obtain ⟨r', gs', rfl, hg'⟩ := runs_write.1 h'
    obtain ⟨m, hm, ha⟩ := ha
    obtain ⟨m', hm', hb⟩ := hb
    cases hm.symm.trans hm'
    obtain ⟨rfl, rfl, rfl⟩ := ih r hg ha hg' hb
    exact ⟨rfl, rfl, rfl⟩
  | read n t k ih =>
    obtain ⟨r, d, gs, rfl, hg⟩ := runs_read.1 h
    obtain ⟨r', d', gs', rfl, hg'⟩ := runs_read.1 h'
    obtain ⟨m, hm, ha⟩ := ha
    obtain ⟨m', hm', hb⟩ := hb
    cases hm.symm.trans hm'
    obtain ⟨rfl, rfl, rfl⟩ := ih r d hg ha hg' hb
    exact ⟨rfl, rfl, rfl⟩

end Process
