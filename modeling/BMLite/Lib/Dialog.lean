import BMLite.Lib.Process

/-!
# Dialogs with a server

The abstract level over processes: a client that puts queries to a server and goes on with the
replies.  Bytes, buffers and frames are gone; where the client looks at something that no reply
determines, the dialog goes on with any value that is admitted.

* `Dialog`, `Dialog.Outcome` — a dialog, and what it may come to with a server;
* `Refines` — **total refinement**: from every idle state of the environment the process returns,
  leaves the environment idle, and what it returns is a possible outcome of the dialog;
* `Refines.bind` — the rule for sequences;
  `Refines.ret`, `Refines.of_returns`, `Refines.pick` — the rules for single steps.
-/

set_option autoImplicit false

namespace Process

/-- `Q` queries, `P` replies, `V` values that are not determined by the replies. -/
inductive Dialog (Q P V α : Type) where
  | ret (a : α)
  | ask (query : Q) (k : P → Dialog Q P V α)
  | pick (admits : V → Prop) (k : V → Dialog Q P V α)

variable {Q P V S α β : Type}

def Dialog.bind (d : Dialog Q P V α) (f : α → Dialog Q P V β) : Dialog Q P V β :=
  match d with
  | .ret a => f a
  | .ask q k => .ask q fun reply => (k reply).bind f
  | .pick admits k => .pick admits fun v => (k v).bind f

instance : Monad (Dialog Q P V) where
  pure := .ret
  bind := .bind

@[simp] theorem dialog_pure (a : α) : (pure a : Dialog Q P V α) = .ret a := rfl

@[simp] theorem dialog_ret_bind (a : α) (f : α → Dialog Q P V β) : (.ret a >>= f) = f a := rfl

@[simp] theorem dialog_ask_bind (q : Q) (k : P → Dialog Q P V α) (f : α → Dialog Q P V β) :
    (.ask q k >>= f) = .ask q fun reply => k reply >>= f := rfl

@[simp] theorem dialog_pick_bind (admits : V → Prop) (k : V → Dialog Q P V α)
    (f : α → Dialog Q P V β) : (.pick admits k >>= f) = .pick admits fun v => k v >>= f := rfl

/-- With the server in the state `s`, the dialog may return `b` and leave it in `s'`. -/
def Dialog.Outcome (serve : S → Q → P × S) : Dialog Q P V α → S → α → S → Prop
  | .ret a, s, b, s' => b = a ∧ s' = s
  | .ask q k, s, b, s' => (k (serve s q).1).Outcome serve (serve s q).2 b s'
  | .pick admits k, s, b, s' => ∃ v, admits v ∧ (k v).Outcome serve s b s'

theorem outcome_bind {serve : S → Q → P × S} {d : Dialog Q P V α} {f : α → Dialog Q P V β}
    {s s' : S} {b : β} :
    (d >>= f).Outcome serve s b s' ↔ ∃ a m, d.Outcome serve s a m ∧ (f a).Outcome serve m b s' := by
  induction d generalizing s with
  | ret a =>
    constructor
    · intro h
      exact ⟨a, s, ⟨rfl, rfl⟩, h⟩
    · rintro ⟨_, _, ⟨rfl, rfl⟩, h⟩
      exact h
  | ask q k ih => exact ih _
  | pick admits k ih =>
    constructor
    · rintro ⟨v, hv, h⟩
      obtain ⟨a, m, h1, h2⟩ := (ih v).1 h
      exact ⟨a, m, ⟨v, hv, h1⟩, h2⟩
    · rintro ⟨a, m, ⟨v, hv, h1⟩, h2⟩
      exact ⟨v, hv, (ih v).2 ⟨a, m, h1, h2⟩⟩

/-! ## Refinement -/

variable {A X D R E : Type}

theorem runIn_bind (env : Env D R E) (p : Proc A X D R α) (f : α → Proc A X D R β) (e : E) :
    (p >>= f).runIn env e = (p.runIn env e).bind fun x => (f x.1).runIn env x.2 := by
  induction p generalizing e with
  | ret a => rfl
  | out => rfl
  | touch acc p ih => exact ih e
  | note x p ih => exact ih e
  | write data t k ih =>
    simp only [write_bind, Proc.runIn]
    cases env.onWrite e data t with
    | none => rfl
    | some x => exact ih _ _
  | read n t k ih =>
    simp only [read_bind, Proc.runIn]
    cases env.onRead e n t with
    | none => rfl
    | some x => exact ih _ _ _

theorem proc_bind_assoc {γ : Type} (p : Proc A X D R α) (f : α → Proc A X D R β)
    (g : β → Proc A X D R γ) : p >>= f >>= g = p >>= fun a => f a >>= g := by
  induction p with
  | ret a => rfl
  | out => rfl
  | touch acc p ih => exact congrArg (Proc.touch acc) ih
  | note x p ih => exact congrArg (Proc.note x) ih
  | write data t k ih => exact congrArg (Proc.write data t) (funext ih)
  | read n t k ih => exact congrArg (Proc.read n t) (funext fun r => funext (ih r))

theorem proc_bind_ret (p : Proc A X D R α) : p >>= .ret = p := by
  induction p with
  | ret a => rfl
  | out => rfl
  | touch acc p ih => exact congrArg (Proc.touch acc) ih
  | note x p ih => exact congrArg (Proc.note x) ih
  | write data t k ih => exact congrArg (Proc.write data t) (funext ih)
  | read n t k ih => exact congrArg (Proc.read n t) (funext fun r => funext (ih r))

/-- `Idle e s`: nothing is on its way in `e`, and the server is in the state `s`.  From there the
process returns, and its result is related by `rel` to an outcome of the dialog. -/
def Refines (env : Env D R E) (Idle : E → S → Prop) (serve : S → Q → P × S)
    (p : Proc A X D R β) (d : Dialog Q P V α) (rel : β → α → Prop) : Prop :=
  ∀ e s, Idle e s → ∃ b e' a s', p.runIn env e = some (b, e') ∧ Idle e' s' ∧
    d.Outcome serve s a s' ∧ rel b a

variable {env : Env D R E} {Idle : E → S → Prop} {serve : S → Q → P × S}
  {p : Proc A X D R β} {d : Dialog Q P V α} {rel : β → α → Prop}

/-- **A sequence.** -/
theorem Refines.bind {β' α' : Type} {f : β → Proc A X D R β'} {g : α → Dialog Q P V α'}
    {rel' : β' → α' → Prop} (h : Refines env Idle serve p d rel)
    (hnext : ∀ b a, rel b a → Refines env Idle serve (f b) (g a) rel') :
    Refines env Idle serve (p >>= f) (d >>= g) rel' := by
  intro e s hidle
  obtain ⟨b, e₁, a, s₁, hrun, hidle₁, hout, hrel⟩ := h e s hidle
  obtain ⟨b', e', a', s', hrun', hidle', hout', hrel'⟩ := hnext b a hrel e₁ s₁ hidle₁
  refine ⟨b', e', a', s', ?_, hidle', outcome_bind.2 ⟨a, s₁, hout, hout'⟩, hrel'⟩
  rw [runIn_bind, hrun]
  exact hrun'

/-- What the dialog does after the process has returned. -/
theorem Refines.andThen {α' : Type} {g : α → Dialog Q P V α'} {rel' : β → α' → Prop}
    (h : Refines env Idle serve p d rel)
    (hnext : ∀ b a, rel b a →
      Refines env Idle serve (.ret b : Proc A X D R β) (g a) rel') :
    Refines env Idle serve p (d >>= g) rel' := by
  intro e s hidle
  obtain ⟨b, e₁, a, s₁, hrun, hidle₁, hout, hrel⟩ := h e s hidle
  obtain ⟨b', e', a', s', hret, hidle', hout', hrel'⟩ := hnext b a hrel e₁ s₁ hidle₁
  cases hret
  exact ⟨b, e₁, a', s', hrun, hidle', outcome_bind.2 ⟨a, s₁, hout, hout'⟩, hrel'⟩

/-- What the process does, without the channel, when the dialog is over. -/
theorem Refines.thenReturns {β' : Type} {f : β → Proc A X D R β'} {rel' : β' → α → Prop}
    (h : Refines env Idle serve p d rel)
    (hnext : ∀ b a, rel b a → ∃ b', Returns (f b) b' ∧ rel' b' a) :
    Refines env Idle serve (p >>= f) d rel' := by
  intro e s hidle
  obtain ⟨b, e', a, s', hrun, hidle', hout, hrel⟩ := h e s hidle
  obtain ⟨b', hret, hrel'⟩ := hnext b a hrel
  have hlast : (f b).runIn env e' = some (b', e') :=
    runIn_iff.2 ⟨[], (hret _ _).2 ⟨rfl, rfl⟩, rfl⟩
  refine ⟨b', e', a, s', ?_, hidle', hout, hrel'⟩
  rw [runIn_bind, hrun]
  exact hlast

theorem Refines.ret {b : β} {a : α} (h : rel b a) :
    Refines env Idle serve (.ret b : Proc A X D R β) (.ret a : Dialog Q P V α) rel := by
  intro e s hidle
  exact ⟨b, e, a, s, rfl, hidle, ⟨rfl, rfl⟩, h⟩

/-- A process that does not use the channel, and what comes after it. -/
theorem Refines.of_returns {β' : Type} {q : Proc A X D R β'} {b : β'}
    {f : β' → Proc A X D R β} (hq : Returns q b) (h : Refines env Idle serve (f b) d rel) :
    Refines env Idle serve (q >>= f) d rel := by
  intro e s hidle
  obtain ⟨b', e', a, s', hrun, hidle', hout, hrel⟩ := h e s hidle
  have hret : q.runIn env e = some (b, e) := runIn_iff.2 ⟨[], (hq _ _).2 ⟨rfl, rfl⟩, rfl⟩
  refine ⟨b', e', a, s', ?_, hidle', hout, hrel⟩
  rw [runIn_bind, hret]
  exact hrun

/-- Neither the process uses the channel, nor does the dialog ask anything. -/
theorem Refines.silent {b : β} {a : α} (hp : Returns p b) (hout : ∀ s, d.Outcome serve s a s)
    (hrel : rel b a) : Refines env Idle serve p d rel := by
  intro e s hidle
  exact ⟨b, e, a, s, runIn_iff.2 ⟨[], (hp _ _).2 ⟨rfl, rfl⟩, rfl⟩, hidle, hout s, hrel⟩

/-- The dialog goes on with a value that is admitted. -/
theorem Refines.pick {admits : V → Prop} {k : V → Dialog Q P V α} {v : V} (hv : admits v)
    (h : Refines env Idle serve p (k v) rel) :
    Refines env Idle serve p (.pick admits k) rel := by
  intro e s hidle
  obtain ⟨b, e', a, s', hrun, hidle', hout, hrel⟩ := h e s hidle
  exact ⟨b, e', a, s', hrun, hidle', ⟨v, hv, hout⟩, hrel⟩

end Process
