import Mathlib.Data.List.Induction

/-!
# Runs of a labelled step relation

* `Run step s es s'` — the steps of a run, whose labels are the trace `es`;
* `Allowed next ok m es` — a monitor, which goes from one state to the next by `next`, finds every
  label of the trace allowed when it comes;
* `Run.simulated` — **simulation by a monitor**: a relation between the monitor and the states that
  every step keeps, and that allows its label, shows that all labels of all runs are allowed;
* `Run.mono` — runs of a larger relation.
-/

set_option autoImplicit false

namespace Trace

variable {S E M : Type} {step step' : S → E → S → Prop}

inductive Run (step : S → E → S → Prop) (s : S) : List E → S → Prop
  | nil : Run step s [] s
  | snoc {es s' e s''} : Run step s es s' → step s' e s'' → Run step s (es ++ [e]) s''

theorem Run.mono {s s' : S} {es : List E} (h : Run step s es s')
    (himp : ∀ s e s', step s e s' → step' s e s') : Run step' s es s' := by
  induction h with
  | nil => exact .nil
  | snoc _ hstep ih => exact .snoc ih (himp _ _ _ hstep)

/-- Every label of the trace is allowed, in the state to which the labels before it have taken the
monitor. -/
def Allowed (next : M → E → M) (ok : M → E → Prop) (m : M) (es : List E) : Prop :=
  ∀ pre e post, es = pre ++ e :: post → ok (pre.foldl next m) e

variable {next : M → E → M} {ok : M → E → Prop} {m : M}

theorem allowed_nil : Allowed next ok m [] := by
  intro pre e post h
  cases pre <;> cases h

theorem allowed_snoc {es : List E} {e : E} :
    Allowed next ok m (es ++ [e]) ↔ Allowed next ok m es ∧ ok (es.foldl next m) e := by
  constructor
  · intro h
    refine ⟨fun pre e' post hes => ?_, h es e [] rfl⟩
    exact h pre e' (post ++ [e]) (by rw [hes]; simp)
  · rintro ⟨hes, he⟩ pre e' post hsplit
    cases post using List.reverseRecOn with
    | nil =>
      obtain ⟨rfl, hlast⟩ := List.append_inj' hsplit rfl
      cases hlast
      exact he
    | append_singleton post x =>
      rw [← List.cons_append, ← List.append_assoc] at hsplit
      obtain ⟨hinit, -⟩ := List.append_inj' hsplit rfl
      exact hes pre e' post hinit

/-- **Simulation by a monitor.** -/
theorem Run.simulated {J : M → S → Prop} {s s' : S} {es : List E} (h : Run step s es s')
    (h0 : J m s) (hstep : ∀ m s e s', J m s → step s e s' → ok m e ∧ J (next m e) s') :
    Allowed next ok m es ∧ J (es.foldl next m) s' := by
  induction h with
  | nil => exact ⟨allowed_nil, h0⟩
  | snoc _ hlast ih =>
    obtain ⟨hallowed, hJ⟩ := ih
    obtain ⟨hok, hJ'⟩ := hstep _ _ _ _ hJ hlast
    refine ⟨allowed_snoc.2 ⟨hallowed, hok⟩, ?_⟩
    rw [List.foldl_append]
    exact hJ'

end Trace
