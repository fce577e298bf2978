import BMLite.Lib.Oracle
import BMLite.Lib.Process

/-!
# Implementations are oracles

The queries of a program may be answered by an implementation that works on a state of its own
(`Handler`).  What the program then does, it also does against some oracle: what holds for every
oracle holds for every implementation.

* `Prog.handle` — run a program on an implementation; `handle_oracle` — an oracle that gives the
  same answers;
* `oracleEnv`, `handlerEnv` — a channel whose operations are such programs;
* `handled_by_oracle` — **a process on the implementation is a process on some oracle**, and hangs
  only where that does.
-/

set_option autoImplicit false

namespace Oracle

open Process

variable {Q : Type} {Ans : Q → Type} {S A X D R α : Type}

/-- The answer to the query with the number `n`; none if the implementation hangs. -/
abbrev Handler (Q : Type) (Ans : Q → Type) (S : Type) :=
  (n : Nat) → (q : Q) → S → Option (Ans q × S)

/-- Run on an implementation, from the query with the number `n` on. -/
def Prog.handle (h : Handler Q Ans S) : Prog Q Ans α → Nat → S → Option (α × Nat × S)
  | .ret a, n, s => some (a, n, s)
  | .out, _, _ => none
  | .ask q k, n, s => (h n q s).bind fun x => (k x.1).handle h (n + 1) x.2

/-- From a state that satisfies `I` the implementation answers as `P` allows, and keeps `I`. -/
def Handler.Meets (h : Handler Q Ans S) (I : S → Prop) (P : (n : Nat) → (q : Q) → Ans q → Prop) :
    Prop := ∀ n q s, I s → ∃ x s', h n q s = some (x, s') ∧ P n q x ∧ I s'

section

variable {o o' : (n : Nat) → (q : Q) → Ans q} {n : Nat}

/-- Only the answers from now on matter. -/
theorem run_congr {p : Prog Q Ans α} (h : ∀ m, n ≤ m → o m = o' m) : p.run o n = p.run o' n := by
  induction p generalizing n with
  | ret a => rfl
  | out => rfl
  | ask q k ih =>
    have hq : o n q = o' n q := congrFun (h n (Nat.le_refl n)) q
    have hrest := ih (o n q) fun m hm => h m (Nat.le_of_succ_le hm)
    rw [Prog.run, Prog.run, hrest, hq]

/-- **A sequence.** -/
theorem handle_bind {β : Type} (h : Handler Q Ans S) (p : Prog Q Ans α) (f : α → Prog Q Ans β)
    (s : S) : (p >>= f).handle h n s =
      (p.handle h n s).bind fun x => (f x.1).handle h x.2.1 x.2.2 := by
  induction p generalizing n s with
  | ret a => rfl
  | out => rfl
  | ask q k ih =>
    show (h n q s).bind (fun x => (k x.1 >>= f).handle h (n + 1) x.2) = _
    simp only [ih, Prog.handle, Option.bind_assoc]

theorem handle_le {h : Handler Q Ans S} {p : Prog Q Ans α} {n' : Nat} {s s' : S} {a : α}
    (hrun : p.handle h n s = some (a, n', s')) : n ≤ n' := by
  induction p generalizing n s with
  | ret b => cases hrun; exact Nat.le_refl _
  | out => cases hrun
  | ask q k ih =>
    obtain ⟨x, -, hnext⟩ := Option.bind_eq_some_iff.1 hrun
    exact Nat.le_of_succ_le (ih x.1 hnext)

theorem handle_inv {h : Handler Q Ans S} {I : S → Prop} {P : (n : Nat) → (q : Q) → Ans q → Prop}
    (hmeets : h.Meets I P) {p : Prog Q Ans α} {n' : Nat} {s s' : S} {a : α} (hs : I s)
    (hrun : p.handle h n s = some (a, n', s')) : I s' := by
  induction p generalizing n s with
  | ret b => cases hrun; exact hs
  | out => cases hrun
  | ask q k ih =>
    obtain ⟨x, hx, hnext⟩ := Option.bind_eq_some_iff.1 hrun
    obtain ⟨y, s₁, hy, -, hs₁⟩ := hmeets n q s hs
    cases hx.symm.trans hy
    exact ih _ hs₁ hnext

variable [DecidableEq Q]

/-- The oracle with one answer changed. -/
def answering (o : (n : Nat) → (q : Q) → Ans q) (n : Nat) (q : Q) (x : Ans q) :
    (n : Nat) → (q : Q) → Ans q := Function.update o n (Function.update (o n) q x)

theorem answering_self (q : Q) (x : Ans q) : answering o n q x n q = x := by
  simp [answering]

theorem answering_of_ne {m : Nat} (q : Q) (x : Ans q) (h : m ≠ n) :
    answering o n q x m = o m := Function.update_of_ne h _ _

theorem answering_allowed {P : (n : Nat) → (q : Q) → Ans q → Prop} (ho : ∀ m q, P m q (o m q))
    {q : Q} {x : Ans q} (hx : P n q x) (m : Nat) (q' : Q) : P m q' (answering o n q x m q') := by
  by_cases hm : m = n
  · subst hm
    by_cases hq : q' = q
    · subst hq
      rwa [answering_self]
    · have hother : answering o m q x m q' = o m q' := by
        simp [answering, Function.update_of_ne hq]
      rw [hother]
      exact ho m q'
  · rw [answering_of_ne q x hm]
    exact ho m q'

/-- **An implementation is an oracle.**  After the program the oracle goes on as `o` does. -/
theorem handle_oracle {h : Handler Q Ans S} {I : S → Prop}
    {P : (n : Nat) → (q : Q) → Ans q → Prop} (hmeets : h.Meets I P) (p : Prog Q Ans α) {s : S}
    (hs : I s) (ho : ∀ m q, P m q (o m q)) :
    ∃ o', (∀ m q, P m q (o' m q)) ∧
      (∀ a n' s', p.handle h n s = some (a, n', s') → ∀ m, n' ≤ m → o' m = o m) ∧
      (p.run o' n).map (fun x => (x.1, n + x.2.length)) =
        (p.handle h n s).map fun x => (x.1, x.2.1) := by
  induction p generalizing n s with
  | ret b => exact ⟨o, ho, fun _ _ _ _ _ _ => rfl, rfl⟩
  | out => exact ⟨o, ho, fun _ _ _ _ _ _ => rfl, rfl⟩
  | ask q k ih =>
    obtain ⟨x, s₁, hx, hallowed, hs₁⟩ := hmeets n q s hs
    obtain ⟨o₁, ho₁, hafter, hrun⟩ := @ih x (n + 1) s₁ hs₁
    have hhandle : (Prog.ask q k).handle h n s = (k x).handle h (n + 1) s₁ := by
      rw [Prog.handle, hx, Option.bind_some]
    refine ⟨answering o₁ n q x, answering_allowed ho₁ hallowed, ?_, ?_⟩
    · intro a n' s' hend m hm
      rw [hhandle] at hend
      have hle := handle_le hend
      rw [answering_of_ne q x (by omega), hafter a n' s' hend m hm]
    · have hrest : (k x).run (answering o₁ n q x) (n + 1) = (k x).run o₁ (n + 1) :=
        run_congr fun m hm => answering_of_ne q x (by omega)
      rw [hhandle, ← hrun, Prog.run, answering_self, hrest, Option.map_map]
      congr 1
      funext y
      simp [Nat.add_assoc, Nat.add_comm 1]

end

/-! ## Channels -/

/-- The two operations of a channel. -/
structure Ops (Q : Type) (Ans : Q → Type) (D R : Type) where
  write : (data : List D) → (timeout : Nat) → Prog Q Ans R
  read : (size timeout : Nat) → Prog Q Ans (R × List D)

/-- Against an oracle; the state is the number of the next query. -/
def oracleEnv (ops : Ops Q Ans D R) (o : (n : Nat) → (q : Q) → Ans q) : Env D R Nat where
  onWrite n data t := ((ops.write data t).run o n).map fun x => (x.1, n + x.2.length)
  onRead n size t := ((ops.read size t).run o n).map fun x => (x.1, n + x.2.length)

/-- On an implementation, which in a write may depend on the block. -/
def handlerEnv (ops : Ops Q Ans D R) (onWrite : List D → Handler Q Ans S)
    (onRead : Handler Q Ans S) : Env D R (Nat × S) where
  onWrite s data t := (ops.write data t).handle (onWrite data) s.1 s.2
  onRead s size t := (ops.read size t).handle onRead s.1 s.2

variable {ops : Ops Q Ans D R} {o o' : (n : Nat) → (q : Q) → Ans q} {n : Nat}

theorem runIn_write {T : Type} (env : Env D R T) (data : List D) (t : Nat)
    (k : R → Proc A X D R α) (s : T) : (Proc.write data t k).runIn env s =
      (env.onWrite s data t).bind fun x => (k x.1).runIn env x.2 := by
  rw [Proc.runIn]
  cases env.onWrite s data t <;> rfl

theorem runIn_read {T : Type} (env : Env D R T) (size t : Nat) (k : R → List D → Proc A X D R α)
    (s : T) : (Proc.read size t k).runIn env s =
      (env.onRead s size t).bind fun x => (k x.1.1 x.1.2).runIn env x.2 := by
  rw [Proc.runIn]
  cases env.onRead s size t <;> rfl

theorem runIn_congr {p : Proc A X D R α} (h : ∀ m, n ≤ m → o m = o' m) :
    p.runIn (oracleEnv ops o) n = p.runIn (oracleEnv ops o') n := by
  induction p generalizing n with
  | ret a => rfl
  | out => rfl
  | touch acc p ih => exact ih h
  | note x p ih => exact ih h
  | write data t k ih =>
    have hop : (ops.write data t).run o n = (ops.write data t).run o' n := run_congr h
    simp only [Proc.runIn, oracleEnv, hop]
    cases (ops.write data t).run o' n with
    | none => rfl
    | some x => exact ih x.1 fun m hm => h m (Nat.le_of_add_right_le hm)
  | read size t k ih =>
    have hop : (ops.read size t).run o n = (ops.read size t).run o' n := run_congr h
    simp only [Proc.runIn, oracleEnv, hop]
    cases (ops.read size t).run o' n with
    | none => rfl
    | some x => exact ih x.1.1 x.1.2 fun m hm => h m (Nat.le_of_add_right_le hm)

variable [DecidableEq Q]

/-- An operation, and the process after it. -/
theorem operation_oracle {β : Type} {h : Handler Q Ans S} {onWrite : List D → Handler Q Ans S}
    {onRead : Handler Q Ans S} {I : S → Prop} {P : (n : Nat) → (q : Q) → Ans q → Prop}
    (hmeets : h.Meets I P) (ho : ∀ m q, P m q (o m q)) (op : Prog Q Ans β) {s : S} (hs : I s)
    (rest : β → Proc A X D R α)
    (ih : ∀ b {n : Nat} {s : S}, I s → ∃ o', (∀ m q, P m q (o' m q)) ∧
      (rest b).runIn (oracleEnv ops o') n =
        ((rest b).runIn (handlerEnv ops onWrite onRead) (n, s)).map fun x => (x.1, x.2.1)) :
    ∃ o', (∀ m q, P m q (o' m q)) ∧
      (((op.run o' n).map fun x => (x.1, n + x.2.length)).bind fun x =>
        (rest x.1).runIn (oracleEnv ops o') x.2) =
      ((op.handle h n s).bind fun x =>
        (rest x.1).runIn (handlerEnv ops onWrite onRead) x.2).map fun x => (x.1, x.2.1) := by
  cases hend : op.handle h n s with
  | none =>
    obtain ⟨o', ho', -, hrun⟩ := handle_oracle (n := n) hmeets op hs ho
    rw [hend] at hrun
    exact ⟨o', ho', by rw [hrun]; rfl⟩
  | some x =>
    obtain ⟨b, n', s'⟩ := x
    obtain ⟨o₁, ho₁, hrest⟩ := ih b (handle_inv hmeets hs hend) (n := n')
    obtain ⟨o', ho', hafter, hrun⟩ := handle_oracle (n := n) hmeets op hs ho₁
    rw [hend] at hrun
    refine ⟨o', ho', ?_⟩
    rw [hrun]
    exact (runIn_congr fun m hm => hafter b n' s' hend m hm).trans hrest

/-- **A process on an implementation is a process on an oracle**: it comes to the same result after
the same number of queries, or to none. -/
theorem handled_by_oracle {onWrite : List D → Handler Q Ans S} {onRead : Handler Q Ans S}
    {I : S → Prop} {P : (n : Nat) → (q : Q) → Ans q → Prop}
    (hwrite : ∀ data, (onWrite data).Meets I P) (hread : onRead.Meets I P)
    (ho : ∀ m q, P m q (o m q)) (p : Proc A X D R α) {s : S} (hs : I s) :
    ∃ o', (∀ m q, P m q (o' m q)) ∧
      p.runIn (oracleEnv ops o') n =
        (p.runIn (handlerEnv ops onWrite onRead) (n, s)).map fun x => (x.1, x.2.1) := by
  induction p generalizing n s with
  | ret a => exact ⟨o, ho, rfl⟩
  | out => exact ⟨o, ho, rfl⟩
  | touch acc p ih => exact ih hs
  | note x p ih => exact ih hs
  | write data t k ih =>
    obtain ⟨o', ho', hrun⟩ := operation_oracle (n := n) (hwrite data) ho (ops.write data t) hs k
      fun r _ _ hs => ih r hs
    exact ⟨o', ho', by rw [runIn_write, runIn_write]; exact hrun⟩
  | read size t k ih =>
    obtain ⟨o', ho', hrun⟩ := operation_oracle (n := n) hread ho (ops.read size t) hs
      (fun x => k x.1 x.2) fun x _ _ hs => ih x.1 x.2 hs
    exact ⟨o', ho', by rw [runIn_read, runIn_read]; exact hrun⟩

end Oracle
