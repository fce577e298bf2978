import Mathlib.Logic.Function.Basic

/-!
# Programs that ask an oracle

A program asks queries and goes on with the answers, one after the other (`Prog`).  It is run
against an oracle whose answers may depend on the number of queries asked before, and leaves the
list of its queries.

* `Prog.run` — the result and the queries, or none if a loop was cut off;
* `run_bind` — a sequence; `run_query_bind` — a query and what follows;
* `Prog.count` — the result and the number of the queries; `count_bind`, `count_query_bind` — the
  same for it.
-/

set_option autoImplicit false

namespace Oracle

/-- `Ans q` is the type of the answers to the query `q`. -/
inductive Prog (Q : Type) (Ans : Q → Type) (α : Type) where
  | ret (a : α)
  | out
  | ask (q : Q) (k : Ans q → Prog Q Ans α)

variable {Q : Type} {Ans : Q → Type} {α β : Type}

def Prog.bind (p : Prog Q Ans α) (f : α → Prog Q Ans β) : Prog Q Ans β :=
  match p with
  | .ret a => f a
  | .out => .out
  | .ask q k => .ask q fun x => (k x).bind f

instance : Monad (Prog Q Ans) where
  pure := .ret
  bind := .bind

/-- Ask one query. -/
def query (q : Q) : Prog Q Ans (Ans q) := .ask q .ret

/-- Run against an oracle, from the query with the number `n` on. -/
def Prog.run (o : (n : Nat) → (q : Q) → Ans q) : Prog Q Ans α → Nat → Option (α × List Q)
  | .ret a, _ => some (a, [])
  | .out, _ => none
  | .ask q k, n => ((k (o n q)).run o (n + 1)).map fun x => (x.1, q :: x.2)

variable {o : (n : Nat) → (q : Q) → Ans q} {n : Nat}

@[simp] theorem run_pure (a : α) : (pure a : Prog Q Ans α).run o n = some (a, []) := rfl

/-- **A sequence**: the queries of the second part are numbered on. -/
theorem run_bind (p : Prog Q Ans α) (f : α → Prog Q Ans β) :
    (p >>= f).run o n = (p.run o n).bind fun x =>
      ((f x.1).run o (n + x.2.length)).map fun y => (y.1, x.2 ++ y.2) := by
  induction p generalizing n with
  | ret a =>
    show (f a).run o n = ((f a).run o n).map fun y => (y.1, y.2)
    exact Option.map_id'.symm
  | out => rfl
  | ask q k ih =>
    show (((k (o n q)) >>= f).run o (n + 1)).map _ = _
    rw [ih]
    cases hk : (k (o n q)).run o (n + 1) with
    | none => simp [Prog.run, hk]
    | some x => simp [Prog.run, hk, Nat.add_assoc, Nat.add_comm 1, Function.comp_def]

/-- **A query**, and what follows. -/
@[simp] theorem run_query_bind (q : Q) (f : Ans q → Prog Q Ans β) :
    (query q >>= f).run o n = ((f (o n q)).run o (n + 1)).map fun x => (x.1, q :: x.2) := rfl

/-- Run, and only count the queries; the state is the number of the next one. -/
def Prog.count (o : (n : Nat) → (q : Q) → Ans q) (p : Prog Q Ans α) : StateT Nat Option α :=
  fun n => (p.run o n).map fun x => (x.1, n + x.2.length)

@[simp] theorem count_pure (a : α) :
    ((pure a : Prog Q Ans α).count o).run n = some (a, n) := rfl

/-- **A sequence.** -/
theorem count_bind (p : Prog Q Ans α) (f : α → Prog Q Ans β) :
    ((p >>= f).count o).run n = ((p.count o).run n).bind fun x => ((f x.1).count o).run x.2 := by
  show ((p >>= f).run o n).map _ = ((p.run o n).map _).bind _
  rw [run_bind]
  cases p.run o n with
  | none => rfl
  | some x =>
    show ((((f x.1).run o (n + x.2.length)).map _).map _) = ((f x.1).run o (n + x.2.length)).map _
    rw [Option.map_map]
    congr 1
    funext y
    simp [Nat.add_assoc]

/-- **A query**, and what follows. -/
@[simp] theorem count_query_bind (q : Q) (f : Ans q → Prog Q Ans β) :
    ((query q >>= f).count o).run n = ((f (o n q)).count o).run (n + 1) := by
  rw [count_bind]
  rfl

end Oracle
