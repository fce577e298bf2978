import BMLite.Lib.FlatMemory
import BMLite.Lib.Process

/-!
# A channel that delivers a byte stream

The environment in which every read succeeds and takes its cells from a fixed stream, and every
write is logged; the result of the `k`-th write is arbitrary.

* `answers_read`, `answers_write` — one operation at a time;
* `repeated` — the stream that repeats some cells for ever.
-/

set_option autoImplicit false

namespace Process

open FlatMemory

variable {A X D R α : Type}

/-- The position in the stream, and the blocks written so far. -/
structure Stream (D : Type) where
  pos : Nat
  sent : List (List D)

/-- Reads take from `src` with result `ok`; the `k`-th write returns `res k`. -/
def streamEnv (src : Mem D) (ok : R) (res : Nat → R) : Env D R (Stream D) where
  onWrite s d _ := some (res s.sent.length, { s with sent := s.sent ++ [d] })
  onRead s n _ := some ((ok, slice src s.pos n), { s with pos := s.pos + n })

variable {src : Mem D} {ok : R} {res : Nat → R} {s s' : Stream D} {es : List (Event X D R)}

theorem answers_read {n t : Nat} {r : R} {d : List D} :
    (streamEnv src ok res).Answers s (.read n t r d :: es) s' ↔
      r = ok ∧ d = slice src s.pos n ∧
        (streamEnv src ok res).Answers { s with pos := s.pos + n } es s' := by
  simp only [Env.Answers, streamEnv, Option.some.injEq, Prod.mk.injEq]
  constructor
  · rintro ⟨s₁, ⟨⟨rfl, rfl⟩, rfl⟩, h⟩; exact ⟨rfl, rfl, h⟩
  · rintro ⟨rfl, rfl, h⟩; exact ⟨_, ⟨⟨rfl, rfl⟩, rfl⟩, h⟩

theorem answers_write {d : List D} {t : Nat} {r : R} :
    (streamEnv src ok res).Answers s (.write d t r :: es) s' ↔
      r = res s.sent.length ∧
        (streamEnv src ok res).Answers { s with sent := s.sent ++ [d] } es s' := by
  simp only [Env.Answers, streamEnv, Option.some.injEq, Prod.mk.injEq]
  constructor
  · rintro ⟨s₁, ⟨rfl, rfl⟩, h⟩; exact ⟨rfl, h⟩
  · rintro ⟨rfl, h⟩; exact ⟨_, ⟨rfl, rfl⟩, h⟩

/-- A read of cells that are known to come next. -/
theorem answers_read_of_holds {n t : Nat} {d : List D} (h : Holds src s.pos d) (hn : d.length = n)
    (hrest : (streamEnv src ok res).Answers { s with pos := s.pos + n } es s') :
    (streamEnv src ok res).Answers s (.read n t ok d :: es) s' :=
  answers_read.2 ⟨rfl, (h.eq hn.symm).symm, hrest⟩

/-- The cells `xs` over and over again; an empty `xs` repeats `d`. -/
def repeated (xs : List D) (d : D) : Mem D := fun i => xs.getD (i % xs.length) d

theorem holds_repeated (xs : List D) (d : D) (k : Nat) :
    Holds (repeated xs d) (k * xs.length) xs := by
  apply List.ext_getElem? fun i => ?_
  rw [slice_getElem?]
  split <;> rename_i h
  · have hmod : (k * xs.length + i) % xs.length = i := by
      rw [Nat.mul_comm, Nat.mul_add_mod, Nat.mod_eq_of_lt h]
    rw [repeated, hmod, List.getD_eq_getElem xs d h, List.getElem?_eq_getElem h]
  · rw [List.getElem?_eq_none (Nat.not_lt.1 h)]

end Process
