import BMLite.Lib.Process

/-!
# A line to a device that replies

The environment of a device at the other end of a byte stream.  A block that is written reaches
the device at once, and its reply, which may depend on all that it has received before, goes into
the line.  A read takes cells from the front of the line, in the order in which they were sent.  It
may time out instead, and does so if there are too few; then it takes nothing.

* `answers_line_write`, `answers_line_read`, `answers_line_read_of` — one operation at a time.
-/

set_option autoImplicit false

namespace Process

variable {X D R : Type}

/-- The cells on their way, the blocks that the device has received, and the number of reads. -/
structure Line (D : Type) where
  fifo : List D
  received : List (List D)
  reads : Nat

/-- The device answers a block with `reply`; the `k`-th read times out if `timedOut k`. -/
def lineEnv (reply : List (List D) → List D → List D) (timedOut : Nat → Bool) (ok timeout : R) :
    Env D R (Line D) where
  onWrite s d _ := some (ok,
    { s with fifo := s.fifo ++ reply s.received d, received := s.received ++ [d] })
  onRead s n _ :=
    if timedOut s.reads = true ∨ s.fifo.length < n then
      some ((timeout, []), { s with reads := s.reads + 1 })
    else some ((ok, s.fifo.take n), { s with fifo := s.fifo.drop n, reads := s.reads + 1 })

variable {reply : List (List D) → List D → List D} {timedOut : Nat → Bool} {ok timeout : R}
  {s s' : Line D} {es : List (Event X D R)}

theorem answers_line_write {d : List D} {t : Nat} {r : R} :
    (lineEnv reply timedOut ok timeout).Answers s (.write d t r :: es) s' ↔
      r = ok ∧ (lineEnv reply timedOut ok timeout).Answers
        { s with fifo := s.fifo ++ reply s.received d, received := s.received ++ [d] } es s' := by
  simp only [Env.Answers, lineEnv, Option.some.injEq, Prod.mk.injEq]
  constructor
  · rintro ⟨s₁, ⟨rfl, rfl⟩, h⟩; exact ⟨rfl, h⟩
  · rintro ⟨rfl, h⟩; exact ⟨_, ⟨rfl, rfl⟩, h⟩

/-- A read that does not time out takes what comes next. -/
theorem answers_line_read {n t : Nat} {r : R} {d : List D}
    (h : (lineEnv reply timedOut ok timeout).Answers s (.read n t r d :: es) s')
    (hr : r ≠ timeout) {xs ys : List D} (hfifo : s.fifo = xs ++ ys) (hn : xs.length = n) :
    r = ok ∧ d = xs ∧ (lineEnv reply timedOut ok timeout).Answers
      { s with fifo := ys, reads := s.reads + 1 } es s' := by
  obtain ⟨s₁, hread, hrest⟩ := h
  unfold lineEnv at hread
  simp only at hread
  split at hread
  · cases hread
    exact absurd rfl hr
  · cases hread
    rw [hfifo, List.drop_left' hn] at hrest
    exact ⟨rfl, by rw [hfifo, List.take_left' hn], hrest⟩

/-- A read of cells that come next, when reads do not time out. -/
theorem answers_line_read_of {n t : Nat} {xs ys : List D} (hno : timedOut s.reads = false)
    (hfifo : s.fifo = xs ++ ys) (hn : xs.length = n)
    (h : (lineEnv reply timedOut ok timeout).Answers
      { s with fifo := ys, reads := s.reads + 1 } es s') :
    (lineEnv reply timedOut ok timeout).Answers s (.read n t ok xs :: es) s' := by
  refine ⟨_, ?_, h⟩
  unfold lineEnv
  simp only
  rw [if_neg (by rw [hno, hfifo, List.length_append]; simp; omega), hfifo, List.take_left' hn,
    List.drop_left' hn]

end Process
