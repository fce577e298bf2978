import BMLite.Lib.Process

/-!
# A line to a peer with a state

The environment of a peer at the other end of a byte stream that loses nothing.  A block that is
written reaches the peer at once; what it sends in answer goes into the line.  A read takes cells
from the front of the line, and times out if there are too few.

* `answers_pipe_write`, `answers_pipe_read` — one operation at a time.
-/

set_option autoImplicit false

namespace Process

variable {X D R T : Type}

/-- The cells on their way, and the state of the peer. -/
structure Pipe (D T : Type) where
  fifo : List D
  peer : T

/-- The peer answers a block with the cells of `react`, and goes on in its new state. -/
def pipeEnv (react : T → List D → List D × T) (ok timeout : R) : Env D R (Pipe D T) where
  onWrite s d _ := some (ok, ⟨s.fifo ++ (react s.peer d).1, (react s.peer d).2⟩)
  onRead s n _ :=
    if s.fifo.length < n then some ((timeout, []), s)
    else some ((ok, s.fifo.take n), { s with fifo := s.fifo.drop n })

variable {react : T → List D → List D × T} {ok timeout : R} {s s' : Pipe D T}
  {es : List (Event X D R)}

theorem answers_pipe_write {d : List D} {t : Nat} {out : List D} {peer : T}
    (hreact : react s.peer d = (out, peer))
    (h : (pipeEnv react ok timeout).Answers ⟨s.fifo ++ out, peer⟩ es s') :
    (pipeEnv react ok timeout).Answers s (.write d t ok :: es) s' := by
  refine ⟨_, rfl, ?_⟩
  rw [hreact]
  exact h

/-- A read of the cells that come next. -/
theorem answers_pipe_read {n t : Nat} {xs ys : List D} (hfifo : s.fifo = xs ++ ys)
    (hn : xs.length = n)
    (h : (pipeEnv react ok timeout).Answers { s with fifo := ys } es s') :
    (pipeEnv react ok timeout).Answers s (.read n t ok xs :: es) s' := by
  refine ⟨_, ?_, h⟩
  unfold pipeEnv
  simp only
  rw [if_neg (by rw [hfifo, List.length_append]; omega), hfifo, List.take_left' hn,
    List.drop_left' hn]

end Process
