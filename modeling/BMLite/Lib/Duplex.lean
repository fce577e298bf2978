import BMLite.Lib.Process

/-!
# Two processes on two queues

Two processes, each reading what the other writes, through two queues that lose nothing and give
every operation the result `ok`.  A read waits until the queue holds all that it asks for.

* `Step.diamond` — moves of the two sides commute;
* `converges_of_path` — **hence one run to the end decides all of them**: no run is longer, and
  every run can be continued to the same end;
* `Steps.left`, `Steps.right` — a side goes through the events that its queue allows;
* `reaches_of_rounds` — two sides that take turns, round after round, get through together.
-/

set_option autoImplicit false

namespace Process

/-! ## Runs of a given length -/

/-- `t` is reached from `s` in `n` steps of `r`. -/
inductive Path {S : Type} (r : S → S → Prop) : Nat → S → S → Prop
  | nil (s) : Path r 0 s s
  | cons {n s t u} : r s t → Path r n t u → Path r (n + 1) s u

/-- `t` is reached from `s` in some number of steps. -/
def Reaches {S : Type} (r : S → S → Prop) (s t : S) : Prop := ∃ n, Path r n s t

/-- No run from `s` is longer than some bound, and each can be continued to `f`, which is final. -/
def Converges {S : Type} (r : S → S → Prop) (s f : S) : Prop :=
  (∀ t, ¬ r f t) ∧ ∃ n, ∀ m t, Path r m s t → m ≤ n ∧ Path r (n - m) t f

section Path

variable {S : Type} {r : S → S → Prop}

theorem Path.trans {n m : Nat} {s t u : S} (h : Path r n s t) (h' : Path r m t u) :
    Path r (n + m) s u := by
  induction h with
  | nil => rwa [Nat.zero_add]
  | cons hst _ ih => rw [Nat.succ_add_eq_add_succ]; exact .cons hst (ih h')

theorem Reaches.refl (s : S) : Reaches r s s := ⟨0, .nil s⟩

theorem Reaches.step {s t : S} (h : r s t) : Reaches r s t := ⟨1, .cons h (.nil t)⟩

theorem Reaches.trans {s t u : S} : Reaches r s t → Reaches r t u → Reaches r s u := by
  rintro ⟨n, h⟩ ⟨m, h'⟩; exact ⟨n + m, h.trans h'⟩

/-- One step never leads away from the end, and brings it one step nearer. -/
theorem path_of_step (hd : ∀ a b c, r a b → r a c → b = c ∨ ∃ d, r b d ∧ r c d) {n : Nat}
    {s t f : S} (h : Path r n s f) (hf : ∀ t, ¬ r f t) (hst : r s t) :
    ∃ k, n = k + 1 ∧ Path r k t f := by
  induction h generalizing t with
  | nil => exact absurd hst (hf t)
  | @cons n s u f hsu hu ih =>
    refine ⟨n, rfl, ?_⟩
    rcases hd s u t hsu hst with rfl | ⟨d, hud, htd⟩
    · exact hu
    · obtain ⟨k, rfl, hk⟩ := ih hf hud
      exact .cons htd hk

/-- **Where steps commute, one run to a final state decides all runs.** -/
theorem converges_of_path (hd : ∀ a b c, r a b → r a c → b = c ∨ ∃ d, r b d ∧ r c d)
    {s f : S} (h : Reaches r s f) (hf : ∀ t, ¬ r f t) : Converges r s f := by
  obtain ⟨n, h⟩ := h
  refine ⟨hf, n, fun m t ht => ?_⟩
  induction ht generalizing n with
  | nil => exact ⟨Nat.zero_le n, h⟩
  | cons hst _ ih =>
    obtain ⟨k, rfl, hk⟩ := path_of_step hd h hf hst
    obtain ⟨h1, h2⟩ := ih k hk
    exact ⟨Nat.succ_le_succ h1, by rwa [Nat.add_sub_add_right]⟩

end Path

/-! ## The network -/

variable {A X D R α β : Type} (ok : R)

/-- A move of one process on its input queue; what it writes, as a list of blocks. -/
inductive Move : Proc A X D R α → List D → Proc A X D R α → List D → List (List D) → Prop
  | touch {acc p inp} : Move (.touch acc p) inp p inp []
  | note {x p inp} : Move (.note x p) inp p inp []
  | write {data t k inp} : Move (.write data t k) inp (k ok) inp [data]
  | read {n t k inp} : n ≤ inp.length →
      Move (.read n t k) inp (k ok (inp.take n)) (inp.drop n) []

/-- Both processes, the bytes on their way to each of them, and the blocks each has written. -/
structure Duplex (A X D R α β : Type) where
  left : Proc A X D R α
  right : Proc A X D R β
  toLeft : List D
  toRight : List D
  leftSent : List (List D)
  rightSent : List (List D)

inductive Duplex.Step : Duplex A X D R α β → Duplex A X D R α β → Prop
  | left {p p' q inp inp' out log} (sent sent') : Move ok p inp p' inp' log →
      Step ⟨p, q, inp, out, sent, sent'⟩ ⟨p', q, inp', out ++ log.flatten, sent ++ log, sent'⟩
  | right {p q q' inp inp' out log} (sent sent') : Move ok q inp q' inp' log →
      Step ⟨p, q, out, inp, sent, sent'⟩ ⟨p, q', out ++ log.flatten, inp', sent, sent' ++ log⟩

variable {ok}

theorem Move.unique {p q q' : Proc A X D R α} {inp i i' : List D} {l l' : List (List D)}
    (h : Move ok p inp q i l) (h' : Move ok p inp q' i' l') : q = q' ∧ i = i' ∧ l = l' := by
  cases h <;> cases h' <;> exact ⟨rfl, rfl, rfl⟩

/-- Input that arrives later does not disturb a move. -/
theorem Move.more {p q : Proc A X D R α} {inp i : List D} {l : List (List D)}
    (h : Move ok p inp q i l) (xs : List D) : Move ok p (inp ++ xs) q (i ++ xs) l := by
  cases h with
  | touch => exact .touch
  | note => exact .note
  | write => exact .write
  | @read n t k _ hn =>
    have h : Move ok (Proc.read n t k : Proc A X D R α) (inp ++ xs)
        (k ok ((inp ++ xs).take n)) ((inp ++ xs).drop n) [] := .read (by simp; omega)
    rwa [List.take_append_of_le_length hn, List.drop_append_of_le_length hn] at h

/-- **Moves of the two sides commute.** -/
theorem Duplex.Step.diamond {s a b : Duplex A X D R α β} (ha : Step ok s a) (hb : Step ok s b) :
    a = b ∨ ∃ d, Step ok a d ∧ Step ok b d := by
  cases ha with
  | left sent sent' hp =>
    cases hb with
    | left _ _ hp' =>
      obtain ⟨rfl, rfl, rfl⟩ := hp.unique hp'
      exact .inl rfl
    | right _ _ hq =>
      exact .inr ⟨_, .right _ _ (hq.more _), .left _ _ (hp.more _)⟩
  | right sent sent' hq =>
    cases hb with
    | right _ _ hq' =>
      obtain ⟨rfl, rfl, rfl⟩ := hq.unique hq'
      exact .inl rfl
    | left _ _ hp =>
      exact .inr ⟨_, .left _ _ (hp.more _), .right _ _ (hq.more _)⟩

theorem Duplex.final {a : α} {b : β} {i o : List D} {l l' : List (List D)}
    (s : Duplex A X D R α β) : ¬ Step ok ⟨.ret a, .ret b, i, o, l, l'⟩ s := by
  intro h
  cases h with
  | left _ _ h => cases h
  | right _ _ h => cases h

/-! ## A side on its own -/

variable (ok) in
/-- The events that the input queue allows, what is left of it, and the blocks written. -/
def Fed : List (Event X D R) → List D → List D → List (List D) → Prop
  | [], inp, inp', log => inp' = inp ∧ log = []
  | .note _ :: es, inp, inp', log => Fed es inp inp' log
  | .write data _ r :: es, inp, inp', log =>
    r = ok ∧ ∃ rest, log = data :: rest ∧ Fed es inp inp' rest
  | .read n _ r d :: es, inp, inp', log =>
    r = ok ∧ d.length = n ∧ ∃ rest, inp = d ++ rest ∧ Fed es rest inp' log

/-- The moves that take one side through its events, in any state `T` that has it as a part. -/
theorem Steps.moves {T : Type} {S : T → T → Prop}
    (side : Proc A X D R α → List D → List D → List (List D) → T)
    (hmove : ∀ {p inp p' inp' log} (out sent), Move ok p inp p' inp' log →
      S (side p inp out sent) (side p' inp' (out ++ log.flatten) (sent ++ log)))
    {p p' : Proc A X D R α} {es : List (Event X D R)} (h : Steps p es p')
    {inp inp' : List D} {log : List (List D)} (hfed : Fed ok es inp inp' log)
    (out : List D) (sent : List (List D)) :
    Reaches S (side p inp out sent) (side p' inp' (out ++ log.flatten) (sent ++ log)) := by
  induction h generalizing inp log out sent with
  | refl p =>
    obtain ⟨rfl, rfl⟩ := hfed
    simpa using Reaches.refl _
  | touch _ ih => exact (Reaches.step (by simpa using hmove out sent .touch)).trans (ih hfed _ _)
  | note _ ih => exact (Reaches.step (by simpa using hmove out sent .note)).trans (ih hfed _ _)
  | write _ ih =>
    obtain ⟨rfl, rest, rfl, hfed⟩ := hfed
    simpa using (Reaches.step (hmove out sent .write)).trans (ih hfed _ _)
  | @read n t k _ d _ _ _ ih =>
    obtain ⟨rfl, rfl, rest, rfl, hfed⟩ := hfed
    have hread := @hmove (.read d.length t k) (d ++ rest) _ _ _ out sent (.read (by simp))
    rw [List.take_left' rfl, List.drop_left' rfl] at hread
    exact (Reaches.step (by simpa using hread)).trans (ih hfed _ _)

theorem Steps.left {p p' : Proc A X D R α} {q : Proc A X D R β} {es : List (Event X D R)}
    {inp inp' : List D} {log : List (List D)} (h : Steps p es p') (hfed : Fed ok es inp inp' log)
    (out : List D) (sent sent' : List (List D)) :
    Reaches (Duplex.Step ok) ⟨p, q, inp, out, sent, sent'⟩
      ⟨p', q, inp', out ++ log.flatten, sent ++ log, sent'⟩ :=
  Steps.moves (fun p inp out sent => (⟨p, q, inp, out, sent, sent'⟩ : Duplex A X D R α β))
    (fun _ sent hm => Duplex.Step.left sent sent' hm) h hfed out sent

theorem Steps.right {p : Proc A X D R α} {q q' : Proc A X D R β} {es : List (Event X D R)}
    {inp inp' : List D} {log : List (List D)} (h : Steps q es q') (hfed : Fed ok es inp inp' log)
    (out : List D) (sent sent' : List (List D)) :
    Reaches (Duplex.Step ok) ⟨p, q, out, inp, sent, sent'⟩
      ⟨p, q', out ++ log.flatten, inp', sent, sent' ++ log⟩ :=
  Steps.moves (fun q inp out sent' => (⟨p, q, out, inp, sent, sent'⟩ : Duplex A X D R α β))
    (fun _ sent' hm => Duplex.Step.right sent sent' hm) h hfed out sent'

/-! ## Taking turns -/

/-- The left side asks, the right side answers, and the left side takes the answer in. -/
structure Round (X D R : Type) where
  ask : List (Event X D R)
  answer : List (Event X D R)
  close : List (Event X D R)
  asked : List (List D)
  answered : List (List D)

variable (ok) in
/-- Each side reads all that the other has written in this round. -/
def Round.Fits (rd : Round X D R) : Prop :=
  Fed ok rd.ask [] [] rd.asked ∧ Fed ok rd.answer rd.asked.flatten [] rd.answered ∧
    Fed ok rd.close rd.answered.flatten [] []

theorem Round.reaches {rd : Round X D R} (hfit : rd.Fits ok) {p p' : Proc A X D R α}
    {q q' : Proc A X D R β} (hp : Steps p (rd.ask ++ rd.close) p') (hq : Steps q rd.answer q')
    (sent sent' : List (List D)) :
    Reaches (Duplex.Step ok) ⟨p, q, [], [], sent, sent'⟩
      ⟨p', q', [], [], sent ++ rd.asked, sent' ++ rd.answered⟩ := by
  obtain ⟨hask, hanswer, hclose⟩ := hfit
  obtain ⟨m, hm, hm'⟩ := hp.split
  have h1 := hm.left (q := q) hask [] sent sent'
  have h2 := hq.right (p := m) hanswer [] (sent ++ rd.asked) sent'
  have h3 := hm'.left (q := q') hclose [] (sent ++ rd.asked) (sent' ++ rd.answered)
  simp only [List.nil_append, List.flatten_nil, List.append_nil] at h1 h2 h3
  exact (h1.trans h2).trans h3

/-- **Rounds that fit take both sides through all their events**, and leave the queues empty. -/
theorem reaches_of_rounds {rds : List (Round X D R)} (hfit : ∀ rd ∈ rds, rd.Fits ok)
    {p p' : Proc A X D R α} {q q' : Proc A X D R β}
    (hp : Steps p (rds.flatMap fun rd => rd.ask ++ rd.close) p')
    (hq : Steps q (rds.flatMap (·.answer)) q') (sent sent' : List (List D)) :
    Reaches (Duplex.Step ok) ⟨p, q, [], [], sent, sent'⟩
      ⟨p', q', [], [], sent ++ rds.flatMap (·.asked), sent' ++ rds.flatMap (·.answered)⟩ := by
  induction rds generalizing p q sent sent' with
  | nil =>
    have hfed : Fed ok ([] : List (Event X D R)) [] [] [] := ⟨rfl, rfl⟩
    have h1 := hp.left (q := q) hfed [] sent sent'
    have h2 := hq.right (p := p') hfed [] sent sent'
    simp only [List.flatten_nil, List.append_nil] at h1 h2
    simpa using h1.trans h2
  | cons rd rds ih =>
    rw [List.flatMap_cons] at hp hq
    obtain ⟨m, hm, hm'⟩ := hp.split
    obtain ⟨n, hn, hn'⟩ := hq.split
    have h1 := Round.reaches (hfit rd (List.mem_cons_self ..)) hm hn sent sent'
    have h2 := ih (fun r hr => hfit r (List.mem_cons_of_mem _ hr)) hm' hn' (sent ++ rd.asked)
      (sent' ++ rd.answered)
    simpa using h1.trans h2

end Process
