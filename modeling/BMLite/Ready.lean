import BMLite.Platform
import Mathlib.Data.BitVec

/-!
# Waiting for the ready pin

`platform_bmlite_receive` polls the ready pin until it is high, until the timeout has elapsed or
until a button press is pending; then it makes a transfer, or none.

* `pollAt`, `World.Reached`, `World.Seen` — the polls of a call, by their numbers;
* `poll_untimed`, `poll_timed` — one poll that finds the pin low;
* `wait_cases` — **how the loop ends**: at the first poll that finds the pin high, or that has seen
  the timeout or a button press;
* `ready_wait` — the call as a whole.
-/

set_option autoImplicit false

namespace BMLite

open Oracle

/-! ## The calls of the hardware layer -/

variable {w : World} {n : Nat} {α : Type}

@[simp] theorem run_getStatus_bind (f : Bool → HalProg α) :
    (getStatus >>= f).run w.answer n =
      ((f (w.ready n)).run w.answer (n + 1)).map fun x => (x.1, .getStatus :: x.2) :=
  run_query_bind ..

@[simp] theorem run_getTick_bind (f : BitVec 32 → HalProg α) :
    (getTick >>= f).run w.answer n =
      ((f (w.tick n)).run w.answer (n + 1)).map fun x => (x.1, .getTick :: x.2) :=
  run_query_bind ..

@[simp] theorem run_checkButton_bind (f : BitVec 32 → HalProg α) :
    (checkButtonPressed >>= f).run w.answer n =
      ((f (w.button n)).run w.answer (n + 1)).map fun x => (x.1, .checkButtonPressed :: x.2) :=
  run_query_bind ..

@[simp] theorem run_spiRead_bind (size : Nat) (f : List Byte → HalProg α) :
    (spiRead size >>= f).run w.answer n =
      ((f (w.miso n size)).run w.answer (n + 1)).map fun x => (x.1, .spiWriteRead size :: x.2) :=
  run_query_bind ..

/-! ## Polls -/

/-- The sizes of the transfers. -/
def transfers (qs : List HalCall) : List Nat :=
  qs.filterMap fun q => match q with
    | .spiWriteRead size => some size
    | _ => none

@[simp] theorem transfers_append (qs qs' : List HalCall) :
    transfers (qs ++ qs') = transfers qs ++ transfers qs' := List.filterMap_append

/-- A poll that is not the last one makes two calls, or three if there is a timeout. -/
def pollCalls (timeout : BitVec 32) : Nat := if timeout = 0 then 2 else 3

/-- The poll with the number `i`, in a call that began with the call `now` of the hardware layer,
looks at the ready pin in the call with this number. -/
def pollAt (now : Nat) (timeout : BitVec 32) (i : Nat) : Nat := now + 1 + i * pollCalls timeout

theorem pollAt_succ (now : Nat) (timeout : BitVec 32) (i : Nat) :
    pollAt now timeout (i + 1) = pollAt now timeout i + pollCalls timeout := by
  rw [pollAt, pollAt, Nat.succ_mul, Nat.add_assoc _ (i * _)]

/-- The poll finds the ready pin high. -/
def World.PinHigh (w : World) (now : Nat) (timeout : BitVec 32) (i : Nat) : Prop :=
  w.ready (pollAt now timeout i) = true

/-- A button press is pending when the poll looks. -/
def World.Pending (w : World) (now : Nat) (timeout : BitVec 32) (i : Nat) : Prop :=
  w.button (pollAt now timeout i + (pollCalls timeout - 1)) ≠ 0

/-- At least `timeout` ticks have elapsed since entry when the poll looks, if there is a timeout;
`clock` is the time in ticks. -/
def Elapsed (clock : Nat → Nat) (now : Nat) (timeout : BitVec 32) (i : Nat) : Prop :=
  timeout ≠ 0 ∧ timeout.toNat ≤ clock (pollAt now timeout i + 1) - clock now

/-- The poll sees the timeout or a button press. -/
def World.Seen (w : World) (clock : Nat → Nat) (now : Nat) (timeout : BitVec 32) (i : Nat) : Prop :=
  Elapsed clock now timeout i ∨ w.Pending now timeout i

/-- The polls before have found the pin low, and have seen neither. -/
def World.Reached (w : World) (clock : Nat → Nat) (now : Nat) (timeout : BitVec 32) (i : Nat) :
    Prop :=
  ∀ j < i, ¬ w.PinHigh now timeout j ∧ ¬ w.Seen clock now timeout j

/-- The counter shows the low 32 bits of the time, and fewer than 2^32 ticks pass during the polls
of the call. -/
structure Timekeeping (w : World) (clock : Nat → Nat) (now : Nat) (timeout : BitVec 32) : Prop where
  tick_eq : ∀ n, w.tick n = BitVec.ofNat 32 (clock n)
  mono : Monotone clock
  short : ∀ i, w.Reached clock now timeout i →
    clock (pollAt now timeout i + 1) < clock now + 2 ^ 32

variable {clock : Nat → Nat} {now size polls : Nat} {timeout : BitVec 32}

/-- The difference of the counters is the time that has passed, whether or not they have wrapped. -/
theorem Timekeeping.elapsed_iff (h : Timekeeping w clock now timeout) {i : Nat}
    (hi : w.Reached clock now timeout i) :
    Elapsed clock now timeout i ↔
      timeout ≠ 0 ∧ timeout ≤ w.tick (pollAt now timeout i + 1) - w.tick now := by
  have hle : clock now ≤ clock (pollAt now timeout i + 1) := h.mono (by unfold pollAt; omega)
  have hlt := h.short i hi
  have hdiff : (w.tick (pollAt now timeout i + 1) - w.tick now).toNat =
      clock (pollAt now timeout i + 1) - clock now := by
    rw [h.tick_eq, h.tick_eq, BitVec.toNat_sub, BitVec.toNat_ofNat, BitVec.toNat_ofNat]
    omega
  rw [Elapsed, BitVec.le_def, hdiff]

theorem World.Reached.succ {i : Nat} (h : w.Reached clock now timeout i)
    (hlow : ¬ w.PinHigh now timeout i) (hseen : ¬ w.Seen clock now timeout i) :
    w.Reached clock now timeout (i + 1) := by
  intro j hj
  rcases Nat.lt_succ_iff_lt_or_eq.1 hj with hj | rfl
  · exact h j hj
  · exact ⟨hlow, hseen⟩

/-- Only one of the polls that are reached can end the loop. -/
theorem reached_unique {i j : Nat} (hi : w.Reached clock now timeout i)
    (hj : w.Reached clock now timeout j)
    (hendi : w.PinHigh now timeout i ∨ w.Seen clock now timeout i)
    (hendj : w.PinHigh now timeout j ∨ w.Seen clock now timeout j) : i = j := by
  rcases Nat.lt_trichotomy i j with hlt | heq | hlt
  · exact absurd hendi (not_or.2 (hj i hlt))
  · exact heq
  · exact absurd hendj (not_or.2 (hi j hlt))

/-! ## The loop -/

/-- How the loop ends that has `left` polls to go, from the poll `i` on. -/
inductive WaitEnds (w : World) (clock : Nat → Nat) (now : Nat) (timeout : BitVec 32)
    (i left : Nat) : Option (Option (BitVec 32) × List HalCall) → Prop
  /-- The pin is high, and the last sample of the time was taken before the timeout. -/
  | high {j : Nat} {currTime : BitVec 32} {qs : List HalCall} :
    w.Reached clock now timeout j → w.PinHigh now timeout j →
    ¬ (timeout ≠ 0 ∧ timeout ≤ currTime - w.tick now) → transfers qs = [] →
    pollAt now timeout i + qs.length = pollAt now timeout j + 1 →
    WaitEnds w clock now timeout i left (some (some currTime, qs))
  /-- The pin is low, and the timeout or a button press has been seen. -/
  | seen {j : Nat} {end' : Option (BitVec 32)} {qs : List HalCall} :
    w.Reached clock now timeout j → ¬ w.PinHigh now timeout j → w.Seen clock now timeout j →
    (∀ t, end' = some t → timeout ≠ 0 ∧ timeout ≤ t - w.tick now) → transfers qs = [] →
    WaitEnds w clock now timeout i left (some (end', qs))
  | out : w.Reached clock now timeout (i + left) → WaitEnds w clock now timeout i left none

/-- A poll that does not end the loop. -/
theorem WaitEnds.next {i left : Nat} {r : Option (Option (BitVec 32) × List HalCall)}
    {qs : List HalCall} (h : WaitEnds w clock now timeout (i + 1) left r)
    (hlen : qs.length = pollCalls timeout) (hqs : transfers qs = []) :
    WaitEnds w clock now timeout i (left + 1) (r.map fun x => (x.1, qs ++ x.2)) := by
  cases h with
  | high hreach hhigh htime htrans hat =>
    refine .high hreach hhigh htime (by rw [transfers_append, hqs, htrans]; rfl) ?_
    rw [List.length_append, hlen, ← Nat.add_assoc, ← pollAt_succ, hat]
  | seen hreach hlow hseen hend htrans =>
    exact .seen hreach hlow hseen hend (by rw [transfers_append, hqs, htrans]; rfl)
  | out hreach => exact .out (by rwa [Nat.add_right_comm] at hreach)

/-- The poll `i` has not ended the loop: the rest of it goes on with the next poll. -/
def GoesOn (w : World) (clock : Nat → Nat) (now : Nat) (timeout : BitVec 32) (i left : Nat)
    (r : Option (Option (BitVec 32) × List HalCall)) : Prop :=
  ∃ (currTime : BitVec 32) (qs : List HalCall),
    w.Reached clock now timeout (i + 1) ∧ ¬ (timeout ≠ 0 ∧ timeout ≤ currTime - w.tick now) ∧
    qs.length = pollCalls timeout ∧ transfers qs = [] ∧
    r = ((receiveProg.wait timeout (w.tick now) left currTime).run w.answer
      (pollAt now timeout (i + 1))).map fun x => (x.1, qs ++ x.2)

section

variable {i left : Nat} {currTime : BitVec 32} {r : Option (Option (BitVec 32) × List HalCall)}

/-- A poll that finds the pin low, in a call without a timeout. -/
theorem poll_untimed (hzero : timeout = 0) (hi : w.Reached clock now timeout i)
    (hlow : ¬ w.PinHigh now timeout i)
    (htime : ¬ (timeout ≠ 0 ∧ timeout ≤ currTime - w.tick now))
    (hr : r = (receiveProg.wait timeout (w.tick now) (left + 1) currTime).run w.answer
      (pollAt now timeout i)) :
    WaitEnds w clock now timeout i (left + 1) r ∨ GoesOn w clock now timeout i left r := by
  have hpin : ¬ w.ready (pollAt now timeout i) = true := hlow
  have hcalls : pollCalls timeout = 2 := if_pos hzero
  have hpending : w.Pending now timeout i ↔ w.button (pollAt now timeout i + 1) ≠ 0 := by
    rw [World.Pending, hcalls]
  rw [receiveProg.wait, run_getStatus_bind, if_neg hpin, if_pos hzero, run_checkButton_bind] at hr
  by_cases hbutton : w.button (pollAt now timeout i + 1) ≠ 0
  · rw [if_pos hbutton] at hr
    rw [hr]
    exact .inl (.seen hi hlow (.inr (hpending.2 hbutton)) (fun t ht => by cases ht) rfl)
  · rw [if_neg hbutton, Option.map_map] at hr
    refine .inr ⟨currTime, [.getStatus, .checkButtonPressed], ?_, htime, hcalls.symm, rfl, ?_⟩
    · exact hi.succ hlow (not_or.2 ⟨fun h => h.1 hzero, fun h => hbutton (hpending.1 h)⟩)
    · rw [hr, pollAt_succ, hcalls]
      rfl

/-- A poll that finds the pin low, in a call with a timeout. -/
theorem poll_timed (hclock : Timekeeping w clock now timeout) (hzero : timeout ≠ 0)
    (hi : w.Reached clock now timeout i) (hlow : ¬ w.PinHigh now timeout i)
    (hr : r = (receiveProg.wait timeout (w.tick now) (left + 1) currTime).run w.answer
      (pollAt now timeout i)) :
    WaitEnds w clock now timeout i (left + 1) r ∨ GoesOn w clock now timeout i left r := by
  have hpin : ¬ w.ready (pollAt now timeout i) = true := hlow
  have helapsed := hclock.elapsed_iff hi
  have hcalls : pollCalls timeout = 3 := if_neg hzero
  have hpending : w.Pending now timeout i ↔ w.button (pollAt now timeout i + 2) ≠ 0 := by
    rw [World.Pending, hcalls]
  rw [receiveProg.wait, run_getStatus_bind, if_neg hpin, if_neg hzero, run_getTick_bind] at hr
  by_cases hlt : w.tick (pollAt now timeout i + 1) - w.tick now < timeout
  · have hnot : ¬ (timeout ≠ 0 ∧ timeout ≤ w.tick (pollAt now timeout i + 1) - w.tick now) :=
      fun h => BitVec.not_le.2 hlt h.2
    rw [if_pos hlt, run_checkButton_bind] at hr
    by_cases hbutton : w.button (pollAt now timeout i + 2) ≠ 0
    · rw [if_pos hbutton] at hr
      rw [hr]
      exact .inl (.seen hi hlow (.inr (hpending.2 hbutton)) (fun t ht => by cases ht) rfl)
    · rw [if_neg hbutton, Option.map_map, Option.map_map] at hr
      refine .inr ⟨_, [.getStatus, .getTick, .checkButtonPressed], ?_, hnot, hcalls.symm, rfl, ?_⟩
      · refine hi.succ hlow (not_or.2 ⟨?_, fun h => hbutton (hpending.1 h)⟩)
        rw [helapsed]
        exact hnot
      · rw [hr, pollAt_succ, hcalls]
        rfl
  · have hge : timeout ≤ w.tick (pollAt now timeout i + 1) - w.tick now := BitVec.not_lt.1 hlt
    rw [if_neg hlt] at hr
    rw [hr]
    refine .inl (.seen hi hlow (.inl (helapsed.2 ⟨hzero, hge⟩)) (fun t ht => ?_) rfl)
    cases ht
    exact ⟨hzero, hge⟩

end

/-- **One poll after the other.** -/
theorem wait_ends (hclock : Timekeeping w clock now timeout) (left : Nat) :
    ∀ {i : Nat} {currTime : BitVec 32}, w.Reached clock now timeout i →
      ¬ (timeout ≠ 0 ∧ timeout ≤ currTime - w.tick now) →
      WaitEnds w clock now timeout i left
        ((receiveProg.wait timeout (w.tick now) left currTime).run w.answer
          (pollAt now timeout i)) := by
  induction left with
  | zero =>
    intro i currTime hi _
    exact .out hi
  | succ left ih =>
    intro i currTime hi htime
    obtain ⟨r, hr⟩ : ∃ r, r = (receiveProg.wait timeout (w.tick now) (left + 1) currTime).run
      w.answer (pollAt now timeout i) := ⟨_, rfl⟩
    rw [← hr]
    by_cases hhigh : w.PinHigh now timeout i
    · have hpin : w.ready (pollAt now timeout i) = true := hhigh
      rw [hr, receiveProg.wait, run_getStatus_bind, if_pos hpin]
      exact .high hi hhigh htime rfl rfl
    have hpoll : WaitEnds w clock now timeout i (left + 1) r ∨
        GoesOn w clock now timeout i left r := by
      by_cases hzero : timeout = 0
      · exact poll_untimed hzero hi hhigh htime hr
      · exact poll_timed hclock hzero hi hhigh hr
    rcases hpoll with hends | ⟨currTime', qs, hnext, htime', hlen, hqs, hrun⟩
    · exact hends
    · rw [hrun]
      exact (ih hnext htime').next hlen hqs

/-! ## The call -/

/-- **How the call ends**: with the transfer, with `TIMEOUT`, or not within its polls. -/
inductive CallEnds (w : World) (clock : Nat → Nat) (now : Nat) (timeout : BitVec 32)
    (polls size : Nat) : Option ((FpcBepResult × List Byte) × List HalCall) → Prop
  | transfer {i : Nat} {qs : List HalCall} :
    w.Reached clock now timeout i → w.PinHigh now timeout i → transfers qs = [size] →
    CallEnds w clock now timeout polls size
      (some ((FPC_BEP_RESULT_OK, w.miso (pollAt now timeout i + 1) size), qs))
  | timeout {i : Nat} {qs : List HalCall} :
    w.Reached clock now timeout i → ¬ w.PinHigh now timeout i → w.Seen clock now timeout i →
    transfers qs = [] →
    CallEnds w clock now timeout polls size (some ((FPC_BEP_RESULT_TIMEOUT, []), qs))
  | out : w.Reached clock now timeout polls → CallEnds w clock now timeout polls size none

theorem receive_ends (hclock : Timekeeping w clock now timeout) (polls size : Nat) :
    CallEnds w clock now timeout polls size
      ((receiveProg polls size timeout).run w.answer now) := by
  have hstart : ¬ (timeout ≠ 0 ∧ timeout ≤ w.tick now - w.tick now) := by
    rintro ⟨hne, hle⟩
    rw [BitVec.sub_self, BitVec.le_def] at hle
    exact hne (BitVec.eq_of_toNat_eq (Nat.le_zero.1 hle))
  have hfirst : pollAt now timeout 0 = now + 1 := by rw [pollAt, Nat.zero_mul]
  have hwait := @wait_ends w clock now timeout hclock polls 0 (w.tick now)
    (fun j hj => absurd hj (Nat.not_lt_zero j)) hstart
  rw [hfirst] at hwait
  rw [receiveProg, run_getTick_bind, run_bind]
  generalize (receiveProg.wait timeout (w.tick now) polls (w.tick now)).run w.answer (now + 1) = r
    at hwait
  cases hwait with
  | @high i currTime qs hreach hhigh htime htrans hat =>
    rw [hfirst] at hat
    simp only [Option.bind_some, if_neg htime, run_spiRead_bind, hat, run_pure, Option.map_some]
    refine .transfer hreach hhigh ?_
    rw [← List.cons_append, transfers_append]
    exact congrArg (· ++ [size]) htrans
  | @seen i end' qs hreach hlow hseen hend htrans =>
    cases end' with
    | none =>
      refine .timeout hreach hlow hseen ?_
      show transfers (qs ++ []) = []
      rw [List.append_nil]
      exact htrans
    | some t =>
      simp only [Option.bind_some, if_pos (hend t rfl), run_pure, Option.map_some]
      refine .timeout hreach hlow hseen ?_
      show transfers (qs ++ []) = []
      rw [List.append_nil]
      exact htrans
  | out hreach =>
    rw [Nat.zero_add] at hreach
    exact .out hreach

/-- **The ready-wait of `platform_bmlite_receive`.**  A poll that finds the pin high, after polls
that have seen neither the timeout nor a button press, leads to exactly one transfer, whose bytes
are stored; a poll that finds the pin low and has seen one of them leads to `TIMEOUT` without a
transfer; and `TIMEOUT` is returned for no other reason: without a timeout only for a button press,
and with one not before it has elapsed, unless for a button press. -/
theorem ready_wait (hclock : Timekeeping w clock now timeout) (polls size : Nat) :
    (∀ i < polls, w.Reached clock now timeout i → w.PinHigh now timeout i →
      ∃ qs, (receiveProg polls size timeout).run w.answer now =
          some ((FPC_BEP_RESULT_OK, w.miso (pollAt now timeout i + 1) size), qs) ∧
        transfers qs = [size]) ∧
    (∀ i < polls, w.Reached clock now timeout i → ¬ w.PinHigh now timeout i →
      w.Seen clock now timeout i →
      ∃ qs, (receiveProg polls size timeout).run w.answer now =
          some ((FPC_BEP_RESULT_TIMEOUT, []), qs) ∧ transfers qs = []) ∧
    ∀ d qs, (receiveProg polls size timeout).run w.answer now =
        some ((FPC_BEP_RESULT_TIMEOUT, d), qs) →
      ∃ i, w.Reached clock now timeout i ∧ ¬ w.PinHigh now timeout i ∧
        (w.Pending now timeout i ∨ Elapsed clock now timeout i) := by
  have hends := receive_ends hclock polls size
  generalize (receiveProg polls size timeout).run w.answer now = r at hends
  refine ⟨fun i hi hreach hhigh => ?_, fun i hi hreach hlow hseen => ?_, fun d qs hr => ?_⟩
  · cases hends with
    | transfer hreach' hhigh' htrans =>
      rw [reached_unique hreach hreach' (.inl hhigh) (.inl hhigh')]
      exact ⟨_, rfl, htrans⟩
    | timeout hreach' hlow' hseen' _ =>
      have heq := reached_unique hreach hreach' (.inl hhigh) (.inr hseen')
      exact absurd (heq ▸ hhigh) hlow'
    | out hreach' => exact absurd hhigh (hreach' i hi).1
  · cases hends with
    | transfer hreach' hhigh' _ =>
      have heq := reached_unique hreach hreach' (.inr hseen) (.inl hhigh')
      exact absurd (heq ▸ hhigh') hlow
    | timeout _ _ _ htrans => exact ⟨_, rfl, htrans⟩
    | out hreach' => exact absurd hseen (hreach' i hi).2
  · subst hr
    cases hends with
    | timeout hreach hlow hseen _ => exact ⟨_, hreach, hlow, hseen.symm⟩

/-- The counter wraps during the first poll; the second one finds the pin high. -/
theorem ready_wait_wrap :
    let w : World := ⟨fun n => decide (2 ≤ n), fun n => .ofNat 32 (2 ^ 32 - 1 + n), fun _ => 0,
      fun _ size => List.replicate size 0x7f⟩
    ∃ qs, (receiveProg 3 4 5).run w.answer 0 =
        some ((FPC_BEP_RESULT_OK, [0x7f, 0x7f, 0x7f, 0x7f]), qs) ∧
      transfers qs = [4] := by
  intro w
  have hhigh : w.PinHigh 0 5 1 := rfl
  have hreach : w.Reached (fun n => 2 ^ 32 - 1 + n) 0 5 1 := by
    intro j hj
    obtain rfl : j = 0 := by omega
    refine ⟨Bool.false_ne_true, ?_⟩
    rintro (⟨-, helapsed⟩ | hpending)
    · exact absurd helapsed (by decide)
    · exact hpending rfl
  have hclock : Timekeeping w (fun n => 2 ^ 32 - 1 + n) 0 5 := by
    refine ⟨fun _ => rfl, fun a b h => Nat.add_le_add_left h _, fun i hi => ?_⟩
    have hle : i ≤ 1 := Nat.not_lt.1 fun hlt => (hi 1 hlt).1 hhigh
    have hcalls : pollAt 0 5 i ≤ pollAt 0 5 1 :=
      Nat.add_le_add_left (Nat.mul_le_mul_right _ hle) _
    have hfour : pollAt 0 5 1 = 4 := rfl
    show 2 ^ 32 - 1 + (pollAt 0 5 i + 1) < 2 ^ 32 - 1 + 0 + 2 ^ 32
    omega
  exact (ready_wait hclock 3 4).1 1 (by decide) hreach hhigh

end BMLite
