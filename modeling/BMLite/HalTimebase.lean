import BMLite.Lib.Trace
import Mathlib.Data.BitVec

/-!
# `hal_timebase.c`: the time of a button press

The timer interrupt counts `systick` and samples the button; the main program fetches the time of
the last press.  The interrupt may come between any two accesses of the main program to
`button_pressed_time`.

* `Timebase` — the variables of the file; `HostStep` — the steps of the interrupt and of the main
  program;
* `Presses` — the abstract side: a mailbox that holds the last completed press until it is read;
  `NotLost` — every call returns what it took out of the mailbox;
* `Represents` — the variables hold the mailbox, unless a press completes in the middle of a call;
* `presses_kept` — **no press is lost** in a run without such a press; `press_lost` — **such a
  press is lost**.
-/

set_option autoImplicit false

namespace BMLite

open Trace

/-! ## The interrupt and the main program -/

/-- `systick`, `button_pressed_time`, `btn_press_start` and `btn_pressed`. -/
structure Timebase where
  systick : BitVec 32
  buttonPressedTime : BitVec 32
  btnPressStart : BitVec 32
  btnPressed : Bool

/-- `check_buttons`, with the state of the button. -/
def checkButtons (pressed : Bool) (t : Timebase) : Timebase :=
  if pressed then
    if t.btnPressed = false then
      { t with btnPressStart := t.systick, btnPressed := true }
    else t
  else if t.btnPressed then
    { t with
      buttonPressedTime :=
        if t.systick > t.btnPressStart then t.systick - t.btnPressStart
        else t.systick + ~~~t.btnPressStart + 1
      btnPressed := false }
  else t

/-- `timer_event_handler`, for `NRF_TIMER_EVENT_COMPARE0`. -/
def timerEventHandler (pressed : Bool) (t : Timebase) : Timebase :=
  checkButtons pressed { t with systick := t.systick + 1 }

/-- The first statement of `hal_get_button_press_time`. -/
def halGetButtonPressTime.fetch (t : Timebase) : BitVec 32 := t.buttonPressedTime

/-- The second one. -/
def halGetButtonPressTime.clear (t : Timebase) : Timebase := { t with buttonPressedTime := 0 }

/-- The variables, and the local variable `time` of a call in progress. -/
structure Host where
  timebase : Timebase
  time : Option (BitVec 32)

inductive HostEvent where
  | tick (pressed : Bool)
  | fetch
  | ret (time : BitVec 32)
  deriving DecidableEq

/-- An interrupt, or a step of the main program. -/
inductive HostStep : Host → HostEvent → Host → Prop
  | tick (t : Timebase) (time : Option (BitVec 32)) (pressed : Bool) :
    HostStep ⟨t, time⟩ (.tick pressed) ⟨timerEventHandler pressed t, time⟩
  | fetch (t : Timebase) : HostStep ⟨t, none⟩ .fetch ⟨t, some (halGetButtonPressTime.fetch t)⟩
  | ret (t : Timebase) (time : BitVec 32) :
    HostStep ⟨t, some time⟩ (.ret time) ⟨halGetButtonPressTime.clear t, none⟩

/-- At the start only `systick` may have any value. -/
def Host.init (systick : BitVec 32) : Host := ⟨⟨systick, 0, 0, false⟩, none⟩

/-! ## Presses -/

/-- What has been seen of the presses: for how many ticks the button has been held, if it is; how
long the last completed press lasted that has not been read; and the press that the call in
progress has read, if there was one. -/
structure Presses where
  held : Option Nat
  unread : Option Nat
  taken : Option Nat
  deriving DecidableEq

def Presses.none : Presses := ⟨.none, .none, .none⟩

/-- A press lasts from its first pressed sample to its release sample. -/
def Presses.next (m : Presses) : HostEvent → Presses
  | .tick true =>
    match m.held with
    | .none => { m with held := some 0 }
    | some k => { m with held := some (k + 1) }
  | .tick false =>
    match m.held with
    | .none => m
    | some k => { m with held := .none, unread := some (k + 1) }
  | .fetch => { m with unread := .none, taken := m.unread }
  | .ret _ => m

/-- A call returns the time of the press it has read, or zero if there was none.  Of presses of
2^32 ticks and more nothing is said. -/
def Presses.Delivers (m : Presses) : HostEvent → Prop
  | .ret time =>
    match m.taken with
    | .none => time = 0
    | some d => d < 2 ^ 32 → time.toNat = d
  | _ => True

/-- **Button presses are not lost**: every completed press is returned, with its exact time, by
exactly one call, the first one that reads after it, unless a later press completes before. -/
def NotLost (es : List HostEvent) : Prop := Allowed Presses.next Presses.Delivers .none es

/-! ## The variables hold the presses -/

/-- The time of a press, as far as 32 bits go; zero is no press. -/
def pressTime : Option Nat → BitVec 32
  | none => 0
  | some d => BitVec.ofNat 32 d

/-- Both branches compute the difference, whether or not `systick` has wrapped. -/
theorem press_duration (now start : BitVec 32) :
    (if now > start then now - start else now + ~~~start + 1) = now - start := by
  split
  · rfl
  · have hneg : ~~~start + 1 = -start := (BitVec.neg_eq_not_add start).symm
    rw [BitVec.add_assoc, hneg, BitVec.sub_eq_add_neg]

/-- The variables of the program represent the presses. -/
structure Represents (m : Presses) (h : Host) : Prop where
  pressed_iff : h.timebase.btnPressed = m.held.isSome
  held_eq : ∀ k, m.held = some k →
    h.timebase.systick = h.timebase.btnPressStart + BitVec.ofNat 32 k
  waiting : h.time = none → h.timebase.buttonPressedTime = pressTime m.unread
  calling : ∀ time, h.time = some time → m.unread = none ∧ time = pressTime m.taken

theorem represents_init (systick : BitVec 32) : Represents .none (Host.init systick) where
  pressed_iff := rfl
  held_eq := fun k h => by cases h
  waiting := fun _ => rfl
  calling := fun time h => by cases h

/-- No press completes in the middle of a call. -/
def Calm (h : Host) (e : HostEvent) : Prop :=
  e = .tick false → h.time ≠ none → h.timebase.btnPressed = false

/-- The tick of an interrupt: a press in progress lasts one tick more. -/
theorem held_tick {m : Presses} {h : Host} (hrep : Represents m h) {k : Nat}
    (hk : m.held = some k) :
    h.timebase.systick + 1 = h.timebase.btnPressStart + BitVec.ofNat 32 (k + 1) := by
  rw [hrep.held_eq k hk, BitVec.ofNat_add, BitVec.add_assoc]
  rfl

/-- A pressed sample begins a press, or the press goes on. -/
theorem represents_pressed {m : Presses} {t : Timebase} {time : Option (BitVec 32)}
    (h : Represents m ⟨t, time⟩) :
    Represents (m.next (.tick true)) ⟨timerEventHandler true t, time⟩ := by
  have hpressed : t.btnPressed = m.held.isSome := h.pressed_iff
  obtain ⟨held, unread, taken⟩ := m
  cases held with
  | none =>
    have hrun : timerEventHandler true t =
        { t with systick := t.systick + 1, btnPressStart := t.systick + 1, btnPressed := true } :=
      if_pos hpressed
    rw [hrun]
    refine ⟨rfl, fun k hk => ?_, h.waiting, h.calling⟩
    cases hk
    exact (BitVec.add_zero _).symm
  | some k =>
    have hrun : timerEventHandler true t = { t with systick := t.systick + 1 } :=
      if_neg (by rw [hpressed]; exact Bool.noConfusion)
    rw [hrun]
    refine ⟨hpressed, fun k' hk' => ?_, h.waiting, h.calling⟩
    cases hk'
    exact held_tick h rfl

/-- A released sample completes the press in progress, if there is one. -/
theorem represents_released {m : Presses} {t : Timebase} {time : Option (BitVec 32)}
    (h : Represents m ⟨t, time⟩) (hcalm : Calm ⟨t, time⟩ (.tick false)) :
    Represents (m.next (.tick false)) ⟨timerEventHandler false t, time⟩ := by
  have hpressed : t.btnPressed = m.held.isSome := h.pressed_iff
  obtain ⟨held, unread, taken⟩ := m
  cases held with
  | none =>
    have hrun : timerEventHandler false t = { t with systick := t.systick + 1 } :=
      if_neg (by rw [hpressed]; exact Bool.noConfusion)
    rw [hrun]
    refine ⟨hpressed, fun k hk => ?_, h.waiting, h.calling⟩
    cases hk
  | some k =>
    have hnone : time = none := by
      by_contra htime
      rw [hcalm rfl htime] at hpressed
      cases hpressed
    have hdur : t.systick + 1 - t.btnPressStart = BitVec.ofNat 32 (k + 1) := by
      rw [held_tick h rfl]
      exact add_sub_cancel_left _ _
    have hrun : timerEventHandler false t =
        { t with
          systick := t.systick + 1
          buttonPressedTime := BitVec.ofNat 32 (k + 1)
          btnPressed := false } := by
      rw [← hdur, ← press_duration]
      exact if_pos hpressed
    rw [hrun]
    refine ⟨rfl, fun k' hk' => ?_, fun _ => rfl, fun v hv => ?_⟩
    · cases hk'
    · rw [hnone] at hv
      cases hv

/-- What is returned is the time of the press that has been read. -/
theorem delivers_ret {m : Presses} {time : BitVec 32} (h : time = pressTime m.taken) :
    m.Delivers (.ret time) := by
  obtain ⟨held, unread, taken⟩ := m
  subst h
  cases taken with
  | none => rfl
  | some d => exact fun hd => Nat.mod_eq_of_lt hd

/-- **One step** of a calm run. -/
theorem represents_step {m : Presses} {h h' : Host} {e : HostEvent} (hrep : Represents m h)
    (hstep : HostStep h e h' ∧ Calm h e) : m.Delivers e ∧ Represents (m.next e) h' := by
  obtain ⟨hstep, hcalm⟩ := hstep
  cases hstep with
  | tick t time pressed =>
    cases pressed with
    | true => exact ⟨trivial, represents_pressed hrep⟩
    | false => exact ⟨trivial, represents_released hrep hcalm⟩
  | fetch t =>
    refine ⟨trivial, hrep.pressed_iff, hrep.held_eq, fun hnone => ?_, fun time htime => ?_⟩
    · cases hnone
    · cases htime
      exact ⟨rfl, hrep.waiting rfl⟩
  | ret t time =>
    obtain ⟨hunread, htime⟩ := hrep.calling time rfl
    refine ⟨delivers_ret htime, hrep.pressed_iff, hrep.held_eq, fun _ => ?_, fun v hv => ?_⟩
    · show 0 = pressTime m.unread
      rw [hunread]
      rfl
    · cases hv

/-- A run in which no press completes in the middle of a call. -/
abbrev CalmRun (systick : BitVec 32) (es : List HostEvent) (h : Host) : Prop :=
  Run (fun s e s' => HostStep s e s' ∧ Calm s e) (Host.init systick) es h

/-- **Without a press that completes in the middle of a call, no press is lost**, from every value
of `systick` on, and in every interleaving. -/
theorem presses_kept {systick : BitVec 32} {es : List HostEvent} {h : Host}
    (hrun : CalmRun systick es h) : NotLost es :=
  (hrun.simulated (represents_init systick) fun _ _ _ _ hrep hstep => represents_step hrep hstep).1

/-- `systick` wraps during a press. -/
theorem presses_kept_wrap : NotLost [.tick true, .tick false, .fetch, .ret 1] := by
  have h0 : CalmRun (BitVec.ofNat 32 (2 ^ 32 - 2)) [] _ := .nil
  have h1 := h0.snoc ⟨.tick _ _ true, fun h => by cases h⟩
  have h2 := h1.snoc ⟨.tick _ _ false, fun _ h => absurd rfl h⟩
  have h3 := h2.snoc ⟨.fetch _, fun h => by cases h⟩
  exact presses_kept (h3.snoc ⟨.ret _ _, fun h => by cases h⟩)

/-! ## A press that completes in the middle of a call -/

/-- **A press that completes between the two accesses of a call is lost**: the call clears the time
that it has not returned, and the next call returns zero. -/
theorem press_lost {systick : BitVec 32} {es : List HostEvent} {h : Host} {time : BitVec 32}
    {k : Nat} (hrun : CalmRun systick es h) (htime : h.time = some time)
    (hheld : (es.foldl Presses.next .none).held = some k) (hk : k + 1 < 2 ^ 32) :
    (∃ h', Run HostStep (Host.init systick) (es ++ [.tick false, .ret time, .fetch, .ret 0]) h') ∧
      ¬ NotLost (es ++ [.tick false, .ret time, .fetch, .ret 0]) := by
  constructor
  · obtain ⟨t, _⟩ := h
    cases htime
    have h0 := hrun.mono fun _ _ _ hstep => hstep.1
    have h1 := ((h0.snoc (.tick _ _ false)).snoc (.ret _ _)).snoc (.fetch _)
    have h2 := h1.snoc (.ret _ _)
    rw [List.append_assoc, List.append_assoc, List.append_assoc] at h2
    exact ⟨_, h2⟩
  · intro hkept
    have hret := hkept (es ++ [.tick false, .ret time, .fetch]) (.ret 0) [] (by simp)
    rw [List.foldl_append] at hret
    generalize es.foldl Presses.next .none = m at hheld hret
    obtain ⟨held, unread, taken⟩ := m
    cases hheld
    have hzero : (0 : BitVec 32).toNat = k + 1 := hret hk
    cases hzero

/-- A press of one tick. -/
theorem press_lost_tick : ∃ es h, Run HostStep (Host.init 0) es h ∧ ¬ NotLost es := by
  have h0 : CalmRun 0 [] _ := .nil
  have h1 := h0.snoc ⟨.tick _ _ true, fun h => by cases h⟩
  have h2 := h1.snoc ⟨.fetch _, fun h => by cases h⟩
  obtain ⟨⟨h, hrun⟩, hlost⟩ := press_lost h2 rfl rfl (by decide : 0 + 1 < 2 ^ 32)
  exact ⟨_, h, hrun, hlost⟩

end BMLite
