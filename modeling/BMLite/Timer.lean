import BMLite.Abort
import BMLite.HalTimebase
import BMLite.Ready

/-!
# The callbacks on the timer

The platform with the clock and the button of `hal_timebase.c`: between any two calls of the
hardware layer the timer interrupt may come any number of times.

* `Timer` — the interrupts, by their samples of the button; `Timer.world` — what the callbacks see;
* `timer_represents` — the variables of the file hold the presses; `unread_stays` — a press is there
  until it is fetched;
* `read_timeout` — why a read times out;
* `timeout_justified` — **no timeout is spurious**, in any run of any function: its time has passed,
  or a press is waiting for the main program; `exchange_timeout` — the same of a whole exchange;
* `busyWait_least`, `busyWait_returns` — `hal_timebase_busy_wait` waits for the time it is given;
  `reset_pulse` — so `platform_bmlite_reset` holds the reset pin low for it, and returns.
-/

set_option autoImplicit false

namespace BMLite

open Filter Oracle Process

/-! ## Interrupts -/

/-- The variables at the start, what is known of the presses then, and the samples of the interrupts
that come after each call of the hardware layer and before the next. -/
structure Timer where
  timebase : Timebase
  presses : Presses
  represents : Represents presses ⟨timebase, none⟩
  samples : Nat → List Bool

namespace Timer

variable (tm : Timer)

/-- The variables at the call with the number `n`. -/
def vars : Nat → Timebase
  | 0 => tm.timebase
  | n + 1 => (tm.samples n).foldl (fun t pressed => timerEventHandler pressed t) (vars n)

/-- The presses up to that call. -/
def seen : Nat → Presses
  | 0 => tm.presses
  | n + 1 => (tm.samples n).foldl (fun m pressed => m.next (.tick pressed)) (seen n)

/-- The interrupts before that call. -/
def ticks : Nat → Nat
  | 0 => 0
  | n + 1 => ticks n + (tm.samples n).length

/-- What the callbacks see. -/
def world (ready : Nat → Bool) (miso : Nat → Nat → List Byte) : World where
  ready := ready
  tick n := (tm.vars n).systick
  button n := (tm.vars n).buttonPressedTime
  miso := miso

end Timer

variable {tm : Timer} {ready : Nat → Bool} {miso : Nat → Nat → List Byte} {n n' m : Nat}

/-- The main program is not in the middle of a fetch, so every run of interrupts is calm. -/
theorem represents_samples {m : Presses} {t : Timebase} (h : Represents m ⟨t, none⟩)
    (samples : List Bool) :
    Represents (samples.foldl (fun m pressed => m.next (.tick pressed)) m)
      ⟨samples.foldl (fun t pressed => timerEventHandler pressed t) t, none⟩ := by
  induction samples generalizing m t with
  | nil => exact h
  | cons pressed samples ih =>
    refine ih ?_
    cases pressed with
    | true => exact represents_pressed h
    | false => exact represents_released h fun _ hcall => absurd rfl hcall

/-- **The variables hold the presses**, at every call. -/
theorem timer_represents (tm : Timer) (n : Nat) : Represents (tm.seen n) ⟨tm.vars n, none⟩ := by
  induction n with
  | zero => exact tm.represents
  | succ n ih => exact represents_samples ih (tm.samples n)

theorem button_eq (tm : Timer) (n : Nat) :
    (tm.vars n).buttonPressedTime = pressTime (tm.seen n).unread :=
  (timer_represents tm n).waiting rfl

theorem samples_unread {m : Presses} {d : Nat} (h : m.unread = some d) (samples : List Bool) :
    ∃ d', (samples.foldl (fun m pressed => m.next (.tick pressed)) m).unread = some d' ∧
      (d' = d ∨ 0 < d') := by
  induction samples generalizing m d with
  | nil => exact ⟨d, h, .inl rfl⟩
  | cons pressed samples ih =>
    obtain ⟨held, unread, taken⟩ := m
    rcases held with _ | k
    · cases pressed <;> exact ih h
    · cases pressed with
      | true => exact ih h
      | false =>
        -- the press in progress completes, and takes the place of the one that waits
        obtain ⟨d', hd', hpos⟩ := ih (m := ⟨none, some (k + 1), taken⟩) rfl
        exact ⟨d', hd', .inr (by omega)⟩

/-- **A press stays until it is fetched**, or another one takes its place. -/
theorem unread_stays {d : Nat} (h : (tm.seen n).unread = some d) (hle : n ≤ m) :
    ∃ d', (tm.seen m).unread = some d' ∧ (d' = d ∨ 0 < d') := by
  induction hle with
  | refl => exact ⟨d, h, .inl rfl⟩
  | @step m _ ih =>
    obtain ⟨d', hd', hpos⟩ := ih
    obtain ⟨d'', hd'', hpos'⟩ := samples_unread hd' (tm.samples m)
    exact ⟨d'', hd'', by omega⟩

theorem systick_samples (t : Timebase) (samples : List Bool) :
    (samples.foldl (fun t pressed => timerEventHandler pressed t) t).systick =
      t.systick + BitVec.ofNat 32 samples.length := by
  induction samples generalizing t with
  | nil => exact (BitVec.add_zero _).symm
  | cons pressed samples ih =>
    have hone : (timerEventHandler pressed t).systick = t.systick + 1 := by
      unfold timerEventHandler checkButtons
      repeat' split
      all_goals rfl
    rw [List.foldl_cons, ih, hone, List.length_cons, Nat.add_comm samples.length, BitVec.ofNat_add,
      BitVec.add_assoc]
    rfl

theorem systick_eq (tm : Timer) (n : Nat) :
    (tm.vars n).systick = tm.timebase.systick + BitVec.ofNat 32 (tm.ticks n) := by
  induction n with
  | zero => exact (BitVec.add_zero _).symm
  | succ n ih =>
    have hstep : (tm.vars (n + 1)).systick = _ := systick_samples (tm.vars n) (tm.samples n)
    rw [hstep, ih, Timer.ticks, BitVec.ofNat_add, BitVec.add_assoc]

theorem ticks_mono (tm : Timer) (hle : n ≤ m) : tm.ticks n ≤ tm.ticks m := by
  induction hle with
  | refl => exact Nat.le_refl _
  | step _ ih => exact ih.trans (Nat.le_add_right _ _)

/-- A difference of the counter is the number of interrupts, as far as 32 bits go. -/
theorem systick_sub (tm : Timer) (hle : n ≤ m) :
    ((tm.vars m).systick - (tm.vars n).systick).toNat = (tm.ticks m - tm.ticks n) % 2 ^ 32 := by
  obtain ⟨k, hk⟩ := Nat.exists_eq_add_of_le (ticks_mono tm hle)
  have hdiff : (tm.vars m).systick - (tm.vars n).systick = BitVec.ofNat 32 k := by
    rw [systick_eq, systick_eq, hk, BitVec.ofNat_add, ← BitVec.add_assoc]
    exact add_sub_cancel_left _ _
  rw [hdiff, BitVec.toNat_ofNat, hk, Nat.add_sub_cancel_left]

theorem systick_sub_le (tm : Timer) (hle : n ≤ m) :
    ((tm.vars m).systick - (tm.vars n).systick).toNat ≤ tm.ticks m - tm.ticks n := by
  rw [systick_sub tm hle]
  exact Nat.mod_le _ _

/-! ## Why a read times out -/

variable {w : World} {polls size : Nat} {timeout startTime currTime : BitVec 32}

/-- The loop ends with a button press, with the time at which it has last looked at the clock, or
with the time at which it began. -/
theorem wait_reason (polls : Nat) : ∀ {now now' : Nat} {currTime : BitVec 32}
    {r : Option (BitVec 32)},
    (platformBmliteReceive.wait w timeout startTime polls currTime).run now = some (r, now') →
    now ≤ now' ∧
      ((r = none ∧ ∃ k, now ≤ k ∧ k ≤ now' ∧ w.button k ≠ 0) ∨ r = some currTime ∨
        ∃ k, now ≤ k ∧ k ≤ now' ∧ r = some (w.tick k)) := by
  induction polls with
  | zero =>
    intro now now' currTime r h
    cases h
  | succ polls ih =>
    intro now now' currTime r h
    rw [wait_succ] at h
    split at h
    · cases h
      exact ⟨Nat.le_succ now, .inr (.inl rfl)⟩
    split at h
    · split at h <;> rename_i hbutton
      · cases h
        exact ⟨by omega, .inl ⟨rfl, now + 1, by omega, by omega, hbutton⟩⟩
      · obtain ⟨hle, hcases⟩ := ih h
        refine ⟨by omega, ?_⟩
        rcases hcases with ⟨hr, k, hk, hk', hb⟩ | hr | ⟨k, hk, hk', hr⟩
        · exact .inl ⟨hr, k, by omega, hk', hb⟩
        · exact .inr (.inl hr)
        · exact .inr (.inr ⟨k, by omega, hk', hr⟩)
    · split at h
      · split at h <;> rename_i hbutton
        · cases h
          exact ⟨by omega, .inl ⟨rfl, now + 2, by omega, by omega, hbutton⟩⟩
        · obtain ⟨hle, hcases⟩ := ih h
          refine ⟨by omega, ?_⟩
          rcases hcases with ⟨hr, k, hk, hk', hb⟩ | hr | ⟨k, hk, hk', hr⟩
          · exact .inl ⟨hr, k, by omega, hk', hb⟩
          · exact .inr (.inr ⟨now + 1, by omega, by omega, hr⟩)
          · exact .inr (.inr ⟨k, by omega, hk', hr⟩)
      · cases h
        exact ⟨by omega, .inr (.inr ⟨now + 1, by omega, by omega, rfl⟩)⟩

/-- **A read times out** because of a button press, or because its time has passed. -/
theorem read_timeout {now now' : Nat} {d : List Byte}
    (h : (platformBmliteReceive w polls size timeout).run now =
      some ((FPC_BEP_RESULT_TIMEOUT, d), now')) :
    d = [] ∧ now ≤ now' ∧ ((∃ k, now ≤ k ∧ k ≤ now' ∧ w.button k ≠ 0) ∨
      timeout ≠ 0 ∧ ∃ k, now ≤ k ∧ k ≤ now' ∧ timeout ≤ w.tick k - w.tick now) := by
  rw [receive_eq] at h
  obtain ⟨⟨r, now₁⟩, hwait, h⟩ := Option.bind_eq_some_iff.1 h
  obtain ⟨hle, hreason⟩ := wait_reason polls hwait
  cases r with
  | none =>
    cases h
    rcases hreason with ⟨-, k, hk, hk', hb⟩ | hr | ⟨k, -, -, hr⟩
    · exact ⟨rfl, by omega, .inl ⟨k, by omega, hk', hb⟩⟩
    · cases hr
    · cases hr
  | some currTime =>
    dsimp only at h
    split at h <;> rename_i hpassed
    · cases h
      refine ⟨rfl, by omega, .inr ⟨hpassed.1, ?_⟩⟩
      rcases hreason with ⟨hr, -⟩ | hr | ⟨k, hk, hk', hr⟩
      · cases hr
      · cases hr
        exact ⟨now, Nat.le_refl now, by omega, hpassed.2⟩
      · cases hr
        exact ⟨k, by omega, hk', hpassed.2⟩
    · cases h

theorem send_now {now now' : Nat} {data : List Byte} {r : FpcBepResult}
    (h : (platformBmliteSend w data).run now = some (r, now')) : now ≤ now' := by
  cases h
  exact Nat.le_succ now

theorem receive_now {now now' : Nat} {r : FpcBepResult} {d : List Byte}
    (h : (platformBmliteReceive w polls size timeout).run now = some ((r, d), now')) :
    now ≤ now' := by
  rw [receive_eq] at h
  obtain ⟨⟨found, now₁⟩, hwait, h⟩ := Option.bind_eq_some_iff.1 h
  obtain ⟨hle, -⟩ := wait_reason polls hwait
  cases found with
  | none =>
    cases h
    omega
  | some currTime =>
    dsimp only at h
    split at h
    · cases h
      omega
    · cases h
      omega

/-- The calls of the hardware layer are numbered in the order of the events. -/
theorem answers_now {es : List HcpEvent} : ∀ {now now' : Nat},
    (platformEnv w polls).Answers now es now' → now ≤ now' := by
  induction es with
  | nil =>
    rintro now now' ⟨⟩
    exact Nat.le_refl now
  | cons e es ih =>
    intro now now' h
    cases e with
    | note x => exact ih h
    | write data t r =>
      obtain ⟨m, hwrite, h⟩ := h
      exact (send_now (w := w) hwrite).trans (ih h)
    | read size t r d =>
      obtain ⟨m, hread, h⟩ := h
      exact (receive_now hread).trans (ih h)

/-! ## Runs -/

/-- No press lasts 2^32 ticks, which is seven weeks; its time would be counted as zero. -/
def Timer.Short (tm : Timer) : Prop := ∀ n d, (tm.seen n).unread = some d → d < 2 ^ 32

/-- What the next `hal_get_button_press_time` returns is the time of a completed press. -/
def Timer.Waiting (tm : Timer) (n : Nat) : Prop :=
  ∃ d, 0 < d ∧ (tm.seen n).unread = some d ∧
    (halGetButtonPressTime.fetch (tm.vars n)).toNat = d

theorem fetch_eq (hshort : tm.Short) {d : Nat} (h : (tm.seen n).unread = some d) :
    (halGetButtonPressTime.fetch (tm.vars n)).toNat = d := by
  rw [halGetButtonPressTime.fetch, button_eq, h]
  exact Nat.mod_eq_of_lt (hshort n d h)

/-- Nobody but the main program takes a press out of the mailbox. -/
theorem Timer.Waiting.mono (hshort : tm.Short) (h : tm.Waiting n) (hle : n ≤ m) :
    tm.Waiting m := by
  obtain ⟨d, hd, hn, -⟩ := h
  obtain ⟨d', hd', hpos⟩ := unread_stays hn hle
  exact ⟨d', by omega, hd', fetch_eq hshort hd'⟩

theorem waiting_of_button (hshort : tm.Short) (hbutton : (tm.vars n).buttonPressedTime ≠ 0) :
    tm.Waiting n := by
  rw [button_eq] at hbutton
  cases hn : (tm.seen n).unread with
  | none =>
    rw [hn] at hbutton
    exact absurd rfl hbutton
  | some d =>
    refine ⟨d, Nat.pos_of_ne_zero ?_, hn, fetch_eq hshort hn⟩
    rintro rfl
    rw [hn] at hbutton
    exact hbutton rfl

/-- The time `t` has passed between the calls `n` and `n'`, or a press is waiting at `n'`. -/
def Timer.Justifies (tm : Timer) (t n n' : Nat) : Prop :=
  tm.Waiting n' ∨ t % 2 ^ 32 ≠ 0 ∧ t % 2 ^ 32 ≤ tm.ticks n' - tm.ticks n

theorem Timer.Justifies.mono (hshort : tm.Short) {t n₁ n₂ : Nat} (h : tm.Justifies t n₁ n₂)
    (hle : n ≤ n₁) (hle' : n₂ ≤ n') : tm.Justifies t n n' := by
  rcases h with hwaiting | ⟨hne, hpassed⟩
  · exact .inl (hwaiting.mono hshort hle')
  · have h₁ := ticks_mono tm hle
    have h₂ := ticks_mono tm hle'
    exact .inr ⟨hne, by omega⟩

/-- One read. -/
theorem read_justified (hshort : tm.Short) {t : Nat} {d : List Byte}
    (hread : (platformEnv (tm.world ready miso) polls).onRead n size t =
      some ((FPC_BEP_RESULT_TIMEOUT, d), n')) : d = [] ∧ tm.Justifies t n n' := by
  obtain ⟨rfl, hle, hreason⟩ := read_timeout hread
  refine ⟨rfl, ?_⟩
  rcases hreason with ⟨k, -, hk, hbutton⟩ | ⟨hne, k, hk, hk', hpassed⟩
  · exact .inl ((waiting_of_button hshort hbutton).mono hshort hk)
  · refine .inr ⟨fun hzero => hne (BitVec.eq_of_toNat_eq hzero), ?_⟩
    have hsystick := (BitVec.le_def.1 hpassed).trans (systick_sub_le tm hk)
    have hticks := ticks_mono tm hk'
    rw [BitVec.toNat_ofNat] at hsystick
    omega

/-- **No timeout is spurious.**  In every run of any function over the callbacks, with the timer
interrupt coming whenever it likes: a read that returns `TIMEOUT` has stored nothing, and between
its first and its last call of the hardware layer at least `timeout` interrupts have come, or a
completed press is waiting, so that the next `hal_get_button_press_time` returns its time. -/
theorem timeout_justified (hshort : tm.Short) {α : Type} {p : HcpProc α} {a : α}
    (hrun : p.runIn (platformEnv (tm.world ready miso) polls) n = some (a, n')) :
    ∃ es, Runs p es a ∧ (platformEnv (tm.world ready miso) polls).Answers n es n' ∧
      ∀ (es₁ es₂ : List HcpEvent) (size t : Nat) (d : List Byte),
        es = es₁ ++ .read size t FPC_BEP_RESULT_TIMEOUT d :: es₂ →
        ∃ n₁ n₂, (platformEnv (tm.world ready miso) polls).Answers n es₁ n₁ ∧
          (platformEnv (tm.world ready miso) polls).onRead n₁ size t =
            some ((FPC_BEP_RESULT_TIMEOUT, d), n₂) ∧
          (platformEnv (tm.world ready miso) polls).Answers n₂ es₂ n' ∧
          d = [] ∧ tm.Justifies t n₁ n₂ := by
  obtain ⟨es, hruns, hans⟩ := runIn_iff.1 hrun
  refine ⟨es, hruns, hans, fun es₁ es₂ size t d hsplit => ?_⟩
  rw [hsplit] at hans
  obtain ⟨n₁, hans₁, n₂, hread, hans₂⟩ := Env.answers_append.1 hans
  exact ⟨n₁, n₂, hans₁, hread, hans₂, read_justified hshort hread⟩

/-- No press begins or ends. -/
theorem short_const
    (hsame : ∀ n, (tm.samples n).foldl (fun m pressed => m.next (.tick pressed)) tm.presses =
      tm.presses)
    (hunread : ∀ d, tm.presses.unread = some d → d < 2 ^ 32) : tm.Short := by
  have hseen (n : Nat) : tm.seen n = tm.presses := by
    induction n with
    | zero => rfl
    | succ n ih =>
      rw [Timer.seen, ih]
      exact hsame n
  intro n d h
  rw [hseen] at h
  exact hunread d h

/-- One interrupt after each call, and no press. -/
def tickTimer : Timer := ⟨⟨0, 0, 0, false⟩, .none, represents_init 0, fun _ => [false]⟩

theorem tickTimer_short : tickTimer.Short := short_const (fun _ => rfl) fun d h => by cases h

/-- A module that sends an ACK, and then nothing. -/
abbrev mute : World :=
  tickTimer.world (fun n => decide (n < 3)) fun _ _ => fpcComAck

/-- A capture with a timeout of two ticks. -/
abbrev muteRequest : HcpComm := { hcpChain with phyRxTimeout := 2 }.captureRequest 0

theorem mute_runIn : ∃ c', ((bmliteTranceive 1).run muteRequest).runIn (platformEnv mute 1) 0 =
    some ((FPC_BEP_RESULT_TIMEOUT, c'), 7) := by
  obtain ⟨f, x, hrun, -⟩ := capture_aborted { hcpChain with phyRxTimeout := 2 } 0
  have hans : (platformEnv mute 1).Answers 0 (abortedEvents f 2 ++ [.note x]) 7 :=
    ⟨1, rfl, 4, rfl, 7, rfl, rfl⟩
  exact ⟨x.after, runIn_iff.2 ⟨_, hrun, hans⟩⟩

/-- The header does not come. -/
theorem timeout_justified_mute : ∃ (c' : HcpComm) (es : List HcpEvent),
    Runs ((bmliteTranceive 1).run muteRequest) es (FPC_BEP_RESULT_TIMEOUT, c') ∧
      (platformEnv mute 1).Answers 0 es 7 ∧
      ∀ (es₁ es₂ : List HcpEvent) (size t : Nat) (d : List Byte),
        es = es₁ ++ .read size t FPC_BEP_RESULT_TIMEOUT d :: es₂ →
        ∃ n₁ n₂, (platformEnv mute 1).Answers 0 es₁ n₁ ∧
          (platformEnv mute 1).onRead n₁ size t = some ((FPC_BEP_RESULT_TIMEOUT, d), n₂) ∧
          (platformEnv mute 1).Answers n₂ es₂ 7 ∧ d = [] ∧ tickTimer.Justifies t n₁ n₂ := by
  obtain ⟨c', hrun⟩ := mute_runIn
  exact ⟨c', timeout_justified tickTimer_short hrun⟩

/-- **An exchange that returns `TIMEOUT`** has waited for `phy_rx_timeout` interrupts at least, or a
completed press is waiting for the main program. -/
theorem exchange_timeout (hshort : tm.Short) {c c' : HcpComm} {rounds : Nat}
    (hrun : ((bmliteTranceive rounds).run c).runIn (platformEnv (tm.world ready miso) polls) n =
      some ((FPC_BEP_RESULT_TIMEOUT, c'), n')) : tm.Justifies c.phyRxTimeout n n' := by
  obtain ⟨es, hruns, hans⟩ := runIn_iff.1 hrun
  obtain ⟨es₁, es₂, d, rfl, -⟩ := tranceive_timeout hruns
  obtain ⟨n₁, hans₁, n₂, hread, rfl⟩ := Env.answers_append.1 hans
  exact (read_justified hshort hread).2.mono hshort (answers_now hans₁) (Nat.le_refl _)

theorem exchange_timeout_mute : tickTimer.Justifies 2 0 7 := by
  obtain ⟨c', hrun⟩ := mute_runIn
  exact exchange_timeout tickTimer_short hrun

/-! ## Busy waiting -/

/-- The loop of `hal_timebase_busy_wait`, which reads `systick` itself. -/
def halTimebaseBusyWait.loop (w : World) (start delayInternal : BitVec 32) :
    (polls : Nat) → Hal Unit
  | 0 => fun _ => none
  | polls + 1 => do
    if (← halTimebaseGetTick w) - start < delayInternal then
      halTimebaseBusyWait.loop w start delayInternal polls
    else
      return

/-- `hal_timebase_busy_wait`. -/
def halTimebaseBusyWait (w : World) (polls : Nat) (delay : BitVec 32) : Hal Unit := do
  if delay ≠ 0 then
    let start ← halTimebaseGetTick w
    halTimebaseBusyWait.loop w start (delay + 1) polls
  else
    return

/-- `hal_bmlite_reset`: the level of the reset pin, and the number of the call. -/
def halBmliteReset (state : Bool) : Hal (Bool × Nat) := fun now => some ((!state, now), now + 1)

/-- `platform_bmlite_reset`: what it does to the reset pin. -/
def platformBmliteReset (w : World) (polls : Nat) : Hal (List (Bool × Nat)) := do
  let low ← halBmliteReset true
  halTimebaseBusyWait w polls 100
  let high ← halBmliteReset false
  halTimebaseBusyWait w polls 100
  return [low, high]

variable {start delayInternal delay : BitVec 32} {now : Nat}

/-- The loop ends with the first reading that has reached the delay. -/
theorem busyWait_loop_returns (k : Nat) : ∀ {now polls : Nat},
    (∀ j < k, w.tick (now + j) - start < delayInternal) →
    ¬ w.tick (now + k) - start < delayInternal → k < polls →
    (halTimebaseBusyWait.loop w start delayInternal polls).run now = some ((), now + k + 1) := by
  induction k with
  | zero =>
    intro now polls _ hreached hpolls
    obtain ⟨polls, rfl⟩ := Nat.exists_eq_succ_of_ne_zero (Nat.ne_of_gt hpolls)
    rw [halTimebaseBusyWait.loop, StateT.run_bind, run_halTimebaseGetTick]
    simp only [Option.bind_eq_bind, Option.bind_some]
    rw [Nat.add_zero] at hreached
    rw [if_neg hreached]
    rfl
  | succ k ih =>
    intro now polls hbefore hreached hpolls
    have hfirst : w.tick now - start < delayInternal := hbefore 0 (Nat.succ_pos k)
    obtain ⟨polls, rfl⟩ := Nat.exists_eq_succ_of_ne_zero (Nat.ne_of_gt (Nat.zero_lt_of_lt hpolls))
    have hnow : ∀ j, now + 1 + j = now + (j + 1) := fun j => by omega
    rw [halTimebaseBusyWait.loop, StateT.run_bind, run_halTimebaseGetTick]
    simp only [Option.bind_eq_bind, Option.bind_some]
    rw [if_pos hfirst, ih ?_ ?_ (Nat.lt_of_succ_lt_succ hpolls), hnow]
    · exact fun j hj => by
        rw [hnow]
        exact hbefore (j + 1) (Nat.succ_lt_succ hj)
    · rw [hnow]
      exact hreached

/-- It ends for no other reason. -/
theorem busyWait_loop_reason (polls : Nat) : ∀ {now now' : Nat},
    (halTimebaseBusyWait.loop w start delayInternal polls).run now = some ((), now') →
    ∃ k, now ≤ k ∧ now' = k + 1 ∧ ¬ w.tick k - start < delayInternal := by
  induction polls with
  | zero =>
    intro now now' h
    cases h
  | succ polls ih =>
    intro now now' h
    rw [halTimebaseBusyWait.loop, StateT.run_bind, run_halTimebaseGetTick] at h
    simp only [Option.bind_eq_bind, Option.bind_some] at h
    split at h <;> rename_i hreached
    · obtain ⟨k, hk, hnow, hreached⟩ := ih h
      exact ⟨k, by omega, hnow, hreached⟩
    · cases h
      exact ⟨now, Nat.le_refl now, rfl, hreached⟩

theorem run_halTimebaseBusyWait (hdelay : delay ≠ 0) :
    (halTimebaseBusyWait w polls delay).run now =
      (halTimebaseBusyWait.loop w (w.tick now) (delay + 1) polls).run (now + 1) := by
  rw [halTimebaseBusyWait, if_pos hdelay]
  rfl

/-- One tick is added to the delay, so `UINT32_MAX` becomes zero. -/
theorem delay_succ (hmax : delay ≠ BitVec.allOnes 32) :
    (delay + 1).toNat = delay.toNat + 1 := by
  have hne : delay.toNat ≠ 2 ^ 32 - 1 := fun h => hmax (BitVec.eq_of_toNat_eq h)
  have hlt := delay.isLt
  rw [BitVec.toNat_add]
  exact Nat.mod_eq_of_lt (by show delay.toNat + 1 < 2 ^ 32; omega)

/-- **`hal_timebase_busy_wait` waits for the time it is given**, and for one tick more. -/
theorem busyWait_least (hdelay : delay ≠ 0) (hmax : delay ≠ BitVec.allOnes 32)
    (hrun : (halTimebaseBusyWait (tm.world ready miso) polls delay).run n = some ((), n')) :
    n < n' ∧ delay.toNat < tm.ticks n' - tm.ticks n := by
  rw [run_halTimebaseBusyWait hdelay] at hrun
  obtain ⟨k, hk, rfl, hreached⟩ := busyWait_loop_reason polls hrun
  have hsystick := systick_sub_le tm (by omega : n ≤ k)
  have hge : delay.toNat + 1 ≤ ((tm.vars k).systick - (tm.vars n).systick).toNat := by
    rw [← delay_succ hmax]
    exact Nat.not_lt.1 hreached
  have hmono : tm.ticks k ≤ tm.ticks (k + 1) := ticks_mono tm (Nat.le_succ k)
  exact ⟨by omega, by omega⟩

/-- The interrupt does not cease, and within three calls it does not come so often that the counter
overtakes a wait of `delay`. -/
structure Timer.Steady (tm : Timer) (delay : Nat) : Prop where
  unbounded : ∀ b, ∃ m, b < tm.ticks m
  rate : ∀ m, tm.ticks (m + 3) - tm.ticks m + delay < 2 ^ 32

theorem Timer.Steady.mono {delay delay' : Nat} (h : tm.Steady delay) (hle : delay' ≤ delay) :
    tm.Steady delay' where
  unbounded := h.unbounded
  rate := fun m => by
    have hrate := h.rate m
    omega

/-- It returns, given polls enough. -/
theorem busyWait_returns (hdelay : delay ≠ 0) (hmax : delay ≠ BitVec.allOnes 32)
    (hsteady : tm.Steady delay.toNat) (n : Nat) : ∃ n', ∀ᶠ polls in atTop,
      (halTimebaseBusyWait (tm.world ready miso) polls delay).run n = some ((), n') := by
  have hex : ∃ k, delay.toNat < tm.ticks (n + 1 + k) - tm.ticks n := by
    obtain ⟨m, hm⟩ := hsteady.unbounded (tm.ticks n + delay.toNat)
    have hmono := ticks_mono tm (Nat.le_add_left m (n + 1))
    exact ⟨m, by omega⟩
  obtain ⟨k, hk, hleast⟩ : ∃ k, delay.toNat < tm.ticks (n + 1 + k) - tm.ticks n ∧
      ∀ j < k, tm.ticks (n + 1 + j) - tm.ticks n ≤ delay.toNat :=
    ⟨Nat.find hex, Nat.find_spec hex, fun j hj => Nat.not_lt.1 (Nat.find_min hex hj)⟩
  have htick (j : Nat) : ((tm.vars (n + 1 + j)).systick - (tm.vars n).systick).toNat =
      (tm.ticks (n + 1 + j) - tm.ticks n) % 2 ^ 32 := systick_sub tm (by omega)
  -- the reading before is within the delay, so the counter has not come round
  have hprev : tm.ticks (n + k) - tm.ticks n ≤ delay.toNat := by
    cases k with
    | zero => exact (Nat.sub_self (tm.ticks n)).trans_le (Nat.zero_le _)
    | succ k =>
      rw [Nat.add_comm k, ← Nat.add_assoc]
      exact hleast k (Nat.lt_succ_self k)
  have hshort : tm.ticks (n + 1 + k) - tm.ticks n < 2 ^ 32 := by
    have hrate := hsteady.rate (n + k)
    have hmono := ticks_mono tm (Nat.le_add_right n k)
    have hnext := ticks_mono tm (by omega : n + 1 + k ≤ n + k + 3)
    omega
  refine ⟨n + 1 + k + 1, ?_⟩
  filter_upwards [eventually_gt_atTop k] with polls hpolls
  rw [run_halTimebaseBusyWait hdelay]
  refine busyWait_loop_returns k (fun j hj => ?_) ?_ hpolls
  · rw [BitVec.lt_def, delay_succ hmax]
    exact (htick j).trans_lt ((Nat.mod_le _ _).trans_lt (Nat.lt_succ_of_le (hleast j hj)))
  · rw [BitVec.lt_def, delay_succ hmax]
    have heq := (htick k).trans (Nat.mod_eq_of_lt hshort)
    exact fun h => absurd (heq.symm.trans_lt h) (by omega)

theorem run_reset (w : World) (polls n : Nat) :
    (platformBmliteReset w polls).run n =
      ((halTimebaseBusyWait w polls 100).run (n + 1)).bind fun y =>
        ((halTimebaseBusyWait w polls 100).run (y.2 + 1)).map fun z =>
          ([(false, n), (true, y.2)], z.2) := by
  show ((halTimebaseBusyWait w polls 100).run (n + 1)).bind _ = _
  refine congrArg (Option.bind _) (funext fun y => ?_)
  exact (Option.map_eq_bind ..).symm

/-- **The reset pulse.**  With the timer interrupt coming whenever it likes, the reset pin is low
for more than 100 interrupts, and more than 100 come before `platform_bmlite_reset` returns; and it
does return if the interrupt does not cease. -/
theorem reset_pulse (tm : Timer) (ready : Nat → Bool) (miso : Nat → Nat → List Byte) (n : Nat) :
    (∀ polls pulse n', (platformBmliteReset (tm.world ready miso) polls).run n = some (pulse, n') →
      ∃ n₁, pulse = [(false, n), (true, n₁)] ∧ 100 < tm.ticks n₁ - tm.ticks n ∧
        100 < tm.ticks n' - tm.ticks n₁) ∧
    (tm.Steady 100 → ∃ pulse n', ∀ᶠ polls in atTop,
      (platformBmliteReset (tm.world ready miso) polls).run n = some (pulse, n')) := by
  have hdelay : (100 : BitVec 32) ≠ 0 := by decide
  have hmax : (100 : BitVec 32) ≠ BitVec.allOnes 32 := by decide
  constructor
  · intro polls pulse n' hrun
    rw [run_reset] at hrun
    obtain ⟨⟨⟨⟩, n₁⟩, hlow, hafter⟩ := Option.bind_eq_some_iff.1 hrun
    obtain ⟨⟨⟨⟩, n₂⟩, hhigh, hpulse⟩ := Option.map_eq_some_iff.1 hafter
    obtain ⟨rfl, rfl⟩ := Prod.mk.inj hpulse
    have hpulse : 100 < tm.ticks n₁ - tm.ticks (n + 1) := (busyWait_least hdelay hmax hlow).2
    have hsettle : 100 < tm.ticks n₂ - tm.ticks (n₁ + 1) := (busyWait_least hdelay hmax hhigh).2
    have hmono : tm.ticks n ≤ tm.ticks (n + 1) := ticks_mono tm (Nat.le_succ n)
    have hmono₁ : tm.ticks n₁ ≤ tm.ticks (n₁ + 1) := ticks_mono tm (Nat.le_succ n₁)
    exact ⟨n₁, rfl, by omega, by show 100 < tm.ticks n₂ - tm.ticks n₁; omega⟩
  · intro hsteady
    have hwait (n : Nat) : ∃ n', ∀ᶠ polls in atTop,
        (halTimebaseBusyWait (tm.world ready miso) polls 100).run n = some ((), n') :=
      busyWait_returns hdelay hmax hsteady n
    obtain ⟨n₁, hlow⟩ := hwait (n + 1)
    obtain ⟨n₂, hhigh⟩ := hwait (n₁ + 1)
    refine ⟨[(false, n), (true, n₁)], n₂, ?_⟩
    filter_upwards [hlow, hhigh] with polls hlow hhigh
    rw [run_reset, hlow]
    show Option.map _ ((halTimebaseBusyWait _ polls 100).run (n₁ + 1)) = _
    rw [hhigh]
    rfl

/-- With one interrupt after each call, the counter is the number of the call. -/
theorem ticks_single (hone : ∀ n, (tm.samples n).length = 1) (n : Nat) : tm.ticks n = n := by
  induction n with
  | zero => rfl
  | succ n ih => rw [Timer.ticks, ih, hone]

theorem steady_single (hone : ∀ n, (tm.samples n).length = 1) {delay : Nat}
    (h : delay + 3 < 2 ^ 32) : tm.Steady delay where
  unbounded b := ⟨b + 1, by rw [ticks_single hone]; exact Nat.lt_succ_self b⟩
  rate m := by
    rw [ticks_single hone, ticks_single hone]
    omega

theorem reset_pulse_steady : ∃ pulse n', ∀ᶠ polls in atTop,
    (platformBmliteReset mute polls).run 0 = some (pulse, n') :=
  (reset_pulse tickTimer _ _ 0).2 (steady_single (fun _ => rfl) (by decide))

end BMLite
