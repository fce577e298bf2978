import BMLite.Hcp
import BMLite.Lib.Oracle

/-!
# `platform.c`: the callbacks of the example program

* `World` — what the calls of the hardware layer return, each at a moment of its own;
* `sendProg`, `receiveProg` — the two callbacks, statement by statement, as programs that ask the
  hardware layer, so that their calls can be listed;
* `platformBmliteSend`, `platformBmliteReceive` — what they do in a world;
* `platformEnv` — the channel that they make up;
* `Quiet`, `receive_quiet` — while the ready pin is low and a button press is pending, every read
  returns `TIMEOUT`.

`hal_bmlite_spi_write_read` returns OK and fills the block that it reads into; which bytes it
clocks in is left to the world.  The polling loop of `platform_bmlite_receive` has no bound in the
source; here it is cut off after a given number of polls.
-/

set_option autoImplicit false

namespace BMLite

open Oracle Process

/-! ## The hardware layer -/

inductive HalCall where
  | getStatus
  | getTick
  | checkButtonPressed
  | spiWriteRead (size : Nat)
  deriving DecidableEq

def HalCall.Answer : HalCall → Type
  | .getStatus => Bool
  | .getTick => BitVec 32
  | .checkButtonPressed => BitVec 32
  | .spiWriteRead _ => List Byte

/-- The answers of the hardware layer, by the number of calls made before. -/
structure World where
  /-- `hal_bmlite_get_status`. -/
  ready : Nat → Bool
  /-- `hal_timebase_get_tick`. -/
  tick : Nat → BitVec 32
  /-- `hal_check_button_pressed`. -/
  button : Nat → BitVec 32
  /-- The bytes that `hal_bmlite_spi_write_read` clocks in. -/
  miso : Nat → (size : Nat) → List Byte

/-- The world as an oracle. -/
def World.answer (w : World) (n : Nat) : (q : HalCall) → q.Answer
  | .getStatus => w.ready n
  | .getTick => w.tick n
  | .checkButtonPressed => w.button n
  | .spiWriteRead size => w.miso n size

abbrev HalProg := Prog HalCall HalCall.Answer

def getStatus : HalProg Bool := query HalCall.getStatus

def getTick : HalProg (BitVec 32) := query HalCall.getTick

def checkButtonPressed : HalProg (BitVec 32) := query HalCall.checkButtonPressed

def spiRead (size : Nat) : HalProg (List Byte) := query (HalCall.spiWriteRead size)

/-! ## The callbacks -/

/-- `platform_bmlite_send`. -/
def sendProg (size : Nat) : HalProg FpcBepResult := do
  let _ ← spiRead size
  return FPC_BEP_RESULT_OK

/-- The polling loop of `platform_bmlite_receive`: `curr_time` at its end, or `none` if a button
press was pending. -/
def receiveProg.wait (timeout startTime : BitVec 32) :
    (polls : Nat) → (currTime : BitVec 32) → HalProg (Option (BitVec 32))
  | 0, _ => .out
  | polls + 1, currTime => do
    if ← getStatus then
      return some currTime
    else if timeout = 0 then
      if (← checkButtonPressed) ≠ 0 then
        return none
      else
        receiveProg.wait timeout startTime polls currTime
    else
      let currTime ← getTick
      if currTime - startTime < timeout then
        if (← checkButtonPressed) ≠ 0 then
          return none
        else
          receiveProg.wait timeout startTime polls currTime
      else
        return some currTime

/-- `platform_bmlite_receive`: its result and the bytes it stores, none if it does not get as far
as the transfer. -/
def receiveProg (polls size : Nat) (timeout : BitVec 32) : HalProg (FpcBepResult × List Byte) := do
  let startTime ← getTick
  match ← receiveProg.wait timeout startTime polls startTime with
  | none => return (FPC_BEP_RESULT_TIMEOUT, [])
  | some currTime =>
    if timeout ≠ 0 ∧ timeout ≤ currTime - startTime then
      return (FPC_BEP_RESULT_TIMEOUT, [])
    else
      let data ← spiRead size
      return (FPC_BEP_RESULT_OK, data)

/-! ## In a world -/

/-- A function of the platform: it counts the calls of the hardware layer, and has no result if its
loop goes on for more polls than it was given. -/
abbrev Hal := StateT Nat Option

variable {w : World} {now now' polls : Nat} {α : Type}

def World.run (w : World) (p : HalProg α) : Hal α := p.count w.answer

@[simp] theorem world_run_pure (a : α) : (w.run (pure a)).run now = some (a, now) := rfl

theorem world_run_bind {β : Type} (p : HalProg α) (f : α → HalProg β) :
    (w.run (p >>= f)).run now = ((w.run p).run now).bind fun x => (w.run (f x.1)).run x.2 :=
  count_bind ..

@[simp] theorem world_run_getStatus (f : Bool → HalProg α) :
    (w.run (getStatus >>= f)).run now = (w.run (f (w.ready now))).run (now + 1) :=
  count_query_bind ..

@[simp] theorem world_run_getTick (f : BitVec 32 → HalProg α) :
    (w.run (getTick >>= f)).run now = (w.run (f (w.tick now))).run (now + 1) :=
  count_query_bind ..

@[simp] theorem world_run_checkButton (f : BitVec 32 → HalProg α) :
    (w.run (checkButtonPressed >>= f)).run now = (w.run (f (w.button now))).run (now + 1) :=
  count_query_bind ..

@[simp] theorem world_run_spiRead (size : Nat) (f : List Byte → HalProg α) :
    (w.run (spiRead size >>= f)).run now = (w.run (f (w.miso now size))).run (now + 1) :=
  count_query_bind ..

def halTimebaseGetTick (w : World) : Hal (BitVec 32) := w.run getTick

@[simp] theorem run_halTimebaseGetTick (w : World) (now : Nat) :
    (halTimebaseGetTick w).run now = some (w.tick now, now + 1) := rfl

def platformBmliteSend (w : World) (data : List Byte) : Hal FpcBepResult :=
  w.run (sendProg data.length)

def platformBmliteReceive.wait (w : World) (timeout startTime : BitVec 32) (polls : Nat)
    (currTime : BitVec 32) : Hal (Option (BitVec 32)) :=
  w.run (receiveProg.wait timeout startTime polls currTime)

def platformBmliteReceive (w : World) (polls size : Nat) (timeout : BitVec 32) :
    Hal (FpcBepResult × List Byte) := w.run (receiveProg polls size timeout)

/-- The callbacks as a channel.  A read into a local variable that stores nothing delivers nothing
here: it returns `TIMEOUT`, after which the variable is not looked at. -/
def platformEnv (w : World) (polls : Nat) : Env Byte FpcBepResult Nat where
  onWrite now data _ := (platformBmliteSend w data).run now
  onRead now size timeout :=
    (platformBmliteReceive w polls size (BitVec.ofNat 32 timeout)).run now

/-- One poll. -/
theorem wait_succ (w : World) (timeout startTime : BitVec 32) (polls : Nat) (currTime : BitVec 32)
    (now : Nat) :
    (platformBmliteReceive.wait w timeout startTime (polls + 1) currTime).run now =
      if w.ready now = true then some (some currTime, now + 1)
      else if timeout = 0 then
        if w.button (now + 1) ≠ 0 then some (none, now + 2)
        else (platformBmliteReceive.wait w timeout startTime polls currTime).run (now + 2)
      else if w.tick (now + 1) - startTime < timeout then
        if w.button (now + 2) ≠ 0 then some (none, now + 3)
        else (platformBmliteReceive.wait w timeout startTime polls (w.tick (now + 1))).run (now + 3)
      else some (some (w.tick (now + 1)), now + 2) := by
  rw [platformBmliteReceive.wait, receiveProg.wait, world_run_getStatus]
  split
  · rfl
  split
  · rw [world_run_checkButton]
    split <;> rfl
  · rw [world_run_getTick]
    split
    · rw [world_run_checkButton]
      split <;> rfl
    · rfl

/-- What comes after the loop. -/
theorem receive_eq (w : World) (polls size : Nat) (timeout : BitVec 32) (now : Nat) :
    (platformBmliteReceive w polls size timeout).run now =
      ((platformBmliteReceive.wait w timeout (w.tick now) polls (w.tick now)).run
        (now + 1)).bind fun x =>
          match x.1 with
          | none => some ((FPC_BEP_RESULT_TIMEOUT, []), x.2)
          | some currTime =>
            if timeout ≠ 0 ∧ timeout ≤ currTime - w.tick now then
              some ((FPC_BEP_RESULT_TIMEOUT, []), x.2)
            else some ((FPC_BEP_RESULT_OK, w.miso x.2 size), x.2 + 1) := by
  rw [platformBmliteReceive, receiveProg, world_run_getTick, world_run_bind]
  refine congrArg (Option.bind _) (funext fun x => ?_)
  obtain ⟨r, now₁⟩ := x
  cases r with
  | none => rfl
  | some currTime =>
    dsimp only
    split <;> rfl

/-! ## A pending button press -/

/-- From `now` on, the ready pin stays low and a button press is pending. -/
def Quiet (w : World) (now : Nat) : Prop := ∀ n, now ≤ n → w.ready n = false ∧ w.button n ≠ 0

theorem Quiet.mono (h : Quiet w now) (hle : now ≤ now') : Quiet w now' :=
  fun n hn => h n (hle.trans hn)

/-- The loop ends in its first poll. -/
theorem wait_quiet (h : Quiet w now) (timeout startTime currTime : BitVec 32) :
    (platformBmliteReceive.wait w timeout startTime (polls + 1) currTime).run now =
      if timeout = 0 then some (none, now + 2)
      else if w.tick (now + 1) - startTime < timeout then some (none, now + 3)
      else some (some (w.tick (now + 1)), now + 2) := by
  have hready : w.ready now = false := (h now (Nat.le_refl now)).1
  have hbutton₁ : w.button (now + 1) ≠ 0 := (h _ (by omega)).2
  have hbutton₂ : w.button (now + 2) ≠ 0 := (h _ (by omega)).2
  rw [wait_succ, hready, if_neg Bool.false_ne_true, if_pos hbutton₁, if_pos hbutton₂]

/-- **A read while a button press is pending** returns `TIMEOUT` and stores nothing. -/
theorem receive_quiet (h : Quiet w now) {size : Nat} {timeout : BitVec 32}
    {r : FpcBepResult} {d : List Byte}
    (hrun : (platformBmliteReceive w polls size timeout).run now = some ((r, d), now')) :
    r = FPC_BEP_RESULT_TIMEOUT ∧ d = [] ∧ now ≤ now' := by
  rw [receive_eq] at hrun
  cases polls with
  | zero => cases hrun
  | succ polls =>
    rw [wait_quiet (h.mono (Nat.le_succ now))] at hrun
    split at hrun
    · cases hrun
      exact ⟨rfl, rfl, by omega⟩
    rename_i hzero
    split at hrun
    · cases hrun
      exact ⟨rfl, rfl, by omega⟩
    rename_i htick
    rw [Option.bind_some] at hrun
    dsimp only at hrun
    rw [if_pos ⟨hzero, BitVec.not_lt.1 htick⟩] at hrun
    cases hrun
    exact ⟨rfl, rfl, by omega⟩

end BMLite
