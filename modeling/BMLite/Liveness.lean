import BMLite.Composed
import BMLite.HalLeds
import BMLite.Lib.Progress

/-!
# No wait goes on for ever

The callbacks on the timer once more; now the interrupt does not cease.

* `read_returns`, `read_pressed` — a read with a timeout returns, and so does every read while a
  press is waiting;
* `mainMachine` — the platform with the callbacks of `main.c` and with the busy waits of the commands;
  `touch_returns` — they return;
* `acks`, `tranceive_out` — an exchange goes on for ever only if the module keeps sending frames;
  `Composed.held` — and so does a call;
* `session_ends` — **every sequence of calls comes to an end**, whatever the module does, if none of
  them waits without a timeout;
* `session_pressed` — **a button press ends every wait**.
-/

set_option autoImplicit false

namespace BMLite

open Filter FlatMemory Oracle Process

variable {tm : Timer} {ready : Nat → Bool} {miso : Nat → Nat → List Byte} {n n' m bound : Nat}

/-! ## One read -/

/-- A poll before `start` plus the timeout is one that has not seen it. -/
theorem ticks_lt {timeout : BitVec 32} {start : Nat} (hle : start ≤ n)
    (hshort : tm.ticks n - tm.ticks start < 2 ^ 32)
    (hlt : (tm.vars n).systick - (tm.vars start).systick < timeout) :
    tm.ticks n - tm.ticks start < timeout.toNat := by
  have hdiff := systick_sub tm hle
  rw [Nat.mod_eq_of_lt hshort] at hdiff
  rw [← hdiff]
  exact hlt

/-- The loop: `m` is a call before which the timeout has passed, and `left` polls are enough to get
there. -/
theorem wait_returns {timeout : BitVec 32} (hsteady : tm.Steady bound) (hne : timeout ≠ 0)
    (hle : timeout.toNat ≤ bound) {start : Nat}
    (hm : timeout.toNat ≤ tm.ticks m - tm.ticks start) (left : Nat) :
    ∀ {now : Nat} {currTime : BitVec 32}, start ≤ now → m ≤ now + 1 + left →
      tm.ticks (now + 1) - tm.ticks start < 2 ^ 32 →
      ∃ y, ∀ polls, left ≤ polls →
        (platformBmliteReceive.wait (tm.world ready miso) timeout (tm.vars start).systick
          (polls + 1) currTime).run now = some y := by
  induction left with
  | zero =>
    intro now currTime hnow hend hshort
    have hticks : tm.ticks m ≤ tm.ticks (now + 1) := ticks_mono tm hend
    have hexit : ¬ (tm.vars (now + 1)).systick - (tm.vars start).systick < timeout :=
      fun hlt => absurd (ticks_lt (by omega) hshort hlt) (by omega)
    by_cases hready : ready now = true
    · exact ⟨_, fun polls _ => (wait_succ ..).trans (if_pos hready)⟩
    · exact ⟨_, fun polls _ => (wait_succ ..).trans <| (if_neg hready).trans <|
        (if_neg hne).trans (if_neg hexit)⟩
  | succ left ih =>
    intro now currTime hnow hend hshort
    by_cases hready : ready now = true
    · exact ⟨_, fun polls _ => (wait_succ ..).trans (if_pos hready)⟩
    by_cases hexit : (tm.vars (now + 1)).systick - (tm.vars start).systick < timeout
    · by_cases hbutton : (tm.vars (now + 2)).buttonPressedTime ≠ 0
      · exact ⟨_, fun polls _ => (wait_succ ..).trans <| (if_neg hready).trans <|
          (if_neg hne).trans <| (if_pos hexit).trans (if_pos hbutton)⟩
      · -- the time has not passed yet, so three calls later the counter has not come round
        have hlt := ticks_lt (by omega) hshort hexit
        have hrate : tm.ticks (now + 3 + 1) - tm.ticks (now + 1) + bound < 2 ^ 32 :=
          hsteady.rate (now + 1)
        have hmono := ticks_mono tm (by omega : start ≤ now + 1)
        obtain ⟨y, hy⟩ := @ih (now + 3) (tm.vars (now + 1)).systick (by omega) (by omega)
          (by omega)
        refine ⟨y, fun polls hpolls => ?_⟩
        obtain ⟨polls, rfl⟩ := Nat.exists_eq_succ_of_ne_zero (by omega : polls ≠ 0)
        exact (wait_succ ..).trans <| (if_neg hready).trans <| (if_neg hne).trans <|
          (if_pos hexit).trans <| (if_neg hbutton).trans (hy polls (by omega))
    · exact ⟨_, fun polls _ => (wait_succ ..).trans <| (if_neg hready).trans <|
        (if_neg hne).trans (if_neg hexit)⟩

/-- What the loop has come to decides what the function does. -/
theorem receive_of_wait {w : World} {size : Nat} {timeout : BitVec 32}
    {y : Option (BitVec 32) × Nat}
    (h : ∀ᶠ polls in atTop, (platformBmliteReceive.wait w timeout (w.tick n) polls (w.tick n)).run
      (n + 1) = some y) :
    ∃ z, n ≤ z.2 ∧ ∀ᶠ polls in atTop,
      (platformBmliteReceive w polls size timeout).run n = some z := by
  obtain ⟨z, hz⟩ : ∃ z, ∀ᶠ polls in atTop,
      (platformBmliteReceive w polls size timeout).run n = some z := by
    obtain ⟨_ | currTime, now⟩ := y
    · refine ⟨((FPC_BEP_RESULT_TIMEOUT, []), now), h.mono fun polls hwait => ?_⟩
      rw [receive_eq, hwait]
      rfl
    · by_cases hpassed : timeout ≠ 0 ∧ timeout ≤ currTime - w.tick n
      · refine ⟨((FPC_BEP_RESULT_TIMEOUT, []), now), h.mono fun polls hwait => ?_⟩
        rw [receive_eq, hwait]
        exact if_pos hpassed
      · refine ⟨((FPC_BEP_RESULT_OK, w.miso now size), now + 1), h.mono fun polls hwait => ?_⟩
        rw [receive_eq, hwait]
        exact if_neg hpassed
  obtain ⟨polls, hpolls⟩ := hz.exists
  exact ⟨z, receive_now hpolls, hz⟩

theorem write_returns {w : World} (n : Nat) (data : List Byte) (t : Nat) :
    ∀ᶠ polls in atTop,
      (platformEnv w polls).onWrite n data t = some (FPC_BEP_RESULT_OK, n + 1) :=
  .of_forall fun _ => rfl

/-- **A read with a timeout returns.** -/
theorem read_returns {size t : Nat} (hsteady : tm.Steady bound) (hne : t % 2 ^ 32 ≠ 0)
    (hle : t % 2 ^ 32 ≤ bound) : ∃ y, n ≤ y.2 ∧ ∀ᶠ polls in atTop,
      (platformEnv (tm.world ready miso) polls).onRead n size t = some y := by
  have hnat : (BitVec.ofNat 32 t).toNat = t % 2 ^ 32 := BitVec.toNat_ofNat t 32
  have htimeout : BitVec.ofNat 32 t ≠ 0 := fun h => hne (hnat.symm.trans (congrArg _ h))
  obtain ⟨m, hm⟩ := hsteady.unbounded (tm.ticks n + t)
  have hmod := Nat.mod_le t (2 ^ 32)
  have hrate := hsteady.rate n
  have hmono : tm.ticks (n + 1 + 1) ≤ tm.ticks (n + 3) := ticks_mono tm (Nat.le_succ (n + 2))
  obtain ⟨y, hy⟩ : ∃ y, ∀ polls, m ≤ polls → (platformBmliteReceive.wait (tm.world ready miso)
      (BitVec.ofNat 32 t) (tm.vars n).systick (polls + 1) (tm.vars n).systick).run (n + 1) =
        some y :=
    wait_returns hsteady htimeout (hnat.trans_le hle) (by omega : _ ≤ tm.ticks m - tm.ticks n) m
      (Nat.le_succ n) (by omega) (by omega)
  refine receive_of_wait (y := y) ((eventually_gt_atTop m).mono fun polls hpolls => ?_)
  obtain ⟨polls, rfl⟩ := Nat.exists_eq_succ_of_ne_zero (by omega : polls ≠ 0)
  exact hy polls (by omega)

/-- **A read while a press is waiting returns**, also one without a timeout. -/
theorem read_pressed {size t : Nat} (hshort : tm.Short) (hpress : tm.Waiting n) :
    ∃ y, n ≤ y.2 ∧ ∀ᶠ polls in atTop,
      (platformEnv (tm.world ready miso) polls).onRead n size t = some y := by
  have hbutton {m : Nat} (hle : n ≤ m) : (tm.vars m).buttonPressedTime ≠ 0 := by
    obtain ⟨d, hd, -, hfetch⟩ := hpress.mono hshort hle
    intro hzero
    rw [halGetButtonPressTime.fetch, hzero] at hfetch
    exact absurd hfetch (Nat.ne_of_lt hd)
  obtain ⟨y, hy⟩ : ∃ y, ∀ polls, (platformBmliteReceive.wait (tm.world ready miso)
      (BitVec.ofNat 32 t) (tm.vars n).systick (polls + 1) (tm.vars n).systick).run (n + 1) =
        some y := by
    by_cases hready : ready (n + 1) = true
    · exact ⟨_, fun polls => (wait_succ ..).trans (if_pos hready)⟩
    by_cases hzero : BitVec.ofNat 32 t = 0
    · exact ⟨_, fun polls => (wait_succ ..).trans <| (if_neg hready).trans <|
        (if_pos hzero).trans (if_pos (hbutton (by omega)))⟩
    by_cases hexit : (tm.vars (n + 1 + 1)).systick - (tm.vars n).systick < BitVec.ofNat 32 t
    · exact ⟨_, fun polls => (wait_succ ..).trans <| (if_neg hready).trans <|
        (if_neg hzero).trans <| (if_pos hexit).trans (if_pos (hbutton (by omega)))⟩
    · exact ⟨_, fun polls => (wait_succ ..).trans <| (if_neg hready).trans <|
        (if_neg hzero).trans (if_neg hexit)⟩
  refine receive_of_wait (y := y) ((eventually_gt_atTop 0).mono fun polls hpolls => ?_)
  obtain ⟨polls, rfl⟩ := Nat.exists_eq_succ_of_ne_zero (Nat.ne_of_gt hpolls)
  exact hy polls

/-! ## The program on its machine -/

/-- The platform, with the callbacks of `main.c`.  The waits go on while the interrupt counts; after
the dereference of a null pointer nothing is known, and the program does not go on. -/
def mainMachine (w : World) (polls : Nat) : Machine Action Byte FpcBepResult Nat where
  toEnv := platformEnv w polls
  onTouch now
    | .access _ => some now
    | .callback cb => ((perform w polls (mainCallback cb)).run now).map Prod.snd
    | .busyWait ticks => ((halTimebaseBusyWait w polls (.ofNat 32 ticks)).run now).map Prod.snd
    | .null => none

/-- The callbacks, and the busy wait of the commands. -/
def Action.Waits : Action → Prop
  | .callback _ => True
  | .busyWait ticks => ticks = 50
  | _ => False

theorem BepCall.actions_waits (call : BepCall) : ∀ a ∈ call.actions, a.Waits := by
  cases call <;> simp [BepCall.actions, enrollActions, identifyActions, captureActions,
    Action.Waits]

/-- **What a call does besides the channel** comes to an end. -/
theorem touch_returns (hsteady : tm.Steady 500) {a : Action} (h : a.Plain ∨ a.Waits) (n : Nat) :
    ∃ n', n ≤ n' ∧ ∀ᶠ polls in atTop,
      (mainMachine (tm.world ready miso) polls).onTouch n a = some n' := by
  cases a with
  | access acc => exact ⟨n, le_rfl, .of_forall fun _ => rfl⟩
  | callback cb =>
    obtain ⟨n', hle, hperform⟩ := perform_returns hsteady (mainCallback_short cb) n
    exact ⟨n', hle, hperform.mono fun _ hrun => congrArg (Option.map Prod.snd) hrun⟩
  | busyWait ticks =>
    obtain rfl : ticks = 50 := h.elim False.elim id
    obtain ⟨n', hle, hwait⟩ := wait_steady hsteady (by decide : (50 : BitVec 32) ≠ 0) (by decide) n
    exact ⟨n', hle, hwait.mono fun _ hrun => congrArg (Option.map Prod.snd) hrun⟩
  | null => exact (h.elim id id).elim

/-! ## Going on for ever -/

/-- The ACKs that the host has written. -/
def acks (es : List HcpEvent) : Nat :=
  es.countP fun e => match e with
    | .write data _ _ => data = fpcComAck
    | _ => false

theorem acks_append (es fs : List HcpEvent) : acks (es ++ fs) = acks es + acks fs :=
  List.countP_append

/-- In the last exchange, which is not finished, as many frames have been acknowledged as it was
given rounds. -/
def Held (rounds : Nat) (es : List HcpEvent) : Prop :=
  ∃ es₁ es₂, es = es₁ ++ es₂ ∧ exchanges es₂ = [] ∧ rounds ≤ acks es₂

variable {c : HcpComm} {es : List HcpEvent}

theorem Held.append {rounds : Nat} (h : Held rounds es) (fs : List HcpEvent) :
    Held rounds (fs ++ es) := by
  obtain ⟨es₁, es₂, rfl, hes⟩ := h
  exact ⟨fs ++ es₁, es₂, (List.append_assoc ..).symm, hes⟩

/-- A report does not cut anything off. -/
theorem steps_out_reportIf {α : Type} {b : Prop} [Decidable b] {value : FpcBepResult}
    {p : HcpProc α} : Steps (reportIf b value p) es .out ↔ Steps p es .out := by
  unfold reportIf
  split
  · exact steps_out_touch
  · exact Iff.rfl

theorem reportResult_out {x : FpcBepResult × HcpComm} : ¬ Steps (reportResult x) es .out :=
  fun h => steps_out_ret (steps_out_reportIf.1 h)

theorem txLink_out : ¬ Steps (txLink.run c) es .out := by
  intro h
  rw [txLink_run] at h
  simp only [steps_out_touch, steps_out_write, steps_out_read] at h
  obtain ⟨w, _, -, r, d, fs, -, h⟩ := h
  exact steps_out_ret (steps_out_reportIf.1 h)

/-- The loop of `bmlite_send` has rounds enough. -/
theorem send_loop_out (rounds : Nat) :
    ∀ {c : HcpComm} {seqLen seqNr dataLeft p : Nat} {bepResult : FpcBepResult}
      {es : List HcpEvent}, seqLen < seqNr + rounds → seqLen < 65535 →
      ¬ Steps ((bmliteSend.loop APP_MTU seqLen (rounds + 1) seqNr dataLeft p bepResult).run c) es
        .out := by
  induction rounds with
  | zero =>
    intro c seqLen seqNr dataLeft p bepResult es hlt _ h
    rw [bmliteSend.loop, if_neg (fun hgo => absurd hgo.1 (by omega))] at h
    exact steps_out_ret h
  | succ rounds ih =>
    intro c seqLen seqNr dataLeft p bepResult es hlt hlen h
    by_cases hgo : seqNr ≤ seqLen ∧ bepResult = FPC_BEP_RESULT_OK
    · obtain ⟨hgo, rfl⟩ := hgo
      rw [send_loop_run hgo, buildChunk] at h
      simp only [steps_out_touch] at h
      rcases steps_out_bind h with h | ⟨y, es₁, es₂, rfl, -, h⟩
      · exact txLink_out h
      · exact ih (by omega) hlen h
    · rw [bmliteSend.loop, if_neg hgo] at h
      exact steps_out_ret h

theorem send_out : ¬ Steps (bmliteSend.run c) es .out := by
  intro h
  have hlen := outgoing_length_lt c
  rw [send_run, steps_out_touch, steps_out_touch] at h
  rcases steps_out_bind h with h | ⟨y, es₁, es₂, rfl, -, h⟩
  · refine send_loop_out _ (by omega) ?_ h
    simp only [APP_MTU, MTU]
    omega
  · exact reportResult_out h

theorem rxLink_out : ¬ Steps (rxLink.run c) es .out := by
  intro h
  rw [rxLink_run, steps_out_touch, steps_out_read] at h
  obtain ⟨r, d, fs, -, h⟩ := h
  dsimp only at h
  split at h
  · exact steps_out_ret h
  rw [steps_out_touch] at h
  split at h
  · exact steps_out_ret (steps_out_touch.1 h)
  rw [steps_out_touch, steps_out_read] at h
  obtain ⟨r', d', gs, -, h⟩ := h
  rw [steps_out_touch, steps_out_touch] at h
  split at h
  · obtain ⟨w, ks, -, h⟩ := steps_out_write.1 h
    exact steps_out_ret h
  · exact steps_out_ret (steps_out_touch.1 h)

/-- The loop of `bmlite_receive` is cut off after as many frames as it was given rounds. -/
theorem receive_loop_out (rounds : Nat) :
    ∀ {c : HcpComm} {seqNr seqLen p bufLen : Nat} {comResult : FpcBepResult}
      {es : List HcpEvent},
      Steps ((bmliteReceive.loop rounds seqNr seqLen p bufLen comResult).run c) es .out →
      exchanges es = [] ∧ rounds ≤ acks es := by
  induction rounds with
  | zero =>
    intro c seqNr seqLen p bufLen comResult es h
    cases h
    exact ⟨rfl, Nat.zero_le _⟩
  | succ rounds ih =>
    intro c seqNr seqLen p bufLen comResult es h
    by_cases hgo : seqNr < seqLen
    · rw [receive_round_run hgo] at h
      rcases steps_out_bind h with h | ⟨⟨r, c₁⟩, es₁, es₂, rfl, hlink, h⟩
      · exact absurd h rxLink_out
      dsimp only at h
      split at h <;> rename_i hr
      · subst hr
        have hone : acks es₁ = 1 := by
          cases runs_rxLink.1 hlink with
          | noHeader hne => exact absurd rfl hne
          | accepted _ _ _ _ => rfl
        have hrest : exchanges es₂ = [] ∧ rounds ≤ acks es₂ := by
          simp only [copyChunk, steps_out_touch] at h
          split at h
          · rw [steps_out_touch, steps_out_touch] at h
            exact ih h
          · exact ih h
        rw [exchanges_append, exchanges_rxLink (runs_rxLink.1 hlink), hrest.1, acks_append]
        exact ⟨rfl, by omega⟩
      · exact absurd h reportResult_out
    · rw [receive_exit_run hgo] at h
      exact absurd h reportResult_out

/-- **An exchange is cut off** only after as many frames as it was given rounds. -/
theorem tranceive_out {rounds : Nat} (h : Steps ((bmliteTranceive rounds).run c) es .out) :
    exchanges es = [] ∧ rounds ≤ acks es := by
  simp only [bmliteTranceive, StateT.run_bind, StateT.run_get, pure_eq, ret_bind] at h
  rcases steps_out_bind h with h | ⟨⟨r, c₁⟩, es₁, es₂, rfl, hsend, h⟩
  · exact absurd h send_out
  dsimp only at h
  split at h
  · rw [StateT.run_bind] at h
    rcases steps_out_bind h with h | ⟨⟨r', c₂⟩, es₂, es₃, rfl, -, h⟩
    · obtain ⟨hnone, hacks⟩ := receive_loop_out rounds h
      rw [exchanges_append, exchanges_sent (runs_send_cases hsend).2, hnone, acks_append]
      exact ⟨rfl, Nat.le_add_left_of_le hacks⟩
    rw [StateT.run_bind] at h
    rcases steps_out_bind h with h | ⟨y, es₃, es₄, rfl, hget, h⟩
    · exact absurd h (getArg_returns c₂ ARG_RESULT).not_out
    obtain ⟨-, rfl⟩ := (getArg_returns c₂ ARG_RESULT _ _).1 hget
    cases hfound : c₂.findArg ARG_RESULT with
    | some a =>
      rw [hfound] at h
      obtain ⟨fs, -, h⟩ := steps_out_note.1 (steps_out_touch.1 h)
      exact absurd h steps_out_ret
    | none =>
      rw [hfound] at h
      obtain ⟨fs, -, h⟩ := steps_out_note.1 h
      exact absurd h steps_out_ret
  · obtain ⟨fs, -, h⟩ := steps_out_note.1 h
    exact absurd h steps_out_ret

variable {rounds : Nat} {act : Action → Prop} {ok : Nat → Prop} {P : Prop} {α : Type}

/-- **What is made of exchanges** is cut off only in one of them. -/
theorem Composed.held {machine : Machine Action Byte FpcBepResult Nat}
    (hnull : ∀ m, machine.onTouch m .null = none) {p : Hcp α} {Q : α → Prop}
    (h : Composed rounds act ok P p Q) : ∀ {c : HcpComm} {n : Nat}
      {y : Ending Exchange Byte FpcBepResult Nat (α × HcpComm)},
      machine.exec (p.run c) n = some y → y.result = none → Held rounds y.events := by
  -- a part that is not cut off is followed by the next one
  have hseq {α β : Type} {p : HcpProc α} {f : α → HcpProc β} {n : Nat}
      {z : Ending Exchange Byte FpcBepResult Nat β} (hexec : machine.exec (p >>= f) n = some z)
      (hcut : z.result = none)
      (hp : ∀ {y}, machine.exec p n = some y → y.result = none → Held rounds y.events)
      (hf : ∀ {a m y}, machine.exec (f a) m = some y → y.result = none → Held rounds y.events) :
      Held rounds z.events := by
    obtain ⟨y, hy, ⟨hnone, rfl⟩ | ⟨a, z₁, -, hz₁, rfl⟩⟩ := exec_bind hexec
    · exact hp hy hnone
    · exact (hf hz₁ hcut).append y.events
  have hsteps {α : Type} {p : HcpProc α} {n : Nat}
      {y : Ending Exchange Byte FpcBepResult Nat α} (hexec : machine.exec p n = some y)
      (hcut : y.result = none) : Steps p y.events .out := by
    have hlast := exec_steps hexec
    rwa [Ending.last, hcut] at hlast
  induction h with
  | silent hreturns _ _ _ =>
    exact fun hexec hcut => absurd (hsteps hexec hcut) (hreturns _).not_out
  | callback _ => exact fun hexec hcut => absurd (steps_out_touch.1 (hsteps hexec hcut)) steps_out_ret
  | busyWait _ => exact fun hexec hcut => absurd (steps_out_touch.1 (hsteps hexec hcut)) steps_out_ret
  | chainArg _ =>
    intro c n y hexec hcut
    rw [chainArg_run] at hexec
    split at hexec
    · exact absurd (hsteps hexec hcut) steps_out_ret
    · rw [Machine.exec, hnull] at hexec
      cases hexec
  | exchange => exact fun hexec hcut => ⟨[], _, rfl, tranceive_out (hsteps hexec hcut)⟩
  | bind _ _ ihm ihf =>
    intro c n y hexec hcut
    rw [StateT.run_bind] at hexec
    exact hseq hexec hcut ihm fun {a} => ihf a.1
  | withTimeout _ _ ih =>
    intro c n y hexec hcut
    simp only [BMLite.withTimeout, StateT.run_bind, StateT.run_get, StateT.run_modify, pure_eq,
      ret_bind] at hexec
    exact hseq hexec hcut ih fun hexec hcut => absurd (hsteps hexec hcut) steps_out_ret
  | conseq _ _ _ ih => exact ih

/-! ## Coming to an end -/

/-- A timeout of at most `bound` ticks. -/
abbrev Prompt (bound t : Nat) : Prop := t % 2 ^ 32 ≠ 0 ∧ t % 2 ^ 32 ≤ bound

/-- The calls return, or the module has sent, in one exchange, as many frames as it was given
rounds, and every one of them has been acknowledged. -/
def Terminates (w : World) (rounds : Nat) (calls : List BepCall) (c : HcpComm) (n : Nat) : Prop :=
  ∃ y, (∀ᶠ polls in atTop, (mainMachine w polls).exec ((session rounds calls).run c) n = some y) ∧
    (y.result = none → Held rounds y.events)

/-- A session ends if all its reads return, from every state of an invariant. -/
theorem session_ends_of_read (hsteady : tm.Steady 500) {ok : Nat → Prop} (hcrc : ok 100)
    (hack : ok 500) (hc : ok c.phyRxTimeout)
    (hread : ∀ m size t, n ≤ m → ok t → ∃ y, m ≤ y.2 ∧ ∀ᶠ polls in atTop,
      (platformEnv (tm.world ready miso) polls).onRead m size t = some y)
    {calls : List BepCall} (hcalls : ∀ call ∈ calls, call.Waits ok)
    (hfound : .enrollFinger ∈ calls → c.arg.isSome) :
    Terminates (tm.world ready miso) rounds calls c n := by
  have hcomposed : Composed rounds Action.Waits ok (.enrollFinger ∈ calls) (session rounds calls)
      fun _ => .enrollFinger ∈ calls :=
    composed_session calls (fun call _ => call.actions_waits) hcalls id
  have htouch (m : Nat) (a : Action) (hm : n ≤ m) (ha : a.Plain ∨ a.Waits) : ∃ m', n ≤ m' ∧
      ∀ᶠ polls in atTop, (mainMachine (tm.world ready miso) polls).onTouch m a = some m' := by
    obtain ⟨m', hle, hm'⟩ := touch_returns hsteady ha m
    exact ⟨m', hm.trans hle, hm'⟩
  have hwrite (m : Nat) (data : List Byte) (t : Nat) (hm : n ≤ m) : ∃ y, n ≤ y.2 ∧
      ∀ᶠ polls in atTop, (mainMachine (tm.world ready miso) polls).onWrite m data t = some y :=
    ⟨_, hm.trans (Nat.le_succ m), write_returns m data t⟩
  obtain ⟨y, -, hy⟩ := (hcomposed.confined hcrc hack c hc hfound).ends htouch hwrite
    (fun m size t hm ht => by
      obtain ⟨y, hle, hy⟩ := hread m size t hm ht
      exact ⟨y, hm.trans hle, hy⟩) le_rfl
  obtain ⟨polls, hexec⟩ := hy.exists
  exact ⟨y, hy, hcomposed.held (fun _ => rfl) hexec⟩

/-- **Every sequence of calls comes to an end.**  Whatever the module sends and whenever the
interrupts come, no read of a call with timeouts waits for ever, and no busy wait: given polls
enough, the calls return, or the module has sent, in one exchange, as many frames as it was given
rounds, and every one of them has been acknowledged. -/
theorem session_ends (hsteady : tm.Steady bound) (hbound : 500 ≤ bound)
    (hc : Prompt bound c.phyRxTimeout) {calls : List BepCall}
    (hcalls : ∀ call ∈ calls, call.Waits (Prompt bound)) :
    Terminates (tm.world ready miso) rounds calls c n := by
  refine session_ends_of_read (hsteady.mono hbound) ⟨by decide, by omega⟩ ⟨by decide, hbound⟩ hc
    (fun m size t _ ht => read_returns hsteady ht.1 ht.2) hcalls fun henroll => ?_
  -- enrolling waits without a timeout
  exact absurd rfl (hcalls _ henroll).2.1

/-- The module acknowledges one frame, and sends nothing else. -/
theorem session_ends_mute : Terminates mute 1 [.identifyFinger 1 0, .sensorReset] hcpChain 0 :=
  session_ends (steady_single (fun _ => rfl) (by decide : 2000 + 3 < 2 ^ 32)) (by decide)
    (by decide : Prompt 2000 2000) (by simp [BepCall.Waits, Prompt])

/-- **A button press ends every wait.**  Once a press is waiting, every sequence of calls comes to an
end as long as the interrupt does not cease, enrolling and calls without a timeout included, unless
the module keeps sending frames that are acknowledged. -/
theorem session_pressed (hsteady : tm.Steady 500) (hshort : tm.Short) (hpress : tm.Waiting n)
    {calls : List BepCall} (hfound : .enrollFinger ∈ calls → c.arg.isSome) :
    Terminates (tm.world ready miso) rounds calls c n :=
  session_ends_of_read hsteady trivial trivial trivial
    (fun _ _ _ hm _ => read_pressed hshort (hpress.mono hshort hm)) (fun call _ => call.waits_true)
    hfound

/-- A press of one tick is waiting, and the button is not pressed again. -/
def pressedTimer : Timer where
  timebase := ⟨1, 1, 0, false⟩
  presses := ⟨none, some 1, none⟩
  represents :=
    { pressed_iff := rfl
      held_eq := fun k h => by cases h
      waiting := fun _ => rfl
      calling := fun time h => by cases h }
  samples := fun _ => [false]

/-- The button ends an enrolling and an identification that would wait for a finger for ever. -/
theorem session_pressed_enroll :
    Terminates (pressedTimer.world (fun _ => false) fun _ _ => []) 1
      [.enrollFinger, .identifyFinger 0 0] { hcpChain with arg := some ⟨4, 8⟩ } 0 := by
  have hsteady : pressedTimer.Steady 500 := steady_single (fun _ => rfl) (by decide)
  have hshort : pressedTimer.Short := short_const (fun _ => rfl) fun d h => by
    cases h
    decide
  exact session_pressed hsteady hshort ⟨1, Nat.one_pos, rfl, rfl⟩ fun _ => rfl

end BMLite
