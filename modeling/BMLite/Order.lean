import BMLite.Enroll

/-!
# The order of the enrollment protocol

* `EnrollOrder` — the protocol: the start, at most 15 rounds of captures, a sample and a wait, and
  the end;
* `RoundRun`, `samples_rounds` — the rounds of the code, which adds a sample after three captures
  that failed, if the last of them did not fail in communication;
* `thirdCaptures` — those last captures;
* `enroll_order_iff` — **a call keeps the order exactly when** each of them failed in communication.
-/

set_option autoImplicit false

namespace BMLite

open FlatMemory Process

/-! ## The protocol -/

def Exchange.Captures (x : Exchange) : Prop :=
  x.Requests CMD_CAPTURE [timeoutArg CAPTURE_TIMEOUT]

instance (x : Exchange) : Decidable x.Captures := inferInstanceAs (Decidable (_ = _))

instance (x : Exchange) : Decidable x.Ok := inferInstanceAs (Decidable (_ ∧ _))

/-- A capture that fails, in communication or at the device. -/
def Exchange.Misses (x : Exchange) : Prop := x.Captures ∧ ¬ x.Ok

instance (x : Exchange) : Decidable x.Misses := inferInstanceAs (Decidable (_ ∧ _))

/-- A round of the protocol: one to three captures, all but the last of which failed, and, if the
last one succeeded, a sample and a wait. -/
inductive EnrollRound : List Exchange → Prop
  | captures {xs : List Exchange} {x : Exchange} : (∀ y ∈ xs, y.Misses) → xs.length < 3 →
      x.Captures → EnrollRound (xs ++ [x])
  | sample {xs : List Exchange} {x a : Exchange} {ws : List Exchange} :
      (∀ y ∈ xs, y.Misses) → xs.length < 3 → x.Captures → x.Ok → a.Adds →
      (ws = [] ∨ ∃ w, ws = [w] ∧ w.Waits) → EnrollRound (xs ++ x :: a :: ws)

/-- The order of the commands of one enrollment. -/
def EnrollOrder (xs : List Exchange) : Prop :=
  ∃ x₀ rest, xs = x₀ :: rest ∧ x₀.Starts ∧
    if x₀.Ok then
      ∃ (rs : List (List Exchange)) (y : Exchange), rest = rs.flatten ++ [y] ∧
        rs.length ≤ MAX_CAPTURE_ATTEMPTS ∧ (∀ r ∈ rs, EnrollRound r) ∧ y.Finishes
    else rest = []

/-- The third failed capture of every round. -/
def thirdCaptures : (misses : Nat) → List Exchange → List Exchange
  | _, [] => []
  | misses, x :: xs =>
    if x.Misses then
      if misses = 2 then x :: thirdCaptures 0 xs else thirdCaptures (misses + 1) xs
    else thirdCaptures 0 xs

/-! ## Samples follow captures that succeeded -/

/-- A sample is added only after a success. -/
def AddsAfterOk (x a : Exchange) : Prop := a.Adds → x.Ok

theorem Exchange.Captures.not_adds {x : Exchange} (h : x.Captures) : ¬ x.Adds := by
  intro h'
  exact absurd (h.cmd_eq h' (by decide) (by decide)) (by decide)

theorem Exchange.Waits.not_adds {x : Exchange} (h : x.Waits) : ¬ x.Adds := by
  intro h'
  exact absurd (h.cmd_eq h' (by decide) (by decide)) (by decide)

theorem isChain_of_not_adds {xs : List Exchange} (h : ∀ x ∈ xs, ¬ x.Adds) :
    xs.IsChain AddsAfterOk := by
  induction xs with
  | nil => exact List.isChain_nil
  | cons x xs ih =>
    obtain ⟨-, hxs⟩ := List.forall_mem_cons.1 h
    refine List.isChain_cons.2 ⟨fun y hy hadds => ?_, ih hxs⟩
    exact absurd hadds (hxs y (List.mem_of_mem_head? hy))

/-- A list that does not begin with a sample may follow any other. -/
theorem isChain_append_of_head {xs ys : List Exchange} (hxs : xs.IsChain AddsAfterOk)
    (hys : ys.IsChain AddsAfterOk) (h : ∀ y ∈ ys.head?, ¬ y.Adds) :
    (xs ++ ys).IsChain AddsAfterOk :=
  hxs.append hys fun _ _ y hy hadds => absurd hadds (h y hy)

theorem isChain_misses {xs : List Exchange} (h : ∀ y ∈ xs, y.Misses) : xs.IsChain AddsAfterOk :=
  isChain_of_not_adds fun y hy => (h y hy).1.not_adds

/-- The captures of a round, and what comes after them. -/
theorem isChain_round {xs ws : List Exchange} {x a : Exchange} (hxs : ∀ y ∈ xs, y.Misses)
    (hx : x.Captures) (hok : x.Ok) (hws : ws = [] ∨ ∃ w, ws = [w] ∧ w.Waits) :
    (xs ++ x :: a :: ws).IsChain AddsAfterOk := by
  have hws' : ∀ w ∈ ws, ¬ w.Adds := by
    intro w hw
    rcases hws with rfl | ⟨v, rfl, hv⟩
    · cases hw
    · rw [List.mem_singleton] at hw
      subst hw
      exact hv.not_adds
  refine isChain_append_of_head (isChain_misses hxs) ?_ ?_
  · refine List.isChain_cons_cons.2 ⟨fun _ => hok, List.isChain_cons.2 ⟨fun w hw hadds => ?_, ?_⟩⟩
    · exact absurd hadds (hws' w (List.mem_of_mem_head? hw))
    · exact isChain_of_not_adds hws'
  · intro y hy
    obtain rfl : x = y := by simpa using hy
    exact hx.not_adds

theorem EnrollRound.isChain {r : List Exchange} (h : EnrollRound r) : r.IsChain AddsAfterOk := by
  cases h with
  | captures hxs _ hx =>
    refine isChain_append_of_head (isChain_misses hxs) (List.isChain_singleton _) ?_
    intro y hy
    obtain rfl := Option.some.inj hy
    exact hx.not_adds
  | sample hxs _ hx hok _ hws => exact isChain_round hxs hx hok hws

/-- A round begins with a capture. -/
theorem EnrollRound.head {r : List Exchange} (h : EnrollRound r) :
    ∃ x xs, r = x :: xs ∧ x.Captures := by
  cases h with
  | @captures xs x hxs _ hx =>
    cases xs with
    | nil => exact ⟨x, [], rfl, hx⟩
    | cons y xs => exact ⟨y, xs ++ [x], rfl, (hxs y (List.mem_cons_self ..)).1⟩
  | @sample xs x a ws hxs _ hx _ _ _ =>
    cases xs with
    | nil => exact ⟨x, a :: ws, rfl, hx⟩
    | cons y xs => exact ⟨y, xs ++ x :: a :: ws, rfl, (hxs y (List.mem_cons_self ..)).1⟩

theorem rounds_isChain {rs : List (List Exchange)} (h : ∀ r ∈ rs, EnrollRound r) {y : Exchange}
    (hy : y.Finishes) : (rs.flatten ++ [y]).IsChain AddsAfterOk ∧
      ∀ z ∈ (rs.flatten ++ [y]).head?, ¬ z.Adds := by
  induction rs with
  | nil =>
    refine ⟨List.isChain_singleton _, fun z hz hadds => ?_⟩
    obtain rfl := Option.some.inj hz
    exact hadds.not_finishes hy
  | cons r rs ih =>
    obtain ⟨hr, hrs⟩ := List.forall_mem_cons.1 h
    obtain ⟨hchain, hhead⟩ := ih hrs
    rw [List.flatten_cons, List.append_assoc]
    refine ⟨isChain_append_of_head hr.isChain hchain hhead, fun z hz => ?_⟩
    obtain ⟨x, xs, rfl, hx⟩ := hr.head
    obtain rfl := Option.some.inj hz
    exact hx.not_adds

/-- **In the protocol, a sample is added only after a success.** -/
theorem EnrollOrder.isChain {xs : List Exchange} (h : EnrollOrder xs) : xs.IsChain AddsAfterOk := by
  obtain ⟨x₀, rest, rfl, hstart, hrest⟩ := h
  split at hrest
  · obtain ⟨rs, y, rfl, -, hrs, hy⟩ := hrest
    obtain ⟨hchain, hhead⟩ := rounds_isChain hrs hy
    exact isChain_append_of_head (List.isChain_singleton x₀) hchain hhead
  · rw [hrest]
    exact List.isChain_singleton x₀

/-! ## The rounds of the code -/

/-- What one round of the loop exchanges: nothing, if its capture does not fit the packet buffer;
three captures, the last of which failed in communication; or captures, the last of which did not,
a sample and a wait. -/
inductive RoundRun : List Exchange → Prop
  | idle : RoundRun []
  | aborted {xs : List Exchange} {x : Exchange} : (∀ y ∈ xs, y.Misses) → xs.length = 2 →
      x.Misses → x.com ≠ FPC_BEP_RESULT_OK → RoundRun (xs ++ [x])
  | sample {xs : List Exchange} {x a : Exchange} {ws : List Exchange} :
      (∀ y ∈ xs, y.Misses) → xs.length < 3 → (¬ x.Ok → xs.length = 2) → x.Captures →
      x.com = FPC_BEP_RESULT_OK → a.Adds → (ws = [] ∨ ∃ w, ws = [w] ∧ w.Waits) →
      RoundRun (xs ++ x :: a :: ws)

/-- The captures of a round, by the result that they return. -/
theorem captures_run {rounds : Nat} {c c' : HcpComm} {es : List HcpEvent} {r : FpcBepResult}
    (h : Runs ((bepCapture rounds CAPTURE_TIMEOUT).run c) es (r, c')) :
    c'.pktSizeMax = c.pktSizeMax ∧
      ((r ≠ FPC_BEP_RESULT_OK ∧ RoundRun (exchanges es)) ∨
        (r = FPC_BEP_RESULT_OK ∧ ∃ (xs : List Exchange) (x : Exchange), exchanges es = xs ++ [x] ∧
          (∀ y ∈ xs, y.Misses) ∧ xs.length < 3 ∧ (¬ x.Ok → xs.length = 2) ∧ x.Captures ∧
          x.com = FPC_BEP_RESULT_OK)) := by
  obtain ⟨hmax, hcases⟩ := capture_cases h
  refine ⟨hmax, ?_⟩
  split at hcases
  · obtain ⟨hnil, rfl⟩ := hcases
    exact .inl ⟨by decide, by rw [hnil]; exact .idle⟩
  generalize exchanges es = zs at hcases ⊢
  generalize c'.bepResult = dev at hcases
  cases hcases with
  | @intro xs x hxs hx hlt hlast =>
    have hlast' (hno : ¬ x.Ok) : xs.length = 2 := Nat.succ.inj (hlast hno)
    by_cases hcom : x.com = FPC_BEP_RESULT_OK
    · exact .inr ⟨hcom, xs, x, rfl, hxs, hlt, hlast', hx, hcom⟩
    · have hno : ¬ x.Ok := fun hok => hcom hok.1
      exact .inl ⟨hcom, .aborted hxs (hlast' hno) ⟨hx, hno⟩ hcom⟩

/-- **One round**, after which the loop has ended or goes on. -/
theorem samples_round_run {rounds left : Nat} {c c' : HcpComm} {es : List HcpEvent} {done : Bool}
    (hmax : 8 ≤ c.pktSizeMax)
    (h : Runs ((bepEnrollFinger.samples rounds (left + 1)).run c) es (done, c')) :
    ∃ es₁ es₂ c₁, es = es₁ ++ es₂ ∧ RoundRun (exchanges es₁) ∧ c₁.pktSizeMax = c.pktSizeMax ∧
      ((es₂ = [] ∧ c' = c₁) ∨
        Runs ((bepEnrollFinger.samples rounds left).run c₁) es₂ (done, c')) := by
  simp only [bepEnrollFinger.samples, StateT.run_bind, run_callback, touch_bind, ret_bind,
    runs_touch] at h
  obtain ⟨⟨r₁, c₁⟩, es₁, fs₁, rfl, hcapture, h⟩ := runs_bind.1 h
  rw [runs_touch] at h
  obtain ⟨hmax₁, ⟨hr, hround⟩ | ⟨hr, xs, x, hxs, hmiss, hlen, hlast, hx, hcom⟩⟩ :=
    captures_run hcapture
  · rw [if_pos hr] at h
    exact ⟨es₁, fs₁, c₁, rfl, hround, hmax₁, .inr h⟩
  rw [if_neg (not_not.2 hr)] at h
  simp only [StateT.run_bind] at h
  obtain ⟨⟨r₂, c₂⟩, es₂, fs₂, rfl, hadd, h⟩ := runs_bind.1 h
  obtain ⟨hmax₂, hcases⟩ := sendCmd_cases (by decide : ARG_ADD < 65536) hadd
  rw [if_neg (fun hlt => by omega)] at hcases
  obtain ⟨a, ha, hadds, rfl, rfl⟩ := hcases
  have hsample {ws : List Exchange} (hws : ws = [] ∨ ∃ w, ws = [w] ∧ w.Waits) :
      RoundRun (xs ++ x :: a :: ws) := .sample hmiss hlen hlast hx hcom hadds hws
  have hexch : exchanges (es₁ ++ es₂) = xs ++ [x, a] := by simp [hxs, ha]
  split at h
  · exact ⟨es₁ ++ es₂, fs₂, _, by simp, by rw [hexch]; exact hsample (.inl rfl),
      hmax₂.trans hmax₁, .inr h⟩
  simp only [StateT.run_bind] at h
  obtain ⟨r₂, hget⟩ := getArg_dropped a.after ARG_COUNT
  rw [hget.runs_bind] at h
  obtain ⟨b, -, h⟩ := runs_chainArg.1 h
  simp only [run_load32, touch_bind, ret_bind, runs_touch] at h
  split at h
  · obtain ⟨rfl, ⟨⟩⟩ := runs_ret.1 h
    exact ⟨es₁ ++ es₂, [], { a.after with arg := (a.after.findArg ARG_COUNT).or a.after.arg },
      by simp, by rw [hexch]; exact hsample (.inl rfl), hmax₂.trans hmax₁, .inl ⟨rfl, rfl⟩⟩
  · simp only [StateT.run_bind] at h
    obtain ⟨⟨r₃, c₃⟩, es₃, fs₃, rfl, hwait, h⟩ := runs_bind.1 h
    obtain ⟨hmax₃, hws⟩ := wait_cases hwait
    refine ⟨es₁ ++ es₂ ++ es₃, fs₃, c₃, by simp, ?_, (hmax₃.trans hmax₂).trans hmax₁, .inr h⟩
    rw [exchanges_append, hexch, List.append_assoc]
    exact hsample hws

/-- **All rounds.** -/
theorem samples_rounds {rounds : Nat} (left : Nat) :
    ∀ {c c' : HcpComm} {es : List HcpEvent} {done : Bool}, 8 ≤ c.pktSizeMax →
      Runs ((bepEnrollFinger.samples rounds left).run c) es (done, c') →
      c'.pktSizeMax = c.pktSizeMax ∧ ∃ rs : List (List Exchange), exchanges es = rs.flatten ∧
        rs.length ≤ left ∧ ∀ r ∈ rs, RoundRun r := by
  induction left with
  | zero =>
    intro c c' es done _ h
    obtain ⟨rfl, ⟨⟩⟩ := runs_ret.1 h
    exact ⟨rfl, [], rfl, Nat.le_refl 0, by simp⟩
  | succ left ih =>
    intro c c' es done hmax h
    obtain ⟨es₁, es₂, c₁, rfl, hround, hmax₁, hrest⟩ := samples_round_run hmax h
    rw [exchanges_append]
    rcases hrest with ⟨rfl, rfl⟩ | hrest
    · exact ⟨hmax₁, [exchanges es₁], by simp [exchanges], Nat.le_add_left .., by simpa using hround⟩
    · obtain ⟨hmax', rs, hrs, hlen, hall⟩ := ih (by rw [hmax₁]; exact hmax) hrest
      refine ⟨hmax'.trans hmax₁, exchanges es₁ :: rs, ?_, Nat.succ_le_succ hlen,
        List.forall_mem_cons.2 ⟨hround, hall⟩⟩
      rw [List.flatten_cons, hrs]

/-! ## Third captures -/

theorem mem_thirdCaptures {x : Exchange} {xs : List Exchange} :
    ∀ {misses : Nat}, x ∈ thirdCaptures misses xs → x ∈ xs ∧ x.Misses := by
  induction xs with
  | nil =>
    intro misses h
    cases h
  | cons y xs ih =>
    intro misses h
    unfold thirdCaptures at h
    split at h
    · rename_i hmiss
      split at h
      · rcases List.mem_cons.1 h with rfl | h
        · exact ⟨List.mem_cons_self .., hmiss⟩
        · exact ⟨List.mem_cons_of_mem _ (ih h).1, (ih h).2⟩
      · exact ⟨List.mem_cons_of_mem _ (ih h).1, (ih h).2⟩
    · exact ⟨List.mem_cons_of_mem _ (ih h).1, (ih h).2⟩

theorem thirdCaptures_misses {xs : List Exchange} (h : ∀ y ∈ xs, y.Misses) (zs : List Exchange) :
    ∀ {misses : Nat}, misses + xs.length ≤ 2 →
      thirdCaptures misses (xs ++ zs) = thirdCaptures (misses + xs.length) zs := by
  induction xs with
  | nil =>
    intro misses _
    rfl
  | cons x xs ih =>
    intro misses hle
    obtain ⟨hx, hxs⟩ := List.forall_mem_cons.1 h
    rw [List.length_cons] at hle ⊢
    rw [List.cons_append, thirdCaptures, if_pos hx, if_neg (by omega), ih hxs (by omega),
      Nat.add_assoc, Nat.add_comm 1]

theorem thirdCaptures_not {x : Exchange} (h : ¬ x.Misses) (misses : Nat) (zs : List Exchange) :
    thirdCaptures misses (x :: zs) = thirdCaptures 0 zs := by
  rw [thirdCaptures, if_neg h]

/-- The third captures of a list have failed in communication. -/
def ThirdsFail (xs : List Exchange) : Prop :=
  ∀ x ∈ thirdCaptures 0 xs, x.com ≠ FPC_BEP_RESULT_OK

theorem not_misses_of_requests {x : Exchange} {cmd : Nat} {args : List CmdArg}
    (h : x.Requests cmd args) (hcmd : cmd < 65536) (hne : cmd ≠ CMD_CAPTURE) : ¬ x.Misses := by
  intro hmiss
  exact hne (h.cmd_eq hmiss.1 hcmd (by decide))

/-- A round leaves the third captures in order exactly when its sample follows a success. -/
theorem round_thirds {r : List Exchange} (h : RoundRun r) (zs : List Exchange) :
    ThirdsFail (r ++ zs) ↔ r.IsChain AddsAfterOk ∧ ThirdsFail zs := by
  unfold ThirdsFail
  cases h with
  | idle => exact ⟨fun hzs => ⟨List.isChain_nil, hzs⟩, fun hzs => hzs.2⟩
  | @aborted xs x hxs hlen hx hcom =>
    have hchain : (xs ++ [x]).IsChain AddsAfterOk := by
      refine isChain_of_not_adds fun y hy => ?_
      rcases List.mem_append.1 hy with hy | hy
      · exact (hxs y hy).1.not_adds
      · rw [List.mem_singleton] at hy
        subst hy
        exact hx.1.not_adds
    have hthird : thirdCaptures 0 (xs ++ [x] ++ zs) = x :: thirdCaptures 0 zs := by
      rw [List.append_assoc, thirdCaptures_misses hxs _ (by omega), hlen]
      simp [thirdCaptures, hx]
    rw [hthird, List.forall_mem_cons]
    exact ⟨fun hall => ⟨hchain, hall.2⟩, fun hall => ⟨hcom, hall.2⟩⟩
  | @sample xs x a ws hxs hlen hlast hx hcom hadds hws =>
    by_cases hok : x.Ok
    · have hws' : thirdCaptures 0 (ws ++ zs) = thirdCaptures 0 zs := by
        rcases hws with rfl | ⟨w, rfl, hw⟩
        · rfl
        · exact thirdCaptures_not (not_misses_of_requests hw (by decide) (by decide)) 0 zs
      have hthird : thirdCaptures 0 (xs ++ x :: a :: ws ++ zs) = thirdCaptures 0 zs := by
        rw [List.append_assoc, thirdCaptures_misses hxs _ (by omega), List.cons_append,
          List.cons_append, thirdCaptures_not (fun hmiss => hmiss.2 hok),
          thirdCaptures_not (not_misses_of_requests hadds (by decide) (by decide)), hws']
      rw [hthird]
      exact ⟨fun hzs => ⟨isChain_round hxs hx hok hws, hzs⟩, fun hzs => hzs.2⟩
    · -- The third capture of the round failed at the device only, and a sample was added.
      have hthird : x ∈ thirdCaptures 0 (xs ++ x :: a :: ws ++ zs) := by
        rw [List.append_assoc, thirdCaptures_misses hxs _ (by omega), hlast hok]
        simp [thirdCaptures, Exchange.Misses, hx, hok]
      refine iff_of_false (fun hall => hall x hthird hcom) fun hchain => hok ?_
      exact (List.isChain_append.1 hchain.1).2.1.rel hadds

theorem rounds_thirds {rs : List (List Exchange)} (h : ∀ r ∈ rs, RoundRun r) (zs : List Exchange) :
    ThirdsFail (rs.flatten ++ zs) ↔ (∀ r ∈ rs, r.IsChain AddsAfterOk) ∧ ThirdsFail zs := by
  induction rs with
  | nil => exact ⟨fun hzs => ⟨by simp, hzs⟩, fun hzs => hzs.2⟩
  | cons r rs ih =>
    obtain ⟨hr, hrs⟩ := List.forall_mem_cons.1 h
    rw [List.flatten_cons, List.append_assoc, round_thirds hr, ih hrs, List.forall_mem_cons,
      and_assoc]

/-- A round of the code whose sample follows a success is one of the protocol. -/
theorem RoundRun.round {r : List Exchange} (h : RoundRun r) (hchain : r.IsChain AddsAfterOk)
    (hne : r ≠ []) : EnrollRound r := by
  cases h with
  | idle => exact absurd rfl hne
  | aborted hxs hlen hx hcom => exact .captures hxs (by omega) hx.1
  | sample hxs hlen hlast hx hcom hadds hws =>
    have hok := (List.isChain_append.1 hchain).2.1.rel hadds
    exact .sample hxs hlen hx hok hadds hws

/-! ## The whole call -/

/-- **The exchanges of a call**: the start, the rounds, and the end. -/
theorem enroll_rounds {rounds : Nat} {c c' : HcpComm} {es : List HcpEvent} {r : FpcBepResult}
    (h : Runs ((bepEnrollFinger rounds).run c) es (r, c')) :
    if c.pktSizeMax < 8 then exchanges es = []
    else ∃ x₀ rest, exchanges es = x₀ :: rest ∧ x₀.Starts ∧
      if x₀.Ok then
        ∃ (rs : List (List Exchange)) (y : Exchange), rest = rs.flatten ++ [y] ∧
          rs.length ≤ MAX_CAPTURE_ATTEMPTS ∧ (∀ r ∈ rs, RoundRun r) ∧ y.Finishes
      else rest = [] := by
  simp only [bepEnrollFinger, StateT.run_bind, run_callback, touch_bind, ret_bind,
    runs_touch] at h
  obtain ⟨r₀, c₀, es₀, fs₀, rfl, hstart, h⟩ := runs_exitIfErr.1 h
  obtain ⟨hmax₀, hcases⟩ := sendCmd_cases (by decide : ARG_START < 65536) hstart
  rw [exchanges_append]
  by_cases hfit : c.pktSizeMax < 8
  · rw [if_pos ⟨by decide, hfit⟩] at hcases
    obtain ⟨hnil, rfl⟩ := hcases
    rw [if_pos (.inl (by decide))] at h
    obtain ⟨rfl, -⟩ := runs_ret.1 (runs_touch.1 h)
    rw [if_pos hfit, hnil]
    rfl
  rw [if_neg (fun hlt => hfit hlt.2)] at hcases
  obtain ⟨x₀, hx₀, hreq₀, rfl, rfl⟩ := hcases
  rw [if_neg hfit, hx₀]
  refine ⟨x₀, exchanges fs₀, rfl, hreq₀, ?_⟩
  split at h <;> rename_i herr
  · obtain ⟨rfl, -⟩ := runs_ret.1 (runs_touch.1 h)
    rw [if_neg (fun hok => herr.elim (fun hr => hr hok.1) fun hd => hd hok.2)]
    rfl
  simp only [not_or, not_not] at herr
  have hok : x₀.Ok := herr
  rw [if_pos hok]
  simp only [StateT.run_bind] at h
  obtain ⟨⟨done, c₁⟩, es₁, fs₁, rfl, hloop, h⟩ := runs_bind.1 h
  obtain ⟨⟨r₂, c₂⟩, es₂, fs₂, rfl, hfinish, h⟩ := runs_bind.1 h
  obtain ⟨rfl, -⟩ := runs_ret.1 (runs_touch.1 h)
  obtain ⟨hmax₁, rs, hrs, hlen, hall⟩ := samples_rounds MAX_CAPTURE_ATTEMPTS (by omega) hloop
  have hmax : 8 ≤ c₁.pktSizeMax := by omega
  obtain ⟨-, hcases⟩ := sendCmd_cases (by decide : ARG_FINISH < 65536) hfinish
  rw [if_neg (fun hlt => Nat.not_lt.2 hmax hlt.2)] at hcases
  obtain ⟨y, hy, hfin, -⟩ := hcases
  exact ⟨rs, y, by simp [hrs, hy], hlen, hall, hfin⟩

/-- **A call keeps the order exactly when** its first packet fits the packet buffer, and every third
capture of a round that fails does so in communication. -/
theorem enroll_order_iff {rounds : Nat} {c c' : HcpComm} {es : List HcpEvent} {r : FpcBepResult}
    (h : Runs ((bepEnrollFinger rounds).run c) es (r, c')) :
    EnrollOrder (exchanges es) ↔ 8 ≤ c.pktSizeMax ∧ ThirdsFail (exchanges es) := by
  have hcases := enroll_rounds h
  split at hcases <;> rename_i hfit
  · rw [hcases]
    refine iff_of_false ?_ fun hle => Nat.not_le.2 hfit hle.1
    rintro ⟨x₀, rest, hnil, -⟩
    cases hnil
  rw [and_iff_right (Nat.not_lt.1 hfit)]
  obtain ⟨x₀, rest, hexch, hstart, hrest⟩ := hcases
  have hnot : ¬ x₀.Misses := not_misses_of_requests hstart (by decide) (by decide)
  have hthirds : ThirdsFail (exchanges es) ↔ ThirdsFail rest := by
    unfold ThirdsFail
    rw [hexch, thirdCaptures_not hnot]
  rw [hthirds]
  split at hrest <;> rename_i hok
  · obtain ⟨rs, y, rfl, hlen, hall, hfin⟩ := hrest
    rw [rounds_thirds hall]
    have hlast : ThirdsFail [y] := by
      intro z hz
      rw [thirdCaptures_not (not_misses_of_requests hfin (by decide) (by decide))] at hz
      cases hz
    rw [and_iff_left hlast]
    constructor
    · intro horder r hr
      have hchain := horder.isChain
      rw [hexch, ← List.singleton_append] at hchain
      exact hchain.right_of_append.left_of_append.infix (List.infix_of_mem_flatten hr)
    · intro hchains
      -- The rounds without exchanges are none of the protocol.
      refine ⟨x₀, _, hexch, hstart, ?_⟩
      rw [if_pos hok]
      refine ⟨rs.filter (· ≠ []), y, by rw [List.flatten_filter_ne_nil], ?_, ?_, hfin⟩
      · exact (List.length_filter_le ..).trans hlen
      · intro r hr
        obtain ⟨hr, hne⟩ := List.mem_filter.1 hr
        exact (hall r hr).round (hchains r hr) (by simpa using hne)
  · subst hrest
    refine iff_of_true ⟨x₀, [], hexch, hstart, by rw [if_neg hok]⟩ ?_
    intro z hz
    cases hz

/-! ## Calls that are answered -/

/-- An enrollment of one sample. -/
theorem enroll_order_single : ∃ es c',
    Runs ((bepEnrollFinger 2).run hcpChain) es (FPC_BEP_RESULT_OK, c') ∧
      EnrollOrder (exchanges es) := by
  obtain ⟨es, x₀, _, x, y, c', hrun, hxs, hstart, ⟨x₁, rfl, -, hok⟩, hcollected, -, hfin, -⟩ :=
    enroll_answered (c := hcpChain) (by decide) capture_single [] (by decide) (by simp)
  refine ⟨es, c', hrun, (enroll_order_iff hrun).2 ⟨by decide, fun z hz => ?_⟩⟩
  obtain ⟨hz, hmiss⟩ := mem_thirdCaptures hz
  have hmem : z = x₀ ∨ z = x₁ ∨ z = x ∨ z = y := by simpa [hxs] using hz
  rcases hmem with rfl | rfl | rfl | rfl
  · exact absurd hmiss (not_misses_of_requests hstart (by decide) (by decide))
  · exact absurd hok hmiss.2
  · exact absurd hmiss (not_misses_of_requests hcollected.1 (by decide) (by decide))
  · exact absurd hmiss (not_misses_of_requests hfin (by decide) (by decide))

/-- The last exchange of the list fails. -/
def LastFails (xs : List Exchange) : Prop := ∃ ys x, xs = ys ++ [x] ∧ ¬ x.Ok

/-- Three captures that the device answers with an error. -/
theorem capture_device_failure (c : HcpComm) (hmax : APP_MTU < c.pktSizeMax) :
    ∃ es c', Runs ((bepCapture 2 CAPTURE_TIMEOUT).run c) es (FPC_BEP_RESULT_OK, c') ∧
      LastFails (exchanges es) ∧ c'.pktSizeMax = c.pktSizeMax := by
  let error : CmdArg := ⟨ARG_RESULT, [0xff], by decide, by decide⟩
  have hanswer {c : HcpComm} (hmax : APP_MTU < c.pktSizeMax) := sendCmdArg_answered (c := c)
    (Nat.le_refl 2) CMD_CAPTURE (by decide : ARG_NONE < 65536) (timeoutArg CAPTURE_TIMEOUT)
    (by decide : 2 ≤ 200) CMD_CAPTURE [error] (by decide) hmax (by simp [error])
  obtain ⟨es₁, x₁, hrun₁, hx₁, -, -, hans₁⟩ := hanswer
    (c := { c with phyRxTimeout := CAPTURE_TIMEOUT }) hmax
  have hmax₁ : x₁.after.pktSizeMax = c.pktSizeMax := hans₁.max_eq
  obtain ⟨es₂, x₂, hrun₂, hx₂, -, -, hans₂⟩ := hanswer (by rw [hmax₁]; exact hmax)
  have hmax₂ : x₂.after.pktSizeMax = c.pktSizeMax := hans₂.max_eq.trans hmax₁
  obtain ⟨es₃, x₃, hrun₃, hx₃, -, -, hans₃⟩ := hanswer (by rw [hmax₂]; exact hmax)
  have hdev {x : Exchange} {max : Nat} (hans : Answered x.after CMD_CAPTURE [error] max) :
      x.after.bepResult ≠ FPC_BEP_RESULT_OK := by
    rw [hans.result_eq]
    decide
  refine ⟨es₁ ++ (es₂ ++ (es₃ ++ [])), _, runs_bepCapture.2 ⟨x₃.after, ?_, rfl⟩,
    ⟨exchanges es₁ ++ exchanges es₂, x₃, by simp [hx₃], fun hok => hdev hans₃ hok.2⟩,
    hans₃.max_eq.trans hmax₂⟩
  simp only [MAX_SINGLE_CAPTURE_ATTEMPTS, bepCapture.attempts, StateT.run_bind, StateT.run_get,
    pure_eq, ret_bind]
  refine Runs.bind hrun₁ ?_
  simp only [hdev hans₁, and_false, if_false, StateT.run_bind, StateT.run_get, pure_eq, ret_bind]
  refine Runs.bind hrun₂ ?_
  simp only [hdev hans₂, and_false, if_false, StateT.run_bind, StateT.run_get, pure_eq, ret_bind]
  refine Runs.bind hrun₃ ?_
  simp only [hdev hans₃, and_false, if_false]
  exact .refl _

/-- **A sample is added after three captures that failed at the device.** -/
theorem enroll_order_device_failure : ∃ es c',
    Runs ((bepEnrollFinger 2).run hcpChain) es (FPC_BEP_RESULT_OK, c') ∧
      ¬ EnrollOrder (exchanges es) := by
  obtain ⟨es, x₀, _, x, y, c', hrun, hxs, -, ⟨ys, z, rfl, hfail⟩, hcollected, -⟩ :=
    enroll_answered (c := hcpChain) (by decide) capture_device_failure [] (by decide) (by simp)
  refine ⟨es, c', hrun, fun horder => hfail ?_⟩
  have hchain := horder.isChain
  rw [hxs, show x₀ :: (ys ++ [z]) ++ [x, y] = x₀ :: ys ++ z :: x :: [y] by simp] at hchain
  exact hchain.right_of_append.rel hcollected.1

end BMLite
