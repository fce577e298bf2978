import BMLite.Commands

/-!
# `bep_enroll_finger`

* `samples_round`, `samples_exchanges` — the loop ends successfully at the first answer to
  `ARG_ADD` after which the word that the argument pointer points at is zero;
* `enroll_exchanges` — the exchanges of a call that returns OK;
* `EnrollSound` — what an enrollment should rest on;
* `enroll_sound_iff` — **it does so exactly when** that answer carries its `ARG_COUNT`, and the
  device reports OK in it and in the answer to `ARG_FINISH`.
-/

set_option autoImplicit false

namespace BMLite

open FlatMemory Process

/-! ## The requests -/

def Exchange.Starts (x : Exchange) : Prop :=
  x.Requests CMD_ENROLL [.flag ARG_START (by decide)]

def Exchange.Adds (x : Exchange) : Prop :=
  x.Requests CMD_ENROLL [.flag ARG_ADD (by decide)]

def Exchange.Finishes (x : Exchange) : Prop :=
  x.Requests CMD_ENROLL [.flag ARG_FINISH (by decide)]

theorem Exchange.Adds.not_starts {x : Exchange} (h : x.Adds) : ¬ x.Starts := by
  intro h'
  exact absurd (h.symm.trans h') (by decide)

theorem Exchange.Adds.not_finishes {x : Exchange} (h : x.Adds) : ¬ x.Finishes := by
  intro h'
  exact absurd (h.symm.trans h') (by decide)

theorem Exchange.Starts.not_finishes {x : Exchange} (h : x.Starts) : ¬ x.Finishes := by
  intro h'
  exact absurd (h.symm.trans h') (by decide)

/-- The word that `samples_remaining` is read from: the pointer stays where it was when there is no
`ARG_COUNT`, and there is no word if it is null. -/
def HcpComm.samplesRemaining (c : HcpComm) : Option (BitVec 32) :=
  ((c.findArg ARG_COUNT).or c.arg).map fun a => dec32 (slice c.pktBuffer a.data 4)

/-- A sample was added, after which the host takes none to remain. -/
def Exchange.Collected (x : Exchange) : Prop :=
  x.Adds ∧ x.com = FPC_BEP_RESULT_OK ∧ x.after.samplesRemaining = some 0

/-- Another command of the loop: neither the first nor the last of an enrollment, and not the end
of the loop. -/
def Exchange.Between (x : Exchange) : Prop := ¬ x.Starts ∧ ¬ x.Finishes ∧ ¬ x.Collected

theorem between_of_requests {x : Exchange} {cmd : Nat} {args : List CmdArg}
    (h : x.Requests cmd args) (hcmd : cmd < 65536) (hne : cmd ≠ CMD_ENROLL) : x.Between := by
  refine ⟨fun h' => ?_, fun h' => ?_, fun h' => ?_⟩
  · exact hne (h.cmd_eq h' hcmd (by decide))
  · exact hne (h.cmd_eq h' hcmd (by decide))
  · exact hne (h.cmd_eq h'.1 hcmd (by decide))

/-! ## The loop -/

def Exchange.Waits (x : Exchange) : Prop :=
  x.Requests CMD_WAIT [.flag ARG_FINGER_UP (by decide), timeoutArg 0]

/-- The wait between two samples is one exchange, or its packet does not fit. -/
theorem wait_cases {rounds : Nat} {c c' : HcpComm} {es : List HcpEvent} {r : FpcBepResult}
    (h : Runs ((sensorWaitFingerNotPresent rounds 0).run c) es (r, c')) :
    c'.pktSizeMax = c.pktSizeMax ∧
      (exchanges es = [] ∨ ∃ x, exchanges es = [x] ∧ Exchange.Waits x) := by
  obtain ⟨c₁, hrun, rfl⟩ := runs_withTimeout.1 h
  obtain ⟨hmax, hcases⟩ := sendCmdArg_cases (by decide : ARG_FINGER_UP < 65536) (timeoutArg 0)
    (by decide : 2 ≤ 255) hrun
  refine ⟨hmax, ?_⟩
  split at hcases
  · exact .inl hcases.1
  · obtain ⟨x, hx, hreq, -⟩ := hcases
    exact .inr ⟨x, hx, hreq⟩

theorem wait_exchanges {rounds : Nat} {c c' : HcpComm} {es : List HcpEvent} {r : FpcBepResult}
    (h : Runs ((sensorWaitFingerNotPresent rounds 0).run c) es (r, c')) :
    ∀ x ∈ exchanges es, x.Between := by
  intro x hx
  rcases (wait_cases h).2 with hnil | ⟨y, hy, hreq⟩
  · rw [hnil] at hx
    cases hx
  · rw [hy, List.mem_singleton] at hx
    subst hx
    exact between_of_requests hreq (by decide) (by decide)

/-- **One round** collects the last sample, or goes on to the next one. -/
theorem samples_round {rounds left : Nat} {c c' : HcpComm} {es : List HcpEvent} {done : Bool}
    (h : Runs ((bepEnrollFinger.samples rounds (left + 1)).run c) es (done, c')) :
    (done = true ∧ ∃ (xs : List Exchange) (x : Exchange), exchanges es = xs ++ [x] ∧
      (∀ y ∈ xs, y.Between) ∧ x.Collected) ∨
    ∃ es₁ es₂ c₁, es = es₁ ++ es₂ ∧ (∀ x ∈ exchanges es₁, x.Between) ∧
      Runs ((bepEnrollFinger.samples rounds left).run c₁) es₂ (done, c') := by
  simp only [bepEnrollFinger.samples, StateT.run_bind, run_callback, touch_bind, ret_bind,
    runs_touch] at h
  obtain ⟨⟨r₁, c₁⟩, es₁, fs₁, rfl, hcapture, h⟩ := runs_bind.1 h
  rw [runs_touch] at h
  have hno₁ : ∀ x ∈ exchanges es₁, x.Between := fun x hx =>
    between_of_requests ((capture_exchanges hcapture).1 x hx) (by decide) (by decide)
  split at h
  · exact .inr ⟨es₁, fs₁, c₁, rfl, hno₁, h⟩
  simp only [StateT.run_bind] at h
  obtain ⟨⟨r₂, c₂⟩, es₂, fs₂, rfl, hadd, h⟩ := runs_bind.1 h
  have hcmd := sendCmd_commanded (by decide : ARG_ADD < 65536) hadd
  split at h
  · rename_i hr
    refine .inr ⟨es₁ ++ es₂, fs₂, c₂, by simp, ?_, h⟩
    simp only [exchanges_append, List.mem_append]
    rintro x (hx | hx)
    · exact hno₁ x hx
    · obtain ⟨hreq, hcom, -⟩ := hcmd.mem hx
      have hadds : x.Adds := hreq
      exact ⟨hadds.not_starts, hadds.not_finishes, fun hcoll => hr (hcom.symm.trans hcoll.2.1)⟩
  rename_i hr
  obtain rfl := not_not.1 hr
  obtain ⟨x, hx, hreq, hcom, rfl⟩ := hcmd.ok
  simp only [StateT.run_bind] at h
  obtain ⟨r₂, hget⟩ := getArg_dropped x.after ARG_COUNT
  rw [hget.runs_bind] at h
  obtain ⟨a, ha, h⟩ := runs_chainArg.1 h
  have hword : x.after.samplesRemaining = some (dec32 (slice x.after.pktBuffer a.data 4)) :=
    congrArg (Option.map _) ha
  simp only [run_load32, touch_bind, ret_bind, runs_touch, HcpComm.mem_pkt] at h
  split at h
  · rename_i hzero
    obtain ⟨rfl, heq⟩ := runs_ret.1 h
    cases heq
    exact .inl ⟨rfl, exchanges es₁, x, by simp [hx], hno₁, hreq, hcom, by rw [hword, hzero]⟩
  · rename_i hzero
    simp only [StateT.run_bind] at h
    obtain ⟨⟨r₃, c₃⟩, es₃, fs₃, rfl, hwait, h⟩ := runs_bind.1 h
    refine .inr ⟨es₁ ++ es₂ ++ es₃, fs₃, c₃, by simp, ?_, h⟩
    simp only [exchanges_append, List.mem_append, hx, List.mem_singleton]
    rintro y ((hy | rfl) | hy)
    · exact hno₁ y hy
    · have hadds : y.Adds := hreq
      exact ⟨hadds.not_starts, hadds.not_finishes, fun hcoll =>
        hzero (Option.some.inj (hword.symm.trans hcoll.2.2))⟩
    · exact wait_exchanges hwait y hy

/-- **All rounds.** -/
theorem samples_exchanges {rounds : Nat} (left : Nat) :
    ∀ {c c' : HcpComm} {es : List HcpEvent} {done : Bool},
      Runs ((bepEnrollFinger.samples rounds left).run c) es (done, c') →
      (done = false ∧ ∀ x ∈ exchanges es, x.Between) ∨
      (done = true ∧ ∃ (xs : List Exchange) (x : Exchange), exchanges es = xs ++ [x] ∧
        (∀ y ∈ xs, y.Between) ∧ x.Collected) := by
  induction left with
  | zero =>
    intro c c' es done h
    obtain ⟨rfl, heq⟩ := runs_ret.1 h
    cases heq
    exact .inl ⟨rfl, by simp [exchanges]⟩
  | succ left ih =>
    intro c c' es done h
    rcases samples_round h with hdone | ⟨es₁, es₂, c₁, rfl, hno, hrest⟩
    · exact .inr hdone
    rw [exchanges_append]
    rcases ih hrest with ⟨rfl, hno'⟩ | ⟨rfl, xs, x, hxs, hno', hcoll⟩
    · refine .inl ⟨rfl, fun x hx => ?_⟩
      exact (List.mem_append.1 hx).elim (hno x) (hno' x)
    · refine .inr ⟨rfl, exchanges es₁ ++ xs, x, by rw [hxs, List.append_assoc], fun y hy => ?_, hcoll⟩
      exact (List.mem_append.1 hy).elim (hno y) (hno' y)

/-! ## The exchanges -/

/-- **The exchanges of a call**: they do not end an enrollment, or the call returns OK, and they are
the start, the loop up to its last sample, and the end. -/
theorem enroll_exchanges {rounds : Nat} {c c' : HcpComm} {es : List HcpEvent} {r : FpcBepResult}
    (h : Runs ((bepEnrollFinger rounds).run c) es (r, c')) :
    (r ≠ FPC_BEP_RESULT_OK ∧ ∀ x ∈ exchanges es, x.Collected → ∀ y ∈ exchanges es, y.Finishes →
      y.com ≠ FPC_BEP_RESULT_OK) ∨
    (r = FPC_BEP_RESULT_OK ∧ ∃ (x₀ : Exchange) (xs : List Exchange) (x y : Exchange),
      exchanges es = x₀ :: xs ++ [x, y] ∧ x₀.Starts ∧ x₀.Ok ∧ (∀ z ∈ xs, z.Between) ∧
      x.Collected ∧ y.Finishes ∧ y.com = FPC_BEP_RESULT_OK) := by
  simp only [bepEnrollFinger, StateT.run_bind, run_callback, touch_bind, ret_bind,
    runs_touch] at h
  obtain ⟨es₀, fs₀, rfl, ⟨r₀, c₀, hfail, h⟩ | ⟨x₀, hx₀, hreq₀, hok₀, h⟩⟩ := exitIfErr_commanded
    (sendCmd_commanded (by decide : ARG_START < 65536)) h
  · obtain ⟨rfl, heq⟩ := runs_ret.1 (runs_touch.1 h)
    cases heq
    refine .inl ⟨by decide, fun x hx hcoll => ?_⟩
    rw [List.append_nil] at hx
    exact absurd (hfail x hx).1 hcoll.1.not_starts
  simp only [StateT.run_bind] at h
  obtain ⟨⟨done, c₁⟩, es₁, fs₁, rfl, hloop, h⟩ := runs_bind.1 h
  obtain ⟨⟨r₂, c₂⟩, es₂, fs₂, rfl, hfinish, h⟩ := runs_bind.1 h
  have hcmd := sendCmd_commanded (by decide : ARG_FINISH < 65536) hfinish
  obtain ⟨rfl, heq⟩ := runs_ret.1 (runs_touch.1 h)
  simp only [exchanges_append, hx₀, List.append_nil]
  rcases samples_exchanges MAX_CAPTURE_ATTEMPTS hloop with ⟨rfl, hno⟩ | ⟨rfl, xs, x, hxs, hno, hcoll⟩
  · cases heq
    refine .inl ⟨(by decide : FPC_BEP_RESULT_GENERAL_ERROR ≠ FPC_BEP_RESULT_OK),
      fun x hx hcoll => ?_⟩
    simp only [List.mem_append, List.mem_singleton] at hx
    rcases hx with rfl | hx | hx
    · exact absurd hreq₀ hcoll.1.not_starts
    · exact absurd hcoll (hno x hx).2.2
    · exact absurd (hcmd.mem hx).1 hcoll.1.not_finishes
  · cases heq
    by_cases hr : r₂ = FPC_BEP_RESULT_OK
    · subst hr
      obtain ⟨y, hy, hreq, hcom, -⟩ := hcmd.ok
      refine .inr ⟨rfl, x₀, xs, x, y, ?_, hreq₀, hok₀, hno, hcoll, hreq, hcom⟩
      simp [hxs, hy]
    · refine .inl ⟨hr, fun z _ _ y hy hfin => ?_⟩
      simp only [List.mem_append, List.mem_singleton, hxs] at hy
      rcases hy with rfl | (hy | rfl) | hy
      · exact absurd hfin (Exchange.Starts.not_finishes hreq₀)
      · exact absurd hfin (hno y hy).2.1
      · exact absurd hfin hcoll.1.not_finishes
      · rw [(hcmd.mem hy).2.1]
        exact hr

/-! ## What an enrollment rests on -/

/-- The enrollment was started, the device took a sample and reported that none remains, and the
last exchange ended it; all three succeeded. -/
def EnrollSound (xs : List Exchange) : Prop :=
  (∃ x ∈ xs, x.Starts ∧ x.Ok) ∧
  (∃ x ∈ xs, x.Adds ∧ x.Ok ∧ x.after.argument ARG_COUNT = some [0, 0, 0, 0]) ∧
  ∃ y, xs.getLast? = some y ∧ y.Finishes ∧ y.Ok

/-- The device reports OK, and the answer carries an `ARG_COUNT` of four bytes inside the packet. -/
def CarriesCount (c : HcpComm) : Prop :=
  c.bepResult = FPC_BEP_RESULT_OK ∧ ∃ d, c.argument ARG_COUNT = some d ∧ d.length = 4

/-- Four bytes of zero. -/
theorem argument_eq_zero_iff {c : HcpComm} {d : List Byte} (h : c.argument ARG_COUNT = some d)
    (hlen : d.length = 4) : c.samplesRemaining = some 0 ↔ d = [0, 0, 0, 0] := by
  obtain ⟨a, ha, -, -⟩ := argument_eq_some.1 h
  have hword : slice c.pktBuffer a.data 4 = d := by
    rw [argument_take h ha (by omega), List.take_of_length_le (by omega)]
  rw [HcpComm.samplesRemaining, ha, Option.some_or, Option.map_some, hword, Option.some.injEq]
  constructor
  · intro hzero
    rw [← enc32_dec32 hlen, hzero]
    decide
  · rintro rfl
    decide

/-- **An enrollment that returns OK is sound exactly when** the answer that ended the loop carries
its count, and the device reported OK in it and in the answer to `ARG_FINISH`. -/
theorem enroll_sound_iff {rounds : Nat} {c c' : HcpComm} {es : List HcpEvent} {r : FpcBepResult}
    (h : Runs ((bepEnrollFinger rounds).run c) es (r, c')) :
    (r = FPC_BEP_RESULT_OK → EnrollSound (exchanges es)) ↔
      ∀ x ∈ exchanges es, x.Collected → ∀ y ∈ exchanges es, y.Finishes →
        y.com = FPC_BEP_RESULT_OK →
        CarriesCount x.after ∧ y.after.bepResult = FPC_BEP_RESULT_OK := by
  rcases enroll_exchanges h with ⟨hr, hno⟩ | ⟨rfl, x₀, xs, x, y, hxs, hreq₀, hok₀, hbetween, hcoll,
    hfin, hcom⟩
  · refine iff_of_true (fun hok => absurd hok hr) fun x hx hcoll y hy hfin hcom => ?_
    exact absurd hcom (hno x hx hcoll y hy hfin)
  have hmem {z : Exchange} : z ∈ exchanges es ↔ z = x₀ ∨ z ∈ xs ∨ z = x ∨ z = y := by
    simp [hxs]
  have hlast : (exchanges es).getLast? = some y := by
    rw [hxs, show x₀ :: xs ++ [x, y] = x₀ :: xs ++ [x] ++ [y] by simp, List.getLast?_concat]
  have honly {z : Exchange} (hz : z ∈ exchanges es) (hcoll' : z.Collected) : z = x := by
    rcases hmem.1 hz with rfl | hz | rfl | rfl
    · exact absurd hreq₀ hcoll'.1.not_starts
    · exact absurd hcoll' (hbetween z hz).2.2
    · rfl
    · exact absurd hfin hcoll'.1.not_finishes
  constructor
  · intro hsound z hz hcoll' w hw hfin' _
    obtain ⟨-, ⟨u, hu, hadds, hok, harg⟩, v, hv, -, hok'⟩ := hsound rfl
    obtain rfl := honly hz hcoll'
    obtain rfl := honly hu ⟨hadds, hok.1, (argument_eq_zero_iff harg rfl).2 rfl⟩
    obtain rfl : v = y := Option.some.inj (hv.symm.trans hlast)
    refine ⟨⟨hok.2, _, harg, rfl⟩, ?_⟩
    rcases hmem.1 hw with rfl | hw | rfl | rfl
    · exact absurd hfin' (Exchange.Starts.not_finishes hreq₀)
    · exact absurd hfin' (hbetween w hw).2.1
    · exact absurd hfin' hcoll.1.not_finishes
    · exact hok'.2
  · intro hcarries _
    obtain ⟨⟨hdev, d, hd, hlen⟩, hdev'⟩ := hcarries x (hmem.2 (by simp)) hcoll y
      (hmem.2 (by simp)) hfin hcom
    rw [(argument_eq_zero_iff hd hlen).1 hcoll.2.2] at hd
    exact ⟨⟨x₀, hmem.2 (by simp), hreq₀, hok₀⟩, ⟨x, hmem.2 (by simp), hcoll.1,
      ⟨hcoll.2.1, hdev⟩, hd⟩, y, hlast, hfin, hcom, hdev'⟩

/-! ## Calls that are answered -/

/-- A call whose first sample is the last one, and whose `ARG_FINISH` is answered with `args`; its
captures, of which `P` holds, return OK. -/
theorem enroll_answered {c : HcpComm} (hmax : APP_MTU < c.pktSizeMax) {P : List Exchange → Prop}
    (hcapture : ∀ c : HcpComm, APP_MTU < c.pktSizeMax → ∃ es c',
      Runs ((bepCapture 2 CAPTURE_TIMEOUT).run c) es (FPC_BEP_RESULT_OK, c') ∧ P (exchanges es) ∧
        c'.pktSizeMax = c.pktSizeMax)
    (args : List CmdArg) (hlen : (encodePacket CMD_ENROLL args).length ≤ APP_MTU)
    (hres : ∀ a ∈ args, a.type = ARG_RESULT → a.data ≠ []) :
    ∃ (es : List HcpEvent) (x₀ : Exchange) (xs : List Exchange) (x y : Exchange) (c' : HcpComm),
      Runs ((bepEnrollFinger 2).run c) es (FPC_BEP_RESULT_OK, c') ∧
      exchanges es = x₀ :: xs ++ [x, y] ∧ x₀.Starts ∧ P xs ∧ x.Collected ∧ CarriesCount x.after ∧
      y.Finishes ∧ y.com = FPC_BEP_RESULT_OK ∧ y.after.bepResult = resultOf args ∧
      c'.pktSizeMax = c.pktSizeMax := by
  obtain ⟨es₀, x₀, hrun₀, hx₀, hreq₀, hcom₀, hans₀⟩ := sendCmd_answered (Nat.le_refl 2) CMD_ENROLL
    (by decide : ARG_START < 65536) CMD_ENROLL [] (by decide) hmax (by simp)
  have hmax₀ : APP_MTU < x₀.after.pktSizeMax := hans₀.max_eq ▸ hmax
  obtain ⟨es₁, c₁, hrun₁, hxs, hmax₁⟩ := hcapture x₀.after hmax₀
  have hmax₂ : APP_MTU < c₁.pktSizeMax := hmax₁ ▸ hmax₀
  let count : CmdArg := ⟨ARG_COUNT, [0, 0, 0, 0], by decide, by decide⟩
  obtain ⟨es₂, x₂, hrun₂, hx₂, hreq₂, hcom₂, hans₂⟩ := sendCmd_answered (Nat.le_refl 2) CMD_ENROLL
    (by decide : ARG_ADD < 65536) CMD_ENROLL [count] (by decide) hmax₂ (by decide)
  have hcount : x₂.after.argument ARG_COUNT = some [0, 0, 0, 0] :=
    argument_packet hans₂.packet_eq hans₂.size_le ARG_COUNT
  have hzero := (argument_eq_zero_iff hcount rfl).2 rfl
  obtain ⟨r, hget⟩ := getArg_dropped x₂.after ARG_COUNT
  obtain ⟨es₃, x₃, hrun₃, hx₃, hreq₃, hcom₃, hans₃⟩ := sendCmd_answered
    (c := { x₂.after with arg := (x₂.after.findArg ARG_COUNT).or x₂.after.arg })
    (Nat.le_refl 2) CMD_ENROLL (by decide : ARG_FINISH < 65536) CMD_ENROLL args hlen
    (hans₂.max_eq ▸ hmax₂) hres
  have hdev₀ : x₀.after.bepResult = FPC_BEP_RESULT_OK := hans₀.result_eq
  have hloop : Runs ((bepEnrollFinger.samples 2 15).run x₀.after) (es₁ ++ (es₂ ++ []))
      (true, { x₂.after with arg := (x₂.after.findArg ARG_COUNT).or x₂.after.arg }) := by
    obtain ⟨a, ha, hword⟩ := Option.map_eq_some_iff.1 hzero
    simp only [bepEnrollFinger.samples, StateT.run_bind, run_callback, touch_bind, ret_bind]
    refine .touch (Runs.bind hrun₁ (.touch ?_))
    simp only [ne_eq, not_true_eq_false, if_false, StateT.run_bind]
    refine Runs.bind hrun₂ ?_
    simp only [not_true_eq_false, if_false, StateT.run_bind]
    refine (hget.runs_bind).2 (runs_chainArg.2 ⟨a, ha, ?_⟩)
    simp only [run_load32, touch_bind, ret_bind, HcpComm.mem_pkt, hword, if_true]
    exact .touch (.refl _)
  refine ⟨es₀ ++ (es₁ ++ (es₂ ++ []) ++ (es₃ ++ [])), x₀, exchanges es₁, x₂, x₃, x₃.after, ?_,
    by simp [hx₀, hx₂, hx₃], hreq₀, hxs, ⟨hreq₂, hcom₂, hzero⟩,
    ⟨hans₂.result_eq, _, hcount, rfl⟩, hreq₃, hcom₃, hans₃.result_eq,
    (hans₃.max_eq.trans hans₂.max_eq).trans (hmax₁.trans hans₀.max_eq)⟩
  refine .touch (runs_exitIfErr.2 ⟨_, _, es₀, _, rfl, hrun₀, ?_⟩)
  rw [if_neg (by simp [hdev₀])]
  simp only [StateT.run_bind]
  refine Runs.bind hloop (Runs.bind hrun₃ ?_)
  exact .touch (.refl _)

/-- One capture, which succeeds. -/
def OneCapture (xs : List Exchange) : Prop :=
  ∃ x, xs = [x] ∧ x.Requests CMD_CAPTURE [timeoutArg CAPTURE_TIMEOUT] ∧ x.Ok

theorem capture_single (c : HcpComm) (hmax : APP_MTU < c.pktSizeMax) :
    ∃ es c', Runs ((bepCapture 2 CAPTURE_TIMEOUT).run c) es (FPC_BEP_RESULT_OK, c') ∧
      OneCapture (exchanges es) ∧ c'.pktSizeMax = c.pktSizeMax := by
  obtain ⟨es, x, c', hrun, hx, hreq, hok, -, hmax'⟩ :=
    capture_answered (Nat.le_refl 2) CAPTURE_TIMEOUT hmax
  exact ⟨es, c', hrun, ⟨x, hx, hreq, hok⟩, hmax'⟩

/-- An enrollment of one sample. -/
theorem enroll_sound_single : ∃ es c',
    Runs ((bepEnrollFinger 2).run hcpChain) es (FPC_BEP_RESULT_OK, c') ∧
      EnrollSound (exchanges es) := by
  obtain ⟨es, x₀, _, x, y, c', hrun, hxs, hstart, ⟨x₁, rfl, hcapture, -⟩, hcollected, hcount,
    hfin, -, hdev, -⟩ := enroll_answered (c := hcpChain) (by decide) capture_single [] (by decide)
      (by simp)
  refine ⟨es, c', hrun, (enroll_sound_iff hrun).2 ?_ rfl⟩
  have hbetween : x₁.Between := between_of_requests hcapture (by decide) (by decide)
  have hmem {z : Exchange} (hz : z ∈ exchanges es) : z = x₀ ∨ z = x₁ ∨ z = x ∨ z = y := by
    simpa [hxs] using hz
  intro z hz hcoll w hw hfin' _
  constructor
  · rcases hmem hz with rfl | rfl | rfl | rfl
    · exact absurd hstart hcoll.1.not_starts
    · exact absurd hcoll hbetween.2.2
    · exact hcount
    · exact absurd hfin hcoll.1.not_finishes
  · rcases hmem hw with rfl | rfl | rfl | rfl
    · exact absurd hfin' hstart.not_finishes
    · exact absurd hfin' hbetween.2.1
    · exact absurd hfin' hcollected.1.not_finishes
    · exact hdev

/-- **An enrollment that the device fails to finish returns OK.** -/
theorem enroll_unfinished : ∃ es c',
    Runs ((bepEnrollFinger 2).run hcpChain) es (FPC_BEP_RESULT_OK, c') ∧
      ¬ EnrollSound (exchanges es) := by
  obtain ⟨es, x₀, _, x, y, c', hrun, hxs, -, ⟨x₁, rfl, -⟩, -, -, -, -, hdev, -⟩ :=
    enroll_answered (c := hcpChain) (by decide) capture_single
      [⟨ARG_RESULT, [0xff], by decide, by decide⟩] (by decide) (by simp)
  refine ⟨es, c', hrun, ?_⟩
  rintro ⟨-, -, z, hz, -, -, hok⟩
  obtain rfl : y = z := by simpa [hxs] using hz
  rw [hdev] at hok
  exact absurd hok (by decide)

end BMLite
