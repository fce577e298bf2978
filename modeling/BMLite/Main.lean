import BMLite.Enroll
import BMLite.Lib.Trace
import BMLite.Report

/-!
# `main.c`: the loop of the example program

* `Main`, `MainStep` — the loop, one call of `bmlite_if.h` after the other, whatever the button,
  the module and the channel do;
* `Enrollments` — what a run has done: whether the enrollment of this iteration has succeeded, and
  the identifiers under which templates have been saved since all were removed;
* `OnlyFinished` — only finished enrollments are saved, each under an identifier of its own, and
  `current_id` counts the templates that have been saved;
* `stored_iff` — **a run does so exactly when** all its enrollments and saves succeed, and no more
  than 65536 of them follow a removal.

The LEDs, the reset of the module after a `TIMEOUT` of `bep_identify_finger`, and what it has found
out, do not come back into the loop and are left out.
-/

set_option autoImplicit false

namespace BMLite

open FlatMemory Process Trace

/-! ## The loop -/

/-- The calls of `main`. -/
inductive MainCall where
  | version
  | enroll
  | save
  | removeAll
  | identify
  | wait
  deriving DecidableEq

/-- The call that is made next; `none` is the one that fetches the time of a button press. -/
structure Main where
  next : Option MainCall
  chain : HcpComm
  currentId : BitVec 32

/-- `main` begins by asking for the version. -/
def Main.start (c : HcpComm) : Main := ⟨some .version, c, 0⟩

/-- `current_id` as the `uint16_t` argument of `bep_template_save`. -/
def templateIdOf (currentId : BitVec 32) : Nat := currentId.toNat % 65536

def MainCall.body (rounds : Nat) (currentId : BitVec 32) : MainCall → Hcp FpcBepResult
  | .version => do return (← bepVersion rounds (some fun _ => 0) 99).1
  | .enroll => bepEnrollFinger rounds
  | .save => bepTemplateSave rounds (templateIdOf currentId)
  | .removeAll => bepTemplateRemoveAll rounds
  | .identify => do return (← bepIdentifyFinger rounds 0 0).1
  | .wait => sensorWaitFingerNotPresent rounds 0

/-- The branches on `btn_time`. -/
def Main.branch (m : Main) (btnTime : BitVec 32) : Main :=
  if btnTime < 200 then { m with next := some .identify }
  else if btnTime < 5000 then { m with next := some .enroll }
  else { m with next := some .removeAll }

/-- What follows a call that has returned `res`. -/
def Main.after (m : Main) (call : MainCall) (res : FpcBepResult) (chain : HcpComm) : Main :=
  match call with
  | .version => { m with next := none, chain }
  -- the result of the enrollment is overwritten by that of the save
  | .enroll => { m with next := some .save, chain }
  | .save => { next := some .identify, chain, currentId := m.currentId + 1 }
  | .removeAll => { next := some .identify, chain, currentId := 0 }
  | .identify =>
    if res = FPC_BEP_RESULT_TIMEOUT then { m with next := some .wait, chain }
    else if res ≠ FPC_BEP_RESULT_OK then { m with next := none, chain }
    else { m with next := some .wait, chain }
  | .wait => { m with next := none, chain }

/-- A button time is fetched, or a call returns: what went over the channel, its result and that of
the device, and `current_id` before and after it. -/
inductive MainEvent where
  | fetch (btnTime : BitVec 32)
  | ret (call : MainCall) (traffic : List HcpEvent) (res dev : FpcBepResult) (id id' : BitVec 32)

inductive MainStep : Main → MainEvent → Main → Prop
  | fetch {m : Main} (btnTime : BitVec 32) :
    m.next = none → MainStep m (.fetch btnTime) (m.branch btnTime)
  | ret {m : Main} {call : MainCall} {rounds : Nat} {traffic : List HcpEvent} {res : FpcBepResult}
      {chain : HcpComm} :
    m.next = some call →
    Runs ((call.body rounds m.currentId).run m.chain) traffic (res, chain) →
    MainStep m
      (.ret call traffic res chain.bepResult m.currentId (m.after call res chain).currentId)
      (m.after call res chain)

/-! ## What is saved -/

structure Enrollments where
  /-- In this iteration `bep_enroll_finger` has returned OK. -/
  enrolled : Bool
  /-- The identifiers of the saves, since all templates were removed, whose communication and
  device results were both OK. -/
  saved : List Nat

def Enrollments.next (s : Enrollments) : MainEvent → Enrollments
  | .fetch _ => { s with enrolled := false }
  | .ret .enroll _ res _ _ _ => { s with enrolled := decide (res = FPC_BEP_RESULT_OK) }
  | .ret .save _ res dev id _ =>
    if res = FPC_BEP_RESULT_OK ∧ dev = FPC_BEP_RESULT_OK then
      { s with saved := templateIdOf id :: s.saved }
    else s
  | .ret .removeAll _ _ _ _ _ => { s with saved := [] }
  | _ => s

/-- A save follows a finished enrollment, and does not use an identifier again; and but for a
removal `current_id` changes only when a save has ended well. -/
def Enrollments.Permits (s : Enrollments) : MainEvent → Prop
  | .fetch _ => True
  | .ret call _ res dev id id' =>
    (call = .save → s.enrolled = true ∧
      (res = FPC_BEP_RESULT_OK ∧ dev = FPC_BEP_RESULT_OK → templateIdOf id ∉ s.saved)) ∧
    (call ≠ .removeAll → id' ≠ id →
      call = .save ∧ res = FPC_BEP_RESULT_OK ∧ dev = FPC_BEP_RESULT_OK)

/-- The state after the events. -/
def enrollments (es : List MainEvent) : Enrollments := es.foldl Enrollments.next ⟨false, []⟩

/-- **Only a finished enrollment is stored**, also where a save has been issued that has not
returned. -/
structure OnlyFinished (es : List MainEvent) (m : Main) : Prop where
  permitted : Allowed Enrollments.next Enrollments.Permits ⟨false, []⟩ es
  issued : m.next = some .save → (enrollments es).enrolled = true

/-! ## When a call succeeds -/

/-- The samples have been collected, and the exchange of `ARG_FINISH` has succeeded. -/
def EnrollFinishes (traffic : List HcpEvent) : Prop :=
  (∃ x ∈ exchanges traffic, x.Collected) ∧
    ∃ y ∈ exchanges traffic, y.Finishes ∧ y.com = FPC_BEP_RESULT_OK

theorem enroll_ok_iff {rounds : Nat} {c c' : HcpComm} {es : List HcpEvent} {r : FpcBepResult}
    (h : Runs ((bepEnrollFinger rounds).run c) es (r, c')) :
    r = FPC_BEP_RESULT_OK ↔ EnrollFinishes es := by
  rcases enroll_exchanges h with ⟨hr, hno⟩ | ⟨hr, x₀, xs, x, y, hxs, -, -, -, hcoll, hfin, hcom⟩
  · refine iff_of_false hr ?_
    rintro ⟨⟨x, hx, hcoll⟩, y, hy, hfin, hcom⟩
    exact hno x hx hcoll y hy hfin hcom
  · refine iff_of_true hr ⟨⟨x, ?_, hcoll⟩, y, ?_, hfin, hcom⟩
    · rw [hxs]
      simp
    · rw [hxs]
      simp

/-- The argument of `bep_template_save`. -/
def idArg (templateId : Nat) : CmdArg :=
  ⟨ARG_ID, enc16 templateId, by decide, by rw [enc16_length]; decide⟩

theorem save_ok_iff {rounds templateId : Nat} {c c' : HcpComm} {es : List HcpEvent}
    {r : FpcBepResult} (h : Runs ((bepTemplateSave rounds templateId).run c) es (r, c')) :
    (r = FPC_BEP_RESULT_OK ∧ c'.bepResult = FPC_BEP_RESULT_OK) ↔ ∃ x ∈ exchanges es, x.Ok := by
  unfold bepTemplateSave at h
  rcases sendCmdArg_commanded (by decide : ARG_SAVE < 65536) (idArg templateId)
    (by decide : 2 ≤ 255) h with ⟨hnil, hr⟩ | ⟨x, hx, -, rfl, rfl⟩
  · rw [hnil]
    exact iff_of_false (fun hok => hr hok.1) (by simp)
  · rw [hx]
    simp [Exchange.Ok]

/-- The event is not an enrollment that fails, nor a save that fails or comes after 65536 others
without a removal in between. -/
def MainEvent.Succeeds : MainEvent → Prop
  | .ret .enroll traffic _ _ _ _ => EnrollFinishes traffic
  | .ret .save traffic _ _ id _ => id.toNat < 65536 ∧ ∃ x ∈ exchanges traffic, x.Ok
  | _ => True

/-! ## Runs -/

/-- The identifiers below `current_id` are those that have been used. -/
structure Counts (s : Enrollments) (m : Main) : Prop where
  le : m.currentId.toNat ≤ 65536
  mem_iff : ∀ id, id ∈ s.saved ↔ id < m.currentId.toNat
  issued : m.next = some .save → s.enrolled = true

theorem counts_start (c : HcpComm) : Counts ⟨false, []⟩ (Main.start c) where
  le := Nat.zero_le _
  mem_iff := fun id => by simp [Main.start]
  issued := fun h => by cases h

/-- `current_id` is counted up. -/
theorem toNat_succ {id : BitVec 32} (h : id.toNat ≤ 65536) : (id + 1).toNat = id.toNat + 1 := by
  rw [BitVec.toNat_add]
  exact Nat.mod_eq_of_lt (show id.toNat + 1 < 2 ^ 32 by omega)

theorem succ_ne {id : BitVec 32} (h : id.toNat ≤ 65536) : id + 1 ≠ id := by
  intro heq
  have hnat := toNat_succ h
  rw [heq] at hnat
  omega

variable {s : Enrollments} {m m' : Main} {e : MainEvent}

/-- **A save** is permitted if and only if it succeeds. -/
theorem save_step {rounds : Nat} {traffic : List HcpEvent} {res : FpcBepResult} {chain : HcpComm}
    (hs : Counts s m) (hnext : m.next = some .save)
    (hrun : Runs ((bepTemplateSave rounds (templateIdOf m.currentId)).run m.chain) traffic
      (res, chain)) :
    let e : MainEvent := .ret .save traffic res chain.bepResult m.currentId (m.currentId + 1)
    (s.Permits e ↔ e.Succeeds) ∧ (e.Succeeds → Counts (s.next e) (m.after .save res chain)) := by
  intro e
  have hok := save_ok_iff hrun
  have hle := hs.le
  constructor
  · constructor
    · rintro ⟨hsave, hchange⟩
      have hgood := (hchange (by decide) (succ_ne hle)).2
      refine ⟨?_, hok.1 hgood⟩
      by_contra hlarge
      have hfull : m.currentId.toNat = 65536 := by omega
      refine (hsave rfl).2 hgood ((hs.mem_iff _).2 ?_)
      rw [templateIdOf, hfull]
      decide
    · rintro ⟨hlt, hx⟩
      refine ⟨fun _ => ⟨hs.issued hnext, fun _ => ?_⟩, fun _ _ => ⟨rfl, hok.2 hx⟩⟩
      rw [hs.mem_iff, templateIdOf, Nat.mod_eq_of_lt hlt]
      exact Nat.lt_irrefl _
  · rintro ⟨hlt, hx⟩
    have hsaved : (s.next e).saved = templateIdOf m.currentId :: s.saved := by
      show (Enrollments.saved (if _ then _ else _)) = _
      rw [if_pos (hok.2 hx)]
    refine ⟨?_, fun id => ?_, fun h => by cases h⟩
    · show (m.currentId + 1).toNat ≤ 65536
      rw [toNat_succ hle]
      exact hlt
    · show id ∈ (s.next e).saved ↔ id < (m.currentId + 1).toNat
      rw [hsaved, List.mem_cons, hs.mem_iff, toNat_succ hle, templateIdOf, Nat.mod_eq_of_lt hlt]
      omega

/-- Nothing is asked of a call that is no save and leaves `current_id` alone. -/
theorem permits_of_eq {call : MainCall} {traffic : List HcpEvent} {res dev : FpcBepResult}
    {id : BitVec 32} (hcall : call ≠ .save) : s.Permits (.ret call traffic res dev id id) :=
  ⟨fun h => absurd h hcall, fun _ h => absurd rfl h⟩

theorem branch_next (m : Main) (btnTime : BitVec 32) : (m.branch btnTime).next ≠ some .save := by
  unfold Main.branch
  split
  · exact fun h => by cases h
  · split <;> exact fun h => by cases h

theorem branch_currentId (m : Main) (btnTime : BitVec 32) :
    (m.branch btnTime).currentId = m.currentId := by
  unfold Main.branch
  split
  · rfl
  · split <;> rfl

theorem identify_next (m : Main) (res : FpcBepResult) (chain : HcpComm) :
    (m.after .identify res chain).next ≠ some .save ∧
      (m.after .identify res chain).currentId = m.currentId := by
  simp only [Main.after]
  split
  · exact ⟨(fun h => by cases h), rfl⟩
  · split <;> exact ⟨(fun h => by cases h), rfl⟩

/-- **One step of the loop** does what is permitted, and issues a save only after a finished
enrollment, if and only if it is not one of the failures. -/
theorem main_step (hs : Counts s m) (hstep : MainStep m e m') :
    (s.Permits e ∧ (m'.next = some .save → (s.next e).enrolled = true) ↔ e.Succeeds) ∧
      (e.Succeeds → Counts (s.next e) m') := by
  cases hstep with
  | fetch btnTime hnext =>
    have hno := branch_next m btnTime
    refine ⟨iff_of_true ⟨trivial, fun h => absurd h hno⟩ trivial, fun _ => ⟨?_, ?_, ?_⟩⟩
    · rw [branch_currentId]
      exact hs.le
    · rw [branch_currentId]
      exact hs.mem_iff
    · exact fun h => absurd h hno
  | @ret call rounds traffic res chain hnext hrun =>
    cases call with
    | version =>
      exact ⟨iff_of_true ⟨permits_of_eq (by decide), fun h => by cases h⟩ trivial,
        fun _ => ⟨hs.le, hs.mem_iff, fun h => by cases h⟩⟩
    | enroll =>
      have hok := enroll_ok_iff hrun
      constructor
      · constructor
        · rintro ⟨-, hissued⟩
          exact hok.1 (of_decide_eq_true (hissued rfl))
        · exact fun h => ⟨permits_of_eq (by decide), fun _ => decide_eq_true (hok.2 h)⟩
      · exact fun h => ⟨hs.le, hs.mem_iff, fun _ => decide_eq_true (hok.2 h)⟩
    | save =>
      obtain ⟨hiff, hcounts⟩ := save_step hs hnext hrun
      refine ⟨⟨fun h => hiff.1 h.1, fun h => ⟨hiff.2 h, fun h' => by cases h'⟩⟩, hcounts⟩
    | removeAll =>
      refine ⟨iff_of_true ⟨⟨(fun h => by cases h), fun h => absurd rfl h⟩, fun h => by cases h⟩
        trivial, fun _ => ⟨Nat.zero_le _, fun id => ?_, fun h => by cases h⟩⟩
      simp [Enrollments.next, Main.after]
    | identify =>
      obtain ⟨hno, hid⟩ := identify_next m res chain
      rw [hid]
      refine ⟨iff_of_true ⟨permits_of_eq (by decide), fun h => absurd h hno⟩ trivial,
        fun _ => ⟨?_, ?_, fun h => absurd h hno⟩⟩
      · rw [hid]
        exact hs.le
      · rw [hid]
        exact hs.mem_iff
    | wait =>
      exact ⟨iff_of_true ⟨permits_of_eq (by decide), fun h => by cases h⟩ trivial,
        fun _ => ⟨hs.le, hs.mem_iff, fun h => by cases h⟩⟩

/-- A save that returns has been issued. -/
theorem issued_of_permits (hstep : MainStep m e m') (h : s.Permits e)
    (hnext : m.next = some .save) : s.enrolled = true := by
  cases hstep with
  | fetch btnTime hnone => cases hnext.symm.trans hnone
  | ret hcall hrun =>
    cases hnext.symm.trans hcall
    exact (h.1 rfl).1

/-- **A whole run.** -/
theorem stored_run {c : HcpComm} {es : List MainEvent} (hrun : Run MainStep (Main.start c) es m) :
    (OnlyFinished es m ↔ ∀ e ∈ es, e.Succeeds) ∧
      ((∀ e ∈ es, e.Succeeds) → Counts (enrollments es) m) := by
  induction hrun with
  | nil =>
    exact ⟨iff_of_true ⟨allowed_nil, fun h => by cases h⟩ (by simp), fun _ => counts_start c⟩
  | @snoc es m e m' _ hstep ih =>
    obtain ⟨hiff, hcounts⟩ := ih
    have hfold : enrollments (es ++ [e]) = (enrollments es).next e := by
      simp [enrollments, List.foldl_append]
    have hall : (∀ x ∈ es ++ [e], x.Succeeds) ↔ (∀ x ∈ es, x.Succeeds) ∧ e.Succeeds := by
      simp [or_imp, forall_and]
    rw [hall, hfold]
    refine ⟨⟨fun hkept => ?_, fun ⟨hes, he⟩ => ?_⟩, fun ⟨hes, he⟩ =>
      (main_step (hcounts hes) hstep).2 he⟩
    · obtain ⟨hallowed, hpermits⟩ := allowed_snoc.1 hkept.permitted
      have hes := hiff.1 ⟨hallowed, issued_of_permits hstep hpermits⟩
      refine ⟨hes, (main_step (hcounts hes) hstep).1.1 ⟨hpermits, fun hnext => ?_⟩⟩
      rw [← hfold]
      exact hkept.issued hnext
    · obtain ⟨hpermits, hissued⟩ := (main_step (hcounts hes) hstep).1.2 he
      refine ⟨allowed_snoc.2 ⟨(hiff.2 hes).permitted, hpermits⟩, fun hnext => ?_⟩
      rw [hfold]
      exact hissued hnext

/-- **Only finished enrollments are stored, each under an identifier of its own, if and only if**
every enrollment and every save of the run succeeds, and `current_id` has 16 bits at every save. -/
theorem stored_iff {c : HcpComm} {es : List MainEvent} (hrun : Run MainStep (Main.start c) es m) :
    OnlyFinished es m ↔ ∀ e ∈ es, e.Succeeds :=
  (stored_run hrun).1

/-! ## Requests that are not acknowledged -/

/-- No ACK comes for the first frame of a request. -/
theorem request_unacked (c : HcpComm) : ∃ es c',
    Runs ((bmliteTranceive 1).run c) es (FPC_BEP_RESULT_IO_ERROR, c') ∧
      c'.pktSizeMax = c.pktSizeMax := by
  have hfail : ackResult FPC_BEP_RESULT_TIMEOUT (([] : List Byte).take 4) =
      FPC_BEP_RESULT_IO_ERROR := by decide
  obtain ⟨f, x, hrun, hmax, -⟩ := tranceive_unacked c hfail
  exact ⟨_, x.after, hrun, hmax⟩

theorem version_unacked : ∃ traffic chain,
    Runs ((MainCall.version.body 1 0).run hcpChain) traffic (FPC_BEP_RESULT_IO_ERROR, chain) ∧
      chain.pktSizeMax = 5120 := by
  obtain ⟨es, c', hrun, hmax⟩ :=
    request_unacked ((hcpChain.prepare CMD_INFO ARG_GET).addArg ARG_VERSION [] 0)
  have hsend := (@runs_sendCmdArg hcpChain c' 1 CMD_INFO ARG_GET ARG_VERSION 0 [] es
    FPC_BEP_RESULT_IO_ERROR (by decide)).2 (by
      rw [if_neg (by decide), if_neg (by decide)]
      exact hrun)
  have hversion : Runs ((bepVersion 1 (some fun _ => 0) 99).run hcpChain) (es ++ [])
      ((FPC_BEP_RESULT_IO_ERROR, some fun _ => 0), c') := by
    unfold bepVersion assertOut
    exact Runs.bind hsend (.refl _)
  exact ⟨es ++ [] ++ [], c', Runs.bind hversion (.refl _), hmax⟩

theorem enroll_unacked {c : HcpComm} (hmax : c.pktSizeMax = 5120) : ∃ traffic chain,
    Runs ((bepEnrollFinger 1).run c) traffic (FPC_BEP_RESULT_GENERAL_ERROR, chain) := by
  obtain ⟨es, c', hrun, -⟩ := request_unacked (c.prepare CMD_ENROLL ARG_START)
  have hsend := (@runs_sendCmd c c' 1 CMD_ENROLL ARG_START es FPC_BEP_RESULT_IO_ERROR).2
    (by rw [if_neg (by omega)]; exact hrun)
  refine ⟨es ++ [], c', ?_⟩
  refine .touch (runs_exitIfErr.2 ⟨FPC_BEP_RESULT_IO_ERROR, c', es, [], rfl, hsend, ?_⟩)
  rw [if_pos (.inl (by decide))]
  exact .touch (.refl _)

/-- A finger is enrolled, and its template is saved under the identifier 0. -/
theorem enroll_saved {c : HcpComm} (hmax : APP_MTU < c.pktSizeMax) :
    ∃ traffic chain traffic' chain',
      Runs ((bepEnrollFinger 2).run c) traffic (FPC_BEP_RESULT_OK, chain) ∧
        EnrollFinishes traffic ∧
      Runs ((bepTemplateSave 2 (templateIdOf 0)).run chain) traffic' (FPC_BEP_RESULT_OK, chain') ∧
        (∃ x ∈ exchanges traffic', x.Ok) ∧ chain'.bepResult = FPC_BEP_RESULT_OK ∧
        chain'.pktSizeMax = c.pktSizeMax := by
  obtain ⟨traffic, x₀, xs, x, y, chain, henroll, hxs, -, -, hcollected, -, hfin, hcom, -, hmax'⟩ :=
    enroll_answered hmax capture_single [] (by decide) (by simp)
  obtain ⟨traffic', z, hsave, hz, -, hok, hans⟩ := sendCmdArg_answered (c := chain)
    (Nat.le_refl 2) CMD_TEMPLATE (by decide : ARG_SAVE < 65536) (idArg 0) (by decide) CMD_TEMPLATE
    [] (by decide) (by rw [hmax']; exact hmax) (by simp)
  have hdev : z.after.bepResult = FPC_BEP_RESULT_OK := hans.result_eq
  exact ⟨traffic, chain, traffic', z.after, henroll,
    ⟨⟨x, by simp [hxs], hcollected⟩, y, by simp [hxs], hfin, hcom⟩, hsave,
    ⟨z, by simp [hz], hok, hdev⟩, hdev, hans.max_eq.trans hmax'⟩

/-- A run in which a finger is enrolled and saved. -/
theorem stored_iff_saved : ∃ es m, Run MainStep (Main.start hcpChain) es m ∧
    m.next = some .identify ∧ m.currentId = 1 ∧ (enrollments es).saved = [0] ∧
      OnlyFinished es m := by
  obtain ⟨traffic, chain, hrun, hmax⟩ := version_unacked
  obtain ⟨traffic₁, chain₁, traffic₂, chain₂, henroll, hfinished, hsave, hsaved, hdev, -⟩ :=
    enroll_saved (c := chain) (by rw [hmax]; decide)
  have h0 : Run MainStep (Main.start hcpChain) [] _ := .nil
  have h1 := ((h0.snoc (.ret rfl hrun)).snoc (.fetch 1000 rfl)).snoc (.ret rfl henroll)
  have h2 := h1.snoc (@MainStep.ret _ .save 2 traffic₂ _ _ rfl hsave)
  refine ⟨_, _, h2, rfl, rfl, ?_, (stored_iff h2).2 ?_⟩
  · simp [enrollments, Enrollments.next, hdev, Main.after, Main.branch, Main.start, templateIdOf]
  · simp [MainEvent.Succeeds, hfinished, hsaved, Main.after, Main.branch, Main.start]

/-- **After an enrollment that fails at its first request a save is issued.** -/
theorem failed_enrollment_stored : ∃ es m, Run MainStep (Main.start hcpChain) es m ∧
    ¬ OnlyFinished es m := by
  obtain ⟨traffic, chain, hrun, hmax⟩ := version_unacked
  obtain ⟨traffic', chain', hrun'⟩ := enroll_unacked hmax
  have h0 : Run MainStep (Main.start hcpChain) [] _ := .nil
  have h1 := ((h0.snoc (.ret rfl hrun)).snoc (.fetch 1000 rfl)).snoc (.ret rfl hrun')
  refine ⟨_, _, h1, fun hkept => ?_⟩
  have henrolled := hkept.issued rfl
  cases henrolled

end BMLite
