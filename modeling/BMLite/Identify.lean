import BMLite.Commands

/-!
# `bep_identify_finger`

* `identifyVerdict`, `identify_verdict_returns` — how the answer to `CMD_IDENTIFY` is read;
* `identify_cases` — the exchanges of a call, up to the step that fails;
* `IdentifySound` — what a reported match should rest on; `identify_sound_iff` — **it does so
  exactly when** an answer that shows a match carries its `ARG_MATCH` and its `ARG_ID` inside the
  packet;
* `IdentifyReported` — what OK should rest on, match or not; `identify_reported_iff` — **it does so
  exactly when** the last exchange did not fail at the device only, and its `ARG_MATCH` lies inside
  the packet.
-/

set_option autoImplicit false

namespace BMLite

open FlatMemory Process

/-! ## Reading the answer -/

/-- The result, `*template_id` and `*match`, and the chain after them.  The pointer stays at the
payload of `ARG_MATCH` when there is no `ARG_ID`. -/
def identifyVerdict (c : HcpComm) (templateId : Nat) : (FpcBepResult × Nat × Bool) × HcpComm :=
  match c.findArg ARG_MATCH with
  | none => ((FPC_BEP_RESULT_INVALID_ARGUMENT, templateId, false), c)
  | some a =>
    if slice c.pktBuffer a.data 1 ≠ [0] then
      let b := (c.findArg ARG_ID).getD a
      ((FPC_BEP_RESULT_OK, dec16 (slice c.pktBuffer b.data 2), true), { c with arg := some b })
    else ((FPC_BEP_RESULT_OK, templateId, false), { c with arg := some a })

theorem runs_identify_exit {c : HcpComm} {templateId : Nat} {isMatch : Bool} {r : FpcBepResult}
    {es : List HcpEvent} {y : (FpcBepResult × Nat × Bool) × HcpComm} :
    Runs ((bepIdentifyFinger.exit templateId isMatch r).run c) es y ↔
      es = [] ∧ ((r, templateId, isMatch), c) = y :=
  runs_touch.trans runs_ret

theorem identify_verdict_returns {c : HcpComm} (hdev : c.bepResult = FPC_BEP_RESULT_OK)
    (templateId : Nat) :
    Returns ((exitIfErr (bmliteGetArg ARG_MATCH) (bepIdentifyFinger.exit templateId false)
      (bepIdentifyFinger.answer templateId)).run c) (identifyVerdict c templateId) := by
  refine returns_of_runs (runs_exitIfErr.2 ?_)
  unfold identifyVerdict
  cases hmatch : c.findArg ARG_MATCH with
  | none =>
    refine ⟨_, c, [], [], rfl, runs_getArg.2 ⟨rfl, by rw [hmatch]; exact ⟨rfl, rfl⟩⟩, ?_⟩
    rw [if_pos (.inl (by decide))]
    exact runs_identify_exit.2 ⟨rfl, rfl⟩
  | some a =>
    refine ⟨_, { c with arg := some a }, [], [], rfl,
      runs_getArg.2 ⟨rfl, by rw [hmatch]; exact ⟨rfl, rfl⟩⟩, ?_⟩
    rw [if_neg (by simp [hdev])]
    simp only [bepIdentifyFinger.answer, StateT.run_bind]
    refine runs_chainArg.2 ⟨a, rfl, ?_⟩
    simp only [run_load, touch_bind, ret_bind, HcpComm.mem_pkt, runs_touch]
    by_cases hbyte : slice c.pktBuffer a.data 1 ≠ [0]
    · obtain ⟨r, hget⟩ := getArg_dropped { c with arg := some a } ARG_ID
      rw [Option.or_some] at hget
      simp only [if_pos hbyte, StateT.run_bind]
      rw [hget.runs_bind]
      exact .touch (.touch (.touch (.refl _)))
    · simp only [if_neg hbyte]
      exact runs_identify_exit.2 ⟨rfl, rfl⟩

/-! ## The exchanges -/

/-- The answer to `CMD_IDENTIFY` makes the host report a match: the result is OK, and the byte
after the first `ARG_MATCH` that the search finds is not zero. -/
def Exchange.Matched (x : Exchange) : Prop :=
  x.Requests CMD_IDENTIFY [] ∧ x.Ok ∧
    ∃ a, x.after.findArg ARG_MATCH = some a ∧ slice x.after.pktBuffer a.data 1 ≠ [0]

theorem not_identify_of_requests {x : Exchange} {cmd : Nat} {args : List CmdArg}
    (h : x.Requests cmd args) (hcmd : cmd < 65536) (hne : cmd ≠ CMD_IDENTIFY) :
    ¬ x.Requests CMD_IDENTIFY [] := by
  intro h'
  exact hne (h.cmd_eq h' hcmd (by decide))

/-- What the verdict says about the exchange whose answer it reads. -/
theorem verdict_matched {x : Exchange} (hreq : x.Requests CMD_IDENTIFY []) (hok : x.Ok)
    {templateId id : Nat} {isMatch : Bool} {r : FpcBepResult} {c' : HcpComm}
    (h : ((r, id, isMatch), c') = identifyVerdict x.after templateId) :
    (isMatch = false ∧ ¬ x.Matched) ∨ (isMatch = true ∧ x.Matched ∧
      ∃ a, x.after.findArg ARG_MATCH = some a ∧
        id = dec16 (slice x.after.pktBuffer ((x.after.findArg ARG_ID).getD a).data 2)) := by
  unfold identifyVerdict at h
  cases hmatch : x.after.findArg ARG_MATCH with
  | none =>
    rw [hmatch] at h
    cases h
    refine .inl ⟨rfl, ?_⟩
    rintro ⟨-, -, a, ha, -⟩
    rw [hmatch] at ha
    cases ha
  | some a =>
    simp only [hmatch] at h
    split at h <;> rename_i hbyte
    · cases h
      exact .inr ⟨rfl, ⟨hreq, hok, a, hmatch, hbyte⟩, a, rfl, rfl⟩
    · cases h
      refine .inl ⟨rfl, ?_⟩
      rintro ⟨-, -, b, hb, hbyte'⟩
      rw [hmatch] at hb
      cases hb
      exact hbyte hbyte'

/-- **The exchanges of a call**: none, if the capture request does not fit the packet buffer; or
up to the first step that failed; or all three steps, the last of which is read. -/
theorem identify_cases {rounds timeout templateId id : Nat} {isMatch : Bool} {c c' : HcpComm}
    {es : List HcpEvent} {r : FpcBepResult}
    (h : Runs ((bepIdentifyFinger rounds timeout templateId).run c) es ((r, id, isMatch), c')) :
    (isMatch = false ∧ exchanges es = [] ∧ r = FPC_BEP_RESULT_NO_MEMORY) ∨
    (isMatch = false ∧ ∃ (xs : List Exchange) (x : Exchange), exchanges es = xs ++ [x] ∧
      (∀ y ∈ xs, ¬ y.Requests CMD_IDENTIFY []) ∧ ¬ x.Ok ∧ r = x.com) ∨
    ∃ (xs : List Exchange) (x₁ x₂ x₃ : Exchange), exchanges es = xs ++ [x₁, x₂, x₃] ∧
      (∀ y ∈ xs, y.Requests CMD_CAPTURE [timeoutArg (timeout % 65536)] ∧ ¬ y.Ok) ∧
      x₁.Requests CMD_CAPTURE [timeoutArg (timeout % 65536)] ∧ x₁.Ok ∧
      x₂.Requests CMD_IMAGE [.flag ARG_EXTRACT (by decide)] ∧ x₂.Ok ∧
      x₃.Requests CMD_IDENTIFY [] ∧ x₃.Ok ∧
      ((r, id, isMatch), c') = identifyVerdict x₃.after templateId := by
  simp only [bepIdentifyFinger, StateT.run_bind, run_callback, touch_bind, ret_bind,
    runs_touch] at h
  obtain ⟨r₁, c₁, es₁, fs₁, rfl, hcapture, h⟩ := runs_exitIfErr.1 h
  obtain ⟨hmax, hcases⟩ := capture_cases hcapture
  rw [exchanges_append]
  split at hcases <;> rename_i hfit
  · -- The capture request does not fit.
    obtain ⟨hnil, rfl⟩ := hcases
    rw [if_pos (.inl (by decide))] at h
    obtain ⟨rfl, ⟨⟩⟩ := runs_identify_exit.1 h
    exact .inl ⟨rfl, by simp [hnil, exchanges], rfl⟩
  generalize exchanges es₁ = xs at hcases ⊢
  generalize hdev : c₁.bepResult = dev at hcases h
  cases hcases with
  | @intro ys x₁ hys hreq₁ _ _ =>
  have hno {y : Exchange} (hy : y.Requests CMD_CAPTURE [timeoutArg (timeout % 65536)]) :
      ¬ y.Requests CMD_IDENTIFY [] := not_identify_of_requests hy (by decide) (by decide)
  split at h <;> rename_i herr
  · obtain ⟨rfl, ⟨⟩⟩ := runs_identify_exit.1 h
    refine .inr (.inl ⟨rfl, ys, x₁, by simp [exchanges], fun y hy => hno (hys y hy).1, ?_, rfl⟩)
    intro hok
    exact herr.elim (fun hr => hr hok.1) fun hd => hd hok.2
  simp only [not_or, not_not] at herr
  have hcall₂ {es : List HcpEvent} {r : FpcBepResult} {c' : HcpComm}
      (h : Runs ((bepImageExtract rounds).run c₁) es (r, c')) :
      ∃ x : Exchange, exchanges es = [x] ∧
        x.Requests CMD_IMAGE [.flag ARG_EXTRACT (by decide)] ∧ x.com = r ∧ x.after = c' := by
    have hcases := (sendCmd_cases (by decide : ARG_EXTRACT < 65536) h).2
    rw [if_neg (fun hlt => by omega)] at hcases
    exact hcases
  obtain ⟨es₂, fs₂, x₂, rfl, hx₂, hreq₂, ⟨hfail, h⟩ | ⟨hok₂, h⟩⟩ := exitIfErr_exchanged hcall₂ h
  · obtain ⟨rfl, ⟨⟩⟩ := runs_identify_exit.1 h
    refine .inr (.inl ⟨rfl, ys ++ [x₁], x₂, by simp [hx₂], fun y hy => ?_, hfail, rfl⟩)
    rcases List.mem_append.1 hy with hy | hy
    · exact hno (hys y hy).1
    · rw [List.mem_singleton] at hy
      subst hy
      exact hno hreq₁
  have hcall₃ {es : List HcpEvent} {r : FpcBepResult} {c' : HcpComm}
      (h : Runs ((bepIdentify rounds).run x₂.after) es (r, c')) :
      ∃ x : Exchange, exchanges es = [x] ∧ x.Requests CMD_IDENTIFY [] ∧ x.com = r ∧
        x.after = c' := by
    have hcases := (sendCmd_cases (by decide : ARG_NONE < 65536) h).2
    rw [if_neg (fun hne => hne.1 rfl)] at hcases
    exact hcases
  obtain ⟨es₃, fs₃, x₃, rfl, hx₃, hreq₃, ⟨hfail, h⟩ | ⟨hok₃, h⟩⟩ := exitIfErr_exchanged hcall₃ h
  · obtain ⟨rfl, ⟨⟩⟩ := runs_identify_exit.1 h
    refine .inr (.inl ⟨rfl, ys ++ [x₁, x₂], x₃, by simp [hx₂, hx₃], fun y hy => ?_, hfail,
      rfl⟩)
    simp only [List.mem_append, List.mem_cons, List.not_mem_nil, or_false] at hy
    rcases hy with hy | rfl | rfl
    · exact hno (hys y hy).1
    · exact hno hreq₁
    · exact not_identify_of_requests hreq₂ (by decide) (by decide)
  obtain ⟨rfl, hverdict⟩ := (identify_verdict_returns hok₃.2 templateId _ _).1 h
  refine .inr (.inr ⟨ys, x₁, x₂, x₃, by simp [hx₂, hx₃], hys, hreq₁, ⟨herr.1, herr.2⟩,
    hreq₂, hok₂, hreq₃, hok₃, hverdict⟩)

/-- **The exchanges behind a match**: the call reports no match and none was answered, or it
captured, extracted and identified, and the last answer is a match. -/
theorem identify_exchanges {rounds timeout templateId id : Nat} {isMatch : Bool} {c c' : HcpComm}
    {es : List HcpEvent} {r : FpcBepResult}
    (h : Runs ((bepIdentifyFinger rounds timeout templateId).run c) es ((r, id, isMatch), c')) :
    (isMatch = false ∧ ∀ x ∈ exchanges es, ¬ x.Matched) ∨
    (isMatch = true ∧ ∃ xs x₁ x₂ x₃, exchanges es = xs ++ [x₂, x₃] ∧
      (∀ x ∈ xs ++ [x₂], ¬ x.Requests CMD_IDENTIFY []) ∧
      x₁ ∈ xs ∧ x₁.Requests CMD_CAPTURE [timeoutArg (timeout % 65536)] ∧ x₁.Ok ∧
      x₂.Requests CMD_IMAGE [.flag ARG_EXTRACT (by decide)] ∧ x₂.Ok ∧ x₃.Matched ∧
      ∃ a, x₃.after.findArg ARG_MATCH = some a ∧
        id = dec16 (slice x₃.after.pktBuffer ((x₃.after.findArg ARG_ID).getD a).data 2)) := by
  rcases identify_cases h with ⟨rfl, hnil, -⟩ | ⟨rfl, xs, x, hxs, hno, hfail, -⟩ |
    ⟨xs, x₁, x₂, x₃, hxs, hcaptures, hreq₁, hok₁, hreq₂, hok₂, hreq₃, hok₃, hverdict⟩
  · exact .inl ⟨rfl, by simp [hnil]⟩
  · refine .inl ⟨rfl, fun y hy hm => ?_⟩
    rw [hxs] at hy
    rcases List.mem_append.1 hy with hy | hy
    · exact hno y hy hm.1
    · rw [List.mem_singleton] at hy
      subst hy
      exact hfail hm.2.1
  have hno : ∀ x ∈ xs ++ [x₁] ++ [x₂], ¬ x.Requests CMD_IDENTIFY [] := by
    intro y hy
    simp only [List.mem_append, List.mem_singleton] at hy
    rcases hy with (hy | rfl) | rfl
    · exact not_identify_of_requests (hcaptures y hy).1 (by decide) (by decide)
    · exact not_identify_of_requests hreq₁ (by decide) (by decide)
    · exact not_identify_of_requests hreq₂ (by decide) (by decide)
  rcases verdict_matched hreq₃ hok₃ hverdict with ⟨rfl, hno₃⟩ | ⟨rfl, hmatched, hid⟩
  · refine .inl ⟨rfl, fun x hx hm => ?_⟩
    rw [hxs, show xs ++ [x₁, x₂, x₃] = xs ++ [x₁] ++ [x₂] ++ [x₃] by simp] at hx
    rcases List.mem_append.1 hx with hx | hx
    · exact hno x hx hm.1
    · rw [List.mem_singleton] at hx
      subst hx
      exact hno₃ hm
  · exact .inr ⟨rfl, xs ++ [x₁], x₁, x₂, x₃, by simp [hxs], hno, by simp, hreq₁, hok₁, hreq₂, hok₂,
      hmatched, hid⟩

/-! ## What a match rests on -/

/-- A reported match of the template `id` rests on a capture, an extraction and an identification
that all succeeded, and on two arguments of the last answer. -/
def IdentifySound (xs : List Exchange) (timeout id : Nat) : Prop :=
  (∃ x ∈ xs, x.Requests CMD_CAPTURE [timeoutArg timeout] ∧ x.Ok) ∧
  (∃ x ∈ xs, x.Requests CMD_IMAGE [.flag ARG_EXTRACT (by decide)] ∧ x.Ok) ∧
  ∃ x ∈ xs, x.Requests CMD_IDENTIFY [] ∧ x.Ok ∧
    (∃ d, x.after.argument ARG_MATCH = some d ∧ 1 ≤ d.length ∧ d.take 1 ≠ [0]) ∧
    ∃ d, x.after.argument ARG_ID = some d ∧ 2 ≤ d.length ∧ dec16 (d.take 2) = id

/-- The answer carries its `ARG_MATCH` and its `ARG_ID` inside the packet, and they are not too
short. -/
def CarriesMatch (c : HcpComm) : Prop :=
  (∃ d, c.argument ARG_MATCH = some d ∧ 1 ≤ d.length) ∧
    ∃ d, c.argument ARG_ID = some d ∧ 2 ≤ d.length

/-- **A reported match is sound exactly when** the answer that shows it carries both arguments. -/
theorem identify_sound_iff {rounds timeout templateId id : Nat} {isMatch : Bool} {c c' : HcpComm}
    {es : List HcpEvent} {r : FpcBepResult}
    (h : Runs ((bepIdentifyFinger rounds timeout templateId).run c) es ((r, id, isMatch), c')) :
    (isMatch = true → IdentifySound (exchanges es) (timeout % 65536) id) ↔
      ∀ x ∈ exchanges es, x.Matched → CarriesMatch x.after := by
  rcases identify_exchanges h with ⟨rfl, hno⟩ | ⟨rfl, xs, x₁, x₂, x₃, hxs, hno, hx₁, hreq₁, hok₁,
    hreq₂, hok₂, hmatched, a, ha, hid⟩
  · refine iff_of_true (fun hfalse => by cases hfalse) fun x hx hm => ?_
    exact absurd hm (hno x hx)
  have honly {x : Exchange} (hx : x ∈ exchanges es) (hreq : x.Requests CMD_IDENTIFY []) :
      x = x₃ := by
    rw [hxs, show [x₂, x₃] = [x₂] ++ [x₃] from rfl, ← List.append_assoc] at hx
    rcases List.mem_append.1 hx with hx | hx
    · exact absurd hreq (hno x hx)
    · exact List.mem_singleton.1 hx
  obtain ⟨hreq₃, hok₃, a', ha', hbyte⟩ := hmatched
  rw [ha] at ha'
  cases ha'
  constructor
  · intro hsound x hx hm
    obtain ⟨-, -, y, hy, hreq, -, ⟨d, hd, hlen, -⟩, e, he, hlen', -⟩ := hsound rfl
    obtain rfl := honly hx hm.1
    obtain rfl := honly hy hreq
    exact ⟨⟨d, hd, hlen⟩, e, he, hlen'⟩
  · intro hcarries _
    obtain ⟨⟨d, hd, hlen⟩, e, he, hlen'⟩ := hcarries x₃ (by rw [hxs]; simp)
      ⟨hreq₃, hok₃, a, ha, hbyte⟩
    obtain ⟨b, hb, -, -⟩ := argument_eq_some.1 he
    refine ⟨⟨x₁, by rw [hxs]; simp [hx₁], hreq₁, hok₁⟩, ⟨x₂, by rw [hxs]; simp, hreq₂, hok₂⟩, x₃,
      by rw [hxs]; simp, hreq₃, hok₃, ⟨d, hd, hlen, ?_⟩, e, he, hlen', ?_⟩
    · rw [← argument_take hd ha hlen]
      exact hbyte
    · rw [hid, hb, ← argument_take he hb hlen']
      rfl

/-! ## What OK says -/

/-- A call that returns OK has captured, extracted and identified, each with both results OK, and
the answer carries the byte that it reports as `*match`. -/
def IdentifyReported (xs : List Exchange) (timeout : Nat) (isMatch : Bool) : Prop :=
  ∃ (ys : List Exchange) (x₁ x₂ x₃ : Exchange), xs = ys ++ [x₁, x₂, x₃] ∧
    x₁.Requests CMD_CAPTURE [timeoutArg timeout] ∧ x₁.Ok ∧
    x₂.Requests CMD_IMAGE [.flag ARG_EXTRACT (by decide)] ∧ x₂.Ok ∧
    x₃.Requests CMD_IDENTIFY [] ∧ x₃.Ok ∧
    ∃ d, x₃.after.argument ARG_MATCH = some d ∧ 1 ≤ d.length ∧ (isMatch = false ↔ d.take 1 = [0])

theorem IdentifyReported.last {xs : List Exchange} {timeout : Nat} {isMatch : Bool}
    (h : IdentifyReported xs timeout isMatch) {x : Exchange} (hx : xs.getLast? = some x) :
    x.Ok ∧ ∃ d, x.after.argument ARG_MATCH = some d ∧ 1 ≤ d.length := by
  obtain ⟨ys, x₁, x₂, x₃, rfl, -, -, -, -, -, hok, d, hd, hlen, -⟩ := h
  obtain rfl : x₃ = x := by simpa using hx
  exact ⟨hok, d, hd, hlen⟩

/-- An `ARG_MATCH` that the search finds lies inside the packet and is not empty. -/
def CarriesVerdict (c : HcpComm) : Prop :=
  ∀ a, c.findArg ARG_MATCH = some a → ∃ d, c.argument ARG_MATCH = some d ∧ 1 ≤ d.length

/-- **OK reports an identification exactly when** the last exchange of the call did not fail at the
device only, and the `ARG_MATCH` that is found in its answer, if it is one to `CMD_IDENTIFY`, lies
inside the packet. -/
theorem identify_reported_iff {rounds timeout templateId id : Nat} {isMatch : Bool}
    {c c' : HcpComm} {es : List HcpEvent} {r : FpcBepResult}
    (h : Runs ((bepIdentifyFinger rounds timeout templateId).run c) es ((r, id, isMatch), c')) :
    (r = FPC_BEP_RESULT_OK → IdentifyReported (exchanges es) (timeout % 65536) isMatch) ↔
      ∀ x, (exchanges es).getLast? = some x → x.com = FPC_BEP_RESULT_OK →
        x.after.bepResult = FPC_BEP_RESULT_OK ∧
          (x.Requests CMD_IDENTIFY [] → CarriesVerdict x.after) := by
  rcases identify_cases h with ⟨-, hnil, rfl⟩ | ⟨-, xs, x, hxs, hno, hfail, rfl⟩ |
    ⟨xs, x₁, x₂, x₃, hxs, hcaptures, hreq₁, hok₁, hreq₂, hok₂, hreq₃, hok₃, hverdict⟩
  · rw [hnil]
    refine iff_of_true (fun hr => absurd hr (by decide)) fun x hx => ?_
    cases hx
  · have hlast : (exchanges es).getLast? = some x := by simp [hxs]
    constructor
    · intro hrep y hy hcom
      rw [hlast] at hy
      cases hy
      exact absurd ((hrep hcom).last hlast).1 hfail
    · intro hdev hcom
      exact absurd ⟨hcom, (hdev x hlast hcom).1⟩ hfail
  have hlast : (exchanges es).getLast? = some x₃ := by simp [hxs]
  constructor
  · intro hrep y hy hcom
    rw [hlast] at hy
    cases hy
    refine ⟨hok₃.2, fun _ a ha => ?_⟩
    have hr : r = FPC_BEP_RESULT_OK := by
      unfold identifyVerdict at hverdict
      rw [ha] at hverdict
      simp only at hverdict
      split at hverdict <;> exact congrArg (fun v => v.1.1) hverdict
    exact ((hrep hr).last hlast).2
  · intro hcarries hr
    have hfound := (hcarries x₃ hlast hok₃.1).2 hreq₃
    refine ⟨xs, x₁, x₂, x₃, hxs, hreq₁, hok₁, hreq₂, hok₂, hreq₃, hok₃, ?_⟩
    unfold identifyVerdict at hverdict
    cases ha : x₃.after.findArg ARG_MATCH with
    | none =>
      rw [ha] at hverdict
      cases hverdict
      exact absurd hr (by decide)
    | some a =>
      obtain ⟨d, hd, hlen⟩ := hfound a ha
      have hbyte := argument_take hd ha hlen
      rw [ha] at hverdict
      simp only [hbyte] at hverdict
      refine ⟨d, hd, hlen, ?_⟩
      split at hverdict <;> rename_i hmatch
      · cases hverdict
        exact iff_of_false (by decide) hmatch
      · cases hverdict
        exact iff_of_true rfl (not_not.1 hmatch)

/-! ## Calls that are answered -/

/-- A call whose capture and extraction succeed, and whose identification is answered with
`args`. -/
theorem identify_answered {c : HcpComm} (hmax : APP_MTU < c.pktSizeMax)
    (timeout templateId : Nat) (args : List CmdArg)
    (hlen : (encodePacket CMD_IDENTIFY args).length ≤ APP_MTU)
    (hres : ∀ a ∈ args, a.type = ARG_RESULT → a.data ≠ []) :
    ∃ es x, Runs ((bepIdentifyFinger 2 timeout templateId).run c) es
        (if resultOf args = FPC_BEP_RESULT_OK then identifyVerdict x.after templateId
          else ((FPC_BEP_RESULT_OK, templateId, false), x.after)) ∧
      (exchanges es).getLast? = some x ∧ x.after.bepResult = resultOf args ∧
      (∀ y ∈ exchanges es, y.Requests CMD_IDENTIFY [] → y = x) ∧
      ∀ t, x.after.argument t = (firstArg args t).map CmdArg.data := by
  obtain ⟨es₁, x₁, c₁, hrun₁, hx₁, hreq₁, hok₁, hdev₁, hmax₁⟩ :=
    capture_answered (Nat.le_refl 2) (timeout % 65536) hmax
  rw [← hmax₁] at hmax
  obtain ⟨es₂, x₂, hrun₂, hx₂, hreq₂, hcom₂, hans₂⟩ := sendCmd_answered (Nat.le_refl 2) CMD_IMAGE
    (by decide : ARG_EXTRACT < 65536) CMD_IMAGE [] (by decide) hmax (by simp)
  rw [← hans₂.max_eq] at hmax
  obtain ⟨es₃, x₃, hrun₃, hx₃, hreq₃, hcom₃, hans₃⟩ := sendCmd_answered (Nat.le_refl 2)
    CMD_IDENTIFY (by decide : ARG_NONE < 65536) CMD_IDENTIFY args hlen hmax hres
  have hdev₂ : x₂.after.bepResult = FPC_BEP_RESULT_OK := hans₂.result_eq
  refine ⟨es₁ ++ (es₂ ++ (es₃ ++ [])), x₃, ?_, ?_, hans₃.result_eq, ?_,
    argument_packet hans₃.packet_eq hans₃.size_le⟩
  · refine .touch <| runs_exitIfErr.2 ⟨_, _, es₁, _, rfl, hrun₁, ?_⟩
    rw [if_neg (by simp [hdev₁])]
    refine runs_exitIfErr.2 ⟨_, _, es₂, _, rfl, hrun₂, ?_⟩
    rw [if_neg (by simp [hdev₂])]
    refine runs_exitIfErr.2 ⟨_, _, es₃, _, rfl, hrun₃, ?_⟩
    rw [← hans₃.result_eq]
    by_cases hdev₃ : x₃.after.bepResult = FPC_BEP_RESULT_OK
    · rw [if_neg (by simp [hdev₃]), if_pos hdev₃]
      exact (identify_verdict_returns hdev₃ templateId _ _).2 ⟨rfl, rfl⟩
    · rw [if_pos (.inr hdev₃), if_neg hdev₃]
      exact runs_identify_exit.2 ⟨rfl, rfl⟩
  · simp [hx₁, hx₂, hx₃]
  · intro y hy hreq
    simp only [exchanges_append, hx₁, hx₂, hx₃, List.mem_append, List.mem_singleton] at hy
    rcases hy with rfl | rfl | rfl | hy
    · exact absurd hreq (not_identify_of_requests hreq₁ (by decide) (by decide))
    · exact absurd hreq (not_identify_of_requests hreq₂ (by decide) (by decide))
    · rfl
    · cases hy

/-- An answer whose `ARG_MATCH` is one byte of 1. -/
theorem verdict_of_match {c : HcpComm} (templateId : Nat)
    (h : c.argument ARG_MATCH = some [1]) :
    ∃ id c', identifyVerdict c templateId = ((FPC_BEP_RESULT_OK, id, true), c') := by
  obtain ⟨a, ha, -, -⟩ := argument_eq_some.1 h
  have hbyte : slice c.pktBuffer a.data 1 = [1] := argument_take h ha (Nat.le_refl 1)
  unfold identifyVerdict
  rw [ha]
  exact ⟨_, _, if_pos (by rw [hbyte]; decide)⟩

/-- The template 5 is matched. -/
theorem identify_sound_five : ∃ es id c',
    Runs ((bepIdentifyFinger 2 0 0).run hcpChain) es ((FPC_BEP_RESULT_OK, id, true), c') ∧
      IdentifySound (exchanges es) 0 id := by
  obtain ⟨es, x, hrun, -, -, honly, harg⟩ := identify_answered (c := hcpChain) (by decide) 0 0
    [⟨ARG_MATCH, [1], by decide, by decide⟩, ⟨ARG_ID, [5, 0], by decide, by decide⟩]
    (by decide) (by decide)
  obtain ⟨id, c', hverdict⟩ := verdict_of_match 0 (harg ARG_MATCH)
  rw [if_pos (by decide), hverdict] at hrun
  refine ⟨es, id, c', hrun, (identify_sound_iff hrun).2 ?_ rfl⟩
  intro y hy hm
  obtain rfl := honly y hy hm.1
  exact ⟨⟨[1], harg ARG_MATCH, by decide⟩, [5, 0], harg ARG_ID, by decide⟩

/-- **A match without `ARG_ID` is reported**, with the bytes of another argument for
`*template_id`. -/
theorem identify_without_id : ∃ es id c',
    Runs ((bepIdentifyFinger 2 0 0).run hcpChain) es ((FPC_BEP_RESULT_OK, id, true), c') ∧
      ¬ IdentifySound (exchanges es) 0 id := by
  obtain ⟨es, x, hrun, -, -, honly, harg⟩ := identify_answered (c := hcpChain) (by decide) 0 0
    [⟨ARG_MATCH, [1], by decide, by decide⟩] (by decide) (by decide)
  obtain ⟨id, c', hverdict⟩ := verdict_of_match 0 (harg ARG_MATCH)
  rw [if_pos (by decide), hverdict] at hrun
  refine ⟨es, id, c', hrun, ?_⟩
  rintro ⟨-, -, y, hy, hreq, -, -, e, he, -⟩
  obtain rfl := honly y hy hreq
  rw [harg] at he
  cases he

/-- A finger that matches is reported. -/
theorem identify_reported_match : ∃ es id c',
    Runs ((bepIdentifyFinger 2 0 0).run hcpChain) es ((FPC_BEP_RESULT_OK, id, true), c') ∧
      IdentifyReported (exchanges es) 0 true := by
  obtain ⟨es, x, hrun, hlast, hdev, -, harg⟩ := identify_answered (c := hcpChain) (by decide) 0 0
    [⟨ARG_MATCH, [1], by decide, by decide⟩] (by decide) (by decide)
  obtain ⟨id, c', hverdict⟩ := verdict_of_match 0 (harg ARG_MATCH)
  rw [if_pos (by decide), hverdict] at hrun
  refine ⟨es, id, c', hrun, (identify_reported_iff hrun).2 ?_ rfl⟩
  intro y hy _
  rw [hlast] at hy
  cases hy
  exact ⟨hdev, fun _ _ _ => ⟨[1], harg ARG_MATCH, Nat.le_refl 1⟩⟩

/-- **An identification that fails at the device returns OK**, as if no finger had matched. -/
theorem identify_device_failure : ∃ es c',
    Runs ((bepIdentifyFinger 2 0 0).run hcpChain) es ((FPC_BEP_RESULT_OK, 0, false), c') ∧
      ¬ IdentifyReported (exchanges es) 0 false := by
  obtain ⟨es, x, hrun, hlast, hdev, -⟩ := identify_answered (c := hcpChain) (by decide) 0 0
    [⟨ARG_RESULT, [0xff], by decide, by decide⟩] (by decide) (by decide)
  rw [if_neg (by decide)] at hrun
  refine ⟨es, _, hrun, fun h => ?_⟩
  have hok := (h.last hlast).1.2
  rw [hdev] at hok
  exact absurd hok (by decide)

end BMLite
