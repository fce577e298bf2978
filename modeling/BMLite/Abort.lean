import BMLite.Identify
import BMLite.Platform
import BMLite.Report

/-!
# A capture that a button press aborts

`bep_identify_finger` over the callbacks of the example program.

* `tranceive_timeout` — an exchange returns `TIMEOUT` only if its request was acknowledged and a
  header of its response did not come;
* `attempts_quiet` — with a button press pending, every further capture fails with `IO_ERROR`;
* `identify_abort_iff` — **a capture that is aborted is reported as `TIMEOUT` exactly when** it is
  the third one of the call.
-/

set_option autoImplicit false

namespace BMLite

open FlatMemory Process

/-! ## Timeouts -/

theorem ackResult_cases (r : FpcBepResult) (ack : List Byte) :
    ackResult r ack = FPC_BEP_RESULT_OK ∨ ackResult r ack = FPC_BEP_RESULT_IO_ERROR := by
  unfold ackResult
  split
  · exact .inr rfl
  · split
    · exact .inr rfl
    · exact .inl rfl

/-- `bmlite_send` never returns `TIMEOUT`. -/
theorem Sent.result {fs : List (List Byte)} {es : List HcpEvent} {r : FpcBepResult}
    (h : Sent fs es r) : r = FPC_BEP_RESULT_OK ∨ r = FPC_BEP_RESULT_IO_ERROR := by
  induction h with
  | done => exact .inl rfl
  | fail _ => exact ackResult_cases ..
  | next _ _ ih => exact ih

theorem takeChunk_comResult {c : HcpComm} {p bufLen : Nat} {comResult : FpcBepResult}
    (h : comResult ≠ FPC_BEP_RESULT_TIMEOUT) :
    (c.takeChunk p bufLen comResult).comResult ≠ FPC_BEP_RESULT_TIMEOUT := by
  unfold HcpComm.takeChunk
  split
  · exact (by decide : FPC_BEP_RESULT_IO_ERROR ≠ FPC_BEP_RESULT_TIMEOUT)
  · split
    · exact h
    · exact (by decide : FPC_BEP_RESULT_NO_MEMORY ≠ FPC_BEP_RESULT_TIMEOUT)

/-- A reception that returns `TIMEOUT` ends in a read for a header, with the timeout of the
chain. -/
theorem RxRounds.timeout {c c' : HcpComm} {bufLen : Nat} {comResult r : FpcBepResult}
    {es : List HcpEvent} (h : RxRounds c bufLen comResult es r c')
    (hr : r = FPC_BEP_RESULT_TIMEOUT) (hcom : comResult ≠ FPC_BEP_RESULT_TIMEOUT) :
    ∃ es' d, es = es' ++ [.read 4 c.phyRxTimeout FPC_BEP_RESULT_TIMEOUT d] := by
  induction h with
  | done c bufLen comResult => exact absurd hr hcom
  | failed _ hlink =>
    cases hlink with
    | noHeader _ => exact ⟨[], _, by rw [hr]; rfl⟩
    | tooLong => exact absurd hr (by decide)
    | badCrc => exact absurd hr (by decide)
    | accepted => exact absurd hr (by decide)
  | @next c c₁ c' bufLen comResult r es₁ es₂ p hlink _ ih =>
    obtain ⟨es', d, rfl⟩ := ih hr (takeChunk_comResult hcom)
    obtain ⟨b, hb⟩ := takeChunk_comm c₁ p bufLen comResult
    have htimeout : c₁.phyRxTimeout = c.phyRxTimeout := by
      cases hlink with
      | noHeader hne => exact absurd rfl hne
      | accepted hc₁ _ hc₂ _ =>
        subst hc₁ hc₂
        rfl
    rw [hb, htimeout]
    exact ⟨es₁ ++ es', d, (List.append_assoc ..).symm⟩

/-- **An exchange returns `TIMEOUT` only if** its request was acknowledged and the read for a header
of the response returned `TIMEOUT`. -/
theorem tranceive_timeout {c c' : HcpComm} {rounds : Nat} {es : List HcpEvent}
    (h : Runs ((bmliteTranceive rounds).run c) es (FPC_BEP_RESULT_TIMEOUT, c')) :
    ∃ (es₁ es₂ : List HcpEvent) (d : List Byte),
      es = es₁ ++ es₂ ++ [.read 4 c.phyRxTimeout FPC_BEP_RESULT_TIMEOUT d,
        .note ⟨c, FPC_BEP_RESULT_TIMEOUT, c'⟩] ∧ Sent c.frames es₁ FPC_BEP_RESULT_OK := by
  rcases runs_tranceive.1 h with ⟨-, es₁, rfl, hsend⟩ | ⟨es₁, es₂, c₁, c₂, rfl, hsend, hrecv, -⟩
  · obtain ⟨-, hsent⟩ := runs_send_cases hsend
    rcases hsent.result with hr | hr <;> exact absurd hr (by decide)
  · obtain ⟨⟨t, rfl⟩, hsent⟩ := runs_send_cases hsend
    obtain ⟨es', d, rfl⟩ := (receive_loop_rounds rounds hrecv).timeout rfl (by decide)
    exact ⟨es₁, es', d, by simp, hsent⟩

/-! ## A pending button press -/

variable {w : World} {polls now now' : Nat}

theorem sent_quiet {f : List Byte} {fs : List (List Byte)} {es : List HcpEvent} {r : FpcBepResult}
    (h : Sent (f :: fs) es r) (hans : (platformEnv w polls).Answers now es now')
    (hquiet : Quiet w now) : r = FPC_BEP_RESULT_IO_ERROR ∧ now ≤ now' := by
  cases h with
  | fail hack =>
    obtain ⟨_, hwrite, now₁, hread, rfl⟩ := hans
    cases hwrite
    obtain ⟨rfl, -, hle⟩ := receive_quiet (hquiet.mono (Nat.le_succ now)) hread
    exact ⟨rfl, by omega⟩
  | next hack _ =>
    obtain ⟨_, hwrite, now₁, hread, -⟩ := hans
    cases hwrite
    obtain ⟨rfl, rfl, -⟩ := receive_quiet (hquiet.mono (Nat.le_succ now)) hread
    exact absurd hack (by decide)

/-- **An exchange while a button press is pending** fails with `IO_ERROR`. -/
theorem tranceive_quiet {c c' : HcpComm} {rounds : Nat} {es : List HcpEvent} {r : FpcBepResult}
    (h : Runs ((bmliteTranceive rounds).run c) es (r, c'))
    (hans : (platformEnv w polls).Answers now es now') (hquiet : Quiet w now) :
    r = FPC_BEP_RESULT_IO_ERROR ∧ Quiet w now' := by
  obtain ⟨f, fs, hfs⟩ := frames_ne_nil c
  have hsent {es₁ es₂ : List HcpEvent} {r₁ : FpcBepResult} {c₁ : HcpComm}
      (hsend : Runs (bmliteSend.run c) es₁ (r₁, c₁))
      (hans : (platformEnv w polls).Answers now (es₁ ++ es₂) now') :
      r₁ = FPC_BEP_RESULT_IO_ERROR ∧ ∃ now₁, now ≤ now₁ ∧
        (platformEnv w polls).Answers now₁ es₂ now' := by
    obtain ⟨now₁, hans₁, hans₂⟩ := Env.answers_append.1 hans
    have hsent : Sent c.frames es₁ r₁ := (runs_send_cases hsend).2
    rw [hfs] at hsent
    obtain ⟨hr, hle⟩ := sent_quiet hsent hans₁ hquiet
    exact ⟨hr, now₁, hle, hans₂⟩
  rcases runs_tranceive.1 h with ⟨-, es₁, rfl, hsend⟩ | ⟨es₁, es₂, c₁, c₂, rfl, hsend, -, -⟩
  · obtain ⟨hr, now₁, hle, rfl⟩ := hsent hsend hans
    exact ⟨hr, hquiet.mono hle⟩
  · rw [List.append_assoc] at hans
    exact absurd (hsent hsend hans).1 (by decide)

theorem attempts_quiet {rounds timeout : Nat} (left : Nat) :
    ∀ {bepResult : FpcBepResult} {c c' : HcpComm} {es : List HcpEvent} {r : FpcBepResult}
      {now : Nat}, 10 ≤ c.pktSizeMax →
      Runs ((bepCapture.attempts rounds timeout (left + 1) bepResult).run c) es (r, c') →
      (platformEnv w polls).Answers now es now' → Quiet w now → r = FPC_BEP_RESULT_IO_ERROR := by
  induction left with
  | zero =>
    intro bepResult c c' es r now hmax h hans hquiet
    obtain ⟨evs, x, es₂, rfl, -, hrun, -, -, hrest⟩ := attempt_step hmax h
    rw [List.append_cons, Env.answers_append] at hans
    obtain ⟨now₁, hans₁, -⟩ := hans
    obtain ⟨hcom, -⟩ := tranceive_quiet hrun hans₁ hquiet
    rcases hrest with ⟨-, -, rfl, -⟩ | ⟨-, hrest⟩
    · exact hcom
    · obtain ⟨-, ⟨⟩⟩ := runs_ret.1 hrest
      exact hcom
  | succ left ih =>
    intro bepResult c c' es r now hmax h hans hquiet
    obtain ⟨evs, x, es₂, rfl, -, hrun, -, hmax₁, hrest⟩ := attempt_step hmax h
    rw [List.append_cons, Env.answers_append] at hans
    obtain ⟨now₁, hans₁, hans₂⟩ := hans
    obtain ⟨hcom, hquiet₁⟩ := tranceive_quiet hrun hans₁ hquiet
    rcases hrest with ⟨-, -, rfl, -⟩ | ⟨-, hrest⟩
    · exact hcom
    · exact ih (by rw [hmax₁]; exact hmax) hrest hans₂ hquiet₁

/-! ## The aborted capture -/

/-- Where a note lies in the events of one exchange and of what follows it. -/
theorem note_split {evs es es₁ es₂ : List HcpEvent} {x y : Exchange} (hevs : exchanges evs = [])
    (h : evs ++ .note y :: es = es₁ ++ .note x :: es₂) :
    (es₁ = evs ∧ x = y ∧ es = es₂) ∨
      ∃ es₀, es₁ = evs ++ .note y :: es₀ ∧ es = es₀ ++ .note x :: es₂ := by
  rcases List.append_eq_append_iff.1 h with ⟨as, rfl, has⟩ | ⟨as, rfl, has⟩
  · cases as with
    | nil =>
      cases has
      exact .inl ⟨by simp, rfl, rfl⟩
    | cons a as =>
      obtain ⟨rfl, rfl⟩ := List.cons.inj has
      exact .inr ⟨as, rfl, rfl⟩
  · cases as with
    | nil =>
      cases has
      exact .inl ⟨by simp, rfl, rfl⟩
    | cons a as =>
      -- The note would be an exchange of `evs`.
      obtain ⟨rfl, -⟩ := List.cons.inj has
      rw [exchanges_append] at hevs
      cases (List.append_eq_nil_iff.1 hevs).2

/-- **An aborted capture** ends the loop with `TIMEOUT` if it is its last attempt; if not, the
attempts that follow it end with `IO_ERROR`. -/
theorem attempts_abort {rounds timeout : Nat} {x : Exchange} {es₂ : List HcpEvent}
    (hcom : x.com = FPC_BEP_RESULT_TIMEOUT) {stop : Nat} (hquiet : Quiet w stop) (left : Nat) :
    ∀ {bepResult : FpcBepResult} {c c' : HcpComm} {es₁ : List HcpEvent} {r : FpcBepResult}
      {now : Nat}, 10 ≤ c.pktSizeMax →
      Runs ((bepCapture.attempts rounds timeout (left + 1) bepResult).run c)
        (es₁ ++ .note x :: es₂) (r, c') →
      (platformEnv w polls).Answers now es₁ stop →
      (platformEnv w polls).Answers stop es₂ now' →
      (r = FPC_BEP_RESULT_TIMEOUT ∧ (exchanges es₁).length = left) ∨
        (r = FPC_BEP_RESULT_IO_ERROR ∧ (exchanges es₁).length < left) := by
  have hfail : ¬ x.Ok := by
    intro hok
    have hr := hok.1
    rw [hcom] at hr
    exact absurd hr (by decide)
  induction left with
  | zero =>
    intro bepResult c c' es₁ r now hmax h _ _
    obtain ⟨evs, y, es, hes, hevs, -, -, -, hrest⟩ := attempt_step hmax h
    have hend : es = [] ∧ r = y.com := by
      rcases hrest with ⟨-, hnil, hr, -⟩ | ⟨-, hrest⟩
      · exact ⟨hnil, hr⟩
      · obtain ⟨hnil, ⟨⟩⟩ := runs_ret.1 hrest
        exact ⟨hnil, rfl⟩
    obtain ⟨rfl, rfl⟩ := hend
    rcases note_split hevs hes.symm with ⟨rfl, rfl, -⟩ | ⟨es₀, -, hnil⟩
    · exact .inl ⟨hcom, by rw [hevs]; rfl⟩
    · exact absurd hnil.symm (by simp)
  | succ left ih =>
    intro bepResult c c' es₁ r now hmax h hans₁ hans₂
    obtain ⟨evs, y, es, hes, hevs, -, -, hmax₁, hrest⟩ := attempt_step hmax h
    rcases note_split hevs hes.symm with ⟨rfl, rfl, rfl⟩ | ⟨es₀, rfl, rfl⟩
    · rcases hrest with ⟨hok, -⟩ | ⟨-, hrest⟩
      · exact absurd hok hfail
      · refine .inr ⟨attempts_quiet left (by rw [hmax₁]; exact hmax) hrest hans₂ hquiet, ?_⟩
        rw [hevs]
        exact Nat.succ_pos left
    · rcases hrest with ⟨-, hnil, -⟩ | ⟨-, hrest⟩
      · exact absurd hnil (by simp)
      · rw [List.append_cons, Env.answers_append] at hans₁
        obtain ⟨now₁, -, hans₁⟩ := hans₁
        have hlen : (exchanges (evs ++ .note y :: es₀)).length = (exchanges es₀).length + 1 := by
          rw [exchanges_append, hevs]
          rfl
        rw [hlen]
        rcases ih (by rw [hmax₁]; exact hmax) hrest hans₁ hans₂ with ⟨hr, heq⟩ | ⟨hr, hlt⟩
        · exact .inl ⟨hr, by rw [heq]⟩
        · exact .inr ⟨hr, Nat.succ_lt_succ hlt⟩

/-! ## The whole call -/

theorem not_capture_of_requests {x : Exchange} {cmd : Nat} {args args' : List CmdArg}
    (h : x.Requests cmd args) (hcmd : cmd < 65536) (hne : cmd ≠ CMD_CAPTURE) :
    ¬ x.Requests CMD_CAPTURE args' := by
  intro h'
  exact hne (h.cmd_eq h' hcmd (by decide))

/-- The capture of a call, and what comes after it. -/
theorem identify_capture {rounds timeout templateId id : Nat} {isMatch : Bool} {c c' : HcpComm}
    {es : List HcpEvent} {r : FpcBepResult}
    (h : Runs ((bepIdentifyFinger rounds timeout templateId).run c) es ((r, id, isMatch), c')) :
    ∃ es₁ es₂ r₁ c₁, es = es₁ ++ es₂ ∧
      Runs ((bepCapture rounds (timeout % 65536)).run c) es₁ (r₁, c₁) ∧
      (r₁ ≠ FPC_BEP_RESULT_OK → r = r₁) ∧
      ∀ x ∈ exchanges es₂, ¬ x.Requests CMD_CAPTURE [timeoutArg (timeout % 65536)] := by
  simp only [bepIdentifyFinger, StateT.run_bind, run_callback, touch_bind, ret_bind,
    runs_touch] at h
  obtain ⟨r₁, c₁, es₁, es₂, rfl, hcapture, h⟩ := runs_exitIfErr.1 h
  refine ⟨es₁, es₂, r₁, c₁, rfl, hcapture, ?_⟩
  split at h <;> rename_i herr
  · obtain ⟨rfl, ⟨⟩⟩ := runs_identify_exit.1 h
    exact ⟨fun _ => rfl, by simp [exchanges]⟩
  simp only [not_or, not_not] at herr
  refine ⟨fun hr => absurd herr.1 hr, ?_⟩
  have hextract {x : Exchange} (hx : x.Requests CMD_IMAGE [.flag ARG_EXTRACT (by decide)]) :
      ¬ x.Requests CMD_CAPTURE [timeoutArg (timeout % 65536)] :=
    not_capture_of_requests hx (by decide) (by decide)
  have hidentify {x : Exchange} (hx : x.Requests CMD_IDENTIFY []) :
      ¬ x.Requests CMD_CAPTURE [timeoutArg (timeout % 65536)] :=
    not_capture_of_requests hx (by decide) (by decide)
  obtain ⟨es₃, es₄, rfl, ⟨r₂, c₂, hfail, h⟩ | ⟨x₂, hx₂, hreq₂, -, h⟩⟩ := exitIfErr_commanded
    (sendCmd_commanded (by decide : ARG_EXTRACT < 65536)) h
  · obtain ⟨rfl, -⟩ := runs_identify_exit.1 h
    rw [List.append_nil]
    exact fun x hx => hextract (hfail x hx).1
  obtain ⟨es₅, es₆, rfl, ⟨r₃, c₃, hfail, h⟩ | ⟨x₃, hx₃, hreq₃, hok₃, h⟩⟩ := exitIfErr_commanded
    (sendCmd_commanded (by decide : ARG_NONE < 65536)) h
  · obtain ⟨rfl, -⟩ := runs_identify_exit.1 h
    rw [exchanges_append, hx₂, List.append_nil]
    exact List.forall_mem_cons.2 ⟨hextract hreq₂, fun x hx => hidentify (hfail x hx).1⟩
  obtain ⟨rfl, -⟩ := (identify_verdict_returns hok₃.2 templateId _ _).1 h
  rw [exchanges_append, exchanges_append, hx₂, hx₃]
  exact List.forall_mem_cons.2 ⟨hextract hreq₂, List.forall_mem_cons.2 ⟨hidentify hreq₃, by
    simp [exchanges]⟩⟩

/-- **A capture that is aborted is reported as `TIMEOUT` exactly when** two captures of the call
have failed before it: the ACKs of the attempts that follow an earlier one do not come either, and
`_tx_link` makes `IO_ERROR` of that. -/
theorem identify_abort_iff {rounds timeout templateId id : Nat} {isMatch : Bool} {c c' : HcpComm}
    {es₁ es₂ : List HcpEvent} {x : Exchange} {r : FpcBepResult} {now stop : Nat}
    (h : Runs ((bepIdentifyFinger rounds timeout templateId).run c) (es₁ ++ .note x :: es₂)
      ((r, id, isMatch), c'))
    (hans₁ : (platformEnv w polls).Answers now es₁ stop)
    (hans₂ : (platformEnv w polls).Answers stop es₂ now')
    (hreq : x.Requests CMD_CAPTURE [timeoutArg (timeout % 65536)])
    (hcom : x.com = FPC_BEP_RESULT_TIMEOUT) (hquiet : Quiet w stop) :
    r = FPC_BEP_RESULT_TIMEOUT ↔ (exchanges es₁).length = 2 := by
  obtain ⟨fs₁, fs₂, r₁, c₁, hes, hcapture, hr, hno⟩ := identify_capture h
  -- The aborted exchange is one of `bep_capture`.
  obtain ⟨es₃, rfl, rfl⟩ : ∃ es₃, fs₁ = es₁ ++ .note x :: es₃ ∧ es₂ = es₃ ++ fs₂ := by
    rcases List.append_eq_append_iff.1 hes with ⟨as, rfl, has⟩ | ⟨as, rfl, has⟩
    · cases as with
      | nil => exact absurd hreq (hno x (by rw [← show _ = fs₂ from has]; simp [exchanges]))
      | cons a as =>
        obtain ⟨rfl, rfl⟩ := List.cons.inj has
        exact ⟨as, rfl, rfl⟩
    · exact absurd hreq (hno x (by rw [has]; simp [exchanges]))
  obtain ⟨now₁, hans₃, -⟩ := Env.answers_append.1 hans₂
  obtain ⟨c₂, hrun, rfl⟩ := runs_bepCapture.1 hcapture
  have hmax : 10 ≤ c.pktSizeMax := by
    by_contra hlt
    obtain ⟨hnil, -⟩ := attempts_rejected 2 (by exact Nat.not_le.1 hlt) hrun
    exact absurd hnil (by simp)
  rcases attempts_abort hcom hquiet 2 (by exact hmax) hrun hans₁ hans₃ with
    ⟨rfl, heq⟩ | ⟨rfl, hlt⟩
  · have htimeout : r = FPC_BEP_RESULT_TIMEOUT :=
      hr (by decide : FPC_BEP_RESULT_TIMEOUT ≠ FPC_BEP_RESULT_OK)
    exact iff_of_true htimeout heq
  · have herror : r = FPC_BEP_RESULT_IO_ERROR :=
      hr (by decide : FPC_BEP_RESULT_IO_ERROR ≠ FPC_BEP_RESULT_OK)
    rw [herror]
    exact iff_of_false (by decide) (by omega)

/-! ## Calls that are aborted -/

theorem capture_frames (c : HcpComm) (timeout : Nat) :
    ∃ f, (c.captureRequest timeout).frames = [f] := by
  refine List.length_eq_one_iff.1 ?_
  have hout : (c.captureRequest timeout).outgoing.length = 10 := by
    rw [HcpComm.outgoing, slice_length]
    rfl
  rw [HcpComm.frames, List.length_map, segments_length, hout]
  rfl

/-- A capture whose request is not acknowledged. -/
theorem capture_unacked (c : HcpComm) (timeout : Nat) {r : FpcBepResult} {d : List Byte}
    (hack : ackResult r (d.take 4) = FPC_BEP_RESULT_IO_ERROR) :
    ∃ (f : List Byte) (x : Exchange), Runs ((bmliteTranceive 1).run (c.captureRequest timeout))
        [.write f 0 FPC_BEP_RESULT_OK, .read 4 500 r d, .note x]
        (FPC_BEP_RESULT_IO_ERROR, x.after) ∧
      x.after.pktSizeMax = c.pktSizeMax ∧ x.after.phyRxTimeout = c.phyRxTimeout := by
  obtain ⟨f, x, hrun, hmax, htimeout, -⟩ := tranceive_unacked (c.captureRequest timeout) hack
  exact ⟨f, x, hrun, hmax.trans (captureRequest_max c timeout), htimeout⟩

/-- A frame that is acknowledged, and a header that does not come in time `t`. -/
def abortedEvents (f : List Byte) (t : Nat) : List HcpEvent :=
  [.write f 0 FPC_BEP_RESULT_OK, .read 4 500 FPC_BEP_RESULT_OK fpcComAck,
    .read 4 t FPC_BEP_RESULT_TIMEOUT []]

/-- A capture whose request is acknowledged, and whose response does not come. -/
theorem capture_aborted (c : HcpComm) (timeout : Nat) :
    ∃ (f : List Byte) (x : Exchange), Runs ((bmliteTranceive 1).run (c.captureRequest timeout))
        (abortedEvents f c.phyRxTimeout ++ [.note x]) (FPC_BEP_RESULT_TIMEOUT, x.after) ∧
      x.Requests CMD_CAPTURE [timeoutArg timeout] ∧ x.com = FPC_BEP_RESULT_TIMEOUT ∧
      x.after.pktSizeMax = c.pktSizeMax := by
  obtain ⟨f, hf⟩ := capture_frames c timeout
  have hsent : Sent (c.captureRequest timeout).frames [.write f 0 FPC_BEP_RESULT_OK,
      .read 4 500 FPC_BEP_RESULT_OK fpcComAck] FPC_BEP_RESULT_OK := by
    rw [hf]
    exact .next (by decide) .done
  obtain ⟨t, hsend⟩ := runs_send.1.2 hsent
  have hlink := @RxLink.noHeader { c.captureRequest timeout with txrxBuffer := t }
    FPC_BEP_RESULT_TIMEOUT [] (by decide)
  have hrecv := (@runs_receive_round _ _ 0 0 1 0 0 FPC_BEP_RESULT_OK _ _ Nat.zero_lt_one).2
    (.inl ⟨by decide, hlink⟩)
  refine ⟨f, ⟨_, FPC_BEP_RESULT_TIMEOUT, _⟩, runs_tranceive.2
    (.inr ⟨_, _, _, _, rfl, hsend, hrecv, rfl⟩), captureRequest_packet c timeout, rfl, ?_⟩
  exact (withResult_max _).trans (captureRequest_max c timeout)

/-- An attempt that fails is followed by the next one. -/
theorem attempts_next {c c₁ : HcpComm} {timeout left : Nat} {bepResult r : FpcBepResult}
    {es fs : List HcpEvent} {y : FpcBepResult × HcpComm} (hmax : 10 ≤ c.pktSizeMax)
    (h : Runs ((bmliteTranceive 1).run (c.captureRequest timeout)) es (r, c₁))
    (hr : r ≠ FPC_BEP_RESULT_OK)
    (hrest : Runs ((bepCapture.attempts 1 timeout left r).run c₁) fs y) :
    Runs ((bepCapture.attempts 1 timeout (left + 1) bepResult).run c) (es ++ fs) y := by
  rw [bepCapture.attempts]
  simp only [StateT.run_bind, StateT.run_get, pure_eq, ret_bind]
  refine Runs.bind (a := (r, c₁)) (runs_capture.2 ?_) ?_
  · rw [if_neg (Nat.not_lt.2 hmax)]
    exact h
  · rw [if_neg (fun hok => hr hok.1)]
    exact hrest

/-- A call whose three captures fail. -/
theorem identify_failed {c c₁ c₂ c₃ : HcpComm} {es₁ es₂ es₃ : List HcpEvent}
    {r₁ r₂ r₃ : FpcBepResult} (hmax : 10 ≤ c.pktSizeMax) (hmax₁ : c₁.pktSizeMax = c.pktSizeMax)
    (hmax₂ : c₂.pktSizeMax = c₁.pktSizeMax)
    (h₁ : Runs ((bmliteTranceive 1).run ({ c with phyRxTimeout := 0 }.captureRequest 0)) es₁
      (r₁, c₁)) (hr₁ : r₁ ≠ FPC_BEP_RESULT_OK)
    (h₂ : Runs ((bmliteTranceive 1).run (c₁.captureRequest 0)) es₂ (r₂, c₂))
    (hr₂ : r₂ ≠ FPC_BEP_RESULT_OK)
    (h₃ : Runs ((bmliteTranceive 1).run (c₂.captureRequest 0)) es₃ (r₃, c₃))
    (hr₃ : r₃ ≠ FPC_BEP_RESULT_OK) :
    Runs ((bepIdentifyFinger 1 0 0).run c) (es₁ ++ (es₂ ++ es₃))
      ((r₃, 0, false), { c₃ with phyRxTimeout := c.phyRxTimeout }) := by
  have hlast : Runs ((bepCapture.attempts 1 0 0 r₃).run c₃) [] (r₃, c₃) := runs_ret.2 ⟨rfl, rfl⟩
  have hthird : Runs ((bepCapture.attempts 1 0 1 r₂).run c₂) es₃ (r₃, c₃) := by
    rw [← List.append_nil es₃]
    exact attempts_next (by rw [hmax₂, hmax₁]; exact hmax) h₃ hr₃ hlast
  have hsecond : Runs ((bepCapture.attempts 1 0 2 r₁).run c₁) (es₂ ++ es₃) (r₃, c₃) :=
    attempts_next (by rw [hmax₁]; exact hmax) h₂ hr₂ hthird
  have hfirst : Runs ((bepCapture.attempts 1 0 3 FPC_BEP_RESULT_OK).run
      { c with phyRxTimeout := 0 }) (es₁ ++ (es₂ ++ es₃)) (r₃, c₃) :=
    attempts_next (by exact hmax) h₁ hr₁ hsecond
  rw [← List.append_nil (es₁ ++ (es₂ ++ es₃))]
  refine .touch (runs_exitIfErr.2 ⟨r₃, _, es₁ ++ (es₂ ++ es₃), [], rfl,
    runs_bepCapture.2 ⟨c₃, hfirst, rfl⟩, ?_⟩)
  rw [if_pos (.inl hr₃)]
  exact runs_identify_exit.2 ⟨rfl, rfl⟩

/-- A module that sends nothing but one ACK, in call `k`, after which it is not ready any more; a
button press is pending. -/
def abortWorld (k : Nat) : World where
  ready n := n < k
  tick n := BitVec.ofNat 32 n
  button _ := 1
  miso n _ := if n = k then fpcComAck else [0, 0, 0, 0]

theorem abortWorld_quiet (k : Nat) : Quiet (abortWorld k) k := by
  intro n hn
  exact ⟨decide_eq_false (Nat.not_lt.2 hn), (by decide : (1 : BitVec 32) ≠ 0)⟩

/-- The third capture of a call is aborted: the call returns `TIMEOUT`. -/
theorem identify_abort_third : ∃ (es : List HcpEvent) (x : Exchange) (r : FpcBepResult)
      (c' : HcpComm),
    Runs ((bepIdentifyFinger 1 0 0).run hcpChain) (es ++ [.note x]) ((r, 0, false), c') ∧
      (platformEnv (abortWorld 11) 1).Answers 0 es 15 ∧ Quiet (abortWorld 11) 15 ∧
      x.Requests CMD_CAPTURE [timeoutArg 0] ∧ x.com = FPC_BEP_RESULT_TIMEOUT ∧
      r = FPC_BEP_RESULT_TIMEOUT := by
  have hmax : 10 ≤ hcpChain.pktSizeMax := by decide
  have hno : FPC_BEP_RESULT_IO_ERROR ≠ FPC_BEP_RESULT_OK := by decide
  -- Twice, zeros are read in place of the ACK.
  have hzeros : ackResult FPC_BEP_RESULT_OK (([0, 0, 0, 0] : List Byte).take 4) =
    FPC_BEP_RESULT_IO_ERROR := rfl
  obtain ⟨f₁, x₁, h₁, hmax₁, ht₁⟩ := capture_unacked { hcpChain with phyRxTimeout := 0 } 0 hzeros
  obtain ⟨f₂, x₂, h₂, hmax₂, ht₂⟩ := capture_unacked x₁.after 0 hzeros
  obtain ⟨f₃, x₃, h₃, hreq, hcom, -⟩ := capture_aborted x₂.after 0
  rw [ht₂, ht₁] at h₃
  have hans₁ : (platformEnv (abortWorld 11) 1).Answers 0
      ([.write f₁ 0 FPC_BEP_RESULT_OK, .read 4 500 FPC_BEP_RESULT_OK [0, 0, 0, 0], .note x₁,
        .write f₂ 0 FPC_BEP_RESULT_OK, .read 4 500 FPC_BEP_RESULT_OK [0, 0, 0, 0], .note x₂] :
          List HcpEvent) 8 := ⟨1, rfl, 4, rfl, 5, rfl, 8, rfl, rfl⟩
  have hans₂ : (platformEnv (abortWorld 11) 1).Answers 8 (abortedEvents f₃ 0) 15 :=
    ⟨9, rfl, 12, rfl, 15, rfl, rfl⟩
  obtain ⟨es, hes, hans, hcall⟩ : ∃ es, (exchanges es).length = 2 ∧
      (platformEnv (abortWorld 11) 1).Answers 0 es 15 ∧
      Runs ((bepIdentifyFinger 1 0 0).run hcpChain) (es ++ [.note x₃])
        ((FPC_BEP_RESULT_TIMEOUT, 0, false), _) :=
    ⟨_, rfl, Env.answers_append.2 ⟨8, hans₁, hans₂⟩,
      identify_failed hmax hmax₁ hmax₂ h₁ hno h₂ hno h₃ (by decide)⟩
  have hend : (platformEnv (abortWorld 11) 1).Answers 15 ([] : List HcpEvent) 15 := rfl
  have hquiet : Quiet (abortWorld 11) 15 := (abortWorld_quiet 11).mono (by decide)
  exact ⟨es, x₃, _, _, hcall, hans, hquiet, hreq, hcom,
    (identify_abort_iff hcall hans hend hreq hcom hquiet).2 hes⟩

/-- **The first capture of a call is aborted**: the call returns `IO_ERROR`, and the main loop does
not reset the module. -/
theorem identify_abort_first : ∃ (f : List Byte) (x : Exchange) (es : List HcpEvent)
      (r : FpcBepResult) (c' : HcpComm),
    Runs ((bepIdentifyFinger 1 0 0).run hcpChain) (abortedEvents f 0 ++ .note x :: es)
        ((r, 0, false), c') ∧
      (platformEnv (abortWorld 3) 1).Answers 0 (abortedEvents f 0) 7 ∧
      (platformEnv (abortWorld 3) 1).Answers 7 es 17 ∧ Quiet (abortWorld 3) 7 ∧
      x.Requests CMD_CAPTURE [timeoutArg 0] ∧ x.com = FPC_BEP_RESULT_TIMEOUT ∧
      r = FPC_BEP_RESULT_IO_ERROR ∧ r ≠ FPC_BEP_RESULT_TIMEOUT := by
  have hmax : 10 ≤ hcpChain.pktSizeMax := by decide
  have hno : FPC_BEP_RESULT_IO_ERROR ≠ FPC_BEP_RESULT_OK := by decide
  have hpending : ackResult FPC_BEP_RESULT_TIMEOUT (([] : List Byte).take 4) =
    FPC_BEP_RESULT_IO_ERROR := rfl
  obtain ⟨f₁, x₁, h₁, hreq, hcom, hmax₁⟩ := capture_aborted { hcpChain with phyRxTimeout := 0 } 0
  obtain ⟨f₂, x₂, h₂, hmax₂, -⟩ := capture_unacked x₁.after 0 hpending
  obtain ⟨f₃, x₃, h₃, -⟩ := capture_unacked x₂.after 0 hpending
  have hcall := identify_failed hmax hmax₁ hmax₂ h₁ (by decide) h₂ hno h₃ hno
  have hans₁ : (platformEnv (abortWorld 3) 1).Answers 0 (abortedEvents f₁ 0) 7 :=
    ⟨1, rfl, 4, rfl, 7, rfl, rfl⟩
  have hans₂ : (platformEnv (abortWorld 3) 1).Answers 7
      ([.write f₂ 0 FPC_BEP_RESULT_OK, .read 4 500 FPC_BEP_RESULT_TIMEOUT [], .note x₂,
        .write f₃ 0 FPC_BEP_RESULT_OK, .read 4 500 FPC_BEP_RESULT_TIMEOUT [], .note x₃] :
          List HcpEvent) 17 :=
    ⟨8, rfl, 12, rfl, 13, rfl, 17, rfl, rfl⟩
  have hquiet : Quiet (abortWorld 3) 7 := (abortWorld_quiet 3).mono (by decide)
  exact ⟨f₁, x₁, _, _, _, hcall, hans₁, hans₂, hquiet, hreq, hcom, rfl, by decide⟩

end BMLite
