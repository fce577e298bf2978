import BMLite.Composed

/-!
# What the notes stand for

A run of a command notes its exchanges.  No note stands alone: before it are the frames of the
request that it speaks of, and what was read in answer.

* `Noted` — the events of a run are those of exchanges, one after the other;
* `Exchange.Recorded`, `Noted.recorded` — **a note follows the frames of its own request**;
* `enroll_recorded`, `identify_recorded`, `session_recorded` — so it is in every run of every call.
-/

set_option autoImplicit false

namespace BMLite

open Process

variable {rounds : Nat}

/-! ## Runs of exchanges -/

/-- The events of exchanges, one after the other: of each those of a run of `bmlite_tranceive`,
between the chains that its note gives. -/
inductive Noted (rounds : Nat) : List HcpEvent → Prop
  | nil : Noted rounds []
  | cons {x : Exchange} {es fs : List HcpEvent} :
    Runs ((bmliteTranceive rounds).run x.before) es (x.com, x.after) →
    Noted rounds fs → Noted rounds (es ++ fs)

theorem Noted.append {es fs : List HcpEvent} (h : Noted rounds es) (h' : Noted rounds fs) :
    Noted rounds (es ++ fs) := by
  induction h with
  | nil => exact h'
  | cons hrun _ ih =>
    rw [List.append_assoc]
    exact .cons hrun ih

/-- The frames of the request come first. -/
theorem tranceive_sent {x : Exchange} {es : List HcpEvent}
    (h : Runs ((bmliteTranceive rounds).run x.before) (es ++ [.note x]) (x.com, x.after)) :
    ∃ sent received r, es = sent ++ received ∧ Sent x.before.frames sent r ∧
      (r ≠ FPC_BEP_RESULT_OK → received = [] ∧ x.com = r) := by
  rcases runs_tranceive.1 h with ⟨-, es₁, heq, hsend⟩ | ⟨es₁, es₂, c₁, c₂, heq, hsend, -⟩
  · obtain ⟨rfl, -⟩ := List.append_inj' heq rfl
    exact ⟨es, [], x.com, (List.append_nil es).symm, (runs_send_cases hsend).2,
      fun _ => ⟨rfl, rfl⟩⟩
  · obtain ⟨rfl, -⟩ := List.append_inj' heq rfl
    exact ⟨es₁, es₂, _, rfl, (runs_send_cases hsend).2, fun hr => absurd rfl hr⟩

/-- Among the events are those of the exchange: the frames of its request, up to one that is not
acknowledged, what was read in answer, and its note. -/
def Exchange.Recorded (x : Exchange) (rounds : Nat) (es : List HcpEvent) : Prop :=
  ∃ es₀ sent received es₁ r, es = es₀ ++ (sent ++ received ++ [.note x]) ++ es₁ ∧
    Sent x.before.frames sent r ∧ (r ≠ FPC_BEP_RESULT_OK → received = [] ∧ x.com = r) ∧
    Runs ((bmliteTranceive rounds).run x.before) (sent ++ received ++ [.note x]) (x.com, x.after)

/-- **A note follows the frames of its own request.** -/
theorem Noted.recorded {es : List HcpEvent} (h : Noted rounds es) :
    ∀ x ∈ exchanges es, x.Recorded rounds es := by
  induction h with
  | nil => exact fun x hx => absurd hx List.not_mem_nil
  | @cons y es fs hrun _ ih =>
    intro x hx
    rw [exchanges_append, exchanges_tranceive hrun, List.mem_append, List.mem_singleton] at hx
    rcases hx with rfl | hx
    · obtain ⟨evs, rfl, -⟩ := tranceive_note hrun
      obtain ⟨sent, received, r, rfl, hsent, hr⟩ := tranceive_sent hrun
      exact ⟨[], sent, received, fs, r, rfl, hsent, hr, hrun⟩
    · obtain ⟨es₀, sent, received, es₁, r, rfl, hrest⟩ := ih x hx
      exact ⟨es ++ es₀, sent, received, es₁, r, by simp only [List.append_assoc], hrest⟩

/-! ## Every call -/

/-- **What is made of exchanges** has the events of exchanges. -/
theorem Composed.noted {α : Type} {act : Action → Prop} {ok : Nat → Prop} {P : Prop} {m : Hcp α}
    {Q : α → Prop} (h : Composed rounds act ok P m Q) :
    ∀ {c : HcpComm} {es : List HcpEvent} {y : α × HcpComm}, Runs (m.run c) es y →
      Noted rounds es := by
  induction h with
  | silent hreturns =>
    intro c es y hrun
    rw [((hreturns c es y).1 hrun).1]
    exact .nil
  | callback | busyWait =>
    intro c es y hrun
    rw [(runs_ret.1 (runs_touch.1 hrun)).1]
    exact .nil
  | chainArg =>
    intro c es y hrun
    rw [chainArg_run] at hrun
    split at hrun
    · rw [(runs_ret.1 hrun).1]
      exact .nil
    · exact absurd (runs_touch.1 hrun) runs_out
  | exchange =>
    rintro c es ⟨r, c'⟩ hrun
    rw [← List.append_nil es]
    exact .cons (x := ⟨c, r, c'⟩) hrun .nil
  | bind _ _ ihm ihf =>
    intro c es y hrun
    rw [StateT.run_bind] at hrun
    obtain ⟨⟨a, c'⟩, es₁, es₂, rfl, hm, hf⟩ := runs_bind.1 hrun
    exact (ihm hm).append (ihf a hf)
  | withTimeout _ _ ih =>
    intro c es y hrun
    simp only [BMLite.withTimeout, StateT.run_bind, StateT.run_get, StateT.run_modify, pure_eq,
      ret_bind] at hrun
    obtain ⟨y', es₁, es₂, rfl, hbody, hret⟩ := runs_bind.1 hrun
    rw [(runs_ret.1 hret).1, List.append_nil]
    exact ih hbody
  | conseq _ _ _ ih => exact ih

/-- The enrolling of a finger. -/
theorem enroll_recorded {c : HcpComm} {es : List HcpEvent} {y : FpcBepResult × HcpComm}
    (h : Runs ((bepEnrollFinger rounds).run c) es y) :
    ∀ x ∈ exchanges es, x.Recorded rounds es := by
  have hmade : Composed rounds (fun _ => True) (fun _ => True) True (bepEnrollFinger rounds)
      fun _ => True := composed_enroll (fun _ _ => trivial) trivial trivial trivial
  exact (hmade.noted h).recorded

/-- The identification of a finger. -/
theorem identify_recorded {timeout templateId : Nat} {c : HcpComm} {es : List HcpEvent}
    {y : (FpcBepResult × Nat × Bool) × HcpComm}
    (h : Runs ((bepIdentifyFinger rounds timeout templateId).run c) es y) :
    ∀ x ∈ exchanges es, x.Recorded rounds es := by
  have hmade : Composed rounds (fun _ => True) (fun _ => True) True
      (bepIdentifyFinger rounds timeout templateId) fun _ => True :=
    composed_identify (fun _ _ => trivial) trivial
  exact (hmade.noted h).recorded

/-- **Every sequence of calls.** -/
theorem session_recorded {calls : List BepCall} {c : HcpComm} {es : List HcpEvent}
    {y : List ((FpcBepResult × Output) × FpcBepResult) × HcpComm}
    (h : Runs ((session rounds calls).run c) es y) : ∀ x ∈ exchanges es, x.Recorded rounds es := by
  have hmade : Composed rounds (fun _ => True) (fun _ => True) True (session rounds calls)
      fun _ => True :=
    composed_session calls (fun _ _ _ _ => trivial) (fun call _ => call.waits_true) fun _ => trivial
  exact (hmade.noted h).recorded

end BMLite
