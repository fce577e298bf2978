import BMLite.Lib.Confined
import BMLite.Search
import BMLite.Timeouts

/-!
# What the interface is made of

The functions of `bmlite_if.h` use the channel in no other way than through `bmlite_tranceive`, and
change the timeout of the chain only around such calls.  Only `bep_enroll_finger` dereferences
`arg.data` where no search may have found anything.

* `conduct` — what a function is confined to: its callbacks, its busy waits and the timeouts of its
  reads;
* `Composed` — made of exchanges, and of steps that do not use the channel;
* `Composed.confined` — so the timeouts are put back, and a pointer that has been found stays;
* `BepCall.actions`, `BepCall.Waits` — the callbacks, the busy waits and the timeouts of a call
  itself;
* `composed_call`, `composed_session` — **every call, and every sequence of calls**.
-/

set_option autoImplicit false

namespace BMLite

open FlatMemory Process

/-! ## Conduct -/

/-- What goes on inside an exchange: accesses to the buffers, and reports of errors. -/
def Action.Plain : Action → Prop
  | .access _ => True
  | .callback (.onError _ _) => True
  | _ => False

/-- Besides plain actions only those that `act` allows, and reads with timeouts that are `ok`. -/
def conduct (act : Action → Prop) (ok : Nat → Prop) : Policy Action Byte where
  access a := a.Plain ∨ act a
  write _ := True
  read _ t := ok t

/-- What an exchange is confined to. -/
def plainly (ok : Nat → Prop) : Policy Action Byte where
  access := Action.Plain
  write _ := True
  read _ t := ok t

variable {act : Action → Prop} {ok : Nat → Prop} {c : HcpComm} {α β : Type}

theorem conducted {p : HcpProc α} {Q : α → Prop} (h : Confined (plainly ok) p Q) :
    Confined (conduct act ok) p Q :=
  h.mono (fun _ => .inl) (fun _ => id) (fun _ _ => id) fun _ => id

theorem confined_reportIf {pol : Policy Action Byte} {b : Prop} [Decidable b]
    {value : FpcBepResult} {p : HcpProc α} {Q : α → Prop} (hreport : pol.access (sendCmdError value))
    (h : Confined pol p Q) : Confined pol (reportIf b value p) Q := by
  unfold reportIf
  split
  · exact ⟨hreport, h⟩
  · exact h

theorem confined_reportResult {pol : Policy Action Byte} {x : FpcBepResult × HcpComm}
    {Q : FpcBepResult × HcpComm → Prop} (hreport : pol.access (sendCmdError x.1)) (h : Q x) :
    Confined pol (reportResult x) Q := confined_reportIf hreport h

/-! ## Searching and building -/

theorem search_plain (c : HcpComm) (t left : Nat) : ∀ pdata : Nat,
    Confined (plainly ok) ((bmliteGetArg.search t left pdata).run c) fun _ => True := by
  induction left with
  | zero => exact fun _ => ⟨trivial, trivial⟩
  | succ left ih =>
    intro pdata
    rw [search_run]
    split
    · refine ⟨trivial, trivial, ?_⟩
      split
      · trivial
      · exact ih _
    · exact ⟨trivial, trivial⟩

theorem getArg_plain (c : HcpComm) (t : Nat) :
    Confined (plainly ok) ((bmliteGetArg t).run c) fun _ => True :=
  ⟨trivial, search_plain c t _ 4⟩

theorem addArg_plain (c : HcpComm) (t : Nat) (d : List Byte) (n : Nat) :
    Confined (plainly ok) ((bmliteAddArg t d n).run c) fun _ => True := by
  simp only [bmliteAddArg, StateT.run_bind, StateT.run_get, pure_eq, ret_bind]
  split
  · exact ⟨trivial, trivial⟩
  · refine ⟨trivial, trivial, trivial, trivial, ?_⟩
    split
    · exact ⟨trivial, trivial⟩
    · trivial

theorem initCmd_plain (c : HcpComm) (cmd argKey : Nat) :
    Confined (plainly ok) ((bmliteInitCmd cmd argKey).run c) fun _ => True := by
  simp only [bmliteInitCmd, StateT.run_bind, run_store16, StateT.run_modify, touch_bind, ret_bind,
    pure_eq]
  refine ⟨trivial, trivial, ?_⟩
  split
  · rw [StateT.run_bind]
    refine Confined.bind ((addArg_plain _ argKey [] 0).imp fun y _ => ?_)
    split
    · exact ⟨trivial, trivial⟩
    · trivial
  · trivial

/-! ## The transport layer -/

theorem send_loop_plain (hack : ok 500) (rounds : Nat) :
    ∀ {c : HcpComm} {seqLen seqNr dataLeft p : Nat} {bepResult : FpcBepResult},
      Confined (plainly ok)
        ((bmliteSend.loop APP_MTU seqLen rounds seqNr dataLeft p bepResult).run c)
        fun _ => True := by
  induction rounds with
  | zero =>
    intro c seqLen seqNr dataLeft p bepResult
    trivial
  | succ rounds ih =>
    intro c seqLen seqNr dataLeft p bepResult
    by_cases hgo : seqNr ≤ seqLen ∧ bepResult = FPC_BEP_RESULT_OK
    · obtain ⟨hgo, rfl⟩ := hgo
      rw [send_loop_run hgo, txLink_run]
      refine ⟨trivial, trivial, trivial, trivial, trivial, trivial, trivial, trivial, ?_⟩
      refine Confined.bind ⟨trivial, trivial, trivial, trivial, trivial, trivial, trivial,
        fun w => ⟨hack, fun r d => confined_reportIf trivial ?_⟩⟩
      exact ih
    · rw [bmliteSend.loop, if_neg hgo]
      trivial

/-- The timeout and `arg` are as they were. -/
def SameArg (c c' : HcpComm) : Prop := c'.phyRxTimeout = c.phyRxTimeout ∧ c'.arg = c.arg

theorem send_plain (hack : ok 500) (c : HcpComm) :
    Confined (plainly ok) (bmliteSend.run c) fun y => SameArg c y.2 := by
  refine Confined.of_runs ?_ ?_
  · rw [send_run]
    exact ⟨trivial, trivial, Confined.bind ((send_loop_plain hack _).imp fun _ _ =>
      confined_reportResult trivial trivial)⟩
  · rintro es ⟨r, c'⟩ hrun
    obtain ⟨⟨t, rfl⟩, -⟩ := runs_send_cases hrun
    exact ⟨rfl, rfl⟩

theorem rxLink_plain (hcrc : ok 100) {c₀ : HcpComm} (hc : ok c.phyRxTimeout)
    (hsame : SameArg c₀ c) : Confined (plainly ok) (rxLink.run c) fun y => SameArg c₀ y.2 := by
  rw [rxLink_run]
  refine ⟨trivial, hc, fun r d => ?_⟩
  dsimp only
  split
  · exact hsame
  refine ⟨trivial, ?_⟩
  split
  · exact ⟨trivial, hsame⟩
  refine ⟨trivial, hcrc, fun r' d' => ⟨trivial, trivial, ?_⟩⟩
  split
  · exact ⟨trivial, fun w => hsame⟩
  · exact ⟨trivial, hsame⟩

theorem receive_loop_plain (hcrc : ok 100) (rounds : Nat) {c₀ : HcpComm}
    (h₀ : ok c₀.phyRxTimeout) :
    ∀ {c : HcpComm} {seqNr seqLen p bufLen : Nat} {comResult : FpcBepResult},
      SameArg c₀ c → Confined (plainly ok)
        ((bmliteReceive.loop rounds seqNr seqLen p bufLen comResult).run c)
        fun y => SameArg c₀ y.2 := by
  induction rounds with
  | zero =>
    intro c seqNr seqLen p bufLen comResult _
    trivial
  | succ rounds ih =>
    intro c seqNr seqLen p bufLen comResult hc
    by_cases hgo : seqNr < seqLen
    · rw [receive_round_run hgo]
      refine Confined.bind ((rxLink_plain hcrc (by rw [hc.1]; exact h₀) hc).imp ?_)
      rintro ⟨r, c₁⟩ hc₁
      obtain ⟨b, hb⟩ := takeChunk_comm c₁ p bufLen comResult
      have hc₂ : SameArg c₀ (c₁.takeChunk p bufLen comResult).comm := by
        rw [hb]
        exact hc₁
      dsimp only
      split
      · unfold copyChunk
        refine ⟨trivial, trivial, trivial, trivial, ?_⟩
        split
        · exact ⟨trivial, trivial, ih hc₂⟩
        · exact ih hc₂
      · exact confined_reportResult trivial hc₁
    · rw [receive_exit_run hgo]
      exact confined_reportResult trivial hc

/-- **An exchange** waits for the ACKs, and for the answer with the timeout of the chain.  It does
not take a pointer back. -/
theorem tranceive_plain (hcrc : ok 100) (hack : ok 500) (hc : ok c.phyRxTimeout) (rounds : Nat) :
    Confined (plainly ok) ((bmliteTranceive rounds).run c)
      fun y => y.2.phyRxTimeout = c.phyRxTimeout ∧ (c.arg.isSome → y.2.arg.isSome) := by
  simp only [bmliteTranceive, StateT.run_bind, StateT.run_get, pure_eq, ret_bind]
  refine Confined.bind ((send_plain hack c).imp ?_)
  rintro ⟨r, c₁⟩ hc₁
  dsimp only
  split
  · rw [StateT.run_bind]
    refine Confined.bind ((receive_loop_plain hcrc rounds hc hc₁).imp ?_)
    rintro ⟨r', c₂⟩ ⟨htimeout, harg⟩
    rw [StateT.run_bind]
    refine Confined.bind (Confined.of_returns (getArg_returns c₂ ARG_RESULT)
      (fun es a => (getArg_plain c₂ ARG_RESULT).touches) ?_)
    cases c₂.findArg ARG_RESULT with
    | some a => exact ⟨trivial, htimeout, fun _ => rfl⟩
    | none => exact ⟨htimeout, fun h => harg ▸ h⟩
  · exact ⟨hc₁.1, fun h => hc₁.2 ▸ h⟩

/-! ## Composition -/

/-- Made of exchanges, under timeouts that are `ok`, and of steps that do not use the channel; among
them the callbacks and the busy waits that `act` allows.  `P` says that `arg.data` is no null pointer
before, and `Q` that it is none after. -/
inductive Composed (rounds : Nat) (act : Action → Prop) (ok : Nat → Prop) :
    {α : Type} → (P : Prop) → Hcp α → (Q : α → Prop) → Prop
  | silent {α : Type} {P : Prop} {m : Hcp α} {Q : α → Prop} {y : HcpComm → α × HcpComm} :
    (∀ c, Returns (m.run c) (y c)) → (∀ c es a, Touches (m.run c) es a → a.Plain) →
    (∀ c, (y c).2.phyRxTimeout = c.phyRxTimeout) →
    (∀ c, (P → c.arg.isSome) → Q (y c).1 → (y c).2.arg.isSome) → Composed rounds act ok P m Q
  | callback {P : Prop} {cb : Callback} :
    act (.callback cb) → Composed rounds act ok P (callback cb) fun _ => P
  | busyWait {P : Prop} {ticks : Nat} :
    act (.busyWait ticks) → Composed rounds act ok P (busyWait ticks) fun _ => P
  | chainArg {P : Prop} : P → Composed rounds act ok P chainArg fun _ => P
  | exchange {P : Prop} : Composed rounds act ok P (bmliteTranceive rounds) fun _ => P
  | bind {α β : Type} {P : Prop} {m : Hcp α} {Q : α → Prop} {f : α → Hcp β} {R : β → Prop} :
    Composed rounds act ok P m Q → (∀ a, Composed rounds act ok (Q a) (f a) R) →
    Composed rounds act ok P (m >>= f) R
  | withTimeout {P : Prop} {t : Nat} {body : Hcp FpcBepResult} {Q : FpcBepResult → Prop} :
    ok t → Composed rounds act ok P body Q → Composed rounds act ok P (withTimeout t body) Q
  | conseq {α : Type} {P P' : Prop} {m : Hcp α} {Q Q' : α → Prop} :
    (P → P') → (∀ a, Q' a → Q a) → Composed rounds act ok P m Q → Composed rounds act ok P' m Q'

variable {rounds : Nat} {P : Prop} {R : FpcBepResult → Prop}

/-- **What is made of exchanges** does not do anything else, puts its timeouts back, and keeps the
pointer. -/
theorem Composed.confined (hcrc : ok 100) (hack : ok 500) {m : Hcp α} {Q : α → Prop}
    (h : Composed rounds act ok P m Q) : ∀ c : HcpComm, ok c.phyRxTimeout →
      (P → c.arg.isSome) → Confined (conduct act ok) (m.run c) fun y =>
        y.2.phyRxTimeout = c.phyRxTimeout ∧ (Q y.1 → y.2.arg.isSome) := by
  induction h with
  | silent hreturns hplain hsame hfound =>
    exact fun c _ hP => .of_returns (hreturns c) (fun es a ha => .inl (hplain c es a ha))
      ⟨hsame c, hfound c hP⟩
  | callback hact => exact fun c _ hP => ⟨.inr hact, rfl, hP⟩
  | busyWait hact => exact fun c _ hP => ⟨.inr hact, rfl, hP⟩
  | chainArg hP =>
    intro c _ hfound
    obtain ⟨a, ha⟩ := Option.isSome_iff_exists.1 (hfound hP)
    rw [run_chainArg ha]
    exact ⟨rfl, hfound⟩
  | exchange =>
    exact fun c hc hP => conducted <| Confined.imp (tranceive_plain hcrc hack hc rounds)
      fun y hy => ⟨hy.1, fun h => hy.2 (hP h)⟩
  | bind _ _ ihm ihf =>
    intro c hc hP
    rw [StateT.run_bind]
    refine Confined.bind ((ihm c hc hP).imp ?_)
    rintro ⟨a, c'⟩ ⟨htimeout, hfound⟩
    rw [← htimeout] at hc ⊢
    exact ihf a c' hc hfound
  | @withTimeout P t body Q ht _ ih =>
    intro c _ hP
    simp only [BMLite.withTimeout, StateT.run_bind, StateT.run_get, StateT.run_modify, pure_eq,
      ret_bind]
    exact Confined.bind ((ih { c with phyRxTimeout := t } ht hP).imp fun y hy => ⟨rfl, hy.2⟩)
  | conseq hpre hpost _ ih =>
    exact fun c hc hP => (ih c hc fun h => hP (hpre h)).imp fun y hy =>
      ⟨hy.1, fun h => hy.2 (hpost y.1 h)⟩

/-! ## Steps and commands -/

/-- The accesses and reports of a step that reads nothing. -/
theorem touches_plain {p : HcpProc α} {Q : α → Prop} (h : Confined (plainly fun _ => False) p Q)
    {es : List HcpEvent} {a : Action} : Touches p es a → a.Plain :=
  h.touches

theorem composed_pure {a : α} {Q : α → Prop} (h : Q a → P) :
    Composed rounds act ok P (pure a : Hcp α) Q :=
  .silent (fun _ => returns_of_runs (.refl _)) (fun _ _ _ h => absurd h touches_ret)
    (fun _ => rfl) fun _ hP hQ => hP (h hQ)

/-- Nothing more is known of the pointer. -/
theorem composed_return (a : α) : Composed rounds act ok P (pure a : Hcp α) fun _ => P :=
  composed_pure id

theorem composed_get : Composed rounds act ok P (get : Hcp HcpComm) fun _ => P :=
  .silent (fun _ => returns_of_runs (.refl _)) (fun _ _ _ h => absurd h touches_ret)
    (fun _ => rfl) fun _ hP hQ => hP hQ

theorem composed_load {b : Buffer} {off n : Nat} :
    Composed rounds act ok P (load b off n) fun _ => P := by
  refine .silent (fun _ => returns_of_runs (.touch (.refl _))) (fun c es a h => ?_)
    (fun _ => rfl) fun _ hP hQ => hP hQ
  rcases touches_touch.1 h with rfl | h
  · trivial
  · exact absurd h touches_ret

theorem composed_load16 {b : Buffer} {off : Nat} :
    Composed rounds act ok P (load16 b off) fun _ => P :=
  composed_load.bind fun _ => composed_return _

theorem composed_load32 {b : Buffer} {off : Nat} :
    Composed rounds act ok P (load32 b off) fun _ => P :=
  composed_load.bind fun _ => composed_return _

theorem composed_initCmd (cmd argKey : Nat) :
    Composed rounds act ok P (bmliteInitCmd cmd argKey) fun _ => P := by
  refine .silent (fun c => runs_initCmd c cmd argKey)
    (fun c es a => touches_plain (initCmd_plain c cmd argKey)) (fun c => ?_) fun c hP hQ => ?_
  · split
    · rfl
    · exact (prepare_settings c cmd argKey).1
  · split
    · exact hP hQ
    · unfold HcpComm.prepare
      split <;> exact hP hQ

theorem composed_addArg (t : Nat) (d : List Byte) (n : Nat) :
    Composed rounds act ok P (bmliteAddArg t d n) fun _ => P := by
  refine .silent (fun c => runs_addArg) (fun c es a => touches_plain (addArg_plain c t d n))
    (fun c => ?_) fun c hP hQ => ?_
  · split <;> rfl
  · split <;> exact hP hQ

/-- A search that succeeds has found a pointer. -/
theorem composed_getArg (t : Nat) :
    Composed rounds act ok P (bmliteGetArg t) fun r => P ∨ r = FPC_BEP_RESULT_OK := by
  refine .silent (fun c => getArg_returns c t) (fun c es a => touches_plain (getArg_plain c t))
    (fun c => ?_) fun c hP hQ => ?_
  · split <;> rfl
  · revert hQ
    split
    · exact fun _ => rfl
    · have hne : FPC_BEP_RESULT_INVALID_ARGUMENT ≠ FPC_BEP_RESULT_OK := by decide
      exact fun h => h.elim hP fun hok => absurd hok hne

/-- A search whose result is dropped. -/
theorem composed_search (t : Nat) : Composed rounds act ok P (bmliteGetArg t) fun _ => P :=
  .conseq id (fun _ => .inl) (composed_getArg t)

theorem composed_assertOk {call next : Hcp FpcBepResult}
    (hcall : Composed rounds act ok P call fun _ => P)
    (hnext : Composed rounds act ok P next fun _ => P) :
    Composed rounds act ok P (assertOk call next) fun _ => P := by
  refine hcall.bind fun res => ?_
  split
  · exact composed_return _
  · exact hnext

/-- The code behind an `assert` may know that the call has succeeded. -/
theorem composed_assertOut {call : Hcp FpcBepResult} {out : α} {next : Hcp (FpcBepResult × α)}
    (hR : ∀ r, P → R r) (hcall : Composed rounds act ok P call R)
    (hnext : Composed rounds act ok (R FPC_BEP_RESULT_OK) next fun _ => P) :
    Composed rounds act ok P (assertOut call out next) fun _ => P := by
  refine hcall.bind fun res => ?_
  by_cases hres : res = FPC_BEP_RESULT_OK
  · subst hres
    exact hnext
  · rw [if_pos hres]
    exact composed_pure (hR res)

theorem composed_exitIfErr {call : Hcp FpcBepResult} {exit next : FpcBepResult → Hcp α}
    (hR : ∀ r, P → R r) (hcall : Composed rounds act ok P call R)
    (hexit : ∀ r, Composed rounds act ok P (exit r) fun _ => P)
    (hnext : ∀ r, r = FPC_BEP_RESULT_OK → Composed rounds act ok (R r) (next r) fun _ => P) :
    Composed rounds act ok P (exitIfErr call exit next) fun _ => P := by
  refine hcall.bind fun r => composed_get.bind fun c => ?_
  split <;> rename_i herr
  · exact .conseq (hR r) (fun _ => id) (hexit r)
  · exact hnext r (not_not.1 fun hr => herr (.inl hr))

theorem composed_sendCmd (cmd argKey : Nat) :
    Composed rounds act ok P (bmliteSendCmd rounds cmd argKey) fun _ => P :=
  composed_assertOk (composed_initCmd cmd argKey) .exchange

theorem composed_sendCmdArg (cmd argKey t : Nat) (d : List Byte) (n : Nat) :
    Composed rounds act ok P (bmliteSendCmdArg rounds cmd argKey t d n) fun _ => P :=
  composed_assertOk (composed_initCmd cmd argKey) <|
    composed_assertOk (composed_addArg t d n) .exchange

/-- What has been found is dereferenced. -/
theorem composed_deref {f : HcpArg → Hcp α} (h : P) {Q : α → Prop}
    (hf : ∀ a, Composed rounds act ok P (f a) Q) :
    Composed rounds act ok P (chainArg >>= f) Q :=
  (Composed.chainArg h).bind hf

theorem composed_copyArg (t : Nat) (dest : Option (Mem Byte)) (n : Nat) :
    Composed rounds act ok P (bmliteCopyArg t dest n) fun _ => P := by
  have hreport (value : FpcBepResult) : Composed rounds act ok P
      (bmliteOnError .getArg value) fun _ => P :=
    .silent (fun _ => returns_of_runs (.touch (.refl _)))
      (fun c es a h => by
        rcases touches_touch.1 h with rfl | h
        · trivial
        · exact absurd h touches_ret)
      (fun _ => rfl) fun _ hP hQ => hP hQ
  refine (composed_getArg t).bind fun r => ?_
  split <;> rename_i hr
  · cases dest with
    | none => exact .conseq .inl (fun _ => id) <| (hreport _).bind fun _ => composed_return _
    | some m =>
      exact composed_deref (.inr hr) fun a => composed_load.bind fun d => composed_pure .inl
  · exact .conseq .inl (fun _ => id) <| (hreport _).bind fun _ => composed_return _

/-- A value that is read out of the answer. -/
theorem composed_value {cmd argKey : Nat} {out : α} {read : Nat → Hcp α}
    (hread : ∀ (P : Prop) (off : Nat), Composed rounds act ok P (read off) fun _ => P) :
    Composed rounds act ok P (assertOut (bmliteSendCmd rounds cmd argKey) out <|
      assertOut (bmliteGetArg argKey) out do
        let v ← read (← chainArg).data
        return (FPC_BEP_RESULT_OK, v)) fun _ => P :=
  composed_assertOut (fun _ => id) (composed_sendCmd cmd argKey) <|
    composed_assertOut (fun _ => .inl) (composed_getArg argKey) <|
      composed_deref (.inr rfl) fun a => (hread _ a.data).bind fun _ => composed_pure .inl

theorem composed_readIds : Composed rounds act ok P (readIds rounds) fun _ => P := by
  have hids : Composed rounds act ok P (bepTemplateGetIds rounds)
      fun r => P ∨ r = FPC_BEP_RESULT_OK := by
    refine (composed_sendCmd CMD_STORAGE_TEMPLATE ARG_ID).bind fun r => ?_
    split <;> rename_i hr
    · exact composed_pure fun h => h.elim id fun h => absurd h hr
    · exact composed_getArg ARG_DATA
  refine hids.bind fun r => ?_
  split <;> rename_i hr
  · exact composed_deref (.inr hr) fun a => composed_load.bind fun d => composed_pure .inl
  · exact composed_pure .inl

/-! ## Captures, enrolling and identifying -/

/-- The callbacks around a capture. -/
def captureActions : List Action := [.callback .onStartCapture, .callback .onFinishCapture]

theorem composed_captureCallbacks (hact : ∀ a ∈ captureActions, act a) {body : Hcp FpcBepResult}
    (h : Composed rounds act ok P body fun _ => P) : Composed rounds act ok P (do
      callback .onStartCapture
      let bepResult ← body
      callback .onFinishCapture
      return bepResult) fun _ => P :=
  (Composed.callback (hact _ (by simp [captureActions]))).bind fun _ => h.bind fun _ =>
    (Composed.callback (hact _ (by simp [captureActions]))).bind fun _ => composed_return _

theorem composed_attempts (timeout left : Nat) : ∀ bepResult, Composed rounds act ok P
    (bepCapture.attempts rounds timeout left bepResult) fun _ => P := by
  induction left with
  | zero => exact fun bepResult => composed_return bepResult
  | succ left ih =>
    intro bepResult
    refine (composed_sendCmdArg CMD_CAPTURE ARG_NONE ARG_TIMEOUT (enc16 timeout) 2).bind fun r =>
      composed_get.bind fun c => ?_
    split
    · exact composed_return r
    · exact ih r

theorem composed_capture (hact : ∀ a ∈ captureActions, act a) {timeout : Nat} (h : ok timeout) :
    Composed rounds act ok P (bepCapture rounds timeout) fun _ => P :=
  composed_captureCallbacks hact (.withTimeout h (composed_attempts timeout _ _))

/-- The callbacks of an enrolling. -/
def enrollActions : List Action :=
  captureActions ++ [.callback .onStartEnroll, .callback .onFinishEnroll,
    .callback .onStartEnrollcapture, .callback .onFinishEnrollcapture]

/-- The word at `arg.data` is read, whatever the search before has found. -/
theorem composed_samples (hact : ∀ a ∈ enrollActions, act a) (hfound : P)
    (hcapture : ok CAPTURE_TIMEOUT) (hwait : ok 0) (left : Nat) :
    Composed rounds act ok P (bepEnrollFinger.samples rounds left) fun _ => P := by
  have hcap (a : Action) (h : a ∈ captureActions) : act a :=
    hact a (List.mem_append_left _ h)
  induction left with
  | zero => exact composed_return false
  | succ left ih =>
    refine (Composed.callback (hact _ (by simp [enrollActions]))).bind fun _ =>
      (composed_capture hcap hcapture).bind fun r =>
        (Composed.callback (hact _ (by simp [enrollActions]))).bind fun _ => ?_
    split
    · exact ih
    refine (composed_sendCmd CMD_ENROLL ARG_ADD).bind fun r => ?_
    split
    · exact ih
    refine (composed_search ARG_COUNT).bind fun _ => composed_deref hfound fun a =>
      composed_load32.bind fun remaining => ?_
    split
    · exact composed_return true
    · exact (Composed.withTimeout hwait (composed_sendCmdArg ..)).bind fun _ => ih

theorem composed_enroll (hact : ∀ a ∈ enrollActions, act a) (hfound : P)
    (hcapture : ok CAPTURE_TIMEOUT) (hwait : ok 0) :
    Composed rounds act ok P (bepEnrollFinger rounds) fun _ => P := by
  have hfinish : Composed rounds act ok P (callback .onFinishEnroll) fun _ => P :=
    .callback (hact _ (by simp [enrollActions]))
  refine (Composed.callback (hact _ (by simp [enrollActions]))).bind fun _ =>
    composed_exitIfErr (fun _ => id) (composed_sendCmd ..)
      (fun _ => hfinish.bind fun _ => composed_return _) fun _ _ => ?_
  refine (composed_samples hact hfound hcapture hwait _).bind fun done => ?_
  exact (composed_sendCmd ..).bind fun r => hfinish.bind fun _ => composed_return _

/-- The callbacks of an identification, and its busy wait. -/
def identifyActions : List Action :=
  captureActions ++ [.callback .onIdentifyStart, .callback .onIdentifyFinish, .busyWait 50]

theorem composed_identify (hact : ∀ a ∈ identifyActions, act a) {timeout templateId : Nat}
    (hcapture : ok (timeout % 65536)) :
    Composed rounds act ok P (bepIdentifyFinger rounds timeout templateId) fun _ => P := by
  have hexit {P : Prop} (templateId : Nat) (isMatch : Bool) (r : FpcBepResult) :
      Composed rounds act ok P (bepIdentifyFinger.exit templateId isMatch r) fun _ => P :=
    (Composed.callback (hact _ (by simp [identifyActions]))).bind fun _ => composed_return _
  refine (Composed.callback (hact _ (by simp [identifyActions]))).bind fun _ => ?_
  refine composed_exitIfErr (fun _ => id)
    (composed_capture (fun a h => hact a (List.mem_append_left _ h)) hcapture)
    (hexit templateId false) fun _ _ => ?_
  refine composed_exitIfErr (fun _ => id) (composed_sendCmd ..) (hexit templateId false)
    fun _ _ => ?_
  refine composed_exitIfErr (fun _ => id) (composed_sendCmd ..) (hexit templateId false)
    fun _ _ => ?_
  refine composed_exitIfErr (R := fun r => P ∨ r = FPC_BEP_RESULT_OK) (fun _ => .inl)
    (composed_getArg ARG_MATCH) (hexit templateId false) fun r hr => ?_
  refine .conseq (Q := fun _ => P ∨ r = FPC_BEP_RESULT_OK) id (fun _ => .inl) <|
    composed_deref (.inr hr) fun a => composed_load.bind fun isMatch => ?_
  split
  · refine (composed_search ARG_ID).bind fun _ => composed_deref (.inr hr) fun a =>
      composed_load16.bind fun id => ?_
    exact (Composed.busyWait (hact _ (by simp [identifyActions]))).bind fun _ => hexit _ true r
  · exact hexit templateId false r

/-! ## All functions -/

/-- The timeouts that a call sets are `ok`; enrolling waits without a timeout until the finger has
been lifted. -/
def BepCall.Waits (ok : Nat → Prop) : BepCall → Prop
  | .enrollFinger => ok CAPTURE_TIMEOUT ∧ ok 0
  | .identifyFinger timeout _ => ok (timeout % 65536)
  | .waitFingerPresent timeout | .waitFingerNotPresent timeout | .capture timeout => ok timeout
  | _ => True

theorem BepCall.waits_true (call : BepCall) : call.Waits fun _ => True := by
  cases call <;> simp only [BepCall.Waits, and_self]

/-- The callbacks of a call, but for reports of errors, and its busy waits. -/
def BepCall.actions : BepCall → List Action
  | .enrollFinger => enrollActions
  | .identifyFinger _ _ => identifyActions
  | .waitFingerPresent _ | .capture _ => captureActions
  | .sensorReset => [.busyWait 50]
  | _ => []

theorem BepCall.actions_ne_null (call : BepCall) {a : Action} (h : a ∈ call.actions) :
    a ≠ .null := by
  rintro rfl
  cases call <;> simp [BepCall.actions, enrollActions, identifyActions, captureActions] at h

theorem composed_withOutput {m : Hcp (FpcBepResult × α)} (out : α → Output)
    (h : Composed rounds act ok P m fun _ => P) :
    Composed rounds act ok P (withOutput m out) fun _ => P :=
  h.bind fun _ => composed_return _

/-- **Every call.** -/
theorem composed_call {call : BepCall} (hact : ∀ a ∈ call.actions, act a) (h : call.Waits ok)
    (hfound : call = .enrollFinger → P) : Composed rounds act ok P (call.run rounds) fun _ => P := by
  cases call with
  | enrollFinger =>
    exact (composed_enroll hact (hfound rfl) h.1 h.2).bind fun _ => composed_return _
  | identifyFinger timeout templateId =>
    show Composed rounds act ok P
      (withOutput (bepIdentifyFinger rounds timeout templateId) fun x => .found x.1 x.2) fun _ => P
    exact composed_withOutput _ (composed_identify hact h)
  | waitFingerPresent timeout =>
    exact (composed_captureCallbacks hact (.withTimeout h (composed_sendCmdArg ..))).bind fun _ =>
      composed_return _
  | waitFingerNotPresent timeout =>
    exact (Composed.withTimeout h (composed_sendCmdArg ..)).bind fun _ => composed_return _
  | capture timeout => exact (composed_capture hact h).bind fun _ => composed_return _
  | imageGetSize size =>
    exact composed_withOutput _ (composed_value fun _ _ => composed_load32)
  | templateGetCount count =>
    exact composed_withOutput _ (composed_value fun _ _ => composed_load16)
  | imageGet _ _ | templateGet _ _ =>
    exact composed_withOutput _
      (composed_assertOut (fun _ => id) (composed_sendCmd ..) (composed_copyArg ..))
  | version _ _ | uniqueIdGet _ =>
    exact composed_withOutput _
      (composed_assertOut (fun _ => id) (composed_sendCmdArg ..) (composed_copyArg ..))
  | templateGetIds => exact composed_readIds
  | uartSpeedSet speed =>
    have hset : Composed rounds act ok P (bepUartSpeedSet rounds speed) fun _ => P :=
      composed_assertOk (composed_initCmd ..) <| composed_assertOk (composed_addArg ..) <|
        composed_assertOk (composed_addArg ..) .exchange
    exact hset.bind fun _ => composed_return _
  | uartSpeedGet speed =>
    refine composed_withOutput _ (composed_assertOut (fun _ => id) (composed_initCmd ..) ?_)
    exact composed_assertOut (fun _ => id) (composed_addArg ..) <|
      composed_assertOut (fun _ => id) .exchange (composed_copyArg ..)
  | sensorReset =>
    have hreset : Composed rounds act ok P (bepSensorReset rounds) fun _ => P :=
      (Composed.busyWait (hact _ (by simp [BepCall.actions]))).bind fun _ => composed_sendCmd ..
    exact hreset.bind fun _ => composed_return _
  | imageCreate | imageDelete | imageExtract | identify | templateRemoveRam | swReset
  | sensorCalibrate | sensorCalibrateRemove | sendCmd _ _ =>
    exact (composed_sendCmd ..).bind fun _ => composed_return _
  | imagePut _ _ | templateSave _ | templatePut _ _ | templateRemove _ | templateRemoveAll
  | templateLoadStorage _ | sendCmdArg _ _ _ _ _ =>
    exact (composed_sendCmdArg ..).bind fun _ => composed_return _

/-- **Every sequence of calls.** -/
theorem composed_session (calls : List BepCall)
    (hact : ∀ call ∈ calls, ∀ a ∈ call.actions, act a) (h : ∀ call ∈ calls, call.Waits ok)
    (hfound : .enrollFinger ∈ calls → P) :
    Composed rounds act ok P (session rounds calls) fun _ => P := by
  induction calls with
  | nil => exact composed_return []
  | cons call calls ih =>
    rw [List.forall_mem_cons] at hact h
    have hcall : Composed rounds act ok P (call.run rounds) fun _ => P :=
      composed_call hact.1 h.1 fun hcall => hfound (hcall ▸ List.mem_cons_self ..)
    exact hcall.bind fun x => composed_get.bind fun c =>
      (ih hact.2 h.2 fun hmem => hfound (List.mem_cons_of_mem call hmem)).bind fun xs =>
        composed_return _

end BMLite
