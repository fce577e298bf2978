import BMLite.Commands

/-!
# What is taken from an answer

The functions of `bmlite_if.c` that give their caller a number or a block of bytes out of the
answer to a command.

* `answer_of_assertOut` — after an exchange that succeeded, the outcome is that of the code behind
  it;
* `scalar_own_iff` — **a number is taken from its own argument exactly when** that argument is
  long enough.
-/

set_option autoImplicit false

namespace BMLite

open FlatMemory Process

variable {α : Type}

/-- The exchange succeeded, and its answer is the packet of `cmd` and `args`. -/
def Exchange.Answers (x : Exchange) (cmd : Nat) (args : List CmdArg) : Prop :=
  x.com = FPC_BEP_RESULT_OK ∧ x.after.packet = encodePacket cmd args

theorem runs_assertOut {call : Hcp FpcBepResult} {out : α} {next : Hcp (FpcBepResult × α)}
    {c : HcpComm} {es : List HcpEvent} {y : (FpcBepResult × α) × HcpComm} :
    Runs ((assertOut call out next).run c) es y ↔ ∃ r c₁ es₁ es₂, es = es₁ ++ es₂ ∧
      Runs (call.run c) es₁ (r, c₁) ∧
      if r ≠ FPC_BEP_RESULT_OK then es₂ = [] ∧ ((r, out), c₁) = y
      else Runs (next.run c₁) es₂ y := by
  simp only [assertOut, StateT.run_bind]
  rw [runs_bind]
  constructor
  · rintro ⟨⟨r, c₁⟩, es₁, es₂, rfl, hcall, hrest⟩
    refine ⟨r, c₁, es₁, es₂, rfl, hcall, ?_⟩
    split at hrest <;> rename_i hr
    · rw [if_pos hr]
      exact runs_ret.1 hrest
    · rw [if_neg hr]
      exact hrest
  · rintro ⟨r, c₁, es₁, es₂, rfl, hcall, hrest⟩
    refine ⟨(r, c₁), es₁, es₂, rfl, hcall, ?_⟩
    split at hrest <;> rename_i hr
    · simp only [if_pos hr]
      exact runs_ret.2 hrest
    · simp only [if_neg hr]
      exact hrest

theorem withResult_size (c : HcpComm) : c.withResult.pktSize = c.pktSize := by
  unfold HcpComm.withResult
  split <;> rfl

theorem withResult_packet (c : HcpComm) : c.withResult.packet = c.packet := by
  unfold HcpComm.withResult
  split <;> rfl

theorem tranceive_size_le {c c' : HcpComm} {rounds : Nat} {es : List HcpEvent}
    (h : Runs ((bmliteTranceive rounds).run c) es (FPC_BEP_RESULT_OK, c')) :
    c'.pktSize ≤ 65535 := by
  rcases runs_tranceive.1 h with ⟨hr, -⟩ | ⟨es₁, es₂, c₁, c₂, rfl, -, hrecv, rfl⟩
  · exact absurd rfl hr
  · rw [withResult_size]
    exact Nat.le_of_lt_succ ((receive_loop_rounds rounds hrecv).size_lt rfl (by decide))

/-- **A command with an output**: after an exchange that succeeded, what is returned is what the
code behind it returns on its answer. -/
theorem answer_of_assertOut {rounds cmd argKey : Nat} (hkey : argKey < 65536) {out : α}
    {next : Hcp (FpcBepResult × α)} {c : HcpComm} {es : List HcpEvent} {x : Exchange}
    {y y' : (FpcBepResult × α) × HcpComm}
    (h : Runs ((assertOut (bmliteSendCmd rounds cmd argKey) out next).run c) es y)
    (hx : exchanges es = [x]) (hcom : x.com = FPC_BEP_RESULT_OK)
    (hnext : Returns (next.run x.after) y') :
    y = y' ∧ Runs ((bmliteSendCmd rounds cmd argKey).run c) es (FPC_BEP_RESULT_OK, x.after) := by
  obtain ⟨r, c₁, es₁, es₂, rfl, hcall, hrest⟩ := runs_assertOut.1 h
  rcases sendCmd_commanded hkey hcall with ⟨hnil, hr⟩ | ⟨x', hx', -, rfl, rfl⟩
  · rw [if_pos hr] at hrest
    obtain ⟨rfl, -⟩ := hrest
    rw [exchanges_append, hnil] at hx
    cases hx
  · rw [exchanges_append, hx'] at hx
    obtain ⟨rfl, -⟩ := List.cons.inj hx
    rw [if_neg (not_not.2 hcom)] at hrest
    obtain ⟨rfl, rfl⟩ := (hnext _ _).1 hrest
    rw [List.append_nil, ← hcom]
    exact ⟨rfl, hcall⟩

theorem sendCmd_size_le {rounds cmd argKey : Nat} {c c' : HcpComm} {es : List HcpEvent}
    (h : Runs ((bmliteSendCmd rounds cmd argKey).run c) es (FPC_BEP_RESULT_OK, c')) :
    c'.pktSize ≤ 65535 := by
  have hcases := runs_sendCmd.1 h
  split at hcases
  · exact absurd hcases.2.1 (by decide)
  · exact tranceive_size_le hcases

/-! ## Numbers -/

/-- `v` is the value of the first `n` bytes of the argument of type `t`, which has as many. -/
def OwnValue (args : List CmdArg) (t n : Nat) (dec : List Byte → α) (v : α) : Prop :=
  ∃ a, firstArg args t = some a ∧ n ≤ a.data.length ∧ v = dec (a.data.take n)

/-- The argument of type `t`, if there is one, has at least `n` bytes. -/
def LongEnough (args : List CmdArg) (t n : Nat) : Prop :=
  ∀ a, firstArg args t = some a → n ≤ a.data.length

/-- The value that is read, wherever the argument ends. -/
theorem findArg_value {c : HcpComm} {cmd t n : Nat} {args : List CmdArg}
    (h : c.packet = encodePacket cmd args) (hsize : c.pktSize ≤ 65535) {a : CmdArg}
    (ha : firstArg args t = some a) :
    ∃ b, c.findArg t = some b ∧
      (n ≤ a.data.length → slice c.pktBuffer b.data n = a.data.take n) := by
  have hfind := findArg_packet h hsize t
  rw [ha] at hfind
  obtain ⟨pre, post, -, -, hsome, hdata, -⟩ := hfind
  refine ⟨_, hsome, fun hn => ?_⟩
  rw [← slice_take _ _ hn, hdata]

theorem findArg_none {c : HcpComm} {cmd t : Nat} {args : List CmdArg}
    (h : c.packet = encodePacket cmd args) (hsize : c.pktSize ≤ 65535)
    (ha : firstArg args t = none) : c.findArg t = none := by
  have hfind := findArg_packet h hsize t
  rwa [ha] at hfind

/-- Search for an argument and read a number from where it begins. -/
theorem scalar_returns {read : Nat → Hcp α} {n : Nat} {dec : List Byte → α}
    (hread : ∀ off c, Returns ((read off).run c) (dec (slice c.pktBuffer off n), c)) (t : Nat)
    (out : α) (c : HcpComm) :
    Returns ((assertOut (bmliteGetArg t) out do
        let v ← read (← chainArg).data
        return (FPC_BEP_RESULT_OK, v)).run c)
      (match c.findArg t with
        | some a =>
          ((FPC_BEP_RESULT_OK, dec (slice c.pktBuffer a.data n)), { c with arg := some a })
        | none => ((FPC_BEP_RESULT_INVALID_ARGUMENT, out), c)) := by
  have hget := getArg_returns c t
  refine returns_of_runs ?_
  simp only [assertOut, StateT.run_bind]
  rw [hget.runs_bind]
  cases c.findArg t with
  | some a =>
    simp only [ne_eq, not_true_eq_false, if_false, StateT.run_bind]
    exact (hread _ _).runs_bind.2 (.refl _)
  | none => exact .refl _

/-- **A number is taken from its own argument exactly when** that argument is long enough. -/
theorem scalar_own_iff {rounds cmd argKey : Nat} (hkey : argKey < 65536) {read : Nat → Hcp α}
    {t n : Nat} {dec : List Byte → α} {out v : α}
    (hread : ∀ off c, Returns ((read off).run c) (dec (slice c.pktBuffer off n), c))
    {c c' : HcpComm} {es : List HcpEvent} {r : FpcBepResult} {x : Exchange}
    (h : Runs ((assertOut (bmliteSendCmd rounds cmd argKey) out <|
      assertOut (bmliteGetArg t) out do
        let v ← read (← chainArg).data
        return (FPC_BEP_RESULT_OK, v)).run c) es ((r, v), c'))
    (hx : exchanges es = [x]) {cmd' : Nat} {args : List CmdArg} (hans : x.Answers cmd' args) :
    (r = FPC_BEP_RESULT_OK → OwnValue args t n dec v) ↔ LongEnough args t n := by
  obtain ⟨heq, hcall⟩ := answer_of_assertOut hkey h hx hans.1 (scalar_returns hread t out x.after)
  have hsize := sendCmd_size_le hcall
  cases ha : firstArg args t with
  | none =>
    rw [findArg_none hans.2 hsize ha] at heq
    cases heq
    refine iff_of_true (fun hr => absurd hr (by decide)) fun a ha' => ?_
    rw [ha] at ha'
    cases ha'
  | some a =>
    obtain ⟨b, hb, hvalue⟩ := findArg_value (n := n) hans.2 hsize ha
    rw [hb] at heq
    cases heq
    constructor
    · intro hown a' ha'
      obtain ⟨a'', ha'', hlen, -⟩ := hown rfl
      rw [ha''] at ha'
      cases ha'
      exact hlen
    · intro hlong _
      exact ⟨a, ha, hlong a ha, congrArg dec (hvalue (hlong a ha))⟩

/-- The result of the device, likewise. -/
theorem result_own_iff {rounds : Nat} {c c' : HcpComm} {es : List HcpEvent}
    (h : Runs ((bmliteTranceive rounds).run c) es (FPC_BEP_RESULT_OK, c')) {cmd : Nat}
    {args : List CmdArg} (hpkt : c'.packet = encodePacket cmd args) :
    (∀ a, firstArg args ARG_RESULT = some a →
      OwnValue args ARG_RESULT 1 resultOfByte c'.bepResult) ↔ LongEnough args ARG_RESULT 1 := by
  have hsize := tranceive_size_le h
  rcases runs_tranceive.1 h with ⟨hr, -⟩ | ⟨es₁, es₂, c₁, c₂, -, -, -, rfl⟩
  · exact absurd rfl hr
  rw [withResult_size] at hsize
  rw [withResult_packet] at hpkt
  constructor
  · intro hown a ha
    obtain ⟨a', ha', hlen, -⟩ := hown a ha
    rw [ha'] at ha
    cases ha
    exact hlen
  · intro hlong a ha
    obtain ⟨b, hb, hvalue⟩ := findArg_value (n := 1) hpkt hsize ha
    rw [withResult_of_some hb]
    exact ⟨a, ha, hlong a ha, congrArg resultOfByte (hvalue (hlong a ha))⟩

theorem load16_returns (off : Nat) (c : HcpComm) :
    Returns ((load16 .pkt off).run c) (dec16 (slice c.pktBuffer off 2), c) :=
  returns_of_runs (.touch (.refl _))

theorem load32_returns (off : Nat) (c : HcpComm) :
    Returns ((load32 .pkt off).run c) (dec32 (slice c.pktBuffer off 4), c) :=
  returns_of_runs (.touch (.refl _))

/-- **Numbers are taken from their own arguments, exactly when** these are long enough: the size of
an image, the count of the templates and the result of every command. -/
theorem own_values_iff {rounds : Nat} {c c' : HcpComm} {es : List HcpEvent} {r : FpcBepResult}
    {cmd : Nat} {args : List CmdArg} :
    (∀ (size v : BitVec 32) (x : Exchange),
      Runs ((bepImageGetSize rounds size).run c) es ((r, v), c') → exchanges es = [x] →
      x.Answers cmd args →
      ((r = FPC_BEP_RESULT_OK → OwnValue args ARG_SIZE 4 dec32 v) ↔ LongEnough args ARG_SIZE 4)) ∧
    (∀ (count v : Nat) (x : Exchange),
      Runs ((bepTemplateGetCount rounds count).run c) es ((r, v), c') → exchanges es = [x] →
      x.Answers cmd args →
      ((r = FPC_BEP_RESULT_OK → OwnValue args ARG_COUNT 2 dec16 v) ↔
        LongEnough args ARG_COUNT 2)) ∧
    (Runs ((bmliteTranceive rounds).run c) es (FPC_BEP_RESULT_OK, c') →
      c'.packet = encodePacket cmd args →
      ((∀ a, firstArg args ARG_RESULT = some a →
        OwnValue args ARG_RESULT 1 resultOfByte c'.bepResult) ↔ LongEnough args ARG_RESULT 1)) := by
  refine ⟨fun size v x h hx hans => ?_, fun count v x h hx hans => ?_,
    fun h hpkt => result_own_iff h hpkt⟩
  · unfold bepImageGetSize at h
    exact scalar_own_iff (by decide) load32_returns h hx hans
  · unfold bepTemplateGetCount at h
    exact scalar_own_iff (by decide) load16_returns h hx hans

/-- A command with an output that is answered with `args`. -/
theorem assertOut_answered {rounds cmd argKey : Nat} (hkey : argKey < 65536) (out : α)
    (next : Hcp (FpcBepResult × α)) (cmd' : Nat) (args : List CmdArg)
    (harr : Receivable (encodePacket cmd' args) rounds hcpChain.pktSizeMax)
    (hres : ∀ a ∈ args, a.type = ARG_RESULT → a.data ≠ []) :
    ∃ es x, exchanges es = [x] ∧ x.Answers cmd' args ∧ x.after.pktSize ≤ 65535 ∧
      ∀ y, Returns (next.run x.after) y →
        Runs ((assertOut (bmliteSendCmd rounds cmd argKey) out next).run hcpChain) es y := by
  obtain ⟨es, x, hrun, hx, -, hcom, hans⟩ := sendCmd_receivable cmd hkey cmd' args harr (by decide)
    hres
  refine ⟨es, x, hx, ⟨hcom, hans.packet_eq⟩, hans.size_le, fun y hnext => ?_⟩
  refine runs_assertOut.2 ⟨_, x.after, es, [], (List.append_nil es).symm, hrun, ?_⟩
  rw [if_neg (not_not.2 rfl)]
  exact (hnext _ _).2 ⟨rfl, rfl⟩

/-- A request for the size of an image, answered with an `ARG_SIZE` of the bytes `d`. -/
theorem imageGetSize_answered (a : CmdArg) (ha : a.type = ARG_SIZE) (hd : a.data.length ≤ 4) :
    ∃ es x v c', Runs ((bepImageGetSize 2 0).run hcpChain) es ((FPC_BEP_RESULT_OK, v), c') ∧
      exchanges es = [x] ∧ x.Answers CMD_IMAGE [a] := by
  have hfirst : firstArg [a] ARG_SIZE = some a := by simp [firstArg, ha]
  obtain ⟨es, x, hx, hans, hsize, hrun⟩ := assertOut_answered (by decide : ARG_SIZE < 65536)
    (0 : BitVec 32) _ CMD_IMAGE [a]
    (receivable_single (Nat.le_refl 2) (by rw [encodePacket_length]; simp [APP_MTU, MTU]; omega)
      (by decide))
    (by simp [ha, ARG_SIZE, ARG_RESULT])
  obtain ⟨b, hb, -⟩ := findArg_value (n := 0) hans.2 hsize hfirst
  have hnext := scalar_returns load32_returns ARG_SIZE 0 x.after
  rw [hb] at hnext
  exact ⟨es, x, _, _, hrun _ hnext, hx, hans⟩

/-- An image of 25600 bytes. -/
theorem own_values_image : ∃ es v c',
    Runs ((bepImageGetSize 2 0).run hcpChain) es ((FPC_BEP_RESULT_OK, v), c') ∧
      v = 25600 := by
  let a : CmdArg := ⟨ARG_SIZE, [0x00, 0x64, 0x00, 0x00], by decide, by decide⟩
  obtain ⟨es, x, v, c', hrun, hx, hans⟩ := imageGetSize_answered a rfl (Nat.le_refl 4)
  obtain ⟨b, hb, -, hv⟩ := (own_values_iff.1 0 v x hrun hx hans).2
    (fun b hb => by cases hb; exact Nat.le_refl 4) rfl
  cases hb
  exact ⟨es, v, c', hrun, hv⟩

/-- **An empty `ARG_SIZE` is read as a size**, from the four bytes behind it. -/
theorem own_values_short : ∃ es x v c' args,
    Runs ((bepImageGetSize 2 0).run hcpChain) es ((FPC_BEP_RESULT_OK, v), c') ∧
      exchanges es = [x] ∧ x.Answers CMD_IMAGE args ∧ ¬ OwnValue args ARG_SIZE 4 dec32 v := by
  let a : CmdArg := .flag ARG_SIZE (by decide)
  obtain ⟨es, x, v, c', hrun, hx, hans⟩ := imageGetSize_answered a rfl (Nat.zero_le 4)
  refine ⟨es, x, v, c', [a], hrun, hx, hans, ?_⟩
  rintro ⟨b, hb, hlen, -⟩
  cases hb
  exact absurd hlen (by decide)

end BMLite
