import BMLite.Answers

/-!
# Bulk transfers

`bep_image_put` sends a block of bytes; `bep_image_get` and `bep_template_get` copy one out of an
answer.  All three take a size of 32 bits, which is cut to 16 on the way.

* `copyArg_returns` — all that `bmlite_copy_arg` does;
* `puts_exactly_iff`, `gets_exactly_iff` — the block arrives whole exactly when its size has
  16 bits, or the cut does not matter;
* `bulk_exact_iff` — both together.
-/

set_option autoImplicit false

namespace BMLite

open FlatMemory Process

/-! ## Sending a block -/

/-- Whenever `bep_image_put` returns OK, the packet that it has built carries all of `data`. -/
def PutsExactly (c : HcpComm) (data : List Byte) : Prop :=
  ∀ rounds es c', Runs ((bepImagePut rounds data data.length).run c) es (FPC_BEP_RESULT_OK, c') →
    ∃ (x : Exchange) (h : data.length < 65536), exchanges es = [x] ∧
      x.Requests CMD_IMAGE [.flag ARG_DOWNLOAD (by decide), ⟨ARG_DATA, data, by decide, h⟩]

/-- The chain with the request of `bep_image_put`. -/
def HcpComm.putRequest (c : HcpComm) (data : List Byte) : HcpComm :=
  (c.prepare CMD_IMAGE ARG_DOWNLOAD).addArg ARG_DATA data (data.length % 65536)

/-- The request has one argument for the key and one for the block, which is cut to the size that
is left of its own. -/
theorem putRequest_packet (c : HcpComm) (data : List Byte) :
    (c.putRequest data).packet = encodePacket CMD_IMAGE [.flag ARG_DOWNLOAD (by decide),
      ⟨ARG_DATA, data.take (data.length % 65536), by decide, by simp; omega⟩] := by
  have hprep := prepare_packet c CMD_IMAGE (by decide : ARG_DOWNLOAD < 65536)
  have hsize := prepare_size_le c CMD_IMAGE ARG_DOWNLOAD
  have hlen : (data.take (data.length % 65536)).length = data.length % 65536 := by
    rw [List.length_take, Nat.min_eq_left (Nat.mod_le ..)]
  have hcut : c.putRequest data = (c.prepare CMD_IMAGE ARG_DOWNLOAD).addArg ARG_DATA
      (data.take (data.length % 65536)) (data.take (data.length % 65536)).length := by
    rw [HcpComm.putRequest, HcpComm.addArg, HcpComm.addArg, List.take_length, hlen]
  rw [hcut]
  exact addArg_packet_of_lt (a := ⟨ARG_DATA, data.take (data.length % 65536), by decide,
    by rw [hlen]; exact Nat.mod_lt _ (by decide)⟩) hprep (by decide)
    (by show _ + (data.take (data.length % 65536)).length < _; omega)

/-- **`bep_image_put`** exchanges its request, or the request does not fit. -/
theorem runs_imagePut {rounds : Nat} {data : List Byte} {c c' : HcpComm} {es : List HcpEvent}
    {r : FpcBepResult} :
    Runs ((bepImagePut rounds data data.length).run c) es (r, c') ↔
      if c.pktSizeMax < 8 then
        es = [] ∧ r = FPC_BEP_RESULT_NO_MEMORY ∧ c' = c.initCmd CMD_IMAGE
      else if c.pktSizeMax < 12 + data.length % 65536 then
        es = [] ∧ r = FPC_BEP_RESULT_NO_MEMORY ∧ c' = c.prepare CMD_IMAGE ARG_DOWNLOAD
      else Runs ((bmliteTranceive rounds).run (c.putRequest data)) es (r, c') := by
  have hsize : (c.prepare CMD_IMAGE ARG_DOWNLOAD).pktSize = 8 := by
    rw [packet_size (prepare_packet c CMD_IMAGE (by decide : ARG_DOWNLOAD < 65536))]
    rfl
  unfold bepImagePut
  rw [runs_sendCmdArg (Nat.mod_lt _ (by decide)), hsize]
  simp only [show ARG_DOWNLOAD ≠ ARG_NONE by decide, ne_eq, not_false_eq_true, true_and, gt_iff_lt,
    show 8 + 4 + data.length % 65536 = 12 + data.length % 65536 by omega]
  rfl

/-- **An image is sent whole exactly when** its size has 16 bits, or what is left of the size does
not fit the packet buffer either. -/
theorem puts_exactly_iff (c : HcpComm) (data : List Byte) :
    PutsExactly c data ↔ data.length < 65536 ∨ c.pktSizeMax < 12 + data.length % 65536 := by
  constructor
  · intro hputs
    by_cases hfit : c.pktSizeMax < 12 + data.length % 65536
    · exact .inr hfit
    left
    have hanswer : (encodePacket CMD_IMAGE []).length < (c.putRequest data).pktSizeMax := by
      rw [show (c.putRequest data).pktSizeMax = c.pktSizeMax from prepare_max_eq ..,
        encodePacket_length, encodeArgs_nil, List.length_nil]
      omega
    obtain ⟨es, c', hrun, -⟩ := tranceive_answered
      (receivable_segments (by decide) (Nat.le_refl 2) hanswer) (by simp)
    obtain ⟨x, hlt, -⟩ := hputs 2 es c' (runs_imagePut.2 (by
      rw [if_neg (by omega), if_neg hfit]
      exact hrun))
    exact hlt
  · intro hor rounds es c' hrun
    have hcases := runs_imagePut.1 hrun
    split at hcases
    · exact absurd hcases.2.1 (by decide)
    split at hcases <;> rename_i hfit
    · exact absurd hcases.2.1 (by decide)
    have hlt : data.length < 65536 := hor.resolve_right hfit
    refine ⟨_, hlt, exchanges_tranceive hcases, ?_⟩
    have hpkt := putRequest_packet c data
    simp only [Nat.mod_eq_of_lt hlt, List.take_length] at hpkt
    exact hpkt

/-! ## Receiving a block -/

/-- **`bmlite_copy_arg`** copies as much of the argument as there is room for. -/
theorem copyArg_returns (t : Nat) (dest : Option (Mem Byte)) (n : Nat) (c : HcpComm) :
    Returns ((bmliteCopyArg t dest n).run c) (match c.findArg t with
      | none => ((FPC_BEP_RESULT_INVALID_ARGUMENT, dest), c)
      | some a => (match dest with
          | none => (FPC_BEP_RESULT_NO_MEMORY, none)
          | some m =>
            (FPC_BEP_RESULT_OK, some (blit m 0 (slice c.pktBuffer a.data (min n a.size)))),
        { c with arg := some a })) := by
  have hget := getArg_returns c t
  refine returns_of_runs ?_
  simp only [bmliteCopyArg, StateT.run_bind]
  rw [hget.runs_bind]
  cases c.findArg t with
  | none => exact .touch (.refl _)
  | some a =>
    simp only [if_true]
    cases dest with
    | none => exact .touch (.refl _)
    | some m => exact .touch (.refl _)

/-- Whenever the call returns OK, as many of the leading bytes of `d` as there is room for lie at
the caller's pointer, nothing behind them has changed, and `arg.size` is the length of `d`. -/
def GetsExactly (get : Option (Mem Byte) → Nat → Hcp (FpcBepResult × Option (Mem Byte)))
    (c : HcpComm) (es : List HcpEvent) (size : Nat) (d : List Byte) : Prop :=
  ∀ m dest c', Runs ((get (some m) size).run c) es ((FPC_BEP_RESULT_OK, dest), c') →
    dest = some (blit m 0 (d.take (min size d.length))) ∧
      ∃ a, c'.arg = some a ∧ a.size = d.length

/-- A block does not lie in every memory already. -/
theorem blit_take_eq {d : List Byte} {k n : Nat} (hn : n ≤ d.length)
    (h : ∀ m : Mem Byte, blit m 0 (d.take k) = blit m 0 (d.take n)) : n ≤ k := by
  by_contra hlt
  obtain ⟨b, hb⟩ : ∃ b, d[k]? = some b := ⟨_, List.getElem?_eq_getElem (by omega)⟩
  have heq := congrFun (h fun _ => b + 1) k
  have hlen : (d.take k).length = k := by rw [List.length_take]; omega
  have hk : k < (d.take n).length := by rw [List.length_take]; omega
  rw [blit_of_ge _ _ (by omega)] at heq
  have hget := blit_add (fun _ => b + 1) 0 (d.take n) hk
  rw [Nat.zero_add] at hget
  rw [hget, List.getElem_take] at heq
  have hdk : d[k] = b := by simpa [List.getElem?_eq_getElem (show k < d.length by omega)] using hb
  rw [hdk] at heq
  exact absurd heq (by simp)

/-- The function that `bep_image_get` and `bep_template_get` both are, with their own command. -/
def bulkGet (rounds cmd : Nat) (data : Option (Mem Byte)) (size : Nat) :
    Hcp (FpcBepResult × Option (Mem Byte)) :=
  assertOut (bmliteSendCmd rounds cmd ARG_UPLOAD) data <| bmliteCopyArg ARG_DATA data (size % 65536)

/-- What a call makes of an answer that carries a block. -/
theorem bulkGet_answer {rounds cmd size : Nat} {c : HcpComm} {es : List HcpEvent} {x : Exchange}
    {dest : Option (Mem Byte)} {y : (FpcBepResult × Option (Mem Byte)) × HcpComm}
    (h : Runs ((bulkGet rounds cmd dest size).run c) es y) (hx : exchanges es = [x]) {cmd' : Nat}
    {args : List CmdArg} (hans : x.Answers cmd' args) {a : CmdArg}
    (ha : firstArg args ARG_DATA = some a) (m : Mem Byte) :
    ∃ c', (∃ b, c'.arg = some b ∧ b.size = a.data.length) ∧
      ∀ y, Runs ((bulkGet rounds cmd (some m) size).run c) es y ↔
        y = ((FPC_BEP_RESULT_OK, some (blit m 0 (a.data.take (min (size % 65536) a.data.length)))),
          c') := by
  obtain ⟨-, hcall⟩ := answer_of_assertOut (by decide) h hx hans.1 (copyArg_returns _ _ _ _)
  have hfind := findArg_packet hans.2 (sendCmd_size_le hcall) ARG_DATA
  rw [ha] at hfind
  obtain ⟨pre, post, -, -, hsome, hdata, -⟩ := hfind
  have hnext := copyArg_returns ARG_DATA (some m) (size % 65536) x.after
  rw [hsome] at hnext
  simp only at hnext
  rw [← slice_take _ _ (Nat.min_le_right ..), hdata] at hnext
  refine ⟨{ x.after with arg := some ⟨a.data.length, 4 + (encodeArgs pre).length + 4⟩ },
    ⟨_, rfl, rfl⟩, fun y => ⟨fun hy => ?_, ?_⟩⟩
  · exact (answer_of_assertOut (by decide) hy hx hans.1 hnext).1
  · rintro rfl
    refine runs_assertOut.2 ⟨_, x.after, es, [], (List.append_nil es).symm, hcall, ?_⟩
    rw [if_neg (not_not.2 rfl)]
    exact (hnext _ _).2 ⟨rfl, rfl⟩

/-- **A block is received whole exactly when** the size of the caller's memory has 16 bits, or what
is left of the size is enough for the block. -/
theorem gets_exactly_iff {rounds cmd size : Nat} {c : HcpComm} {es : List HcpEvent} {x : Exchange}
    {dest : Option (Mem Byte)} {y : (FpcBepResult × Option (Mem Byte)) × HcpComm}
    (h : Runs ((bulkGet rounds cmd dest size).run c) es y) (hx : exchanges es = [x]) {cmd' : Nat}
    {args : List CmdArg} (hans : x.Answers cmd' args) {a : CmdArg}
    (ha : firstArg args ARG_DATA = some a) :
    GetsExactly (bulkGet rounds cmd) c es size a.data ↔
      size < 65536 ∨ a.data.length ≤ size % 65536 := by
  have hlt := a.size_lt
  have hanswer := bulkGet_answer h hx hans ha
  constructor
  · intro hgets
    by_contra hno
    have hle : min size a.data.length ≤ min (size % 65536) a.data.length :=
      blit_take_eq (Nat.min_le_right ..) fun m => by
        obtain ⟨c', -, hruns⟩ := hanswer m
        exact Option.some.inj (hgets m _ c' ((hruns _).2 rfl)).1
    omega
  · intro hor m dest' c' hrun
    obtain ⟨c'', hsize, hruns⟩ := hanswer m
    have hmin : min (size % 65536) a.data.length = min size a.data.length := by omega
    rw [hmin] at hruns
    cases (hruns _).1 hrun
    exact ⟨rfl, hsize⟩

/-! ## Both -/

/-- **Bulk transfers are exact if and only if** their sizes survive the cut to 16 bits. -/
theorem bulk_exact_iff (c : HcpComm) :
    (∀ data : List Byte, data.length < 2 ^ 32 →
      (PutsExactly c data ↔ data.length < 65536 ∨ c.pktSizeMax < 12 + data.length % 65536)) ∧
    ∀ get ∈ [bepImageGet, bepTemplateGet], ∀ (rounds size : Nat) (data : Option (Mem Byte))
      (es : List HcpEvent) (y : (FpcBepResult × Option (Mem Byte)) × HcpComm)
      (x : Exchange) (cmd : Nat) (args : List CmdArg) (a : CmdArg), size < 2 ^ 32 →
      Runs ((get rounds data size).run c) es y → exchanges es = [x] → x.Answers cmd args →
      firstArg args ARG_DATA = some a →
      (GetsExactly (get rounds) c es size a.data ↔
        size < 65536 ∨ a.data.length ≤ size % 65536) := by
  refine ⟨fun data _ => puts_exactly_iff c data, ?_⟩
  intro get hget rounds size data es y x cmd args a _ h hx hans ha
  simp only [List.mem_cons, List.not_mem_nil, or_false] at hget
  rcases hget with rfl | rfl
  · exact @gets_exactly_iff rounds CMD_IMAGE _ _ _ _ _ _ h hx _ _ hans _ ha
  · exact @gets_exactly_iff rounds CMD_TEMPLATE _ _ _ _ _ _ h hx _ _ hans _ ha

/-- An image of `n` bytes, in an answer. -/
theorem imageGet_answered {n rounds : Nat} (h : n < 5000) (hrounds : (n + 8) / APP_MTU + 1 < rounds)
    (dest : Option (Mem Byte)) (size : Nat) : ∃ a es x y,
      a.data = (countingChain n).packet ∧ firstArg [a] ARG_DATA = some a ∧ exchanges es = [x] ∧
      x.Answers CMD_IMAGE [a] ∧ Runs ((bepImageGet rounds dest size).run hcpChain) es y := by
  have hdata : (countingChain n).packet.length < 65536 := countingChain_lt (by omega)
  let a : CmdArg := ⟨ARG_DATA, (countingChain n).packet, by decide, hdata⟩
  have hlen : (encodePacket CMD_IMAGE [a]).length = n + 8 := by
    rw [encodePacket_length]
    simp [a]
    omega
  obtain ⟨es, x, hx, hans, -, hrun⟩ := assertOut_answered (by decide : ARG_UPLOAD < 65536) dest
    (bmliteCopyArg ARG_DATA dest (size % 65536)) CMD_IMAGE [a]
    (receivable_segments (by omega) (by rwa [hlen]) (by rw [hlen]; show _ < 5120; omega))
    (by simp [a, ARG_DATA, ARG_RESULT])
  exact ⟨a, es, x, _, rfl, by simp [firstArg, a], hx, hans,
    hrun _ (copyArg_returns ARG_DATA dest _ _)⟩

/-- 600 bytes are sent in three frames, and received out of three. -/
theorem bulk_exact_image : PutsExactly hcpChain (countingChain 600).packet ∧
    ∃ a es x, a.data = (countingChain 600).packet ∧ exchanges es = [x] ∧
      x.Answers CMD_IMAGE [a] ∧ GetsExactly (bepImageGet 4) hcpChain es 600 a.data := by
  obtain ⟨a, es, x, y, hdata, ha, hx, hans, hrun⟩ :=
    imageGet_answered (n := 600) (by decide) (by decide : _ < 4) (some fun _ => 0) 600
  have hlen := countingChain_length 600
  refine ⟨((bulk_exact_iff hcpChain).1 _ (by rw [hlen]; decide)).2 (.inl (by rw [hlen]; decide)),
    a, es, x, hdata, hx, hans, ?_⟩
  exact ((bulk_exact_iff hcpChain).2 bepImageGet (by simp) 4 600 _ es y x CMD_IMAGE [a] a
    (by decide) hrun hx hans ha).2 (.inl (by decide))

/-- **65536 bytes are sent as none**, and where there is room for 65536, none are received. -/
theorem bulk_cut : ¬ PutsExactly hcpChain (List.replicate 65536 0) ∧
    ∃ a es x, a.data.length = 1 ∧ exchanges es = [x] ∧ x.Answers CMD_IMAGE [a] ∧
      ¬ GetsExactly (bepImageGet 2) hcpChain es 65536 a.data := by
  obtain ⟨a, es, x, y, hdata, ha, hx, hans, hrun⟩ :=
    imageGet_answered (n := 1) (by decide) (by decide : _ < 2) (some fun _ => 0) 65536
  have hlen : a.data.length = 1 := by rw [hdata, countingChain_length]
  refine ⟨fun hputs => ?_, a, es, x, hlen, hx, hans, fun hgets => ?_⟩
  · rw [puts_exactly_iff, List.length_replicate] at hputs
    exact absurd hputs (by decide)
  · have hiff := (@gets_exactly_iff 2 CMD_IMAGE _ _ _ _ _ _ hrun hx _ _ hans _ ha).1 hgets
    rw [hlen] at hiff
    exact absurd hiff (by decide)

end BMLite
