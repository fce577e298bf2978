import BMLite.Receive
import BMLite.Lib.Stream

/-!
# Exchanges

A command is built, sent, and its response received and searched for `ARG_RESULT`.

* `runs_tranceive` — all that `bmlite_tranceive` can do;
* `runs_sendCmd`, `runs_sendCmdArg` — `bmlite_send_cmd` and `bmlite_send_cmd_arg` exchange their
  packet, or reject an argument and exchange nothing;
* `exchange_well_formed` — **a whole exchange on well-formed traffic**.
-/

set_option autoImplicit false

namespace BMLite

open FlatMemory Process

/-! ## One exchange -/

/-- The chain after the search for `ARG_RESULT`. -/
def HcpComm.withResult (c : HcpComm) : HcpComm :=
  match c.findArg ARG_RESULT with
  | some a => { c with arg := some a, bepResult := resultOfByte (slice c.pktBuffer a.data 1) }
  | none => { c with bepResult := FPC_BEP_RESULT_OK }

theorem withResult_of_some {c : HcpComm} {a : HcpArg} (h : c.findArg ARG_RESULT = some a) :
    c.withResult =
      { c with arg := some a, bepResult := resultOfByte (slice c.pktBuffer a.data 1) } := by
  rw [HcpComm.withResult, h]

theorem withResult_of_none {c : HcpComm} (h : c.findArg ARG_RESULT = none) :
    c.withResult = { c with bepResult := FPC_BEP_RESULT_OK } := by
  rw [HcpComm.withResult, h]

theorem runs_result {c c' : HcpComm} {before : HcpComm} {es : List HcpEvent} {com r : FpcBepResult} :
    Runs ((do
        if (← bmliteGetArg ARG_RESULT) = FPC_BEP_RESULT_OK then
          let data ← load .pkt (← chainArg).data 1
          modify fun c => { c with bepResult := resultOfByte data }
        else
          modify fun c => { c with bepResult := FPC_BEP_RESULT_OK }
        noteExchange before com
        return com : Hcp FpcBepResult).run c) es (r, c') ↔
      es = [.note ⟨before, com, c.withResult⟩] ∧ r = com ∧ c' = c.withResult := by
  have hget := getArg_returns c ARG_RESULT
  simp only [StateT.run_bind]
  rw [hget.runs_bind]
  unfold HcpComm.withResult
  cases c.findArg ARG_RESULT with
  | some a =>
    simp [StateT.run_bind, StateT.run_modify, FPC_BEP_RESULT_OK, eq_comm]
  | none =>
    simp [StateT.run_bind, StateT.run_modify, FPC_BEP_RESULT_OK, FPC_BEP_RESULT_INVALID_ARGUMENT,
      eq_comm]

/-- **`bmlite_tranceive`** sends, and on success receives and takes the result from the packet,
whatever the reception returned. -/
theorem runs_tranceive {c c' : HcpComm} {rounds : Nat} {es : List HcpEvent} {r : FpcBepResult} :
    Runs ((bmliteTranceive rounds).run c) es (r, c') ↔
      (r ≠ FPC_BEP_RESULT_OK ∧ ∃ es₁, es = es₁ ++ [.note ⟨c, r, c'⟩] ∧
        Runs (bmliteSend.run c) es₁ (r, c')) ∨
      ∃ es₁ es₂ c₁ c₂, es = es₁ ++ es₂ ++ [.note ⟨c, r, c'⟩] ∧
        Runs (bmliteSend.run c) es₁ (FPC_BEP_RESULT_OK, c₁) ∧
        Runs ((bmliteReceive rounds).run c₁) es₂ (r, c₂) ∧ c' = c₂.withResult := by
  simp only [bmliteTranceive, StateT.run_bind, StateT.run_get, pure_eq, ret_bind]
  rw [runs_bind]
  constructor
  · rintro ⟨⟨r₁, c₁⟩, es₁, es', rfl, hsend, h⟩
    by_cases hr : r₁ = FPC_BEP_RESULT_OK
    · subst hr
      simp only [if_true, StateT.run_bind] at h
      obtain ⟨⟨r₂, c₂⟩, es₂, es₃, rfl, hrecv, h⟩ := runs_bind.1 h
      obtain ⟨rfl, rfl, rfl⟩ := runs_result.1 h
      exact .inr ⟨es₁, es₂, c₁, c₂, by simp, hsend, hrecv, rfl⟩
    · simp only [hr, if_false] at h
      obtain ⟨fs, rfl, hret⟩ := runs_note.1 h
      obtain ⟨rfl, ⟨⟩⟩ := runs_ret.1 hret
      exact .inl ⟨hr, es₁, rfl, hsend⟩
  · rintro (⟨hr, es₁, rfl, hsend⟩ | ⟨es₁, es₂, c₁, c₂, rfl, hsend, hrecv, rfl⟩)
    · refine ⟨_, es₁, _, rfl, hsend, ?_⟩
      simp only [hr, if_false]
      exact runs_note.2 ⟨[], rfl, .refl _⟩
    · refine ⟨_, es₁, es₂ ++ [.note ⟨c, r, c₂.withResult⟩], by simp, hsend, ?_⟩
      simp only [if_true, StateT.run_bind]
      exact runs_bind.2 ⟨_, es₂, _, rfl, hrecv, runs_result.2 ⟨rfl, rfl, rfl⟩⟩

theorem withResult_max (c : HcpComm) : c.withResult.pktSizeMax = c.pktSizeMax := by
  unfold HcpComm.withResult
  split <;> rfl

theorem tranceive_max {c c' : HcpComm} {rounds : Nat} {es : List HcpEvent} {r : FpcBepResult}
    (h : Runs ((bmliteTranceive rounds).run c) es (r, c')) : c'.pktSizeMax = c.pktSizeMax := by
  rcases runs_tranceive.1 h with ⟨-, es₁, rfl, hsend⟩ | ⟨es₁, es₂, c₁, c₂, rfl, hsend, hrecv, rfl⟩
  · obtain ⟨⟨t, rfl⟩, -⟩ := runs_send_cases hsend
    rfl
  · obtain ⟨⟨t, rfl⟩, -⟩ := runs_send_cases hsend
    have hmax := (receive_loop_rounds rounds hrecv).max_eq
    rw [withResult_max]
    exact hmax

/-- An exchange whose frames are all acknowledged, and whose response arrives and fits. -/
theorem tranceive_complete {c : HcpComm} {rounds : Nat} {cs : List Chunk} {es₁ es₂ : List HcpEvent}
    (hsent : Sent ((segments c.outgoing (outgoing_length_lt c)).map Chunk.bytes) es₁
      FPC_BEP_RESULT_OK) (harrive : Arrive c.phyRxTimeout cs es₂) (hcs : Complete cs)
    (hrounds : cs.length < rounds) (hmax : (reassemble cs).length < c.pktSizeMax)
    (hlt : (reassemble cs).length < 65536) :
    ∃ t x, x = (c.holding t (reassemble cs)).withResult ∧
      Runs ((bmliteTranceive rounds).run c) (es₁ ++ es₂ ++ [.note ⟨c, FPC_BEP_RESULT_OK, x⟩])
        (FPC_BEP_RESULT_OK, x) := by
  obtain ⟨t₀, hsend⟩ := runs_send.1.2 hsent
  obtain ⟨t, hrecv⟩ := receive_complete (c := { c with txrxBuffer := t₀ }) harrive hcs hrounds
    hmax hlt
  exact ⟨t, _, rfl, runs_tranceive.2 (.inr ⟨es₁, es₂, _, _, rfl, hsend, hrecv, rfl⟩)⟩

/-! ## One command -/

/-- **`bmlite_send_cmd`** exchanges its packet, or rejects its key. -/
theorem runs_sendCmd {c c' : HcpComm} {rounds cmd argKey : Nat} {es : List HcpEvent}
    {r : FpcBepResult} :
    Runs ((bmliteSendCmd rounds cmd argKey).run c) es (r, c') ↔
      if argKey ≠ ARG_NONE ∧ c.pktSizeMax < 8 then
        es = [] ∧ r = FPC_BEP_RESULT_NO_MEMORY ∧ c' = c.initCmd cmd
      else Runs ((bmliteTranceive rounds).run (c.prepare cmd argKey)) es (r, c') := by
  have hinit := runs_initCmd c cmd argKey
  simp only [bmliteSendCmd, assertOk, StateT.run_bind]
  rw [hinit.runs_bind]
  by_cases hmax : argKey ≠ ARG_NONE ∧ c.pktSizeMax < 8
  · rw [if_pos hmax, if_pos hmax]
    simp [FPC_BEP_RESULT_OK, FPC_BEP_RESULT_NO_MEMORY, eq_comm]
  · rw [if_neg hmax, if_neg hmax]
    simp

/-- **`bmlite_send_cmd_arg`** exchanges its packet, or rejects one of its arguments. -/
theorem runs_sendCmdArg {c c' : HcpComm} {rounds cmd argKey t n : Nat} {d : List Byte}
    {es : List HcpEvent} {r : FpcBepResult} (hn : n < 65536) :
    Runs ((bmliteSendCmdArg rounds cmd argKey t d n).run c) es (r, c') ↔
      if argKey ≠ ARG_NONE ∧ c.pktSizeMax < 8 then
        es = [] ∧ r = FPC_BEP_RESULT_NO_MEMORY ∧ c' = c.initCmd cmd
      else if (c.prepare cmd argKey).pktSize + 4 + n > c.pktSizeMax then
        es = [] ∧ r = FPC_BEP_RESULT_NO_MEMORY ∧ c' = c.prepare cmd argKey
      else
        Runs ((bmliteTranceive rounds).run ((c.prepare cmd argKey).addArg t d n)) es (r, c') := by
  have hinit := runs_initCmd c cmd argKey
  have hsize := prepare_size_le c cmd argKey
  have hadd := runs_addArg (c := c.prepare cmd argKey) (t := t) (n := n) (d := d)
  rw [Nat.mod_eq_of_lt (by omega), prepare_max_eq] at hadd
  simp only [bmliteSendCmdArg, assertOk, StateT.run_bind]
  rw [hinit.runs_bind]
  by_cases hmax : argKey ≠ ARG_NONE ∧ c.pktSizeMax < 8
  · rw [if_pos hmax, if_pos hmax]
    simp [FPC_BEP_RESULT_OK, FPC_BEP_RESULT_NO_MEMORY, eq_comm]
  · rw [if_neg hmax, if_neg hmax]
    simp only [ne_eq, not_true_eq_false, if_false, StateT.run_bind]
    rw [hadd.runs_bind]
    by_cases hfit : (c.prepare cmd argKey).pktSize + 4 + n > c.pktSizeMax
    · rw [if_pos hfit, if_pos hfit]
      simp [FPC_BEP_RESULT_OK, FPC_BEP_RESULT_NO_MEMORY, eq_comm]
    · rw [if_neg hfit, if_neg hfit]
      simp

/-! ## Well-formed traffic -/

variable {src : Mem Byte} (res : Nat → FpcBepResult)

/-- The stream acknowledges every frame. -/
theorem sent_stream (fs : List (List Byte)) (s : Stream Byte)
    (h : Holds src s.pos (List.replicate fs.length fpcComAck).flatten) :
    ∃ es, Sent fs es FPC_BEP_RESULT_OK ∧ (streamEnv src FPC_BEP_RESULT_OK res).Answers s es
      ⟨s.pos + 4 * fs.length, s.sent ++ fs⟩ := by
  induction fs generalizing s with
  | nil => exact ⟨[], .done, by simp [Env.Answers]⟩
  | cons f fs ih =>
    rw [List.length_cons, List.replicate_succ, List.flatten_cons, holds_append] at h
    obtain ⟨es, hsent, hans⟩ := ih ⟨s.pos + 4, s.sent ++ [f]⟩ h.2
    refine ⟨_, .next (by decide : ackResult FPC_BEP_RESULT_OK (fpcComAck.take 4) = _) hsent,
      answers_write.2 ⟨rfl, answers_read_of_holds h.1 rfl ?_⟩⟩
    rw [List.length_cons, Nat.mul_succ, Nat.add_comm (4 * _), ← Nat.add_assoc]
    simpa using hans

/-- The stream delivers chunks. -/
theorem arrive_stream (t : Nat) (cs : List Chunk) (s : Stream Byte)
    (h : Holds src s.pos (cs.flatMap Chunk.bytes)) :
    ∃ es, Arrive t cs es ∧ (streamEnv src FPC_BEP_RESULT_OK res).Answers s es
      ⟨s.pos + (cs.flatMap Chunk.bytes).length, s.sent ++ List.replicate cs.length fpcComAck⟩ := by
  induction cs generalizing s with
  | nil => exact ⟨[], .nil, by simp [Env.Answers]⟩
  | cons ch cs ih =>
    rw [List.flatMap_cons, holds_append] at h
    obtain ⟨hch, hcs⟩ := h
    have hlen : ch.bytes.length = 4 + (ch.body.length + 4) := by
      rw [ch.bytes_length, ch.body_length]; omega
    obtain ⟨hhdr, htail⟩ := holds_append.1
      (show Holds src s.pos (ch.link.header ++ ch.link.tail) from hch)
    obtain ⟨es, harrive, hans⟩ := ih ⟨s.pos + ch.bytes.length, s.sent ++ [fpcComAck]⟩ hcs
    refine ⟨_, .cons harrive, answers_read_of_holds hhdr rfl
      (answers_read_of_holds htail ch.link.tail_length (answers_write.2 ⟨rfl, ?_⟩))⟩
    rw [hlen, ← Nat.add_assoc] at hans
    rw [List.flatMap_cons, List.length_append, hlen, List.length_cons, List.replicate_succ]
    simpa [Nat.add_assoc] using hans

/-- The first byte of the first `ARG_RESULT`, as a signed byte; `OK` if there is none. -/
def resultOf (args : List CmdArg) : FpcBepResult :=
  match firstArg args ARG_RESULT with
  | some a => resultOfByte a.data
  | none => FPC_BEP_RESULT_OK

/-- The search for `ARG_RESULT` in an encoded packet. -/
theorem withResult_encoded {c : HcpComm} {cmd : Nat} {args : List CmdArg}
    (h : c.packet = encodePacket cmd args) (hsize : c.pktSize ≤ 65535)
    (hres : ∀ a ∈ args, a.type = ARG_RESULT → a.data ≠ []) :
    c.withResult.bepResult = resultOf args ∧ c.withResult.packet = c.packet ∧
      c.withResult.pktSize = c.pktSize := by
  have hfind := findArg_packet h hsize ARG_RESULT
  cases ha : firstArg args ARG_RESULT with
  | some a =>
    rw [ha] at hfind
    obtain ⟨pre, post, hargs, -, hsome, hdata, hle⟩ := hfind
    have hne : a.data ≠ [] := hres a (hargs ▸ List.mem_append_right _ (List.mem_cons_self ..))
      (by simpa using List.find?_some ha)
    have hfirst := slice_take c.pktBuffer (4 + (encodeArgs pre).length + 4)
      (List.length_pos_iff.2 hne)
    rw [hdata] at hfirst
    rw [withResult_of_some hsome, resultOf, ha]
    refine ⟨?_, rfl, rfl⟩
    show resultOfByte (slice c.pktBuffer (4 + (encodeArgs pre).length + 4) 1) = resultOfByte a.data
    rw [← hfirst]
    cases hd : a.data with
    | nil => exact absurd hd hne
    | cons b bs => rfl
  | none =>
    rw [ha] at hfind
    rw [withResult_of_none hfind, resultOf, ha]
    exact ⟨rfl, rfl, rfl⟩

/-- A chain that has received the packet of `args`. -/
theorem withResult_holding (c : HcpComm) (t : Mem Byte) (cmd : Nat) {args : List CmdArg}
    (hlen : (encodePacket cmd args).length ≤ 65535)
    (hres : ∀ a ∈ args, a.type = ARG_RESULT → a.data ≠ []) :
    (c.holding t (encodePacket cmd args)).withResult.bepResult = resultOf args ∧
      (c.holding t (encodePacket cmd args)).withResult.packet = encodePacket cmd args ∧
      (c.holding t (encodePacket cmd args)).withResult.pktSize ≤ 65535 := by
  obtain ⟨hresult, hpkt, hsize⟩ := withResult_encoded (packet_holding c t (encodePacket cmd args))
    hlen hres
  rw [packet_holding] at hpkt
  exact ⟨hresult, hpkt, by rw [hsize]; exact hlen⟩

/-- The packet of a command, prepared in the chain. -/
theorem sendCmdArg_packet {c : HcpComm} (cmd : Nat) {argKey : Nat} (hkey : argKey < 65536)
    {arg : CmdArg} (hfit : (encodePacket cmd (keyCall argKey hkey ++ [arg])).length ≤ c.pktSizeMax)
    (hmax : c.pktSizeMax ≤ 65535) :
    ((c.prepare cmd argKey).addArg arg.type arg.data arg.data.length).packet =
        encodePacket cmd (keyCall argKey hkey ++ [arg]) ∧
      ∀ {rounds es r c'}, Runs ((bmliteSendCmdArg rounds cmd argKey arg.type arg.data
          arg.data.length).run c) es (r, c') ↔ Runs ((bmliteTranceive rounds).run
            ((c.prepare cmd argKey).addArg arg.type arg.data arg.data.length)) es (r, c') := by
  have hprep := prepare_packet c cmd hkey
  have hsize := packet_size hprep
  rw [encodePacket_length, encodeArgs_append, List.length_append, encodeArgs_cons, encodeArgs_nil,
    List.append_nil, CmdArg.encode_length] at hfit
  refine ⟨addArg_packet hprep (by omega), fun {rounds es r c'} => ?_⟩
  have hkey' : ¬ (argKey ≠ ARG_NONE ∧ c.pktSizeMax < 8) := by
    rintro ⟨-, hlt⟩
    omega
  rw [runs_sendCmdArg arg.size_lt, if_neg hkey', if_neg (by omega)]

/-- **A whole exchange on well-formed traffic.**  Every frame of the request is acknowledged and
the answer arrives in numbered chunks of any sizes: the command returns OK, the request has been
written in full, each chunk of the answer has been acknowledged, and the search finds the
arguments of the answer. -/
theorem exchange_well_formed {c : HcpComm} {rounds : Nat} (cmd : Nat) {argKey : Nat}
    (hkey : argKey < 65536) {arg : CmdArg}
    (hfit : (encodePacket cmd (keyCall argKey hkey ++ [arg])).length ≤ c.pktSizeMax)
    (hmax : c.pktSizeMax ≤ 65535) {cmd' : Nat} {args : List CmdArg} {cs : List Chunk}
    (hcs : reassemble cs = encodePacket cmd' args) (hnum : Numbered cs)
    (hlt : (encodePacket cmd' args).length < c.pktSizeMax)
    (hres : ∀ a ∈ args, a.type = ARG_RESULT → a.data ≠ []) (hrounds : cs.length < rounds)
    (s : Stream Byte)
    (hsrc : Holds src s.pos ((List.replicate
      ((encodePacket cmd (keyCall argKey hkey ++ [arg])).length / 242 + 1) fpcComAck).flatten ++
        cs.flatMap Chunk.bytes)) :
    ∃ req s' c', ((bmliteSendCmdArg rounds cmd argKey arg.type arg.data arg.data.length).run c).runIn
        (streamEnv src FPC_BEP_RESULT_OK res) s = some ((FPC_BEP_RESULT_OK, c'), s') ∧
      reassemble req = encodePacket cmd (keyCall argKey hkey ++ [arg]) ∧ Numbered req ∧
      s'.sent = s.sent ++ req.map Chunk.bytes ++ List.replicate cs.length fpcComAck ∧
      c'.packet = encodePacket cmd' args ∧ c'.bepResult = resultOf args ∧
      ∀ t, c'.Yields args t := by
  obtain ⟨hpacket, hruns⟩ := @sendCmdArg_packet c cmd argKey hkey arg hfit hmax
  have hsize := congrArg List.length hpacket
  rw [HcpComm.packet, slice_length] at hsize
  generalize hc₁ : (c.prepare cmd argKey).addArg arg.type arg.data arg.data.length = c₁ at *
  have hmax₁ : c₁.pktSizeMax = c.pktSizeMax := by
    rw [← hc₁]
    exact prepare_max_eq c cmd argKey
  have hout : c₁.outgoing = c₁.packet := outgoing_eq_packet (by omega)
  let req := segments c₁.outgoing (outgoing_length_lt c₁)
  have hreq : reassemble req = c₁.packet := by rw [← hout]; exact reassemble_segments ..
  have hreqlen : (req.map Chunk.bytes).length =
      (encodePacket cmd (keyCall argKey hkey ++ [arg])).length / 242 + 1 := by
    rw [List.length_map, segments_length, hout, hpacket]; rfl
  obtain ⟨hacks, hchunks⟩ := holds_append.1 hsrc
  obtain ⟨es₁, hsent, hans₁⟩ := sent_stream res (req.map Chunk.bytes) s
    (by rw [hreqlen]; exact hacks)
  have hpos : s.pos + 4 * (req.map Chunk.bytes).length = s.pos + (List.replicate
      ((encodePacket cmd (keyCall argKey hkey ++ [arg])).length / 242 + 1) fpcComAck).flatten.length := by
    rw [hreqlen, List.length_flatten, List.map_replicate, List.sum_replicate, smul_eq_mul,
      Nat.mul_comm]
    rfl
  obtain ⟨es₂, harrive, hans₂⟩ := arrive_stream res c₁.phyRxTimeout cs
    ⟨s.pos + 4 * (req.map Chunk.bytes).length, s.sent ++ req.map Chunk.bytes⟩
    (by rw [hpos]; exact hchunks)
  have hne : cs ≠ [] := by
    rintro rfl
    exact absurd (congrArg List.length hcs) (by rw [encodePacket_length]; simp; omega)
  obtain ⟨t, x, hx, hrun⟩ := tranceive_complete hsent harrive (hnum.complete hne) hrounds
    (by rw [hcs, hmax₁]; exact hlt) (by rw [hcs]; omega)
  rw [hcs] at hx
  obtain ⟨hresult, hpkt, hsize'⟩ := withResult_holding c₁ t cmd' (show _ ≤ 65535 by omega) hres
  rw [← hx] at hresult hpkt hsize'
  exact ⟨req, _, x, runIn_iff.2 ⟨_, hruns.2 hrun, Env.answers_append.2 ⟨_, Env.answers_append.2
    ⟨_, hans₁, hans₂⟩, rfl⟩⟩, by rw [hreq, hpacket], numbered_segments .., rfl, hpkt, hresult,
    getArg_encoded hpkt hsize'⟩

/-- `CMD_WAIT`, answered with an `ARG_RESULT`. -/
theorem exchange_well_formed_wait :
    let answer : CmdArg := ⟨ARG_RESULT, [0xf5], by decide, by decide⟩
    let ch : Chunk := ⟨0, 1, 1, encodePacket CMD_WAIT [answer], by decide, by decide, by decide,
      by decide⟩
    ∃ s' c', ((bmliteSendCmdArg 2 CMD_WAIT ARG_FINGER_UP ARG_TIMEOUT (enc16 0) 2).run hcpChain).runIn
        (streamEnv (fun i => (fpcComAck ++ ch.bytes).getD i 0) FPC_BEP_RESULT_OK
          fun _ => FPC_BEP_RESULT_OK) ⟨0, []⟩ = some ((FPC_BEP_RESULT_OK, c'), s') ∧
      c'.packet = [7, 0, 1, 0, 1, 0x20, 1, 0, 0xf5] ∧ c'.bepResult = FPC_BEP_RESULT_TIMEOUT := by
  intro answer ch
  let timeout : CmdArg := ⟨ARG_TIMEOUT, enc16 0, by decide, by decide⟩
  have hsrc : Holds (fun i => (fpcComAck ++ ch.bytes).getD i 0) (Stream.mk (D := Byte) 0 []).pos
      ((List.replicate ((encodePacket CMD_WAIT (keyCall ARG_FINGER_UP (by decide) ++
        [timeout])).length / 242 + 1) fpcComAck).flatten ++ [ch].flatMap Chunk.bytes) := by
    decide +kernel
  obtain ⟨req, s', c', hrun, -, -, -, hpkt, hresult, -⟩ := exchange_well_formed
    (fun _ => FPC_BEP_RESULT_OK) (c := hcpChain) CMD_WAIT (by decide) (by decide) (by decide)
    (show reassemble [ch] = encodePacket CMD_WAIT [answer] from List.append_nil _) ⟨rfl, rfl, rfl⟩
    (by decide) (by decide) (Nat.le_refl 2) ⟨0, []⟩ hsrc
  exact ⟨s', c', hrun, hpkt.trans (by decide), hresult.trans (by decide)⟩

end BMLite
