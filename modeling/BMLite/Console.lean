import BMLite.Main
import BMLite.Safety

/-!
# What the button makes the program send

The loop of `main.c` with what its calls write, whatever the button times, the module and the
transport are.

* `Console` — the button time of the iteration, and the saves since the templates were removed;
* `Console.calls`, `Console.MayWrite` — the calls of an iteration, and what they may write;
* `console_writes` — **in every run each block belongs to the iteration in which it is written**: a
  removal takes a press of five seconds, and a save carries the number of saves before it.
-/

set_option autoImplicit false

namespace BMLite

open FlatMemory Process Trace

variable {max reach rounds : Nat} {qs : List Command}

/-! ## Iterations -/

/-- The call as one of the interface; `templateId` is for a save. -/
def MainCall.bep (templateId : Nat) : MainCall → BepCall
  | .version => .version (some fun _ => 0) 99
  | .enroll => .enrollFinger
  | .save => .templateSave templateId
  | .removeAll => .templateRemoveAll
  | .identify => .identifyFinger 0 0
  | .wait => .waitFingerNotPresent 0

structure Console where
  /-- The button time that has been fetched last. -/
  pressed : Option (BitVec 32)
  /-- The number of saves since all templates were removed. -/
  saves : Nat

def Console.start : Console := ⟨none, 0⟩

def Console.next (s : Console) : MainEvent → Console
  | .fetch btnTime => { s with pressed := some btnTime }
  | .ret .save _ _ _ _ _ => { s with saves := s.saves + 1 }
  | .ret .removeAll _ _ _ _ _ => { s with saves := 0 }
  | _ => s

/-- The calls of the iteration. -/
def Console.calls (s : Console) : List MainCall :=
  match s.pressed with
  | none => [.version]
  | some btnTime =>
    if btnTime < 200 then [.identify, .wait]
    else if btnTime < 5000 then [.enroll, .save, .identify, .wait]
    else [.removeAll, .identify, .wait]

/-- The commands of the iteration: a save is numbered by the saves before it. -/
def Console.requests (s : Console) : List Command :=
  s.calls.flatMap fun call => (call.bep (s.saves % 65536)).requests

/-- The block belongs to a call of the iteration; a request of one of these three commands tells how
long the button was pressed. -/
structure Console.MayWrite (s : Console) (data : List Byte) : Prop where
  listed : Listed s.requests data
  removes : commandOf data = CMD_STORAGE_TEMPLATE → ∃ btnTime, s.pressed = some btnTime ∧
    5000 ≤ btnTime
  stores : commandOf data = CMD_ENROLL ∨ commandOf data = CMD_TEMPLATE →
    ∃ btnTime, s.pressed = some btnTime ∧ 200 ≤ btnTime ∧ btnTime < 5000

/-- All that a call has written is its iteration's. -/
def Console.Permits (s : Console) : MainEvent → Prop
  | .fetch _ => True
  | .ret _ traffic _ _ _ _ => ∀ data t r, .write data t r ∈ traffic → s.MayWrite data

/-! ## Commands of frames -/

theorem key_length (cmd argKey : Nat) : (Command.key cmd argKey).packet.length ≤ 8 := by
  have hlen := packet_length_key cmd (argKey % 65536) (Nat.mod_lt _ (by decide)) []
  rw [List.append_nil] at hlen
  refine hlen.trans_le ?_
  split <;> simp

theorem cut_length (cmd argKey t n : Nat) (d : List Byte) :
    (Command.cut cmd argKey t d n).packet.length ≤ 12 + n := by
  have hlen := packet_length_key cmd (argKey % 65536) (Nat.mod_lt _ (by decide)) [cutArg t d n]
  have hdata : (cutArg t d n).data.length ≤ n :=
    (List.length_take_le ..).trans (Nat.mod_le _ _)
  refine hlen.trans_le ?_
  rw [encodeArgs_cons, encodeArgs_nil, List.append_nil, CmdArg.encode_length]
  split <;> omega

/-- The command of the frame of a short packet. -/
theorem commandOf_single {cmd : Nat} {args : List CmdArg} {b : List Byte}
    (hb : b = encodePacket cmd args) (hlen : b.length < APP_MTU) (h : b.length < 65536)
    {ch : Chunk} (hch : ch ∈ segments b h) : commandOf ch.bytes = cmd % 65536 := by
  obtain ⟨ch', hsingle, hpayload⟩ := segments_single h hlen
  rw [hsingle, List.mem_singleton] at hch
  subst hch
  rw [commandOf, Chunk.bytes_eq, hpayload, hb]
  exact dec16_enc16 cmd

/-- The command of a block: an ACK has none. -/
theorem commandOf_listed {data : List Byte} (h : Listed qs data)
    (hshort : ∀ q ∈ qs, q.packet.length ≤ 20) :
    commandOf data = 0 ∨ ∃ q ∈ qs, commandOf data = q.cmd % 65536 := by
  rcases h with rfl | ⟨q, hq, hlt, ch, hch, rfl⟩
  · exact .inl (by decide)
  · have hlen := hshort q hq
    exact .inr ⟨q, hq, commandOf_single rfl (hlen.trans_lt (by decide)) hlt hch⟩

/-- The requests of the loop are short. -/
theorem requests_short {templateId : Nat} (call : MainCall) :
    ∀ q ∈ (call.bep templateId).requests, q.packet.length ≤ 20 := by
  have hkey (cmd argKey : Nat) : (Command.key cmd argKey).packet.length ≤ 20 :=
    (key_length cmd argKey).trans (by decide)
  have hcut (cmd argKey t n : Nat) (d : List Byte) (hn : n ≤ 2) :
      (Command.cut cmd argKey t d n).packet.length ≤ 20 :=
    (cut_length cmd argKey t n d).trans (by omega)
  cases call <;> simp [MainCall.bep, BepCall.requests, hkey, hcut, Command.capture, Command.wait]

/-- The button times at which the templates are changed. -/
theorem calls_cases {s : Console} {call : MainCall} (h : call ∈ s.calls) :
    (call = .removeAll → ∃ btnTime, s.pressed = some btnTime ∧ 5000 ≤ btnTime) ∧
      (call = .enroll ∨ call = .save → ∃ btnTime, s.pressed = some btnTime ∧ 200 ≤ btnTime ∧
        btnTime < 5000) := by
  obtain ⟨pressed, saves⟩ := s
  cases pressed with
  | none =>
    obtain rfl : call = .version := List.mem_singleton.1 h
    refine ⟨fun hcall => ?_, fun hcall => ?_⟩
    · cases hcall
    · rcases hcall with hcall | hcall <;> cases hcall
  | some btnTime =>
    unfold Console.calls at h
    simp only at h
    split at h <;> rename_i hshort
    · refine ⟨fun hcall => ?_, fun hcall => ?_⟩
      · subst hcall
        simp at h
      · rcases hcall with rfl | rfl <;> simp at h
    split at h <;> rename_i hlong
    · refine ⟨fun hcall => ?_, fun _ => ⟨btnTime, rfl, BitVec.not_lt.1 hshort, hlong⟩⟩
      subst hcall
      simp at h
    · refine ⟨fun _ => ⟨btnTime, rfl, BitVec.not_lt.1 hlong⟩, fun hcall => ?_⟩
      rcases hcall with rfl | rfl <;> simp at h

/-- The commands of a call. -/
def MainCall.cmds : MainCall → List Nat
  | .version => [CMD_INFO]
  | .enroll => [CMD_ENROLL, CMD_CAPTURE, CMD_WAIT]
  | .save => [CMD_TEMPLATE]
  | .removeAll => [CMD_STORAGE_TEMPLATE]
  | .identify => [CMD_CAPTURE, CMD_IMAGE, CMD_IDENTIFY]
  | .wait => [CMD_WAIT]

theorem cmd_mem {templateId : Nat} (call : MainCall) :
    ∀ q ∈ (call.bep templateId).requests, q.cmd % 65536 ∈ call.cmds := by
  cases call <;> simp [MainCall.bep, BepCall.requests, MainCall.cmds, Command.key, Command.cut,
    Command.capture, Command.wait] <;> decide

/-- **What the commands of an iteration tell.** -/
theorem mayWrite_of_listed {s : Console} {data : List Byte} (h : Listed s.requests data) :
    s.MayWrite data := by
  have hcmd : commandOf data = 0 ∨ ∃ call ∈ s.calls, commandOf data ∈ call.cmds := by
    have hshort : ∀ q ∈ s.requests, q.packet.length ≤ 20 := by
      intro q hq
      obtain ⟨call, -, hq⟩ := List.mem_flatMap.1 hq
      exact requests_short call q hq
    rcases commandOf_listed h hshort with hzero | ⟨q, hq, hcmd⟩
    · exact .inl hzero
    · obtain ⟨call, hcall, hq⟩ := List.mem_flatMap.1 hq
      exact .inr ⟨call, hcall, hcmd ▸ cmd_mem call q hq⟩
  refine ⟨h, fun hdata => ?_, fun hdata => ?_⟩
  · rw [hdata] at hcmd
    rcases hcmd with hzero | ⟨call, hcall, hcmd⟩
    · cases hzero
    · refine (calls_cases hcall).1 ?_
      revert hcmd
      cases call <;> decide
  · rcases hcmd with hzero | ⟨call, hcall, hcmd⟩
    · rw [hzero] at hdata
      rcases hdata with hdata | hdata <;> cases hdata
    · refine (calls_cases hcall).2 ?_
      revert hcmd
      rcases hdata with hdata | hdata <;> rw [hdata] <;> cases call <;> decide

/-! ## Runs -/

/-- The calls of the loop are calls of the interface, without their outputs. -/
theorem main_body (call : MainCall) (currentId : BitVec 32) :
    call.body rounds currentId =
      (do return (← (call.bep (templateIdOf currentId)).run rounds).1 : Hcp FpcBepResult) := by
  funext c
  show StateT.run _ c = StateT.run _ c
  cases call <;> simp [MainCall.bep, BepCall.run, bare, withOutput, StateT.run_bind,
    proc_bind_assoc, proc_bind_ret, BepCall.body]

theorem main_call_kept (call : MainCall) (currentId : BitVec 32) :
    Kept max 103 (call.bep (templateIdOf currentId)).requests (call.body rounds currentId)
      fun _ => True := by
  rw [main_body]
  have hcall : (call.bep (templateIdOf currentId)).Valid := by
    cases call <;> trivial
  have hover : (call.bep (templateIdOf currentId)).overread ≤ 103 := by
    cases call <;> simp [MainCall.bep, BepCall.overread]
  exact (call_kept hcall hover fun _ => id).bind fun _ _ => kept_pure trivial

/-- The state of the loop in an iteration. -/
structure Console.Fits (s : Console) (max : Nat) (m : Main) : Prop where
  sound : m.chain.Sound max
  count : templateIdOf m.currentId = s.saves % 65536
  issued : ∀ call, m.next = some call → call ∈ s.calls

theorem fits_start {c : HcpComm} (hc : c.Sound max) :
    Console.start.Fits max (Main.start c) where
  sound := hc
  count := rfl
  issued := by
    rintro call ⟨⟩
    exact List.mem_singleton_self _

/-- A call in progress writes what its iteration may write. -/
theorem Console.Fits.writes {s : Console} {m : Main} (h : s.Fits max m) {call : MainCall}
    (hnext : m.next = some call) {data : List Byte}
    (hdata : Listed (call.bep (templateIdOf m.currentId)).requests data) : s.MayWrite data := by
  refine mayWrite_of_listed (hdata.mono fun q hq => ?_)
  rw [h.count] at hq
  exact List.mem_flatMap.2 ⟨call, h.issued call hnext, hq⟩

/-- The calls of an iteration follow one another. -/
theorem after_mem {s : Console} {m : Main} {call call' : MainCall} {res : FpcBepResult}
    {chain : HcpComm} (h : call ∈ s.calls) (hnext : (m.after call res chain).next = some call') :
    call' ∈ s.calls := by
  obtain ⟨pressed, saves⟩ := s
  cases pressed with
  | none =>
    obtain rfl : call = .version := List.mem_singleton.1 h
    cases hnext
  | some btnTime =>
    have hlast : .identify ∈ Console.calls ⟨some btnTime, saves⟩ ∧
        .wait ∈ Console.calls ⟨some btnTime, saves⟩ := by
      unfold Console.calls
      simp only
      split
      · simp
      · split <;> simp
    cases call with
    | version => cases hnext
    | enroll =>
      cases hnext
      unfold Console.calls at h ⊢
      simp only at h ⊢
      split at h <;> rename_i hshort
      · simp at h
      rw [if_neg hshort]
      split at h <;> rename_i hlong
      · rw [if_pos hlong]
        simp
      · simp at h
    | save =>
      cases hnext
      exact hlast.1
    | removeAll =>
      cases hnext
      exact hlast.1
    | identify =>
      simp only [Main.after] at hnext
      split at hnext
      · cases hnext
        exact hlast.2
      · split at hnext
        · cases hnext
        · cases hnext
          exact hlast.2
    | wait => cases hnext

theorem templateIdOf_succ (id : BitVec 32) :
    templateIdOf (id + 1) = (templateIdOf id + 1) % 65536 := by
  unfold templateIdOf
  rw [BitVec.toNat_add]
  show (id.toNat + 1) % 2 ^ 32 % 65536 = _
  omega

/-- **One step of the loop** writes what the iteration may write. -/
theorem console_step {s : Console} {m : Main} {e : MainEvent} {m' : Main} (hs : s.Fits max m)
    (hstep : MainStep m e m') : s.Permits e ∧ (s.next e).Fits max m' := by
  cases hstep with
  | fetch btnTime hnext =>
    refine ⟨trivial, ?_, ?_, ?_⟩
    · unfold Main.branch
      split
      · exact hs.sound
      · split <;> exact hs.sound
    · rw [branch_currentId]
      exact hs.count
    · intro call hcall
      unfold Main.branch at hcall
      show call ∈ Console.calls ⟨some btnTime, s.saves⟩
      unfold Console.calls
      simp only
      split at hcall <;> rename_i hshort
      · cases hcall
        rw [if_pos hshort]
        simp
      · rw [if_neg hshort]
        split at hcall <;> rename_i hlong
        · cases hcall
          rw [if_pos hlong]
          simp
        · cases hcall
          rw [if_neg hlong]
          simp
  | @ret call rounds traffic res chain hnext hrun =>
    have hkept := @main_call_kept max rounds call m.currentId m.chain hs.sound
    have hsound := (hkept.runs hrun).2
    refine ⟨fun data t r hmem => hs.writes hnext (hkept.events hrun hmem), ?_, ?_, ?_⟩
    · cases call with
      | identify =>
        simp only [Main.after]
        split
        · exact hsound
        · split <;> exact hsound
      | _ => exact hsound
    · cases call with
      | save =>
        show templateIdOf (m.currentId + 1) = (s.saves + 1) % 65536
        rw [templateIdOf_succ, hs.count]
        omega
      | removeAll => rfl
      | identify =>
        rw [(identify_next m res chain).2]
        exact hs.count
      | _ => exact hs.count
    · intro call' hcall'
      have hmem := after_mem (hs.issued call hnext) hcall'
      cases call <;> exact hmem

/-- **What the host writes is what the button asks for.**  In every run of the loop, whatever the
button times, the module and the transport are, each block that has been written, and each one that
is being written in a call that may never return, is an ACK or a frame of a command of its
iteration.  So all templates are removed only after a press of at least 5000 ticks, enrolling and
saving take a press of 200 to 4999, and a save carries the number of the saves since the last
removal. -/
theorem console_writes {c : HcpComm} (hc : c.Sound max) {es : List MainEvent} {m : Main}
    (hrun : Run MainStep (Main.start c) es m) :
    Allowed Console.next Console.Permits Console.start es ∧
    ∀ call rounds fs data t k, m.next = some call →
      Steps ((call.body rounds m.currentId).run m.chain) fs (.write data t k) →
      (es.foldl Console.next Console.start).MayWrite data := by
  obtain ⟨hallowed, hfits⟩ := hrun.simulated (J := fun (s : Console) m => s.Fits max m)
    (fits_start hc) fun s m e m' hs hstep => console_step hs hstep
  refine ⟨hallowed, fun call rounds fs data t k hnext hsteps => ?_⟩
  have hkept := @main_call_kept max rounds call m.currentId m.chain hfits.sound
  exact hfits.writes hnext (hkept.write_ok hsteps)

/-- A removal whose request is not acknowledged. -/
theorem removal_unacked {c : HcpComm} (hmax : c.pktSizeMax = 5120) : ∃ (f : List Byte)
    (es : List HcpEvent) (chain : HcpComm), Runs ((bepTemplateRemoveAll 1).run c)
      (.write f 0 FPC_BEP_RESULT_OK :: es) (FPC_BEP_RESULT_IO_ERROR, chain) ∧
        commandOf f = CMD_STORAGE_TEMPLATE := by
  have hack : ackResult FPC_BEP_RESULT_TIMEOUT (([] : List Byte).take 4) =
      FPC_BEP_RESULT_IO_ERROR := by decide
  obtain ⟨hpacket, hruns⟩ := @sendCmdArg_packet c CMD_STORAGE_TEMPLATE ARG_DELETE (by decide)
    (.flag ARG_ALL (by decide)) (by rw [hmax]; decide) (by omega)
  have hsize := congrArg List.length hpacket
  rw [HcpComm.packet, slice_length] at hsize
  obtain ⟨f, x, hrun, -, -, hf⟩ := tranceive_unacked _ hack
  obtain ⟨ch, hch, rfl⟩ := List.mem_map.1 hf
  have hout := (outgoing_eq_packet (by rw [hsize]; decide)).trans hpacket
  exact ⟨_, _, _, hruns.2 hrun, commandOf_single hout (by rw [hout]; decide) _ hch⟩

/-- A press of 6000 ticks, after a request for the version that nobody has answered. -/
theorem console_writes_removal : ∃ es m f traffic res dev id id',
    Run MainStep (Main.start hcpChain) (es ++ [.ret .removeAll traffic res dev id id']) m ∧
      .write f 0 FPC_BEP_RESULT_OK ∈ traffic ∧ commandOf f = CMD_STORAGE_TEMPLATE ∧
      Allowed Console.next Console.Permits Console.start
        (es ++ [.ret .removeAll traffic res dev id id']) := by
  obtain ⟨traffic, chain, hrun, hmax⟩ := version_unacked
  obtain ⟨f, es, chain', hremoval, hf⟩ := removal_unacked hmax
  have h0 : Run MainStep (Main.start hcpChain) [] _ := .nil
  have h1 := (h0.snoc (.ret rfl hrun)).snoc (.fetch 6000 rfl)
  have h2 := h1.snoc (@MainStep.ret _ .removeAll 1 _ _ _ rfl hremoval)
  exact ⟨_, _, f, _, _, _, _, _, h2, List.mem_cons_self .., hf,
    (console_writes hcpChain_sound h2).1⟩

end BMLite
