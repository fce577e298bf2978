import BMLite.Answers
import BMLite.Bulk
import BMLite.Lib.Dialog
import BMLite.Lib.Pipe
import BMLite.Pairing

/-!
# Commands and replies

The level at which the module is a server: a command goes in, a reply comes out, and the state of
the module changes.  Below it the packets of both travel in chunks, each acknowledged, over a line
that loses nothing.

* `Command`, `Reply`, `Device` — the module; it may split its replies as it likes;
* `Device.line` — its end of the line: it acknowledges the chunks of a command, and serves the
  command when the last one has come;
* `Talk` — dialogs with the module; `Talk.exchange` — one command;
* `tranceive_served` — **a call of `bmlite_tranceive` carries a command to the module and its reply
  back**, through any number of frames either way;
* `Device.Implements.init`, `Device.Implements.add`, `Device.Implements.built` — a command is built
  and exchanged, or rejected when it does not fit the packet buffer.
-/

set_option autoImplicit false

namespace BMLite

open FlatMemory Process

/-! ## The module -/

structure Command where
  cmd : Nat
  args : List CmdArg

def Command.packet (q : Command) : List Byte := encodePacket q.cmd q.args

/-- A reply, and the chunks in which it is sent. -/
structure Reply where
  cmd : Nat
  args : List CmdArg
  chunks : List Chunk
  numbered : Numbered chunks
  reassembled : reassemble chunks = encodePacket cmd args

/-- A module with states `S`, whose replies are shorter than `max` bytes and have fewer than
`rounds` chunks. -/
structure Device (S : Type) (max rounds : Nat) where
  serve : S → List Byte → Reply × S
  fits : ∀ s request, (reassemble (serve s request).1.chunks).length < max
  few : ∀ s request, (serve s request).1.chunks.length < rounds

/-- The module's end of the line; `begun` is what has come of a command so far. -/
structure Peer (S : Type) where
  state : S
  begun : List Byte

/-- `t_seq_nr` of a frame. -/
def seqNrOf (frame : List Byte) : Nat := dec16 ((frame.drop 6).take 2)

/-- `t_seq_len` of a frame. -/
def seqLenOf (frame : List Byte) : Nat := dec16 ((frame.drop 8).take 2)

variable {S : Type} {max rounds : Nat}

/-- An ACK of the host asks for nothing, a chunk for an ACK, the last one for the reply as well. -/
def Device.react (dev : Device S max rounds) (t : Peer S) (block : List Byte) :
    List Byte × Peer S :=
  if block.length ≤ 4 then ([], t)
  else if seqNrOf block < seqLenOf block then
    (fpcComAck, { t with begun := t.begun ++ requestOf block })
  else
    let served := dev.serve t.state (t.begun ++ requestOf block)
    (fpcComAck ++ served.1.chunks.flatMap Chunk.bytes, ⟨served.2, []⟩)

def Device.line (dev : Device S max rounds) : Env Byte FpcBepResult (Pipe Byte (Peer S)) :=
  pipeEnv dev.react FPC_BEP_RESULT_OK FPC_BEP_RESULT_TIMEOUT

/-- Nothing is on its way, and no command has been begun. -/
def Idle (e : Pipe Byte (Peer S)) (s : S) : Prop := e = ⟨[], ⟨s, []⟩⟩

theorem Reply.chunks_ne_nil (r : Reply) : r.chunks ≠ [] := by
  intro h
  have hlen := congrArg List.length r.reassembled
  rw [h, encodePacket_length] at hlen
  simp at hlen
  omega

/-! ## Frames on the line -/

theorem word_at {xs ys : List Byte} {n v : Nat} (hn : xs.length = n) (hv : v < 65536) :
    dec16 (((xs ++ (enc16 v ++ ys)).drop n).take 2) = v := by
  rw [List.drop_left' hn, List.take_left' (enc16_length v), dec16_enc16_of_lt hv]

theorem seqOf_bytes (ch : Chunk) : seqNrOf ch.bytes = ch.seqNr ∧ seqLenOf ch.bytes = ch.seqLen := by
  have hbytes := ch.bytes_eq
  constructor
  · have hsplit : ch.bytes = (enc16 ch.chn ++ enc16 (ch.payload.length + 6) ++
        enc16 ch.payload.length) ++ (enc16 ch.seqNr ++ (enc16 ch.seqLen ++ (ch.payload ++
          enc32 (fpcCrc 0 ch.body)))) := by
      simpa using hbytes
    rw [seqNrOf, hsplit, word_at (by simp) ch.seqNr_lt]
  · have hsplit : ch.bytes = (enc16 ch.chn ++ enc16 (ch.payload.length + 6) ++
        enc16 ch.payload.length ++ enc16 ch.seqNr) ++ (enc16 ch.seqLen ++ (ch.payload ++
          enc32 (fpcCrc 0 ch.body))) := by
      simpa using hbytes
    rw [seqLenOf, hsplit, word_at (by simp) ch.seqLen_lt]

variable (dev : Device S max rounds)

theorem react_ack (t : Peer S) : dev.react t fpcComAck = ([], t) := rfl

theorem react_chunk (t : Peer S) (ch : Chunk) : dev.react t ch.bytes =
    if ch.seqNr < ch.seqLen then (fpcComAck, { t with begun := t.begun ++ ch.payload })
    else
      (fpcComAck ++ (dev.serve t.state (t.begun ++ ch.payload)).1.chunks.flatMap Chunk.bytes,
        ⟨(dev.serve t.state (t.begun ++ ch.payload)).2, []⟩) := by
  obtain ⟨hnr, hlen⟩ := seqOf_bytes ch
  unfold Device.react
  rw [if_neg (by rw [ch.bytes_length]; omega), hnr, hlen, requestOf_bytes]

/-- **A command sent chunk by chunk** is acknowledged, and served when it is complete. -/
theorem sent_device (s : S) (cs : List Chunk) :
    ∀ begun : List Byte, Complete cs → ∃ es : List HcpEvent,
      Sent (cs.map Chunk.bytes) es FPC_BEP_RESULT_OK ∧
      dev.line.Answers ⟨[], ⟨s, begun⟩⟩ es
        ⟨(dev.serve s (begun ++ reassemble cs)).1.chunks.flatMap Chunk.bytes,
          ⟨(dev.serve s (begun ++ reassemble cs)).2, []⟩⟩ := by
  have hack : ackResult FPC_BEP_RESULT_OK (fpcComAck.take 4) = FPC_BEP_RESULT_OK := by decide
  induction cs with
  | nil => exact fun _ h => h.elim
  | cons ch cs ih =>
    intro begun hcs
    have hreact := react_chunk dev ⟨s, begun⟩ ch
    rcases complete_cons.1 hcs with ⟨rfl, hlast⟩ | ⟨hnext, hcs⟩
    · rw [if_neg (Nat.not_lt.2 hlast)] at hreact
      rw [reassemble_cons, reassemble_nil, List.append_nil]
      refine ⟨_, .next hack .done, answers_pipe_write hreact ?_⟩
      exact answers_pipe_read rfl rfl rfl
    · rw [if_pos hnext] at hreact
      obtain ⟨es, hsent, hans⟩ := ih (begun ++ ch.payload) hcs
      rw [List.append_assoc, ← reassemble_cons] at hans
      refine ⟨_, .next hack hsent, answers_pipe_write hreact ?_⟩
      exact answers_pipe_read (List.append_nil fpcComAck).symm rfl hans

/-- Chunks that lie in the line arrive, and the ACKs of the host change nothing. -/
theorem arrive_device (t : Nat) (peer : Peer S) (cs : List Chunk) : ∃ es : List HcpEvent,
    Arrive t cs es ∧ dev.line.Answers ⟨cs.flatMap Chunk.bytes, peer⟩ es ⟨[], peer⟩ := by
  induction cs with
  | nil => exact ⟨[], .nil, rfl⟩
  | cons ch cs ih =>
    obtain ⟨es, harrive, hans⟩ := ih
    have hfifo : (ch :: cs).flatMap Chunk.bytes =
        ch.link.header ++ (ch.link.tail ++ cs.flatMap Chunk.bytes) := by
      rw [List.flatMap_cons, ← List.append_assoc]
      rfl
    refine ⟨_, .cons (w := FPC_BEP_RESULT_OK) harrive, answers_pipe_read hfifo rfl ?_⟩
    refine answers_pipe_read rfl ch.link.tail_length (answers_pipe_write (react_ack dev peer) ?_)
    rw [List.append_nil]
    exact hans

/-! ## One exchange -/

/-- Dialogs with the module.  What no reply determines is what the host reads beyond an
argument. -/
abbrev Talk := Dialog Command Reply (List Byte)

/-- The `n` bytes that the host reads where the argument `t` of the reply begins: those of the
argument, and behind its end whatever lies there.  Without such an argument it may read anything. -/
def Reply.Shows (r : Reply) (t n : Nat) (bs : List Byte) : Prop :=
  bs.length = n ∧ ∀ a, firstArg r.args t = some a → bs.take a.data.length = a.data.take n

/-- The result of the device, as `bmlite_tranceive` takes it from the reply. -/
def Talk.result (r : Reply) : Talk FpcBepResult :=
  match firstArg r.args ARG_RESULT with
  | none => .ret FPC_BEP_RESULT_OK
  | some _ => .pick (r.Shows ARG_RESULT 1) fun bs => .ret (resultOfByte bs)

/-- A command, its reply, and the result of the device. -/
def Talk.exchange (q : Command) : Talk (Reply × FpcBepResult) :=
  .ask q fun reply => do return (reply, ← Talk.result reply)

/-- The chain holds the reply `r`, and the result `d` of the device. -/
structure HcpComm.Carries (c : HcpComm) (max : Nat) (r : Reply) (d : FpcBepResult) : Prop where
  packet_eq : c.packet = encodePacket r.cmd r.args
  size_le : c.pktSize ≤ 65535
  max_eq : c.pktSizeMax = max
  result_eq : c.bepResult = d

/-- `m` does what the dialog says, with every module and from every idle line. -/
def Device.Implements {β α : Type} (dev : Device S max rounds) (m : HcpProc β) (talk : Talk α)
    (rel : β → α → Prop) : Prop :=
  Refines dev.line Idle (fun s q => dev.serve s q.packet) m talk rel

theorem slice_take_min {α : Type} (m : Mem α) (off n k : Nat) :
    (slice m off n).take k = slice m off (min k n) := by
  by_cases h : k ≤ n
  · rw [slice_take m off h, Nat.min_eq_left h]
  · rw [List.take_of_length_le (by rw [slice_length]; omega), Nat.min_eq_right (by omega)]

/-- The search finds an argument of the reply if there is one. -/
theorem search_cases {c : HcpComm} {r : Reply} (hpkt : c.packet = encodePacket r.cmd r.args)
    (hsize : c.pktSize ≤ 65535) (t : Nat) :
    (firstArg r.args t = none ∧ c.findArg t = none) ∨
      ∃ a b, firstArg r.args t = some a ∧ c.findArg t = some b ∧ b.size = a.data.length ∧
        slice c.pktBuffer b.data a.data.length = a.data := by
  have hfind := findArg_packet hpkt hsize t
  cases ha : firstArg r.args t with
  | none =>
    rw [ha] at hfind
    exact .inl ⟨rfl, hfind⟩
  | some a =>
    rw [ha] at hfind
    obtain ⟨pre, post, -, -, hsome, hdata, -⟩ := hfind
    exact .inr ⟨a, _, rfl, hsome, rfl, hdata⟩

/-- What is read where an argument has been found. -/
theorem shows_of_slice {c : HcpComm} {r : Reply} {t off : Nat} {a : CmdArg}
    (ha : firstArg r.args t = some a) (hdata : slice c.pktBuffer off a.data.length = a.data)
    (n : Nat) : r.Shows t n (slice c.pktBuffer off n) := by
  refine ⟨slice_length .., fun a' ha' => ?_⟩
  rw [ha] at ha'
  cases ha'
  rw [slice_take_min, Nat.min_comm, ← slice_take_min, hdata]

/-- Without the argument anything may be read. -/
theorem shows_of_none {c : HcpComm} {r : Reply} {t off : Nat} (ha : firstArg r.args t = none)
    (n : Nat) : r.Shows t n (slice c.pktBuffer off n) := by
  refine ⟨slice_length .., fun a ha' => ?_⟩
  rw [ha] at ha'
  cases ha'

/-- The result of the device is one that the dialog admits. -/
theorem withResult_outcome {c : HcpComm} {r : Reply} (hpkt : c.packet = encodePacket r.cmd r.args)
    (hsize : c.pktSize ≤ 65535) (serve : S → Command → Reply × S) (s : S) :
    (Talk.result r).Outcome serve s c.withResult.bepResult s := by
  unfold Talk.result
  rcases search_cases hpkt hsize ARG_RESULT with ⟨ha, hb⟩ | ⟨a, b, ha, hb, -, hdata⟩
  · rw [ha, withResult_of_none hb]
    exact ⟨rfl, rfl⟩
  · rw [ha, withResult_of_some hb]
    exact ⟨_, shows_of_slice ha hdata 1, rfl, rfl⟩

/-- **A call of `bmlite_tranceive` carries a command to the module and its reply back.** -/
theorem tranceive_served {c : HcpComm} {q : Command} (hq : c.packet = q.packet)
    (hsize : c.pktSize ≤ 65535) (hmax : c.pktSizeMax = max) (hle : max ≤ 65535) :
    dev.Implements ((bmliteTranceive rounds).run c) (Talk.exchange q)
      fun b a => b.1 = FPC_BEP_RESULT_OK ∧ b.2.Carries max a.1 a.2 := by
  rintro e s rfl
  have hout : c.outgoing = q.packet := by rw [outgoing_eq_packet (by omega), hq]
  have hreq := reassemble_segments c.outgoing (outgoing_length_lt c)
  obtain ⟨es₁, hsent, hans₁⟩ := sent_device dev s (segments c.outgoing (outgoing_length_lt c))
    [] (complete_segments _ _)
  rw [hreq, hout, List.nil_append] at hans₁
  generalize hserve : dev.serve s q.packet = served at hans₁
  obtain ⟨reply, s'⟩ := served
  have hfits : (reassemble reply.chunks).length < max := by
    have h := dev.fits s q.packet
    rwa [hserve] at h
  have hfew : reply.chunks.length < rounds := by
    have h := dev.few s q.packet
    rwa [hserve] at h
  obtain ⟨es₂, harrive, hans₂⟩ := arrive_device dev c.phyRxTimeout ⟨s', []⟩ reply.chunks
  obtain ⟨t, x, hx, hrun⟩ := tranceive_complete hsent harrive
    (reply.numbered.complete reply.chunks_ne_nil) hfew (by rw [hmax]; exact hfits) (by omega)
  have hpkt : (c.holding t (reassemble reply.chunks)).packet =
      encodePacket reply.cmd reply.args := by
    rw [packet_holding, reply.reassembled]
  have hlen : (c.holding t (reassemble reply.chunks)).pktSize ≤ 65535 := by
    show (reassemble reply.chunks).length ≤ 65535
    omega
  refine ⟨_, ⟨[], ⟨s', []⟩⟩, (reply, x.bepResult), s', runIn_iff.2 ⟨_, hrun, ?_⟩, rfl, ?_, rfl, ?_⟩
  · exact Env.answers_append.2 ⟨_, Env.answers_append.2 ⟨_, hans₁, hans₂⟩, rfl⟩
  · unfold Talk.exchange Dialog.Outcome
    simp only [hserve]
    refine outcome_bind.2 ⟨x.bepResult, s', ?_, rfl, rfl⟩
    rw [hx]
    exact withResult_outcome hpkt hlen _ s'
  · rw [hx]
    refine ⟨?_, ?_, ?_, rfl⟩
    · rw [withResult_packet, hpkt]
    · rw [withResult_size]
      exact hlen
    · rw [withResult_max]
      exact hmax

/-! ## Whole commands -/

/-- A command is exchanged if its packet fits the buffer. -/
def Talk.command (max : Nat) (q : Command) : Talk (Option (Reply × FpcBepResult)) :=
  if q.packet.length ≤ max then do return some (← Talk.exchange q) else return none

/-- What the host sees of a command: it has been rejected and `prev` is still the result of the
device, or the chain holds the reply. -/
def Sees (max : Nat) (prev : FpcBepResult) (b : FpcBepResult × HcpComm) :
    Option (Reply × FpcBepResult) → Prop
  | none => b.1 = FPC_BEP_RESULT_NO_MEMORY ∧ b.2.pktSizeMax = max ∧ b.2.bepResult = prev
  | some (r, d) => b.1 = FPC_BEP_RESULT_OK ∧ b.2.Carries max r d

variable {dev}

/-- The replies of a module leave room for a header. -/
theorem Device.four_lt (dev : Device S max rounds) (s : S) : 4 < max := by
  have hfits := dev.fits s []
  rw [(dev.serve s []).1.reassembled, encodePacket_length] at hfits
  omega

theorem packet_length_key (cmd argKey : Nat) (hkey : argKey < 65536) (args : List CmdArg) :
    (Command.packet ⟨cmd, keyCall argKey hkey ++ args⟩).length =
      (if argKey = ARG_NONE then 4 else 8) + (encodeArgs args).length := by
  unfold Command.packet keyCall
  rw [encodePacket_length]
  split
  · simp
  · simp [CmdArg.flag]
    omega

/-- What the host sees when it does not send the command. -/
theorem Device.Implements.rejected {c : HcpComm} {q : Command} {prev : FpcBepResult}
    (hfit : ¬ q.packet.length ≤ max) (hmax : c.pktSizeMax = max) (hprev : c.bepResult = prev) :
    dev.Implements (.ret (FPC_BEP_RESULT_NO_MEMORY, c)) (Talk.command max q) (Sees max prev) := by
  unfold Talk.command
  rw [if_neg hfit]
  exact Refines.ret ⟨rfl, hmax, hprev⟩

/-- The packet of `args` lies in the chain, with room for it, and `prev` is the last result of the
device. -/
structure HcpComm.Building (c : HcpComm) (max cmd : Nat) (args : List CmdArg)
    (prev : FpcBepResult) : Prop where
  packet_eq : c.packet = encodePacket cmd args
  size_le : c.pktSize ≤ max
  max_eq : c.pktSizeMax = max
  result_eq : c.bepResult = prev

theorem HcpComm.Building.size_eq {c : HcpComm} {cmd : Nat} {args : List CmdArg}
    {prev : FpcBepResult} (h : c.Building max cmd args prev) :
    c.pktSize = (Command.packet ⟨cmd, args⟩).length := by
  rw [packet_size h.packet_eq, Command.packet, encodePacket_length]

/-- The packet is complete. -/
theorem Device.Implements.built {c : HcpComm} {cmd : Nat} {args : List CmdArg}
    {prev : FpcBepResult} (hc : c.Building max cmd args prev) (hle : max ≤ 65535) :
    dev.Implements ((bmliteTranceive rounds).run c) (Talk.command max ⟨cmd, args⟩)
      (Sees max prev) := by
  have hfit := hc.size_le
  have hserved := tranceive_served dev (q := ⟨cmd, args⟩) hc.packet_eq (by omega) hc.max_eq hle
  rw [hc.size_eq] at hfit
  unfold Talk.command
  rw [if_pos hfit]
  exact hserved.andThen fun b a h => Refines.ret h

/-- **`bmlite_add_arg`**, in a command whose packet begins with the arguments up to `a`. -/
theorem Device.Implements.add {c : HcpComm} {cmd : Nat} {args rest : List CmdArg} {a : CmdArg}
    {prev : FpcBepResult} {d : List Byte} {n : Nat} (hc : c.Building max cmd args prev)
    (hle : max ≤ 65535) (hd : d.take n = a.data) (hn : n = a.data.length) {next : Hcp FpcBepResult}
    (hnext : ∀ c', c'.Building max cmd (args ++ [a]) prev →
      dev.Implements (next.run c') (Talk.command max ⟨cmd, args ++ a :: rest⟩) (Sees max prev)) :
    dev.Implements ((assertOk (bmliteAddArg a.type d n) next).run c)
      (Talk.command max ⟨cmd, args ++ a :: rest⟩) (Sees max prev) := by
  have hadd := runs_addArg (c := c) (t := a.type) (n := n) (d := d)
  have hlen := hc.size_eq
  have hsize := hc.size_le
  have hmax := hc.max_eq
  have ha := a.size_lt
  have hpacket : (Command.packet ⟨cmd, args⟩).length + 4 + n ≤
      (Command.packet ⟨cmd, args ++ a :: rest⟩).length := by
    simp only [Command.packet, encodePacket_length, encodeArgs_append, encodeArgs_cons,
      List.length_append, CmdArg.encode_length, hn]
    omega
  simp only [assertOk, StateT.run_bind]
  rw [Nat.mod_eq_of_lt (by omega)] at hadd
  by_cases hfit : c.pktSize + 4 + n > c.pktSizeMax
  · rw [if_pos hfit] at hadd
    exact Refines.of_returns hadd (Device.Implements.rejected (by omega) hmax hc.result_eq)
  · rw [if_neg hfit] at hadd
    have heq : c.addArg a.type d n = c.addArg a.type a.data a.data.length := by
      unfold HcpComm.addArg
      rw [hd, hn, List.take_length]
    refine Refines.of_returns hadd (hnext _ ⟨?_, ?_, hmax, hc.result_eq⟩)
    · rw [heq]
      exact addArg_packet hc.packet_eq (by omega)
    · show (c.pktSize + (4 + n)) % 2 ^ 32 ≤ max
      omega

/-- **`bmlite_init_cmd`**, in a command whose packet begins with its key. -/
theorem Device.Implements.init {c : HcpComm} (cmd : Nat) {argKey : Nat} (hkey : argKey < 65536)
    {rest : List CmdArg} (hmax : c.pktSizeMax = max) {next : Hcp FpcBepResult}
    (hnext : ∀ c', c'.Building max cmd (keyCall argKey hkey) c.bepResult →
      dev.Implements (next.run c') (Talk.command max ⟨cmd, keyCall argKey hkey ++ rest⟩)
        (Sees max c.bepResult)) :
    dev.Implements ((assertOk (bmliteInitCmd cmd argKey) next).run c)
      (Talk.command max ⟨cmd, keyCall argKey hkey ++ rest⟩) (Sees max c.bepResult) := by
  intro e s hidle
  have hlarge := dev.four_lt s
  have hinit := runs_initCmd c cmd argKey
  have hlen := packet_length_key cmd argKey hkey rest
  refine (?_ : dev.Implements _ _ _) e s hidle
  simp only [assertOk, StateT.run_bind]
  by_cases hrej : argKey ≠ ARG_NONE ∧ c.pktSizeMax < 8
  · rw [if_pos hrej] at hinit
    rw [if_neg hrej.1] at hlen
    exact Refines.of_returns hinit (Device.Implements.rejected (by omega) hmax rfl)
  · rw [if_neg hrej] at hinit
    have hprep := prepare_packet c cmd hkey
    have hkeylen := packet_length_key cmd argKey hkey []
    rw [List.append_nil, Command.packet, encodePacket_length, ← packet_size hprep] at hkeylen
    refine Refines.of_returns hinit (hnext _ ⟨hprep, ?_, ?_, ?_⟩)
    · rw [hkeylen]
      split
      · exact Nat.le_of_lt hlarge
      · rename_i hnone
        have hroom : ¬ c.pktSizeMax < 8 := fun h => hrej ⟨hnone, h⟩
        rw [encodeArgs_nil, List.length_nil]
        omega
    · exact (prepare_max_eq c cmd argKey).trans hmax
    · unfold HcpComm.prepare
      split <;> rfl

/-- **`bmlite_send_cmd`.** -/
theorem Device.Implements.sendCmd {c : HcpComm} (cmd : Nat) {argKey : Nat} (hkey : argKey < 65536)
    (hmax : c.pktSizeMax = max) (hle : max ≤ 65535) :
    dev.Implements ((bmliteSendCmd rounds cmd argKey).run c)
      (Talk.command max ⟨cmd, keyCall argKey hkey⟩) (Sees max c.bepResult) := by
  have hinit := @Device.Implements.init S max rounds dev c cmd argKey hkey [] hmax
    (bmliteTranceive rounds)
  rw [List.append_nil] at hinit
  exact hinit fun c' hc' => Device.Implements.built hc' hle

/-- **`bmlite_send_cmd_arg`.** -/
theorem Device.Implements.sendCmdArg {c : HcpComm} (cmd : Nat) {argKey : Nat}
    (hkey : argKey < 65536) (a : CmdArg) {d : List Byte} {n : Nat} (hd : d.take n = a.data)
    (hn : n = a.data.length) (hmax : c.pktSizeMax = max) (hle : max ≤ 65535) :
    dev.Implements ((bmliteSendCmdArg rounds cmd argKey a.type d n).run c)
      (Talk.command max ⟨cmd, keyCall argKey hkey ++ [a]⟩) (Sees max c.bepResult) := by
  refine Device.Implements.init cmd hkey hmax fun c' hc' => ?_
  exact Device.Implements.add hc' hle hd hn fun c'' hc'' => Device.Implements.built hc'' hle

end BMLite
