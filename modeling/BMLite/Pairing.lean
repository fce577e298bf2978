import BMLite.Exchange
import BMLite.Lib.Line
import BMLite.Report

/-!
# Requests and responses

The module at the other end of the line answers every request with an ACK and the chunks of its
response.  Reads of the host may time out.

* `Module`, `IsCall`, `Session` — the module, one call of `bmlite_tranceive`, and a run of calls;
* `receive_loop_line` — a reception takes the response from the line, and leaves nothing of it;
* `call_line` — a call on an empty line, in which no read for the body of a frame times out;
* `session_paired` — **a call returns OK with the response to its own request** if nothing of an
  earlier response is on its way when it begins, which is so until a read times out.
-/

set_option autoImplicit false

namespace BMLite

open FlatMemory Process

/-! ## The module and the calls -/

/-- The module: its response to a request, in chunks, may depend on everything that it has received
before; it repeats the command of the request. -/
structure Module where
  answer : List (List Byte) → List Byte → List Chunk
  numbered : ∀ received request, Numbered (answer received request)
  ne_nil : ∀ received request, answer received request ≠ []
  cmd_eq : ∀ received request, 2 ≤ request.length →
    (reassemble (answer received request)).take 2 = request.take 2

/-- The request in a frame of the host. -/
def requestOf (frame : List Byte) : List Byte := (frame.drop 10).take (frame.length - 14)

/-- What the module puts in the line: nothing after an ACK of the host, else an ACK and its
response. -/
def Module.reply (m : Module) (received : List (List Byte)) (block : List Byte) : List Byte :=
  if block.length ≤ 4 then []
  else fpcComAck ++ (m.answer received (requestOf block)).flatMap Chunk.bytes

def Module.line (m : Module) (timedOut : Nat → Bool) : Env Byte FpcBepResult (Line Byte) :=
  lineEnv m.reply timedOut FPC_BEP_RESULT_OK FPC_BEP_RESULT_TIMEOUT

/-- A finished call of `bmlite_tranceive`. -/
structure Call where
  rounds : Nat
  before : HcpComm
  events : List HcpEvent
  result : FpcBepResult
  after : HcpComm

def Call.request (k : Call) : List Byte := k.before.outgoing

/-- None of these reads timed out. -/
def Untimed (es : List HcpEvent) : Prop :=
  ∀ n t r d, Event.read n t r d ∈ es → r ≠ FPC_BEP_RESULT_TIMEOUT

/-- None of these reads for the body of a frame timed out; an ACK and a header have four bytes. -/
def BodiesRead (es : List HcpEvent) : Prop :=
  ∀ n t r d, Event.read n t r d ∈ es → n ≠ 4 → r ≠ FPC_BEP_RESULT_TIMEOUT

/-- The packet in the chain is `b`, up to the 16 bits of its size. -/
def HcpComm.Received (c : HcpComm) (b : List Byte) : Prop :=
  slice c.pktBuffer 0 b.length = b ∧ c.pktSize = b.length % 65536

variable {m : Module} {timedOut : Nat → Bool}

/-- The call takes the line from `s` to `s'`; its request is a single frame. -/
structure IsCall (m : Module) (timedOut : Nat → Bool) (s : Line Byte) (k : Call) (s' : Line Byte) :
    Prop where
  single : k.request.length < APP_MTU
  runs : Runs ((bmliteTranceive k.rounds).run k.before) k.events (k.result, k.after)
  answers : (m.line timedOut).Answers s k.events s'

/-- Calls, one after the other, on a line that was empty at the start.  Between two calls the host
may do with its chain what it likes. -/
inductive Session (m : Module) (timedOut : Nat → Bool) : List Call → Line Byte → Prop
  | start : Session m timedOut [] ⟨[], [], 0⟩
  | call {ks s k s'} : Session m timedOut ks s → IsCall m timedOut s k s' →
      Session m timedOut (ks ++ [k]) s'

theorem Untimed.bodies {es : List HcpEvent} (h : Untimed es) : BodiesRead es :=
  fun n t r d hmem _ => h n t r d hmem

theorem BodiesRead.left {es fs : List HcpEvent} (h : BodiesRead (es ++ fs)) : BodiesRead es :=
  fun n t r d he => h n t r d (List.mem_append_left _ he)

theorem BodiesRead.right {es fs : List HcpEvent} (h : BodiesRead (es ++ fs)) : BodiesRead fs :=
  fun n t r d he => h n t r d (List.mem_append_right _ he)

theorem Untimed.head {n t : Nat} {r : FpcBepResult} {d : List Byte} {es : List HcpEvent}
    (h : Untimed (.read n t r d :: es)) : r ≠ FPC_BEP_RESULT_TIMEOUT :=
  h n t r d (List.mem_cons_self ..)

theorem Untimed.tail {e : HcpEvent} {es : List HcpEvent} (h : Untimed (e :: es)) : Untimed es :=
  fun n t r d hmem => h n t r d (List.mem_cons_of_mem e hmem)

theorem Untimed.left {es fs : List HcpEvent} (h : Untimed (es ++ fs)) : Untimed es :=
  fun n t r d he => h n t r d (List.mem_append_left _ he)

theorem Untimed.right {es fs : List HcpEvent} (h : Untimed (es ++ fs)) : Untimed fs :=
  fun n t r d he => h n t r d (List.mem_append_right _ he)

/-! ## Receiving from the line -/

theorem reply_ack (received : List (List Byte)) : m.reply received fpcComAck = [] := rfl

/-- `_rx_link` takes the next chunk from the line, unless its header does not come in time. -/
theorem rxLink_line {c c' : HcpComm} {es : List HcpEvent} {r : FpcBepResult} {s s' : Line Byte}
    (h : RxLink c es r c') (hans : (m.line timedOut).Answers s es s') (hes : BodiesRead es)
    {ch : Chunk} {rest : List Byte} (hfifo : s.fifo = ch.bytes ++ rest) :
    (Untimed es → r = FPC_BEP_RESULT_OK) ∧
      (r = FPC_BEP_RESULT_OK → c' = c.fill 0 ch.bytes ∧ s'.fifo = rest) := by
  have hok : FPC_BEP_RESULT_OK ≠ FPC_BEP_RESULT_TIMEOUT := by decide
  have hbody : ch.link.body.length + 4 ≠ 4 := by
    rw [show ch.link.body.length = ch.payload.length + 6 from ch.body_length]
    omega
  have hfifo' : s.fifo = ch.link.header ++ (ch.link.tail ++ rest) := by
    rw [hfifo, ← List.append_assoc]
    rfl
  have hlen : ch.link.header.length = 4 := ch.link.header_length
  have hhdr : c.fill 0 (ch.link.header.take 4) = c.fill 0 ch.link.header := by
    rw [List.take_of_length_le (Nat.le_of_eq hlen)]
  have hlnk : (c.fill 0 ch.link.header).lnkSize = ch.link.body.length := lnkSize_header c ch.link
  have htail : ch.link.tail.take (ch.link.body.length + 4) = ch.link.tail :=
    List.take_of_length_le (Nat.le_of_eq ch.link.tail_length)
  have hvalid : (c.fill 0 ch.bytes).CrcValid ch.link.body.length :=
    (crcValid_tail c ch.link ch.link.tail_length).2 (by simp [LinkFrame.tail, dec32_enc32])
  cases h with
  | noHeader hr =>
    refine ⟨fun hes => ?_, fun hr' => absurd hr' hr⟩
    obtain ⟨rfl, -⟩ := answers_line_read hans hes.head hfifo' hlen
    exact absurd rfl hr
  | tooLong hc₁ hsize =>
    obtain ⟨-, rfl, -⟩ := answers_line_read hans hok hfifo' hlen
    rw [hhdr] at hc₁
    rw [hc₁, hlnk] at hsize
    exact absurd ch.link.body_le (Nat.not_le.2 hsize)
  | badCrc hc₁ hsize hc₂ hcrc =>
    obtain ⟨-, rfl, hrest⟩ := answers_line_read hans hok hfifo' hlen
    rw [hhdr] at hc₁
    subst hc₁
    rw [hlnk] at hrest hc₂ hcrc hes
    obtain ⟨-, rfl, -⟩ := answers_line_read hrest
      (hes _ _ _ _ (List.mem_cons_of_mem _ (List.mem_cons_self ..)) hbody) rfl ch.link.tail_length
    rw [htail, fill_header] at hc₂
    rw [hc₂] at hcrc
    exact absurd hvalid hcrc
  | accepted hc₁ hsize hc₂ hcrc =>
    obtain ⟨-, rfl, hrest⟩ := answers_line_read hans hok hfifo' hlen
    rw [hhdr] at hc₁
    subst hc₁
    rw [hlnk] at hrest hc₂ hes
    obtain ⟨-, rfl, hack⟩ := answers_line_read hrest
      (hes _ _ _ _ (List.mem_cons_of_mem _ (List.mem_cons_self ..)) hbody) rfl ch.link.tail_length
    obtain ⟨-, hend⟩ := answers_line_write.1 hack
    cases hend
    rw [htail, fill_header] at hc₂
    exact ⟨fun _ => rfl, fun _ => ⟨hc₂, by simp [reply_ack]⟩⟩

/-- **A reception takes the chunks from the line**, and if it returns OK, puts them together; unless
a header does not come in time, nothing is left. -/
theorem receive_loop_line (cs : List Chunk) :
    ∀ {rounds seqNr seqLen p bufLen : Nat} {comResult r : FpcBepResult} {c c' : HcpComm}
      {es : List HcpEvent} {s s' : Line Byte},
      Runs ((bmliteReceive.loop rounds seqNr seqLen p bufLen comResult).run c) es (r, c') →
      (m.line timedOut).Answers s es s' → BodiesRead es → s.fifo = cs.flatMap Chunk.bytes →
      (if seqNr < seqLen then Complete cs else cs = []) → bufLen < 65536 →
      (Untimed es → s'.fifo = []) ∧ (r = FPC_BEP_RESULT_OK → s'.fifo = [] ∧
        comResult = FPC_BEP_RESULT_OK ∧ c'.pktBuffer = blit c.pktBuffer p (reassemble cs) ∧
        c'.pktSize = (bufLen + (reassemble cs).length) % 65536) := by
  induction cs with
  | nil =>
    intro rounds seqNr seqLen p bufLen comResult r c c' es s s' h hans hes hfifo hcs hbuf
    have hexit : ¬ seqNr < seqLen := by
      intro hgo
      rw [if_pos hgo] at hcs
      exact hcs
    cases rounds with
    | zero => exact absurd h runs_out
    | succ rounds =>
      obtain ⟨rfl, rfl, rfl⟩ := (runs_receive_exit hexit).1 h
      cases hans
      refine ⟨fun _ => hfifo, fun hr => ⟨hfifo, hr, by simp, ?_⟩⟩
      simp [Nat.mod_eq_of_lt hbuf]
  | cons ch cs ih =>
    intro rounds seqNr seqLen p bufLen comResult r c c' es s s' h hans hes hfifo hcs hbuf
    have hgo : seqNr < seqLen := by
      by_contra hexit
      rw [if_neg hexit] at hcs
      cases hcs
    rw [if_pos hgo] at hcs
    rw [List.flatMap_cons] at hfifo
    cases rounds with
    | zero => exact absurd h runs_out
    | succ rounds =>
      rcases (runs_receive_round hgo).1 h with ⟨hr, hlink⟩ | ⟨es₁, es₂, c₁, rfl, hlink, hrest⟩
      · exact ⟨fun hes' => absurd ((rxLink_line hlink hans hes hfifo).1 hes') hr,
          fun hok => absurd hok hr⟩
      obtain ⟨s₁, hans₁, hans₂⟩ := Env.answers_append.1 hans
      obtain ⟨rfl, hfifo₁⟩ := (rxLink_line hlink hans₁ hes.left hfifo).2 rfl
      obtain ⟨-, -, hnr, hlen, -⟩ := chunk_fill_fields c ch
      rw [hnr, hlen] at hrest
      have hcs' : if ch.seqNr < ch.seqLen then Complete cs else cs = [] := by
        rcases complete_cons.1 hcs with ⟨rfl, hlast⟩ | ⟨hnext, hcs⟩
        · rw [if_neg (Nat.not_lt.2 hlast)]
        · rwa [if_pos hnext]
      rw [takeChunk_chunk] at hrest
      split at hrest
      · obtain ⟨hempty, hok⟩ := ih hrest hans₂ hes.right hfifo₁ hcs' (Nat.mod_lt _ (by decide))
        refine ⟨fun hes' => hempty hes'.right, fun hr => ?_⟩
        obtain ⟨hend, hcom, hpkt, hsize⟩ := hok hr
        refine ⟨hend, hcom, ?_, ?_⟩
        · rw [hpkt, reassemble_cons, ← blit_blit_append]
        · rw [hsize, reassemble_cons, List.length_append, Nat.mod_add_mod, Nat.add_assoc]
      · obtain ⟨hempty, hok⟩ := ih hrest hans₂ hes.right hfifo₁ hcs' hbuf
        refine ⟨fun hes' => hempty hes'.right, fun hr => ?_⟩
        cases (hok hr).2.1

/-! ## Calls on an empty line -/

theorem requestOf_bytes (ch : Chunk) : requestOf ch.bytes = ch.payload := by
  have hlen : (enc16 ch.chn ++ enc16 (ch.payload.length + 6) ++
      (enc16 ch.payload.length ++ enc16 ch.seqNr ++ enc16 ch.seqLen)).length = 10 := by simp
  have hsplit : ch.bytes = (enc16 ch.chn ++ enc16 (ch.payload.length + 6) ++
      (enc16 ch.payload.length ++ enc16 ch.seqNr ++ enc16 ch.seqLen)) ++
      (ch.payload ++ enc32 (fpcCrc 0 ch.body)) := by
    rw [ch.bytes_eq]
    simp only [List.append_assoc]
  rw [requestOf, ch.bytes_length, hsplit, List.drop_left' hlen]
  exact List.take_left' (by omega)

/-- A request of one frame, sent on an empty line: the ACK is read, if it comes in time, and the
response is left. -/
theorem sent_line {ch : Chunk} {es : List HcpEvent} {r : FpcBepResult} {s s' : Line Byte}
    (h : Sent [ch.bytes] es r) (hans : (m.line timedOut).Answers s es s') (hfifo : s.fifo = []) :
    (Untimed es → r = FPC_BEP_RESULT_OK) ∧ (r = FPC_BEP_RESULT_OK →
      s'.fifo = (m.answer s.received ch.payload).flatMap Chunk.bytes) := by
  have hreply : s.fifo ++ m.reply s.received ch.bytes =
      fpcComAck ++ (m.answer s.received ch.payload).flatMap Chunk.bytes := by
    rw [hfifo, List.nil_append, Module.reply, if_neg (by rw [ch.bytes_length]; omega),
      requestOf_bytes]
  cases h with
  | fail hack =>
    refine ⟨fun hes => ?_, fun hr => absurd hr hack⟩
    obtain ⟨-, hread⟩ := answers_line_write.1 hans
    obtain ⟨rfl, rfl, -⟩ := answers_line_read hread hes.tail.head hreply rfl
    exact absurd (by decide) hack
  | next hack hdone =>
    cases hdone
    obtain ⟨-, hread⟩ := answers_line_write.1 hans
    -- an ACK that has not come is not taken for one
    have hr : _ ≠ FPC_BEP_RESULT_TIMEOUT := fun hr => by
      rw [ackResult, if_pos hr] at hack
      exact absurd hack (by decide)
    obtain ⟨-, -, hend⟩ := answers_line_read hread hr hreply rfl
    cases hend
    exact ⟨fun _ => rfl, fun _ => rfl⟩

theorem received_withResult {c : HcpComm} {b : List Byte} (h : c.Received b) :
    c.withResult.Received b := by
  unfold HcpComm.withResult
  split
  · exact h
  · exact h

/-- **A call on an empty line in which no body times out** leaves the line empty if it returns OK,
and the response to its own request in the chain; if nothing else times out either, it leaves the
line empty anyway. -/
theorem call_line {k : Call} {s s' : Line Byte} (hk : IsCall m timedOut s k s')
    (hes : BodiesRead k.events) (hfifo : s.fifo = []) :
    (Untimed k.events → s'.fifo = []) ∧ (k.result = FPC_BEP_RESULT_OK → s'.fifo = [] ∧
      k.after.Received (reassemble (m.answer s.received k.request))) := by
  obtain ⟨hsingle, hruns, hans⟩ := hk
  obtain ⟨ch, hch, hpld⟩ := segments_single (outgoing_length_lt k.before) hsingle
  have hsent {c₁ : HcpComm} {es : List HcpEvent} {r : FpcBepResult}
      (hsend : Runs (bmliteSend.run k.before) es (r, c₁)) : Sent [ch.bytes] es r := by
    have hcases := (runs_send_cases hsend).2
    rw [hch] at hcases
    exact hcases
  rcases runs_tranceive.1 hruns with ⟨hr, es₁, heq, hsend⟩ |
    ⟨es₁, es₂, c₁, c₂, heq, hsend, hrecv, hafter⟩
  · refine ⟨fun hes => ?_, fun hok => absurd hok hr⟩
    rw [heq] at hans hes
    obtain ⟨s₁, hans₁, -⟩ := Env.answers_append.1 hans
    exact absurd ((sent_line (hsent hsend) hans₁ hfifo).1 hes.left) hr
  · rw [heq] at hans hes ⊢
    obtain ⟨s₂, hans, hnote⟩ := Env.answers_append.1 hans
    obtain ⟨s₁, hans₁, hans₂⟩ := Env.answers_append.1 hans
    cases hnote
    have hfifo₁ := (sent_line (hsent hsend) hans₁ hfifo).2 rfl
    rw [hpld] at hfifo₁
    have hcs := (m.numbered s.received k.request).complete (m.ne_nil s.received k.request)
    obtain ⟨hempty, hok⟩ := receive_loop_line _ hrecv hans₂ hes.left.right hfifo₁
      (by rw [if_pos Nat.zero_lt_one]; exact hcs) (by decide)
    refine ⟨fun hes' => hempty hes'.left.right, fun hr => ?_⟩
    obtain ⟨hend, -, hpkt, hsize⟩ := hok hr
    rw [hafter]
    refine ⟨hend, received_withResult ⟨?_, ?_⟩⟩
    · rw [hpkt]
      exact slice_blit_self ..
    · rw [hsize, Nat.zero_add]
      rfl

/-- Until a read times out, nothing is left in the line between two calls. -/
theorem session_empty {ks : List Call} {s : Line Byte} (h : Session m timedOut ks s)
    (hks : ∀ k ∈ ks, Untimed k.events) : s.fifo = [] := by
  induction h with
  | start => rfl
  | call _ hk ih =>
    have hfifo := ih fun j hj => hks j (List.mem_append_left _ hj)
    have hlast := hks _ (List.mem_append_right _ (List.mem_singleton_self _))
    exact (call_line hk hlast.bodies hfifo).1 hlast

/-- **Requests and responses stay paired**: in every run of calls, a call that begins with nothing
in the line, and in which no read for the body of a frame times out, returns OK only with the
response to its own request, and then leaves nothing in the line; and nothing is in the line as long
as no read has timed out. -/
theorem session_paired {ks : List Call} {s s' : Line Byte} (h : Session m timedOut ks s) {k : Call}
    (hk : IsCall m timedOut s k s') :
    ((∀ j ∈ ks, Untimed j.events) → s.fifo = []) ∧
    (s.fifo = [] → BodiesRead k.events → k.result = FPC_BEP_RESULT_OK →
      s'.fifo = [] ∧ k.after.Received (reassemble (m.answer s.received k.request))) :=
  ⟨session_empty h, fun hfifo hes => (call_line hk hes hfifo).2⟩

/-! ## Calls that succeed -/

/-- Chunks that lie in the line arrive, if their reads do not time out. -/
theorem arrive_line (t : Nat) (cs : List Chunk) (s : Line Byte)
    (hno : ∀ i < s.reads + 2 * cs.length, s.reads ≤ i → timedOut i = false)
    (hfifo : s.fifo = cs.flatMap Chunk.bytes) :
    ∃ es s', Arrive t cs es ∧ (m.line timedOut).Answers s es s' ∧ Untimed es ∧
      s'.reads = s.reads + 2 * cs.length := by
  induction cs generalizing s with
  | nil => exact ⟨[], s, .nil, rfl, by simp [Untimed], rfl⟩
  | cons ch cs ih =>
    have hfifo' : s.fifo = ch.link.header ++ (ch.link.tail ++ cs.flatMap Chunk.bytes) := by
      rw [hfifo, List.flatMap_cons, ← List.append_assoc]
      rfl
    rw [List.length_cons] at hno ⊢
    obtain ⟨es, s', harrive, hans, hes, hreads⟩ := ih ⟨cs.flatMap Chunk.bytes,
      s.received ++ [fpcComAck], s.reads + 1 + 1⟩
      (fun i hi hle => hno i (by simp only at hi; omega) (by simp only at hle; omega)) rfl
    refine ⟨_, s', .cons harrive, answers_line_read_of (hno _ (by omega) (by omega)) hfifo' rfl
      (answers_line_read_of (hno _ (by simp only; omega) (by simp only; omega)) rfl
        ch.link.tail_length (answers_line_write.2 ⟨rfl, ?_⟩)), ?_, by rw [hreads]; simp only; omega⟩
    · rw [reply_ack, List.append_nil]
      exact hans
    · intro n t' r d he
      simp only [List.mem_cons, Event.read.injEq, reduceCtorEq, false_or] at he
      rcases he with ⟨-, -, rfl, -⟩ | ⟨-, -, rfl, -⟩ | he
      · decide
      · decide
      · exact hes n t' r d he

/-- **A call on an empty line succeeds if its reads do not time out** and the response fits. -/
theorem exists_call {s : Line Byte} (hfifo : s.fifo = []) {c : HcpComm}
    (hno : ∀ i < s.reads + 1 + 2 * (m.answer s.received c.outgoing).length, s.reads ≤ i →
      timedOut i = false)
    (hsingle : c.outgoing.length < APP_MTU) {rounds : Nat}
    (hrounds : (m.answer s.received c.outgoing).length < rounds)
    (hmax : (reassemble (m.answer s.received c.outgoing)).length < c.pktSizeMax)
    (hlt : (reassemble (m.answer s.received c.outgoing)).length < 65536) :
    ∃ k s', IsCall m timedOut s k s' ∧ Untimed k.events ∧ k.before = c ∧
      k.result = FPC_BEP_RESULT_OK ∧
      s'.reads = s.reads + 1 + 2 * (m.answer s.received c.outgoing).length := by
  obtain ⟨ch, hch, hpld⟩ := segments_single (outgoing_length_lt c) hsingle
  have hreply : s.fifo ++ m.reply s.received ch.bytes =
      fpcComAck ++ (m.answer s.received c.outgoing).flatMap Chunk.bytes := by
    rw [hfifo, List.nil_append, Module.reply, if_neg (by rw [ch.bytes_length]; omega),
      requestOf_bytes, hpld]
  have hsent : Sent ((segments c.outgoing (outgoing_length_lt c)).map Chunk.bytes)
      [.write ch.bytes 0 FPC_BEP_RESULT_OK, .read 4 500 FPC_BEP_RESULT_OK fpcComAck]
      FPC_BEP_RESULT_OK := by
    rw [hch]
    exact .next (by decide) .done
  obtain ⟨es, s', harrive, hans, hes, hreads⟩ := arrive_line (m := m) c.phyRxTimeout
    (m.answer s.received c.outgoing) ⟨(m.answer s.received c.outgoing).flatMap Chunk.bytes,
      s.received ++ [ch.bytes], s.reads + 1⟩
    (fun i hi hle => hno i hi (Nat.le_of_succ_le hle)) rfl
  obtain ⟨t, x, -, hrun⟩ := tranceive_complete hsent harrive
    ((m.numbered _ _).complete (m.ne_nil _ _)) hrounds hmax hlt
  refine ⟨⟨rounds, c, _, FPC_BEP_RESULT_OK, x⟩, s', ⟨hsingle, hrun, ?_⟩, ?_, rfl, rfl, hreads⟩
  · refine Env.answers_append.2 ⟨s', answers_line_write.2 ⟨rfl, ?_⟩, rfl⟩
    exact answers_line_read_of (hno s.reads (by omega) le_rfl) hreply rfl hans
  · intro n t r d he
    simp only [List.cons_append, List.nil_append, List.mem_cons, Event.read.injEq, reduceCtorEq,
      List.mem_append, false_or, List.not_mem_nil, or_false] at he
    rcases he with ⟨-, -, rfl, -⟩ | he
    · decide
    · exact hes n t r d he

theorem echo_length {args : List Byte} (h : args.length ≤ 240) (request : List Byte) :
    (request.take 2 ++ args).length ≤ APP_MTU := by
  simp only [APP_MTU, MTU, List.length_append, List.length_take]
  omega

theorem echo_cmd {args : List Byte} (h : args.length ≤ 240) {request : List Byte}
    (hlen : 2 ≤ request.length) :
    (reassemble [singleChunk (request.take 2 ++ args) (echo_length h request)]).take 2 =
      request.take 2 := by
  rw [reassemble_single]
  exact List.take_left' (by rw [List.length_take]; omega)

/-- The module that answers every command with the same arguments. -/
def echo (args : List Byte) (h : args.length ≤ 240) : Module where
  answer _ request := [singleChunk (request.take 2 ++ args) (echo_length h request)]
  numbered _ _ := ⟨rfl, rfl, rfl⟩
  ne_nil _ _ := List.cons_ne_nil _ _
  cmd_eq _ _ := echo_cmd h

/-- A call whose ACK does not come in time. -/
theorem exists_call_unacked {s : Line Byte} (htimeout : timedOut s.reads = true) {c : HcpComm}
    (hsingle : c.outgoing.length < APP_MTU) : ∃ k s', IsCall m timedOut s k s' ∧
      BodiesRead k.events ∧ ¬ Untimed k.events ∧ k.result = FPC_BEP_RESULT_IO_ERROR := by
  have hack : ackResult FPC_BEP_RESULT_TIMEOUT (([] : List Byte).take 4) =
      FPC_BEP_RESULT_IO_ERROR := by decide
  obtain ⟨f, x, hrun, -⟩ := tranceive_unacked c hack
  refine ⟨⟨1, c, _, _, x.after⟩, _, ⟨hsingle, hrun,
    answers_line_write.2 ⟨rfl, _, if_pos (.inl htimeout), rfl⟩⟩, ?_, fun hes => ?_, rfl⟩
  · intro n t r d hmem hne
    simp only [List.mem_cons, Event.read.injEq, reduceCtorEq, false_or, List.not_mem_nil,
      or_false] at hmem
    exact absurd hmem.1 hne
  · exact hes 4 500 _ [] (List.mem_cons_of_mem _ (List.mem_cons_self ..)) rfl

/-- Two calls that succeed, and one that waits for its ACK in vain. -/
theorem session_paired_timeout :
    let m := echo [0, 0] (by decide)
    ∃ k₁ s₁ k₂ s₂ k₃ s₃, Session m (fun i => i = 6) [k₁] s₁ ∧
      (IsCall m (fun i => i = 6) s₁ k₂ s₂ ∧ k₂.result = FPC_BEP_RESULT_OK ∧
        k₂.after.Received (reassemble (m.answer s₁.received k₂.request))) ∧
      IsCall m (fun i => i = 6) s₂ k₃ s₃ ∧ s₂.fifo = [] ∧ BodiesRead k₃.events ∧
        ¬ Untimed k₃.events ∧ (k₃.result = FPC_BEP_RESULT_OK →
          k₃.after.Received (reassemble (m.answer s₂.received k₃.request))) := by
  intro m
  have hlen (received : List (List Byte)) (request : List Byte) :
      (reassemble (m.answer received request)).length ≤ 4 := by
    rw [show reassemble (m.answer received request) = _ from reassemble_single _ _]
    simp
  have hcall {s : Line Byte} (hfifo : s.fifo = []) (hreads : s.reads ≤ 3) (cmd argKey : Nat)
      (hsingle : (hcpChain.prepare cmd argKey).outgoing.length < APP_MTU) : ∃ k s',
      IsCall m (fun i => i = 6) s k s' ∧ Untimed k.events ∧ k.result = FPC_BEP_RESULT_OK ∧
        s'.reads = s.reads + 3 := by
    have hno (i : Nat) (hi : i < s.reads + 1 + 2 * 1) (_ : s.reads ≤ i) :
        decide (i = 6) = false := decide_eq_false (by omega)
    obtain ⟨k, s', hk, hes, -, hr, hreads'⟩ := @exists_call m _ s hfifo _ hno hsingle 2
      (Nat.le_refl 2) ((hlen _ _).trans_lt (by rw [prepare_max_eq]; decide))
      ((hlen _ _).trans_lt (by decide))
    exact ⟨k, s', hk, hes, hr, hreads'⟩
  obtain ⟨k₁, s₁, hk₁, hes₁, -, hreads₁⟩ := hcall (s := ⟨[], [], 0⟩) rfl (Nat.zero_le 3)
    CMD_CAPTURE ARG_NONE (by decide)
  have h₁ : Session m (fun i => i = 6) [k₁] s₁ := .call .start hk₁
  have hfifo₁ := session_empty h₁ (by simpa using hes₁)
  obtain ⟨k₂, s₂, hk₂, hes₂, hr₂, hreads₂⟩ := hcall hfifo₁ hreads₁.le CMD_IDENTIFY ARG_NONE
    (by decide)
  have h₂ : Session m (fun i => i = 6) [k₁, k₂] s₂ := .call h₁ hk₂
  obtain ⟨k₃, s₃, hk₃, hes₃, htimed, -⟩ := @exists_call_unacked m (fun i => i = 6) s₂
    (decide_eq_true (hreads₂.trans (congrArg (· + 3) hreads₁)))
    (hcpChain.prepare CMD_ENROLL ARG_START) (by decide +kernel)
  obtain ⟨hempty, hpaired⟩ := session_paired h₂ hk₃
  have hfifo₂ := hempty (by simpa using ⟨hes₁, hes₂⟩)
  exact ⟨k₁, s₁, k₂, s₂, k₃, s₃, h₁, ⟨hk₂, hr₂, ((session_paired h₁ hk₂).2 hfifo₁ hes₂.bodies
    hr₂).2⟩, hk₃, hfifo₂, hes₃, htimed, fun hr => (hpaired hfifo₂ hes₃ hr).2⟩

theorem HcpComm.Received.packet_eq {c : HcpComm} {b : List Byte} (h : c.Received b)
    (hb : b.length < 65536) : c.packet = b := by
  rw [HcpComm.packet, h.2, Nat.mod_eq_of_lt hb, h.1]

theorem exists_call_of_runIn {s s' : Line Byte} {c c' : HcpComm} {rounds : Nat} {r : FpcBepResult}
    (hsingle : c.outgoing.length < APP_MTU)
    (h : ((bmliteTranceive rounds).run c).runIn (m.line timedOut) s = some ((r, c'), s')) :
    ∃ es, IsCall m timedOut s ⟨rounds, c, es, r, c'⟩ s' := by
  obtain ⟨es, hrun, hans⟩ := runIn_iff.1 h
  exact ⟨es, hsingle, hrun, hans⟩

/-- **After a timeout the response to an earlier request is accepted**: the ACK of the first call
is not read, and the second call returns OK with the response to the first.  And where the body of
a response is not read, the request itself is accepted. -/
theorem session_unpaired :
    (∃ m timedOut k₁ s₁ k₂ s₂, Session m timedOut [k₁] s₁ ∧ IsCall m timedOut s₁ k₂ s₂ ∧
      k₂.result = FPC_BEP_RESULT_OK ∧
      ¬ k₂.after.Received (reassemble (m.answer s₁.received k₂.request))) ∧
    ∃ m timedOut k s, IsCall m timedOut ⟨[], [], 0⟩ k s ∧ k.result = FPC_BEP_RESULT_OK ∧
      ¬ k.after.Received (reassemble (m.answer [] k.request)) := by
  constructor
  · let m := echo [0, 0] (by decide)
    let timedOut : Nat → Bool := fun i => i = 0
    let c₁ := hcpChain.prepare CMD_CAPTURE ARG_NONE
    have heval : ((((bmliteTranceive 2).run c₁).runIn (m.line timedOut) ⟨[], [], 0⟩).bind fun x =>
        (((bmliteTranceive 2).run (x.1.2.prepare CMD_IDENTIFY ARG_NONE)).runIn (m.line timedOut)
          x.2).map fun y => (y.1.1, y.1.2.packet)) =
        some (FPC_BEP_RESULT_OK, [1, 0, 0, 0]) := by
      decide +kernel
    obtain ⟨⟨⟨r₁, c₁'⟩, s₁⟩, h₁, hrest⟩ := Option.bind_eq_some_iff.1 heval
    obtain ⟨⟨⟨r₂, c₂'⟩, s₂⟩, h₂, heq⟩ := Option.map_eq_some_iff.1 hrest
    obtain ⟨rfl, hpkt⟩ := Prod.mk.inj heq
    have hout : (c₁'.prepare CMD_IDENTIFY ARG_NONE).outgoing = [3, 0, 0, 0] := by
      have hsize := prepare_size_le c₁' CMD_IDENTIFY ARG_NONE
      rw [outgoing_eq_packet (by omega), prepare_packet _ _ (by decide)]
      decide
    obtain ⟨es₁, hk₁⟩ := exists_call_of_runIn (by decide) h₁
    obtain ⟨es₂, hk₂⟩ := exists_call_of_runIn (by rw [hout]; decide) h₂
    refine ⟨m, timedOut, _, s₁, _, s₂, .call .start hk₁, hk₂, rfl, fun hrecv => ?_⟩
    have hpkt' := hrecv.packet_eq (by simp [m, echo, Call.request, hout, singleChunk])
    rw [hpkt] at hpkt'
    exact absurd hpkt' (by simp [m, echo, Call.request, hout, singleChunk])
  · let m := echo [1, 0, 2, 0x20, 0, 0] (by decide)
    let timedOut : Nat → Bool := fun i => i = 2
    let c := hcpChain.prepare CMD_ENROLL ARG_START
    have heval : (((bmliteTranceive 2).run c).runIn (m.line timedOut) ⟨[], [], 0⟩).map
        (fun x => (x.1.1, x.1.2.packet)) =
        some (FPC_BEP_RESULT_OK, [2, 0, 1, 0, 3, 0, 0, 0]) := by
      decide +kernel
    obtain ⟨⟨⟨r, c'⟩, s⟩, h, heq⟩ := Option.map_eq_some_iff.1 heval
    obtain ⟨rfl, hpkt⟩ := Prod.mk.inj heq
    have hout : c.outgoing = [2, 0, 1, 0, 3, 0, 0, 0] := by decide +kernel
    obtain ⟨es, hk⟩ := exists_call_of_runIn (by rw [hout]; decide) h
    refine ⟨m, timedOut, _, s, hk, rfl, fun hrecv => ?_⟩
    have hpkt' := hrecv.packet_eq (by simp [m, echo, Call.request, hout, singleChunk])
    rw [hpkt] at hpkt'
    exact absurd hpkt' (by simp [m, echo, Call.request, hout, singleChunk])

end BMLite
