import BMLite.HalSpi
import BMLite.Lib.Handler
import BMLite.Ready
import BMLite.Safety

/-!
# The interface over the SPI bus

The callbacks of `platform.c` over `hal_spi.c` and its driver: the whole stack of the host, down to
the wires.

* `Board` — the pins, the clock and the button, and the bytes with which the sensor answers;
* `busEnv` — the channel that the board makes up;
* `bus_refines_platform` — **the driver is a hardware layer**: what a process does over the bus it
  does over the callbacks in some world with the same pins, clock and button;
* `OnWires` — what the events of a run look like on the wires: a window of chip select for each
  block and for each read that has not timed out;
* `session_on_wires` — **every sequence of calls** looks so.
-/

set_option autoImplicit false

namespace BMLite

open FlatMemory Process Oracle
open HalSpi (SpiState Wire Clocked mosiOf orc)

variable {α : Type}

/-! ## The stack -/

/-- What the functions of the platform find. -/
structure Board where
  /-- The pins, the clock and the button; its bytes are not used. -/
  world : World
  /-- The answer to the byte that is clocked as number `i`. -/
  sensor : Nat → Byte
  /-- The array `buff` of the function that makes the call with this number; nobody fills it. -/
  buff : Nat → Mem Byte

/-- The callbacks. -/
def platformOps (polls : Nat) : Ops HalCall HalCall.Answer Byte FpcBepResult where
  write data _ := sendProg data.length
  read size timeout := receiveProg polls size (BitVec.ofNat 32 timeout)

theorem platformEnv_eq (w : World) (polls : Nat) :
    platformEnv w polls = oracleEnv (platformOps polls) w.answer := rfl

/-- The hardware layer of the board: a transfer from the memory at `write` goes through `hal_spi.c`,
and delivers what that has stored. -/
def Board.handler (b : Board) (write : Nat → Mem Byte) :
    Handler HalCall HalCall.Answer SpiState
  | n, .getStatus, s => some (b.world.ready n, s)
  | n, .getTick, s => some (b.world.tick n, s)
  | n, .checkButtonPressed, s => some (b.world.button n, s)
  | n, .spiWriteRead size, s =>
    ((HalSpi.halBmliteSpiWriteRead b.sensor (write n) size false).run s).map fun x =>
      (slice x.2.read 0 size, x.2)

section

variable (b : Board) (write : Nat → Mem Byte) (n : Nat) (s : SpiState)

theorem handle_getStatus (f : Bool → HalProg α) : (getStatus >>= f).handle (b.handler write) n s =
    (f (b.world.ready n)).handle (b.handler write) (n + 1) s := rfl

theorem handle_getTick (f : BitVec 32 → HalProg α) :
    (getTick >>= f).handle (b.handler write) n s =
      (f (b.world.tick n)).handle (b.handler write) (n + 1) s := rfl

theorem handle_checkButton (f : BitVec 32 → HalProg α) :
    (checkButtonPressed >>= f).handle (b.handler write) n s =
      (f (b.world.button n)).handle (b.handler write) (n + 1) s := rfl

theorem handle_spiRead (size : Nat) (f : List Byte → HalProg α) :
    (spiRead size >>= f).handle (b.handler write) n s =
      (b.handler write n (.spiWriteRead size) s).bind fun x =>
        (f x.1).handle (b.handler write) (n + 1) x.2 := rfl

end

/-- The callbacks on the board.  A block is clocked out while the answers go to `buff`; a read
clocks out what is in `buff`. -/
def busEnv (b : Board) (polls : Nat) : Env Byte FpcBepResult (Nat × SpiState) :=
  handlerEnv (platformOps polls) (fun data => b.handler fun n => blit (b.buff n) 0 data)
    (b.handler b.buff)

/-! ## The driver is a hardware layer -/

/-- The answer is the world's, unless it is a transfer's. -/
def Board.Allows (b : Board) (n : Nat) : (q : HalCall) → q.Answer → Prop
  | .getStatus, x => x = b.world.ready n
  | .getTick, x => x = b.world.tick n
  | .checkButtonPressed, x => x = b.world.button n
  | .spiWriteRead _, _ => True

/-- **No call hangs**, and none leaves a byte in `TXD`. -/
theorem handler_meets (b : Board) (write : Nat → Mem Byte) :
    (b.handler write).Meets (fun s => s.txd = []) b.Allows := by
  intro n q s htxd
  cases q with
  | getStatus => exact ⟨_, s, rfl, rfl, htxd⟩
  | getTick => exact ⟨_, s, rfl, rfl, htxd⟩
  | checkButtonPressed => exact ⟨_, s, rfl, rfl, htxd⟩
  | spiWriteRead size =>
    obtain ⟨s', hrun, hclocked⟩ := HalSpi.write_read_run b.sensor (write n) htxd size false
    exact ⟨slice s'.read 0 size, s', by simp [Board.handler, hrun], trivial, hclocked.txd_eq⟩

theorem allows_world (b : Board) (n : Nat) (q : HalCall) : b.Allows n q (b.world.answer n q) := by
  cases q <;> first | rfl | trivial

/-- An oracle with the pins, the clock and the button of the board is a world with them. -/
theorem oracle_world {b : Board} {o : (n : Nat) → (q : HalCall) → q.Answer}
    (ho : ∀ n q, b.Allows n q (o n q)) :
    o = World.answer { b.world with miso := fun n size => o n (.spiWriteRead size) } := by
  funext n q
  cases q with
  | getStatus => exact ho n .getStatus
  | getTick => exact ho n .getTick
  | checkButtonPressed => exact ho n .checkButtonPressed
  | spiWriteRead size => rfl

/-- **The bus refines the platform.**  What a process does over the driver it does over the
callbacks alone, in a world with the same pins, clock and button, in which transfers deliver certain
bytes: it comes to the same result after the same number of calls of the hardware layer, and it goes
on forever over the driver only if it does so there.  So whatever is shown of the callbacks in every
world holds over the driver. -/
theorem bus_refines_platform (b : Board) (polls : Nat) (p : HcpProc α) (n : Nat) {s : SpiState}
    (htxd : s.txd = []) : ∃ miso,
      p.runIn (platformEnv { b.world with miso := miso } polls) n =
        (p.runIn (busEnv b polls) (n, s)).map fun x => (x.1, x.2.1) := by
  have hwrite (data : List Byte) := handler_meets b fun n => blit (b.buff n) 0 data
  have hread := handler_meets b b.buff
  obtain ⟨o, ho, hrun : _ = (p.runIn (busEnv b polls) (n, s)).map _⟩ :=
    handled_by_oracle (n := n) hwrite hread (allows_world b) p htxd
  refine ⟨fun n size => o n (.spiWriteRead size), ?_⟩
  rw [platformEnv_eq, ← oracle_world ho]
  exact hrun

/-- The ready pin is high, nobody presses the button, and the sensor answers with zeros. -/
def readyBoard : Board := ⟨⟨fun _ => true, fun _ => 0, fun _ => 0, fun _ _ => []⟩, fun _ => 0,
  fun _ _ => 0⟩

/-- Resetting the module over the driver. -/
theorem bus_refines_platform_reset : ∃ miso,
    ((BepCall.swReset.run 100).run hcpChain).runIn
        (platformEnv { readyBoard.world with miso := miso } 1) 0 =
      (((BepCall.swReset.run 100).run hcpChain).runIn (busEnv readyBoard 1)
        (0, HalSpi.idle)).map fun x => (x.1, x.2.1) :=
  bus_refines_platform readyBoard 1 _ 0 rfl

/-! ## What the sensor sees -/

/-- A transfer on the wires: chip select is asserted, the bytes are clocked, and it is released. -/
def Window (bytes : List Byte) (ws : List Wire) : Prop :=
  ∃ vs, ws = .select :: (vs ++ [.release]) ∧ .release ∉ vs ∧ mosiOf vs = bytes

/-- What is clocked for a block: after 255 bytes the over-run character of an empty transfer
follows. -/
def sent (data : List Byte) : List Byte := data ++ if data.length = 255 then [orc] else []

/-- The events of a run between two moments: one window with its bytes for each block, and one for
each read that has not timed out, in which the sensor answers with what is read. -/
inductive OnWires (sensor : Nat → Byte) : List Wire → List HcpEvent → List Wire → Prop
  | nil (ws) : OnWires sensor ws [] ws
  | note {ws es ws'} (x) : OnWires sensor ws es ws' → OnWires sensor ws (.note x :: es) ws'
  | write {ws vs es ws' data} (t) : Window (sent data) vs → OnWires sensor (ws ++ vs) es ws' →
      OnWires sensor ws (.write data t FPC_BEP_RESULT_OK :: es) ws'
  | read {ws vs es ws' bytes} (t) : Window bytes vs → OnWires sensor (ws ++ vs) es ws' →
      OnWires sensor ws (.read bytes.length t FPC_BEP_RESULT_OK
        (slice sensor (mosiOf ws).length bytes.length) :: es) ws'
  | timeout {ws es ws'} (n t) : OnWires sensor ws es ws' →
      OnWires sensor ws (.read n t FPC_BEP_RESULT_TIMEOUT [] :: es) ws'

/-- A transfer that releases chip select is a window. -/
theorem clocked_window {miso : Nat → Byte} {bytes : List Byte} {q n : Nat} {s s' : SpiState}
    (h : Clocked miso false bytes q n s s') : ∃ vs, s'.wires = s.wires ++ vs ∧ Window bytes vs := by
  obtain ⟨ws, hwires, hrel, hbytes⟩ := h.wires_eq
  exact ⟨_, hwires, ws, rfl, hrel, hbytes⟩

/-- **A block** of a size that the transport layer uses. -/
theorem block_window (b : Board) {n : Nat} {s : SpiState} (htxd : s.txd = []) {data : List Byte}
    (hmin : 4 ≤ data.length) (hmax : data.length ≤ 256) :
    ∃ s' vs, (HalSpi.halBmliteSpiWriteRead b.sensor (blit (b.buff n) 0 data) data.length false).run
        s = some (FPC_BEP_RESULT_OK, s') ∧
      s'.wires = s.wires ++ vs ∧ Window (sent data) vs ∧ s'.txd = [] := by
  have hbytes : slice (blit (b.buff n) 0 data) 0 data.length = data := holds_blit ..
  unfold sent
  split <;> rename_i hlen
  · obtain ⟨s', hrun, hclocked⟩ := HalSpi.write_read_extra b.sensor (blit (b.buff n) 0 data) htxd
      (show data.length % 255 = 0 by omega) (by omega) false
    rw [hbytes] at hclocked
    obtain ⟨vs, hvs, hwindow⟩ := clocked_window hclocked
    exact ⟨s', vs, hrun, hvs, hwindow, hclocked.txd_eq⟩
  · obtain ⟨s', hrun, hclocked⟩ := HalSpi.write_read_exact b.sensor (blit (b.buff n) 0 data) htxd
      (show data.length % 255 ≠ 0 by omega) (by omega) false
    rw [hbytes] at hclocked
    obtain ⟨vs, hvs, hwindow⟩ := clocked_window hclocked
    exact ⟨s', vs, hrun, hvs, by rw [List.append_nil]; exact hwindow, hclocked.txd_eq⟩

/-- **A read** of a size that the transport layer uses. -/
theorem read_window (b : Board) (write : Mem Byte) {s : SpiState} (htxd : s.txd = []) {size : Nat}
    (hmin : 4 ≤ size) (hmax : size ≤ 252) :
    ∃ s' vs bytes, (HalSpi.halBmliteSpiWriteRead b.sensor write size false).run s =
        some (FPC_BEP_RESULT_OK, s') ∧
      s'.wires = s.wires ++ vs ∧ Window bytes vs ∧ bytes.length = size ∧
      slice s'.read 0 size = slice b.sensor (mosiOf s.wires).length size ∧ s'.txd = [] := by
  obtain ⟨s', hrun, hclocked⟩ := HalSpi.write_read_exact b.sensor write htxd
    (show size % 255 ≠ 0 by omega) (by omega) false
  obtain ⟨vs, hvs, hwindow⟩ := clocked_window hclocked
  refine ⟨s', vs, _, hrun, hvs, hwindow, slice_length .., ?_, hclocked.txd_eq⟩
  have hstored := slice_blit_self s.read 0 (slice b.sensor (mosiOf s.wires).length size)
  rw [slice_length] at hstored
  rw [hclocked.read_eq, hstored]

/-- Polling does not move a wire. -/
theorem wait_handle (b : Board) (write : Nat → Mem Byte) (timeout startTime : BitVec 32)
    (polls : Nat) : ∀ {currTime : BitVec 32} {n n' : Nat} {s s' : SpiState}
      {r : Option (BitVec 32)},
      (receiveProg.wait timeout startTime polls currTime).handle (b.handler write) n s =
        some (r, n', s') → s' = s := by
  induction polls with
  | zero =>
    intro currTime n n' s s' r h
    cases h
  | succ polls ih =>
    intro currTime n n' s s' r h
    rw [receiveProg.wait, handle_getStatus] at h
    split at h
    · cases h
      rfl
    split at h
    · rw [handle_checkButton] at h
      split at h
      · cases h
        rfl
      · exact ih h
    · rw [handle_getTick] at h
      split at h
      · rw [handle_checkButton] at h
        split at h
        · cases h
          rfl
        · exact ih h
      · cases h
        rfl

/-- **`platform_bmlite_receive`** times out without a transfer, or makes one. -/
theorem receive_handle {b : Board} {write : Nat → Mem Byte} {polls size n n' : Nat}
    {timeout : BitVec 32} {s s' : SpiState} {r : FpcBepResult} {d : List Byte}
    (h : (receiveProg polls size timeout).handle (b.handler write) n s = some ((r, d), n', s')) :
    (r = FPC_BEP_RESULT_TIMEOUT ∧ d = [] ∧ s' = s) ∨
      (r = FPC_BEP_RESULT_OK ∧
        ∃ m, b.handler write m (.spiWriteRead size) s = some (d, s')) := by
  rw [receiveProg, handle_getTick, handle_bind] at h
  obtain ⟨⟨found, m, s₁⟩, hwait, h⟩ := Option.bind_eq_some_iff.1 h
  obtain rfl := wait_handle b write timeout _ polls hwait
  cases found with
  | none =>
    cases h
    exact .inl ⟨rfl, rfl, rfl⟩
  | some currTime =>
    dsimp only at h
    split at h
    · cases h
      exact .inl ⟨rfl, rfl, rfl⟩
    · rw [handle_spiRead] at h
      obtain ⟨⟨d', s₂⟩, hread, h⟩ := Option.bind_eq_some_iff.1 h
      cases h
      exact .inr ⟨rfl, m, hread⟩

/-- **`platform_bmlite_send`** makes a transfer. -/
theorem onWrite_bus {b : Board} {polls n t : Nat} {data : List Byte} {s s' : SpiState}
    (hrun : (HalSpi.halBmliteSpiWriteRead b.sensor (blit (b.buff n) 0 data) data.length false).run
      s = some (FPC_BEP_RESULT_OK, s')) :
    (busEnv b polls).onWrite (n, s) data t = some (FPC_BEP_RESULT_OK, (n + 1, s')) := by
  show (sendProg data.length).handle _ n s = _
  rw [sendProg, handle_spiRead]
  simp only [Board.handler, hrun, Option.map_some, Option.bind_some]
  rfl

/-- The sizes that the transport layer uses. -/
def busPolicy : Policy Action Byte where
  access _ := True
  write data := 4 ≤ data.length ∧ data.length ≤ 256
  read n _ := 4 ≤ n ∧ n ≤ 252

/-- **Events over the bus**, as the sensor sees them. -/
theorem answers_onWires {b : Board} {polls : Nat} (es : List HcpEvent) :
    ∀ {n n' : Nat} {s s' : SpiState}, s.txd = [] → (∀ e ∈ es, busPolicy.Meets e) →
      (busEnv b polls).Answers (n, s) es (n', s') →
      OnWires b.sensor s.wires es s'.wires ∧ s'.txd = [] := by
  induction es with
  | nil =>
    intro n n' s s' htxd _ h
    cases h
    exact ⟨.nil _, htxd⟩
  | cons e es ih =>
    intro n n' s s' htxd hes h
    have he := hes e (List.mem_cons_self ..)
    replace hes : ∀ e ∈ es, busPolicy.Meets e := fun e he => hes e (List.mem_cons_of_mem _ he)
    cases e with
    | note x =>
      obtain ⟨hrest, htxd'⟩ := ih htxd hes h
      exact ⟨.note x hrest, htxd'⟩
    | write data t r =>
      obtain ⟨⟨m, s₁⟩, hwrite, h⟩ := h
      obtain ⟨s₂, vs, hrun, hvs, hwindow, htxd₁⟩ := block_window b (n := n) htxd he.1 he.2
      cases hwrite.symm.trans (onWrite_bus hrun)
      obtain ⟨hrest, htxd'⟩ := ih htxd₁ hes h
      rw [hvs] at hrest
      exact ⟨.write t hwindow hrest, htxd'⟩
    | read size t r d =>
      obtain ⟨⟨m, s₁⟩, hread, h⟩ := h
      rcases receive_handle hread with ⟨rfl, rfl, rfl⟩ | ⟨rfl, m', hcall⟩
      · obtain ⟨hrest, htxd'⟩ := ih htxd hes h
        exact ⟨.timeout size t hrest, htxd'⟩
      · obtain ⟨s₂, vs, bytes, hrun, hvs, hwindow, hlen, hdata, htxd₁⟩ :=
          read_window b (b.buff m') htxd he.1 he.2
        simp only [Board.handler, hrun, Option.map_some] at hcall
        cases hcall
        obtain ⟨hrest, htxd'⟩ := ih htxd₁ hes h
        rw [hvs] at hrest
        rw [hdata, ← hlen]
        exact ⟨.read t hwindow hrest, htxd'⟩

/-! ## Sequences of calls -/

theorem listed_length {qs : List Command} {data : List Byte} (h : Listed qs data) :
    4 ≤ data.length ∧ data.length ≤ 256 := by
  rcases h with rfl | ⟨q, -, hlt, ch, -, rfl⟩
  · decide
  · have hlen := ch.bytes_length
    have hle := ch.payload_le
    simp only [APP_MTU, MTU] at hle
    omega

/-- Only the last chunk of a packet is not full. -/
theorem segments_payload {packet : List Byte} (hlt : packet.length < 65536) {ch : Chunk}
    (h : ch ∈ segments packet hlt) :
    ch.payload.length = 242 ∨ ch.payload.length = packet.length % 242 := by
  obtain ⟨i, rfl⟩ := List.mem_ofFn.1 h
  have hi := i.isLt
  simp only [segment, List.length_take, List.length_drop, APP_MTU, MTU] at hi ⊢
  omega

/-- **The whole stack.**  In every sequence of calls over the driver, whatever the pins, the clock,
the button and the sensor do, the wires show one window of chip select for each block that is
written, with exactly its bytes unless it has 255, when an over-run character follows, and one for
each read that does not time out, in which the sensor answers with exactly the bytes that are read;
nothing else.  There is no block of 255 bytes unless a request has 241 bytes more than a multiple of
242. -/
theorem session_on_wires {max rounds : Nat} {calls : List BepCall}
    (hcalls : ∀ call ∈ calls, call.Valid) {c : HcpComm} (hc : c.Sound max) {b : Board}
    {polls n n' : Nat} {s s' : SpiState} (htxd : s.txd = []) {es : List HcpEvent}
    {q : HcpProc (List ((FpcBepResult × Output) × FpcBepResult) × HcpComm)}
    (hsteps : Steps ((session rounds calls).run c) es q)
    (hans : (busEnv b polls).Answers (n, s) es (n', s')) :
    OnWires b.sensor s.wires es s'.wires ∧
    ((∀ call ∈ calls, ∀ q ∈ call.requests, q.packet.length % 242 ≠ 241) →
      ∀ data t r, .write data t r ∈ es → sent data = data) := by
  let reach := (calls.map BepCall.overread).sum
  have hkept : Kept max reach (calls.flatMap BepCall.requests) (session rounds calls)
      (AllSpared calls) :=
    session_kept calls hcalls (fun j hj => List.le_sum_of_mem (List.mem_map_of_mem hj))
      fun j hj q hq => List.mem_flatMap.2 ⟨j, hj, hq⟩
  have hmeets {e : HcpEvent} (he : e ∈ es) := (hkept c hc).events hsteps he
  constructor
  · refine (answers_onWires es htxd (fun e he => ?_) hans).1
    have hallowed := hmeets he
    cases e with
    | note x => trivial
    | write data t r => exact listed_length hallowed
    | read size t r d => exact hallowed
  · intro hfits data t r hmem
    have hlen : data.length ≠ 255 := by
      rcases (hmeets hmem : Listed _ data) with rfl | ⟨q, hq, hlt, ch, hch, rfl⟩
      · decide
      · obtain ⟨call, hcall, hq⟩ := List.mem_flatMap.1 hq
        have hmod := hfits call hcall q hq
        have hbytes := ch.bytes_length
        have hcut := segments_payload hlt hch
        omega
    rw [sent, if_neg hlen, List.append_nil]

/-- A read that finds the ready pin high. -/
theorem onRead_ready {b : Board} {polls n size t : Nat} {s s' : SpiState}
    (hready : b.world.ready (n + 1) = true)
    (hrun : (HalSpi.halBmliteSpiWriteRead b.sensor (b.buff (n + 2)) size false).run s =
      some (FPC_BEP_RESULT_OK, s')) :
    (busEnv b (polls + 1)).onRead (n, s) size t =
      some ((FPC_BEP_RESULT_OK, slice s'.read 0 size), (n + 3, s')) := by
  have hwait (timeout startTime : BitVec 32) :
      (receiveProg.wait timeout startTime (polls + 1) startTime).handle (b.handler b.buff) (n + 1) s =
        some (some startTime, n + 2, s) := by
    rw [receiveProg.wait, handle_getStatus, if_pos hready]
    rfl
  have hpassed (timeout startTime : BitVec 32) :
      ¬ (timeout ≠ 0 ∧ timeout ≤ startTime - startTime) := by
    rw [sub_self]
    exact fun h => h.1 (BitVec.eq_of_toNat_eq (Nat.le_zero.1 (BitVec.le_def.1 h.2)))
  show (receiveProg (polls + 1) size _).handle (b.handler b.buff) n s = _
  rw [receiveProg, handle_getTick, handle_bind, hwait, Option.bind_some]
  dsimp only
  rw [if_neg (hpassed _ _), handle_spiRead]
  simp only [Board.handler, hrun, Option.map_some, Option.bind_some]
  rfl

/-- A reset on a bus that has not been used: the frame is written, and zeros are read for its ACK. -/
theorem session_on_wires_reset : ∃ (f : List Byte) (x : Exchange) (s' : SpiState),
    (∃ q, Steps ((session 1 [.swReset]).run hcpChain)
      [.write f 0 FPC_BEP_RESULT_OK, .read 4 500 FPC_BEP_RESULT_OK [0, 0, 0, 0], .note x] q) ∧
    OnWires readyBoard.sensor [] [.write f 0 FPC_BEP_RESULT_OK,
      .read 4 500 FPC_BEP_RESULT_OK [0, 0, 0, 0], .note x] s'.wires := by
  have hvalid : ∀ call ∈ [BepCall.swReset], call.Valid := by simp [BepCall.Valid]
  have hack : ackResult FPC_BEP_RESULT_OK (([0, 0, 0, 0] : List Byte).take 4) =
      FPC_BEP_RESULT_IO_ERROR := by decide
  obtain ⟨f, x, hrun, -⟩ := tranceive_unacked (hcpChain.prepare CMD_RESET ARG_NONE) hack
  have hsend := (@runs_sendCmd hcpChain x.after 1 CMD_RESET ARG_NONE _
    FPC_BEP_RESULT_IO_ERROR).2 (by rw [if_neg (by decide)]; exact hrun)
  have hsession : ∃ q, Steps ((session 1 [.swReset]).run hcpChain) [.write f 0 FPC_BEP_RESULT_OK,
      .read 4 500 FPC_BEP_RESULT_OK [0, 0, 0, 0], .note x] q := by
    simp only [session, StateT.run_bind]
    exact ⟨_, Steps.bind (Steps.bind hsend _) _⟩
  obtain ⟨q, hsteps⟩ := hsession
  have hlisted : Listed BepCall.swReset.requests f :=
    ((@session_kept 5120 8 1 _ [.swReset] hvalid (by simp [BepCall.overread]) (by simp)) hcpChain
      hcpChain_sound).events hsteps (List.mem_cons_self ..)
  obtain ⟨s₁, vs, hwrite, -, -, htxd⟩ := block_window readyBoard (n := 0)
    (show HalSpi.idle.txd = [] from rfl) (listed_length hlisted).1 (listed_length hlisted).2
  obtain ⟨s₂, ws, bytes, hread, -, -, -, hdata, -⟩ := read_window readyBoard (readyBoard.buff 3)
    htxd (Nat.le_refl 4) (by decide)
  have honWrite : (busEnv readyBoard 1).onWrite (0, HalSpi.idle) f 0 =
      some (FPC_BEP_RESULT_OK, (1, s₁)) := onWrite_bus hwrite
  have honRead : (busEnv readyBoard 1).onRead (1, s₁) 4 500 =
      some ((FPC_BEP_RESULT_OK, slice s₂.read 0 4), (4, s₂)) := onRead_ready rfl hread
  rw [hdata] at honRead
  exact ⟨f, x, s₂, ⟨q, hsteps⟩, (session_on_wires hvalid hcpChain_sound rfl hsteps
    ⟨_, honWrite, _, honRead, rfl⟩).1⟩

end BMLite
