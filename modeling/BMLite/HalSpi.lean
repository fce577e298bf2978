import BMLite.Segment

/-!
# `hal_spi.c`, on the driver `nrfx_spi.c`

* `Spi` — functions that work on the registers of SPI0, the control block of the driver and the
  pins;
* `transferByte`, `spiXfer`, `nrfDrvSpiTransfer` — the driver, in its non-blocking mode;
* `spiWriteRead`, `halBmliteSpiWriteRead` — the hardware layer;
* `transfer_run` — **a transfer** of length `n` clocks the `n` bytes of its buffer, and an empty one
  the over-run character;
* `write_read_run` — **what a call clocks**; `spi_exact_iff` — when that is what it was asked for.

The pointers `write` and `read` point into memories that do not overlap, as in the two callers.
The driver is configured without a slave-select pin, so chip select is the business of
`hal_spi.c`, and no transfer is ever aborted.  `nrf_drv_spi_transfer` is not called again before
the event handler has seen the end of the transfer, so it is never busy.
-/

set_option autoImplicit false

namespace BMLite.HalSpi

open FlatMemory

/-! ## The peripheral -/

/-- What can be seen on the wires: chip select goes low or high, or a byte is clocked. -/
inductive Wire where
  | select
  | release
  | clock (mosi : Byte)
  deriving DecidableEq

/-- `nrfx_spi_xfer_desc_t`; the pointers are offsets from the caller's `write` and `read`. -/
structure XferDesc where
  pTxBuffer : Nat
  txLength : Nat
  pRxBuffer : Nat
  rxLength : Nat

structure SpiState where
  /-- The wires so far. -/
  wires : List Wire
  /-- The bytes written to the double-buffered `TXD` register that have not been clocked. -/
  txd : List Byte
  /-- `evt.xfer_desc` and `bytes_transferred` of the control block. -/
  xferDesc : XferDesc
  bytesTransferred : Nat
  /-- `spi_xfer_done`. -/
  spiXferDone : Bool
  /-- The memory at the caller's `read`. -/
  read : Mem Byte

/-- A function has no result if it waits for an event that never comes. -/
abbrev Spi := StateT SpiState Option

/-- The bytes clocked, as the sensor sees them. -/
def mosiOf (ws : List Wire) : List Byte :=
  ws.filterMap fun w => match w with
    | .clock b => some b
    | _ => none

def wire (w : Wire) : Spi Unit := modify fun s => { s with wires := s.wires ++ [w] }

/-- `nrf_spi_txd_set`. -/
def nrfSpiTxdSet (b : Byte) : Spi Unit := modify fun s => { s with txd := s.txd ++ [b] }

/-- The over-run character of `NRF_DRV_SPI_DEFAULT_CONFIG`. -/
def orc : Byte := 0xff

section

-- `miso i` is the answer to the byte that is clocked as number `i`; `write` is the memory at the
-- caller's `write`.
variable (miso : Nat → Byte) (write : Mem Byte)

/-- The next `READY` event: the first byte of `TXD` has been clocked, and its answer is in `RXD`.
While `TXD` is empty no event comes. -/
def nextReady : Spi Byte := fun s =>
  match s.txd with
  | [] => none
  | b :: txd =>
    some (miso (mosiOf s.wires).length, { s with wires := s.wires ++ [.clock b], txd := txd })

/-! ## `nrfx_spi.c` -/

/-- `transfer_byte`, at the next `READY` event. -/
def transferByte : Spi Bool := do
  let rxData ← nextReady miso
  modify fun s =>
    if s.bytesTransferred < s.xferDesc.rxLength then
      { s with read := blit s.read (s.xferDesc.pRxBuffer + s.bytesTransferred) [rxData] }
    else s
  modify fun s => { s with bytesTransferred := s.bytesTransferred + 1 }
  let s ← get
  let bytesUsed := s.bytesTransferred + 1
  if bytesUsed < s.xferDesc.txLength then
    nrfSpiTxdSet (write (s.xferDesc.pTxBuffer + bytesUsed))
    return true
  else if bytesUsed < s.xferDesc.rxLength then
    nrfSpiTxdSet orc
    return true
  else
    return decide (s.bytesTransferred < s.xferDesc.txLength ∨
      s.bytesTransferred < s.xferDesc.rxLength)

/-- `irq_handler`; at the end of a transfer `spi_event_handler` is called. -/
def irqHandler : Spi Unit := do
  if ← transferByte miso write then
    return ()
  else
    modify fun s => { s with spiXferDone := true }

/-- `spi_xfer`, with an event handler. -/
def spiXfer : Spi Unit := do
  modify fun s => { s with bytesTransferred := 0 }
  let x := (← get).xferDesc
  nrfSpiTxdSet (if x.txLength > 0 then write x.pTxBuffer else orc)
  if x.txLength > 1 then
    nrfSpiTxdSet (write (x.pTxBuffer + 1))
  else if x.rxLength > 1 then
    nrfSpiTxdSet orc

/-- `nrf_drv_spi_transfer`, whose lengths have 8 bits. -/
def nrfDrvSpiTransfer (pTxBuffer txLength pRxBuffer rxLength : Nat) : Spi Unit := do
  modify fun s => { s with
    xferDesc := ⟨pTxBuffer, txLength % 256, pRxBuffer, rxLength % 256⟩ }
  spiXfer write

/-! ## `hal_spi.c` -/

/-- `while (!spi_xfer_done) __WFE();`, for as many events as a transfer can have. -/
def waitXferDone : (events : Nat) → Spi Unit
  | 0 => fun _ => none
  | events + 1 => do
    if (← get).spiXferDone then
      return ()
    else
      irqHandler miso write
      waitXferDone events

/-- `spi_write_read`. -/
def spiWriteRead (pWrite pRead size : Nat) (leaveCsAsserted : Bool) : Spi Unit := do
  modify fun s => { s with spiXferDone := false }
  wire .select
  nrfDrvSpiTransfer write pWrite size pRead size
  waitXferDone miso write 257
  if leaveCsAsserted = false then
    wire .release

/-- The rounds of `hal_bmlite_spi_write_read`, and the transfer after them. -/
def halBmliteSpiWriteRead.rounds (leaveCsAsserted : Bool) :
    (left pWrite pRead size : Nat) → Spi Unit
  | 0, pWrite, pRead, size => spiWriteRead miso write pWrite pRead size leaveCsAsserted
  | left + 1, pWrite, pRead, size => do
    spiWriteRead miso write pWrite pRead 255 true
    halBmliteSpiWriteRead.rounds leaveCsAsserted left (pWrite + 255) (pRead + 255) (size - 255)

/-- `hal_bmlite_spi_write_read`; `num_of_rounds` has 8 bits. -/
def halBmliteSpiWriteRead (size : Nat) (leaveCsAsserted : Bool) : Spi FpcBepResult := do
  halBmliteSpiWriteRead.rounds miso write leaveCsAsserted (size / 255 % 256) 0 0 size
  return FPC_BEP_RESULT_OK

end

variable (miso : Nat → Byte) (write : Mem Byte)

@[simp] theorem mosiOf_append (ws vs : List Wire) : mosiOf (ws ++ vs) = mosiOf ws ++ mosiOf vs :=
  List.filterMap_append

@[simp] theorem mosiOf_clocks (bs : List Byte) : mosiOf (bs.map .clock) = bs := by
  simp [mosiOf, List.filterMap_map]

/-! ## One transfer -/

/-- The state after an event in a transfer of `n` bytes, in which the byte `b` has been clocked. -/
def SpiState.event (s : SpiState) (miso : Nat → Byte) (write : Mem Byte) (p q n : Nat) (b : Byte)
    (txd : List Byte) : SpiState :=
  { s with
    wires := s.wires ++ [.clock b]
    txd := if s.bytesTransferred + 2 < n then txd ++ [write (p + (s.bytesTransferred + 2))] else txd
    bytesTransferred := s.bytesTransferred + 1
    read :=
      if s.bytesTransferred < n then
        blit s.read (q + s.bytesTransferred) [miso (mosiOf s.wires).length]
      else s.read }

theorem transferByte_run {s : SpiState} {p q n : Nat} {b : Byte} {txd : List Byte}
    (htxd : s.txd = b :: txd) (hx : s.xferDesc = ⟨p, n, q, n⟩) :
    (transferByte miso write).run s =
      some (decide (s.bytesTransferred + 1 < n), s.event miso write p q n b txd) := by
  obtain ⟨wires, txd', x, k, done, read⟩ := s
  cases htxd
  cases hx
  have hready : (nextReady miso).run ⟨wires, b :: txd, ⟨p, n, q, n⟩, k, done, read⟩ =
      some (miso (mosiOf wires).length, ⟨wires ++ [.clock b], txd, ⟨p, n, q, n⟩, k, done, read⟩) :=
    rfl
  unfold transferByte SpiState.event nrfSpiTxdSet
  simp only [StateT.run_bind, hready, StateT.run_modify, StateT.run_get, Option.bind_eq_bind,
    Option.bind_some, Option.pure_def]
  by_cases hstore : k < n <;> by_cases hnext : k + 2 < n
  all_goals simp [hstore, hnext, Nat.add_assoc]
  all_goals omega

/-- **One event.** -/
theorem irqHandler_run {s : SpiState} {p q n : Nat} {b : Byte} {txd : List Byte}
    (htxd : s.txd = b :: txd) (hx : s.xferDesc = ⟨p, n, q, n⟩) (hdone : s.spiXferDone = false) :
    (irqHandler miso write).run s =
      some ((), { s.event miso write p q n b txd with
        spiXferDone := decide (n ≤ s.bytesTransferred + 1) }) := by
  unfold irqHandler
  rw [StateT.run_bind, transferByte_run miso write htxd hx]
  by_cases hmore : s.bytesTransferred + 1 < n
  · simp [hmore, SpiState.event, hdone]
  · simp [hmore, SpiState.event, StateT.run_modify, Nat.not_lt.1 hmore]

/-- After `k` events of a transfer of `n` bytes that began in the state `s`. -/
def SpiState.midway (s : SpiState) (miso : Nat → Byte) (write : Mem Byte) (p q n k : Nat) :
    SpiState where
  wires := s.wires ++ (slice write p k).map .clock
  txd := slice write (p + k) (min 2 (n - k))
  xferDesc := ⟨p, n, q, n⟩
  bytesTransferred := k
  spiXferDone := decide (n ≤ k)
  read := blit s.read q (slice miso (mosiOf s.wires).length k)

/-- **The next byte**: `TXD` holds it and the byte after it. -/
theorem midway_step (s : SpiState) {p q n k : Nat} (hk : k < n) :
    (irqHandler miso write).run (s.midway miso write p q n k) =
      some ((), s.midway miso write p q n (k + 1)) := by
  have htxd : (s.midway miso write p q n k).txd =
      write (p + k) :: slice write (p + k + 1) (min 2 (n - k) - 1) :=
    slice_cons write (p + k) (by omega)
  have hdone : (s.midway miso write p q n k).spiXferDone = false :=
    decide_eq_false (Nat.not_le.2 hk)
  have hlen : (mosiOf (s.midway miso write p q n k).wires).length =
      (mosiOf s.wires).length + k := by
    simp [SpiState.midway]
  have hread : blit (s.midway miso write p q n k).read (q + k)
      [miso ((mosiOf s.wires).length + k)] =
      blit s.read q (slice miso (mosiOf s.wires).length (k + 1)) := by
    have hblit := blit_blit_append s.read q (slice miso (mosiOf s.wires).length k)
      [miso ((mosiOf s.wires).length + k)]
    rw [slice_length] at hblit
    rw [slice_succ, ← hblit]
    rfl
  have hnext : (if k + 2 < n then
        slice write (p + k + 1) (min 2 (n - k) - 1) ++ [write (p + (k + 2))]
      else slice write (p + k + 1) (min 2 (n - k) - 1)) =
      slice write (p + (k + 1)) (min 2 (n - (k + 1))) := by
    split
    · rw [show min 2 (n - k) - 1 = 1 by omega, show min 2 (n - (k + 1)) = 1 + 1 by omega,
        slice_succ]
      rfl
    · rw [show min 2 (n - k) - 1 = min 2 (n - (k + 1)) by omega]
      rfl
  rw [irqHandler_run miso write htxd rfl hdone]
  unfold SpiState.event
  rw [hlen]
  simp only [show (s.midway miso write p q n k).bytesTransferred = k from rfl, if_pos hk, hread,
    hnext]
  simp [SpiState.midway, slice_succ]

/-- The events that are left. -/
theorem wait_run (s : SpiState) {p q n : Nat} (left : Nat) :
    ∀ {k events : Nat}, k + left = n → left < events →
      (waitXferDone miso write events).run (s.midway miso write p q n k) =
        some ((), s.midway miso write p q n n) := by
  induction left with
  | zero =>
    intro k events hk hevents
    obtain ⟨j, rfl⟩ := Nat.exists_eq_add_of_lt hevents
    obtain rfl : k = n := hk
    have hdone : (s.midway miso write p q k k).spiXferDone = true := decide_eq_true (Nat.le_refl k)
    simp [waitXferDone, hdone]
  | succ left ih =>
    intro k events hk hevents
    obtain ⟨j, rfl⟩ := Nat.exists_eq_add_of_lt hevents
    have hdone : (s.midway miso write p q n k).spiXferDone = false :=
      decide_eq_false (by omega)
    have hstep := midway_step miso write s (p := p) (q := q) (n := n)
      (show k < n by omega)
    have hrest := @ih (k + 1) (left + 1 + j) (by omega) (by omega)
    simp [waitXferDone, hdone, hstep, hrest]

/-- The bytes that a transfer of length `n` clocks. -/
def burst (write : Mem Byte) (p n : Nat) : List Byte := if n = 0 then [orc] else slice write p n

theorem burst_length (p n : Nat) : (burst write p n).length = max 1 n := by
  unfold burst
  split
  · rename_i h
    rw [h]
    rfl
  · rw [slice_length]
    omega

/-- The start of a transfer: up to two bytes are written to `TXD`. -/
theorem start_run {s : SpiState} {p q size : Nat} (htxd : s.txd = []) :
    (nrfDrvSpiTransfer write p size q size).run s =
      some ((), { s with
        txd := if size % 256 = 0 then [orc] else slice write p (min 2 (size % 256))
        xferDesc := ⟨p, size % 256, q, size % 256⟩
        bytesTransferred := 0 }) := by
  have hn : size % 256 = 0 ∨ size % 256 = 1 ∨ 2 ≤ size % 256 := by omega
  generalize hsize : size % 256 = n at *
  simp only [nrfDrvSpiTransfer, spiXfer, nrfSpiTxdSet, StateT.run_bind, StateT.run_modify,
    StateT.run_get, Option.bind_eq_bind, Option.bind_some, Option.pure_def, hsize, htxd]
  rcases hn with rfl | rfl | hn
  · rfl
  · rfl
  · rw [if_pos (show n > 0 by omega), if_pos (show n > 1 by omega), if_neg (show n ≠ 0 by omega),
      Nat.min_eq_left hn]
    rfl

/-- The only event of an empty transfer. -/
theorem wait_empty {s : SpiState} {p q : Nat} (htxd : s.txd = [orc])
    (hx : s.xferDesc = ⟨p, 0, q, 0⟩) (hk : s.bytesTransferred = 0) (hdone : s.spiXferDone = false)
    (events : Nat) :
    (waitXferDone miso write (events + 2)).run s =
      some ((), { s with
        wires := s.wires ++ [.clock orc]
        txd := []
        bytesTransferred := 1
        spiXferDone := true }) := by
  have hevent := irqHandler_run miso write htxd hx hdone
  simp [waitXferDone, hdone, hevent, SpiState.event, hk]

/-- **A transfer** of `n` bytes, `n < 256`, clocks them one after the other and stores the answers;
an empty transfer clocks the over-run character and stores nothing. -/
theorem transfer_run {s : SpiState} {p q size : Nat} (htxd : s.txd = [])
    (hdone : s.spiXferDone = false) :
    ∃ s₁, (nrfDrvSpiTransfer write p size q size).run s = some ((), s₁) ∧
      (waitXferDone miso write 257).run s₁ = some ((), { s with
        wires := s.wires ++ (burst write p (size % 256)).map .clock
        xferDesc := ⟨p, size % 256, q, size % 256⟩
        bytesTransferred := max 1 (size % 256)
        spiXferDone := true
        read := blit s.read q (slice miso (mosiOf s.wires).length (size % 256)) }) := by
  have hlt : size % 256 < 256 := Nat.mod_lt _ (by decide)
  refine ⟨_, start_run write htxd, ?_⟩
  generalize size % 256 = n at *
  by_cases hn : n = 0
  · subst hn
    have hwait := wait_empty miso write (p := p) (q := q)
      (s := { s with txd := [orc], xferDesc := ⟨p, 0, q, 0⟩, bytesTransferred := 0 }) rfl rfl rfl
      hdone 255
    refine hwait.trans ?_
    simp [burst, htxd]
  · have hstart : ({ s with
        txd := if n = 0 then [orc] else slice write p (min 2 n)
        xferDesc := ⟨p, n, q, n⟩
        bytesTransferred := 0 } : SpiState) = s.midway miso write p q n 0 := by
      simp [SpiState.midway, hn, hdone]
    have hwait := @wait_run miso write s p q n n 0 257 (Nat.zero_add n) (by omega)
    rw [hstart, hwait]
    simp [SpiState.midway, burst, hn, htxd]
    omega

/-! ## A call -/

/-- From `s` to `s'` the bytes `bytes` have been clocked, with chip select asserted before the first
of them and until after the last, and released then unless it is to be left asserted; `n` answers
lie at `q`, and nothing else has been stored. -/
structure Clocked (miso : Nat → Byte) (leaveCsAsserted : Bool) (bytes : List Byte) (q n : Nat)
    (s s' : SpiState) : Prop where
  wires_eq : ∃ ws,
    s'.wires = s.wires ++ .select :: (ws ++ if leaveCsAsserted then [] else [.release]) ∧
    .release ∉ ws ∧ mosiOf ws = bytes
  read_eq : s'.read = blit s.read q (slice miso (mosiOf s.wires).length n)
  txd_eq : s'.txd = []

section

variable {miso : Nat → Byte} {leave : Bool} {bytes bytes' : List Byte} {q n : Nat}
  {s s' s₁ s₂ : SpiState}

theorem Clocked.mosi_eq (h : Clocked miso leave bytes q n s s') :
    mosiOf s'.wires = mosiOf s.wires ++ bytes := by
  obtain ⟨ws, hwires, -, rfl⟩ := h.wires_eq
  rw [hwires, mosiOf_append]
  cases leave <;> simp [mosiOf]

/-- Two transfers without a release in between. -/
theorem Clocked.trans (h : Clocked miso true bytes q bytes.length s s₁)
    (h' : Clocked miso leave bytes' (q + bytes.length) n s₁ s₂) :
    Clocked miso leave (bytes ++ bytes') q (bytes.length + n) s s₂ := by
  have hmosi := h.mosi_eq
  obtain ⟨ws, hwires, hrel, hbytes⟩ := h.wires_eq
  obtain ⟨ws', hwires', hrel', hbytes'⟩ := h'.wires_eq
  refine ⟨⟨ws ++ .select :: ws', ?_, by simp [hrel, hrel'], ?_⟩, ?_, h'.txd_eq⟩
  · rw [hwires', hwires]
    simp
  · rw [mosiOf_append, hbytes, ← hbytes']
    rfl
  · have hblit := blit_blit_append s.read q (slice miso (mosiOf s.wires).length bytes.length)
      (slice miso ((mosiOf s.wires).length + bytes.length) n)
    rw [slice_length] at hblit
    rw [h'.read_eq, h.read_eq, hmosi, List.length_append, hblit, slice_append]

end

/-- **`spi_write_read`**, whose length the driver cuts to 8 bits. -/
theorem spiWriteRead_clocked {s : SpiState} (htxd : s.txd = []) (p q size : Nat) (leave : Bool) :
    ∃ s', (spiWriteRead miso write p q size leave).run s = some ((), s') ∧
      Clocked miso leave (burst write p (size % 256)) q (size % 256) s s' := by
  obtain ⟨s₁, hstart, hwait⟩ := @transfer_run miso write
    { s with spiXferDone := false, wires := s.wires ++ [.select] } p q size htxd rfl
  have hmosi : mosiOf (s.wires ++ [.select]) = mosiOf s.wires := by simp [mosiOf]
  have hrel : Wire.release ∉ (burst write p (size % 256)).map Wire.clock := by simp
  rw [hmosi] at hwait
  simp only [spiWriteRead, wire, StateT.run_bind, StateT.run_modify, Option.bind_eq_bind,
    Option.bind_some, Option.pure_def, hstart, hwait]
  cases leave with
  | true => exact ⟨_, rfl, ⟨_, by simp, hrel, mosiOf_clocks _⟩, rfl, htxd⟩
  | false => exact ⟨_, rfl, ⟨_, by simp, hrel, mosiOf_clocks _⟩, rfl, htxd⟩

/-- The rounds, and the transfer of the rest. -/
theorem rounds_clocked (leave : Bool) (left : Nat) :
    ∀ {s : SpiState} (p size : Nat), s.txd = [] →
      ∃ s', (halBmliteSpiWriteRead.rounds miso write leave left p p size).run s = some ((), s') ∧
        Clocked miso leave
          (slice write p (255 * left) ++ burst write (p + 255 * left) ((size - 255 * left) % 256)) p
          (255 * left + (size - 255 * left) % 256) s s' := by
  induction left with
  | zero =>
    intro s p size htxd
    obtain ⟨s', hrun, hclocked⟩ := spiWriteRead_clocked miso write htxd p p size leave
    refine ⟨s', hrun, ?_⟩
    simpa using hclocked
  | succ left ih =>
    intro s p size htxd
    obtain ⟨s₁, hrun, hclocked⟩ := spiWriteRead_clocked miso write htxd p p 255 true
    obtain ⟨s₂, hrest, hclocked'⟩ := ih (p + 255) (size - 255) hclocked.txd_eq
    refine ⟨s₂, ?_, ?_⟩
    · simp [halBmliteSpiWriteRead.rounds, hrun, hrest]
    · have hburst : burst write p (255 % 256) = slice write p 255 := rfl
      have hlen : (slice write p 255).length = 255 := slice_length write p 255
      rw [hburst] at hclocked
      have hboth := Clocked.trans (by rw [hlen]; exact hclocked) (by rw [hlen]; exact hclocked')
      rw [← List.append_assoc, ← slice_append, hlen, Nat.add_assoc p, ← Nat.add_assoc 255,
        Nat.sub_sub, show 255 + 255 * left = 255 * (left + 1) by omega] at hboth
      exact hboth

/-- **What a call clocks**: its rounds and the rest, each with a count of 8 bits. -/
theorem write_read_run {s : SpiState} (htxd : s.txd = []) (size : Nat) (leave : Bool) :
    ∃ s', (halBmliteSpiWriteRead miso write size leave).run s = some (FPC_BEP_RESULT_OK, s') ∧
      Clocked miso leave
        (slice write 0 (255 * (size / 255 % 256)) ++
          burst write (255 * (size / 255 % 256)) ((size - 255 * (size / 255 % 256)) % 256)) 0
        (255 * (size / 255 % 256) + (size - 255 * (size / 255 % 256)) % 256) s s' := by
  obtain ⟨s', hrun, hclocked⟩ := rounds_clocked miso write leave
    (size / 255 % 256) 0 size htxd
  rw [Nat.zero_add] at hclocked
  exact ⟨s', by simp [halBmliteSpiWriteRead, hrun], hclocked⟩

/-- The rounds are counted correctly, and the rest is not empty. -/
theorem write_read_exact {s : SpiState} (htxd : s.txd = []) {size : Nat} (hmod : size % 255 ≠ 0)
    (hlt : size < 65280) (leave : Bool) :
    ∃ s', (halBmliteSpiWriteRead miso write size leave).run s = some (FPC_BEP_RESULT_OK, s') ∧
      Clocked miso leave (slice write 0 size) 0 size s s' := by
  obtain ⟨s', hrun, hclocked⟩ := write_read_run miso write htxd size leave
  have hrounds : size / 255 % 256 = size / 255 := Nat.mod_eq_of_lt (by omega)
  have hrest : (size - 255 * (size / 255)) % 256 = size % 255 := by omega
  have hsum : 255 * (size / 255) + size % 255 = size := Nat.div_add_mod size 255
  have hslice := slice_append write 0 (255 * (size / 255)) (size % 255)
  rw [Nat.zero_add, hsum] at hslice
  rw [hrounds, hrest, burst, if_neg hmod, ← hslice, hsum] at hclocked
  exact ⟨s', hrun, hclocked⟩

/-- Nothing is left for the transfer after the rounds: it clocks a byte more. -/
theorem write_read_extra {s : SpiState} (htxd : s.txd = []) {size : Nat} (hmod : size % 255 = 0)
    (hlt : size < 65280) (leave : Bool) :
    ∃ s', (halBmliteSpiWriteRead miso write size leave).run s = some (FPC_BEP_RESULT_OK, s') ∧
      Clocked miso leave (slice write 0 size ++ [orc]) 0 size s s' := by
  obtain ⟨s', hrun, hclocked⟩ := write_read_run miso write htxd size leave
  have hrounds : 255 * (size / 255 % 256) = size := by omega
  rw [hrounds, Nat.sub_self] at hclocked
  exact ⟨s', hrun, hclocked⟩

/-- The number of rounds has wrapped: hardly any bytes are clocked. -/
theorem write_read_short {s : SpiState} (htxd : s.txd = []) {size : Nat} (hmin : 65280 ≤ size)
    (hmax : size ≤ 65535) (leave : Bool) :
    ∃ s' bytes n, (halBmliteSpiWriteRead miso write size leave).run s =
        some (FPC_BEP_RESULT_OK, s') ∧
      Clocked miso leave bytes 0 n s s' ∧ bytes.length ≤ 256 := by
  obtain ⟨s', hrun, hclocked⟩ := write_read_run miso write htxd size leave
  refine ⟨s', _, _, hrun, hclocked, ?_⟩
  rw [List.length_append, slice_length, burst_length]
  omega

/-- A call that clocks another number of bytes is not exact. -/
theorem not_exact {miso : Nat → Byte} {write : Mem Byte} {s s' s'' : SpiState}
    {size n q : Nat} {leave : Bool} {bytes : List Byte} {r : FpcBepResult}
    (hrun : (halBmliteSpiWriteRead miso write size leave).run s = some (r, s'))
    (hclocked : Clocked miso leave bytes q n s s') (hne : bytes.length ≠ size)
    (hrun' : (halBmliteSpiWriteRead miso write size leave).run s = some (FPC_BEP_RESULT_OK, s'')) :
    ¬ Clocked miso leave (slice write 0 size) 0 size s s'' := by
  intro hexact
  cases hrun.symm.trans hrun'
  have hbytes := List.append_cancel_left (hclocked.mosi_eq.symm.trans hexact.mosi_eq)
  rw [hbytes, slice_length] at hne
  exact hne rfl

/-- **Exactly the requested bytes are transferred if and only if** the size is neither a multiple of
255 nor so large that the number of rounds does not have 8 bits. -/
theorem spi_exact_iff (miso : Nat → Byte) (write : Mem Byte) {s : SpiState} (htxd : s.txd = [])
    {size : Nat} (hmin : 1 ≤ size) (hmax : size ≤ 65535) (leave : Bool) :
    (∃ s', (halBmliteSpiWriteRead miso write size leave).run s = some (FPC_BEP_RESULT_OK, s') ∧
      Clocked miso leave (slice write 0 size) 0 size s s') ↔ size % 255 ≠ 0 ∧ size < 65280 := by
  refine ⟨?_, fun ⟨hmod, hlt⟩ => write_read_exact miso write htxd hmod hlt leave⟩
  rintro ⟨s'', hrun', hexact⟩
  by_contra hno
  by_cases hlt : size < 65280
  · obtain ⟨s', hrun, hclocked⟩ := write_read_extra miso write htxd
      (show size % 255 = 0 by omega) hlt leave
    refine not_exact hrun hclocked ?_ hrun' hexact
    rw [List.length_append, slice_length]
    exact Nat.succ_ne_self size
  · obtain ⟨s', bytes, n, hrun, hclocked, hlen⟩ := write_read_short miso write htxd
      (Nat.not_lt.1 hlt) hmax leave
    exact not_exact hrun hclocked (by omega) hrun' hexact

/-- SPI0 before the first transfer, over a cleared block of memory. -/
def idle : SpiState := ⟨[], [], ⟨0, 0, 0, 0⟩, 0, false, fun _ => 0⟩

/-- A frame of the largest size. -/
theorem spi_exact_mtu :
    ∃ s', (halBmliteSpiWriteRead (fun i => .ofNat 8 i) (fun _ => 1) 256 false).run idle =
        some (FPC_BEP_RESULT_OK, s') ∧
      Clocked (fun i => .ofNat 8 i) false (slice (fun _ => 1) 0 256) 0 256 idle s' :=
  (spi_exact_iff (fun i => .ofNat 8 i) (fun _ => 1) rfl (by decide) (by decide) false).2
    ⟨by decide, by decide⟩

/-- The frame of a chunk of 241 bytes. -/
theorem spi_extra_byte :
    ¬ ∃ s', (halBmliteSpiWriteRead (fun _ => 0) (fun _ => 1) 255 false).run idle =
        some (FPC_BEP_RESULT_OK, s') ∧
      Clocked (fun _ => 0) false (slice (fun _ => 1) 0 255) 0 255 idle s' := by
  rintro ⟨s'', hrun', hexact⟩
  obtain ⟨s', hrun, hclocked⟩ := write_read_extra (fun _ => 0) (fun _ => 1)
    (show idle.txd = [] from rfl) (by decide : 255 % 255 = 0) (by decide) false
  have hlen : (slice (fun _ => (1 : Byte)) 0 255 ++ [orc]).length ≠ 255 := by
    rw [List.length_append, slice_length]
    decide
  exact not_exact hrun hclocked hlen hrun' hexact

end BMLite.HalSpi
