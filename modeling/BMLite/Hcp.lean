import BMLite.FpcCrc
import BMLite.Lib.Access
import BMLite.Lib.FlatMemory

/-!
# The host's chain (`hcp_tiny.h`, `fpc_bep_types.h`, `fpc_hcp_common.h`)

* `HcpComm` — `HCP_comm_t`.  Its callbacks `write` and `read` are the two channel operations of
  `HcpProc`; its buffers are memory from their base address on, and a pointer into the packet
  buffer is an offset from it.
* `Hcp` — a function that works on the chain.  Every access to the two buffers goes through
  `load` and `store`, which mark it with its range.
* `Action` — what the host does without the channel: the accesses, the calls of the callbacks of
  `bmlite_if_callbacks.h`, the busy waits, and the dereference of a null pointer.
* `readTxrx`, `readLocal`, `writeTxrx`, `writeConst` — the calls of `read` and `write`.  A read
  stores the bytes that the callback delivers, at most as many as it was asked for, whatever
  result it returns.

`session` is left out: no function uses it.
-/

set_option autoImplicit false

namespace BMLite

open FlatMemory Process

/-! ## Types and constants -/

/-- `fpc_bep_result_t`: `nordic.mk` compiles with `--short-enums`, which makes it a signed byte. -/
abbrev FpcBepResult := Int8

def FPC_BEP_RESULT_OK : FpcBepResult := 0
def FPC_BEP_RESULT_GENERAL_ERROR : FpcBepResult := -1
def FPC_BEP_RESULT_INVALID_ARGUMENT : FpcBepResult := -3
def FPC_BEP_RESULT_NO_MEMORY : FpcBepResult := -6
def FPC_BEP_RESULT_IO_ERROR : FpcBepResult := -8
def FPC_BEP_RESULT_TIMEOUT : FpcBepResult := -11

/-- Maximum size of a frame, its link header and CRC included. -/
def MTU : Nat := 256

def FPC_BEP_ACK : BitVec 32 := 0x7f01ff7f

/-! `enum fpc_hcp_cmd` and `enum fpc_hcp_arg`, as far as the host uses them. -/

def CMD_CAPTURE : Nat := 0x0001
def CMD_ENROLL : Nat := 0x0002
def CMD_IDENTIFY : Nat := 0x0003
def CMD_IMAGE : Nat := 0x0005
def CMD_TEMPLATE : Nat := 0x0006
def CMD_WAIT : Nat := 0x0007
def CMD_SENSOR : Nat := 0x1002
def CMD_RESET : Nat := 0x3002
def CMD_INFO : Nat := 0x3004
def CMD_STORAGE_TEMPLATE : Nat := 0x4002
def CMD_STORAGE_CALIBRATION : Nat := 0x4003
def CMD_COMMUNICATION : Nat := 0x6001

def ARG_NONE : Nat := 0x0000
def ARG_FINGER_DOWN : Nat := 0x0001
def ARG_FINGER_UP : Nat := 0x0002
def ARG_START : Nat := 0x0003
def ARG_ADD : Nat := 0x0004
def ARG_FINISH : Nat := 0x0005
def ARG_ID : Nat := 0x0006
def ARG_ALL : Nat := 0x0007
def ARG_EXTRACT : Nat := 0x0008
def ARG_MATCH : Nat := 0x000A
def ARG_SET : Nat := 0x1003
def ARG_GET : Nat := 0x1004
def ARG_UPLOAD : Nat := 0x1005
def ARG_DOWNLOAD : Nat := 0x1006
def ARG_CREATE : Nat := 0x1007
def ARG_SAVE : Nat := 0x1008
def ARG_DELETE : Nat := 0x1009
def ARG_DATA : Nat := 0x100A
def ARG_RESULT : Nat := 0x2001
def ARG_COUNT : Nat := 0x2002
def ARG_SIZE : Nat := 0x2003
def ARG_SPEED : Nat := 0x2008
def ARG_RESET : Nat := 0x3004
def ARG_TIMEOUT : Nat := 0x5001
def ARG_VERSION : Nat := 0x6003
def ARG_UNIQUE_ID : Nat := 0x6004

/-- `HCP_arg_t` after a search that found an argument; `data` is an offset from the packet
buffer. -/
structure HcpArg where
  size : Nat
  data : Nat
  deriving DecidableEq

/-- `HCP_comm_t`.  As long as no search has found an argument, `arg` is `none`: its `data` is the
null pointer. -/
structure HcpComm where
  phyRxTimeout : Nat
  pktBuffer : Mem Byte
  pktSizeMax : Nat
  pktSize : Nat
  txrxBuffer : Mem Byte
  arg : Option HcpArg
  bepResult : FpcBepResult

inductive Buffer where
  | pkt
  | txrx
  deriving DecidableEq

def HcpComm.mem (c : HcpComm) : Buffer → Mem Byte
  | .pkt => c.pktBuffer
  | .txrx => c.txrxBuffer

def HcpComm.setMem (c : HcpComm) : Buffer → Mem Byte → HcpComm
  | .pkt, m => { c with pktBuffer := m }
  | .txrx, m => { c with txrxBuffer := m }

@[simp] theorem HcpComm.mem_pkt (c : HcpComm) : c.mem .pkt = c.pktBuffer := rfl

@[simp] theorem HcpComm.mem_txrx (c : HcpComm) : c.mem .txrx = c.txrxBuffer := rfl

@[simp] theorem HcpComm.setMem_pkt (c : HcpComm) (m : Mem Byte) :
    c.setMem .pkt m = { c with pktBuffer := m } := rfl

@[simp] theorem HcpComm.setMem_txrx (c : HcpComm) (m : Mem Byte) :
    c.setMem .txrx m = { c with txrxBuffer := m } := rfl

/-- The received (or prepared) packet: the `pkt_size` bytes of the packet buffer. -/
def HcpComm.packet (c : HcpComm) : List Byte := slice c.pktBuffer 0 c.pktSize

/-- `hcp_chain` of the example program.  Its buffers are zero at the start, and its initialiser
leaves `arg.data` a null pointer. -/
def hcpChain : HcpComm where
  phyRxTimeout := 2000
  pktBuffer := fun _ => 0
  pktSizeMax := 1024 * 5
  pktSize := 0
  txrxBuffer := fun _ => 0
  arg := none
  bepResult := FPC_BEP_RESULT_OK

/-- The chain after bytes have been read into `txrx_buffer`. -/
def HcpComm.fill (c : HcpComm) (off : Nat) (bs : List Byte) : HcpComm :=
  { c with txrxBuffer := blit c.txrxBuffer off bs }

/-! The fields of the header in `txrx_buffer`. -/

def HcpComm.lnkSize (c : HcpComm) : Nat := dec16 (slice c.txrxBuffer 2 2)

def HcpComm.tSize (c : HcpComm) : Nat := dec16 (slice c.txrxBuffer 4 2)

def HcpComm.seqNr (c : HcpComm) : Nat := dec16 (slice c.txrxBuffer 6 2)

def HcpComm.seqLen (c : HcpComm) : Nat := dec16 (slice c.txrxBuffer 8 2)

/-- An access of the program to one of the buffers. -/
structure Access where
  buffer : Buffer
  isWrite : Bool
  offset : Nat
  length : Nat
  deriving DecidableEq

/-- `bmlite_error_t`, as far as the host reports it. -/
inductive BmliteError where
  | sendCmd
  | getArg
  deriving DecidableEq

/-- The calls of the callbacks of `bmlite_if_callbacks.h`. -/
inductive Callback where
  | onError (error : BmliteError) (value : FpcBepResult)
  | onStartCapture
  | onFinishCapture
  | onStartEnroll
  | onFinishEnroll
  | onStartEnrollcapture
  | onFinishEnrollcapture
  | onIdentifyStart
  | onIdentifyFinish
  deriving DecidableEq

/-- What the host does without the channel.  `null` is the dereference of a null pointer, which is
undefined: a process does not go on from it. -/
inductive Action where
  | access (acc : Access)
  | callback (cb : Callback)
  | busyWait (ticks : Nat)
  | null
  deriving DecidableEq

/-- One call of `bmlite_tranceive`, for statements about whole commands: the chain at its entry
and on its return, and its result. -/
structure Exchange where
  before : HcpComm
  com : FpcBepResult
  after : HcpComm

abbrev HcpProc := Proc Action Exchange Byte FpcBepResult

abbrev HcpEvent := Event Exchange Byte FpcBepResult

abbrev Hcp := StateT HcpComm HcpProc

/-! ## Memory -/

def load (b : Buffer) (off n : Nat) : Hcp (List Byte) := fun c =>
  .touch (.access ⟨b, false, off, n⟩) (.ret (slice (c.mem b) off n, c))

def store (b : Buffer) (off : Nat) (bs : List Byte) : Hcp Unit := fun c =>
  .touch (.access ⟨b, true, off, bs.length⟩) (.ret ((), c.setMem b (blit (c.mem b) off bs)))

def load16 (b : Buffer) (off : Nat) : Hcp Nat := do return dec16 (← load b off 2)

def load32 (b : Buffer) (off : Nat) : Hcp (BitVec 32) := do return dec32 (← load b off 4)

def store16 (b : Buffer) (off v : Nat) : Hcp Unit := store b off (enc16 v)

def store32 (b : Buffer) (off : Nat) (v : BitVec 32) : Hcp Unit := store b off (enc32 v)

/-! ## The channel -/

/-- `hcp_comm->read(n, hcp_comm->txrx_buffer + off, timeout, NULL)`. -/
def readTxrx (n off timeout : Nat) : Hcp FpcBepResult := fun c =>
  .touch (.access ⟨.txrx, true, off, n⟩) <| .read n timeout fun r d =>
    .ret (r, c.fill off (d.take n))

/-- `hcp_comm->read` into a local variable of `n` bytes.  The variable is not initialised: where
the callback stores nothing, the environment supplies the bytes that are there. -/
def readLocal (n timeout : Nat) : Hcp (FpcBepResult × List Byte) := fun c =>
  .read n timeout fun r d => .ret ((r, d.take n), c)

/-- `hcp_comm->write(n, hcp_comm->txrx_buffer, timeout, NULL)`. -/
def writeTxrx (n timeout : Nat) : Hcp FpcBepResult := do
  let d ← load .txrx 0 n
  fun c => .write d timeout fun r => .ret (r, c)

/-- `hcp_comm->write` of a constant outside the buffers. -/
def writeConst (d : List Byte) (timeout : Nat) : Hcp FpcBepResult := fun c =>
  .write d timeout fun r => .ret (r, c)

/-! ## What needs no channel -/

/-- The dereference of `hcp_comm->arg.data`. -/
def chainArg : Hcp HcpArg := fun c =>
  match c.arg with
  | some a => .ret (a, c)
  | none => .touch .null .out

/-- A call of one of the callbacks. -/
def callback (cb : Callback) : Hcp Unit := fun c => .touch (.callback cb) (.ret ((), c))

/-- `bmlite_on_error`. -/
def bmliteOnError (error : BmliteError) (value : FpcBepResult) : Hcp Unit :=
  callback (.onError error value)

/-- `hal_timebase_busy_wait`, as the commands call it. -/
def busyWait (ticks : Nat) : Hcp Unit := fun c => .touch (.busyWait ticks) (.ret ((), c))

/-- No result: a loop went on for more rounds than it was given. -/
def outOfRounds {α : Type} : Hcp α := fun _ => .out

/-- Note a finished exchange that began with the chain `before`. -/
def noteExchange (before : HcpComm) (com : FpcBepResult) : Hcp Unit := fun c =>
  .note ⟨before, com, c⟩ (.ret ((), c))

@[simp] theorem run_load (b : Buffer) (off n : Nat) (c : HcpComm) :
    (load b off n).run c =
      .touch (.access ⟨b, false, off, n⟩) (.ret (slice (c.mem b) off n, c)) := rfl

@[simp] theorem run_store (b : Buffer) (off : Nat) (bs : List Byte) (c : HcpComm) :
    (store b off bs).run c =
      .touch (.access ⟨b, true, off, bs.length⟩)
        (.ret ((), c.setMem b (blit (c.mem b) off bs))) := rfl

@[simp] theorem run_load16 (b : Buffer) (off : Nat) (c : HcpComm) :
    (load16 b off).run c =
      .touch (.access ⟨b, false, off, 2⟩) (.ret (dec16 (slice (c.mem b) off 2), c)) := rfl

@[simp] theorem run_load32 (b : Buffer) (off : Nat) (c : HcpComm) :
    (load32 b off).run c =
      .touch (.access ⟨b, false, off, 4⟩) (.ret (dec32 (slice (c.mem b) off 4), c)) := rfl

@[simp] theorem run_store16 (b : Buffer) (off v : Nat) (c : HcpComm) :
    (store16 b off v).run c =
      .touch (.access ⟨b, true, off, 2⟩)
        (.ret ((), c.setMem b (blit (c.mem b) off (enc16 v)))) := rfl

@[simp] theorem run_store32 (b : Buffer) (off : Nat) (v : BitVec 32) (c : HcpComm) :
    (store32 b off v).run c =
      .touch (.access ⟨b, true, off, 4⟩)
        (.ret ((), c.setMem b (blit (c.mem b) off (enc32 v)))) := rfl

@[simp] theorem run_readTxrx (n off timeout : Nat) (c : HcpComm) :
    (readTxrx n off timeout).run c =
      .touch (.access ⟨.txrx, true, off, n⟩) (.read n timeout fun r d =>
        .ret (r, c.fill off (d.take n))) := rfl

@[simp] theorem run_readLocal (n timeout : Nat) (c : HcpComm) :
    (readLocal n timeout).run c = .read n timeout fun r d => .ret ((r, d.take n), c) := rfl

@[simp] theorem run_writeTxrx (n timeout : Nat) (c : HcpComm) :
    (writeTxrx n timeout).run c =
      .touch (.access ⟨.txrx, false, 0, n⟩) (.write (slice c.txrxBuffer 0 n) timeout fun r =>
        .ret (r, c)) := rfl

@[simp] theorem run_writeConst (d : List Byte) (timeout : Nat) (c : HcpComm) :
    (writeConst d timeout).run c = .write d timeout fun r => .ret (r, c) := rfl

theorem chainArg_run (c : HcpComm) :
    chainArg.run c = match c.arg with
      | some a => .ret (a, c)
      | none => .touch .null .out := rfl

@[simp] theorem run_chainArg {c : HcpComm} {a : HcpArg} (h : c.arg = some a) :
    chainArg.run c = .ret (a, c) := by
  simp [chainArg, StateT.run, h]

@[simp] theorem run_callback (cb : Callback) (c : HcpComm) :
    (callback cb).run c = .touch (.callback cb) (.ret ((), c)) := rfl

@[simp] theorem run_bmliteOnError (error : BmliteError) (value : FpcBepResult) (c : HcpComm) :
    (bmliteOnError error value).run c =
      .touch (.callback (.onError error value)) (.ret ((), c)) := rfl

@[simp] theorem run_busyWait (ticks : Nat) (c : HcpComm) :
    (busyWait ticks).run c = .touch (.busyWait ticks) (.ret ((), c)) := rfl

@[simp] theorem run_outOfRounds {α : Type} (c : HcpComm) :
    (outOfRounds : Hcp α).run c = .out := rfl

@[simp] theorem run_noteExchange (before : HcpComm) (com : FpcBepResult) (c : HcpComm) :
    (noteExchange before com).run c = .note ⟨before, com, c⟩ (.ret ((), c)) := rfl

variable {α : Type} {p : HcpProc α} {es : List HcpEvent} {acc : Access}

/-- **What goes on from a dereference** had a pointer. -/
theorem runs_chainArg {c : HcpComm} {f : HcpArg × HcpComm → HcpProc α} {a : α} :
    Runs (chainArg.run c >>= f) es a ↔ ∃ b, c.arg = some b ∧ Runs (f (b, c)) es a := by
  cases hc : c.arg with
  | some b => simp [run_chainArg hc]
  | none =>
    simp only [chainArg, StateT.run, hc, touch_bind, out_bind, runs_touch, reduceCtorEq,
      false_and, exists_false, iff_false]
    exact runs_out

/-! ## The accesses among the actions -/

@[simp] theorem touches_access {acc' : Access} :
    Touches (.touch (.access acc') p) es (.access acc) ↔
      acc = acc' ∨ Touches p es (.access acc) := by
  rw [touches_touch, Action.access.injEq]

@[simp] theorem touches_callback {cb : Callback} :
    Touches (.touch (.callback cb) p) es (.access acc) ↔ Touches p es (.access acc) := by
  simp only [touches_touch, reduceCtorEq, false_or]

end BMLite
