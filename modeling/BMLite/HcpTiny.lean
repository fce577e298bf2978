import BMLite.Hcp

/-!
# `hcp_tiny.c`: packets, transport and link

The functions of `hcp_tiny.c`, statement by statement.  The header of `txrx_buffer` is
`_HPC_pkt_t`: `lnk_chn` at 0, `lnk_size` at 2, `t_size` at 4, `t_seq_nr` at 6, `t_seq_len` at 8 and
`t_pld` from 10 on; that of `pkt_buffer` is `_HCP_cmd_t`: `cmd` at 0, `args_nr` at 2 and `args`
from 4 on.

The loop of `bmlite_receive` has no bound in the source; `bmliteReceive` takes the number of
rounds after which it is cut off.  The loop of `bmlite_send` is given as many rounds as its
condition allows.
-/

set_option autoImplicit false

namespace BMLite

open FlatMemory Process

/-! ## Building and searching packets -/

/-- `bmlite_add_arg`. -/
def bmliteAddArg (argType : Nat) (argData : List Byte) (argSize : Nat) : Hcp FpcBepResult := do
  let c ← get
  if (c.pktSize + 4 + argSize) % 2 ^ 32 > c.pktSizeMax then
    bmliteOnError .sendCmd FPC_BEP_RESULT_NO_MEMORY
    return FPC_BEP_RESULT_NO_MEMORY
  else
    store16 .pkt 2 ((← load16 .pkt 2) + 1)
    store16 .pkt c.pktSize argType
    store16 .pkt (c.pktSize + 2) argSize
    if argSize ≠ 0 then
      store .pkt (c.pktSize + 4) (argData.take argSize)
    modify fun c => { c with pktSize := (c.pktSize + (4 + argSize)) % 2 ^ 32 }
    return FPC_BEP_RESULT_OK

/-- `bmlite_init_cmd`. -/
def bmliteInitCmd (cmd argKey : Nat) : Hcp FpcBepResult := do
  store16 .pkt 0 cmd
  store16 .pkt 2 0
  modify fun c => { c with pktSize := 4 }
  if argKey ≠ ARG_NONE then
    let bepResult ← bmliteAddArg argKey [] 0
    if bepResult ≠ FPC_BEP_RESULT_OK then
      bmliteOnError .sendCmd bepResult
      return bepResult
    else
      return FPC_BEP_RESULT_OK
  else
    return FPC_BEP_RESULT_OK

/-- The end of `bmlite_get_arg` when its loop has found nothing. -/
def bmliteGetArg.missing : Hcp FpcBepResult := do
  bmliteOnError .getArg FPC_BEP_RESULT_INVALID_ARGUMENT
  return FPC_BEP_RESULT_INVALID_ARGUMENT

/-- The search of `bmlite_get_arg`, with `left = args_nr - i` arguments to go and
`pdata - buffer = pdata`. -/
def bmliteGetArg.search (argType : Nat) : (left pdata : Nat) → Hcp FpcBepResult
  | 0, _ => bmliteGetArg.missing
  | left + 1, pdata => do
    let c ← get
    if pdata % 2 ^ 32 ≤ c.pktSize then
      let arg ← load16 .pkt pdata
      if arg = argType then
        let size ← load16 .pkt (pdata + 2)
        modify fun c => { c with arg := some ⟨size, pdata + 4⟩ }
        return FPC_BEP_RESULT_OK
      else
        let size ← load16 .pkt (pdata + 2)
        bmliteGetArg.search argType left (pdata + (4 + size))
    else
      bmliteGetArg.missing

/-- `bmlite_get_arg`. -/
def bmliteGetArg (argType : Nat) : Hcp FpcBepResult := do
  let argsNr ← load16 .pkt 2
  bmliteGetArg.search argType argsNr 4

/-- `bmlite_copy_arg`: its result and the caller's memory at `arg_data`, which is `none` for a null
pointer. -/
def bmliteCopyArg (argKey : Nat) (argData : Option (Mem Byte)) (argDataSize : Nat) :
    Hcp (FpcBepResult × Option (Mem Byte)) := do
  let bepResult ← bmliteGetArg argKey
  if bepResult = FPC_BEP_RESULT_OK then
    match argData with
    | none =>
      bmliteOnError .getArg FPC_BEP_RESULT_NO_MEMORY
      return (FPC_BEP_RESULT_NO_MEMORY, none)
    | some m =>
      let arg ← chainArg
      let data ← load .pkt arg.data (min argDataSize arg.size)
      return (bepResult, some (blit m 0 data))
  else
    bmliteOnError .getArg FPC_BEP_RESULT_INVALID_ARGUMENT
    return (FPC_BEP_RESULT_INVALID_ARGUMENT, argData)

/-! ## Link -/

/-- `fpc_com_ack`, as it lies in memory. -/
def fpcComAck : List Byte := enc32 FPC_BEP_ACK

/-- `_rx_link`.  The result of the first read passes through a `uint16_t`; that of the second is
dropped. -/
def rxLink : Hcp FpcBepResult := do
  let c ← get
  let result := (← readTxrx 4 0 c.phyRxTimeout).toInt16.toUInt16
  if result ≠ 0 then
    return result.toInt16.toInt8
  else
    let size ← load16 .txrx 2
    if MTU < size + 8 then
      bmliteOnError .sendCmd FPC_BEP_RESULT_IO_ERROR
      return FPC_BEP_RESULT_IO_ERROR
    else
      let _ ← readTxrx (size + 4) 4 100
      let crc ← load32 .txrx (4 + size)
      let crcCalc := fpcCrc 0 (← load .txrx 4 size)
      if crcCalc ≠ crc then
        bmliteOnError .sendCmd FPC_BEP_RESULT_IO_ERROR
        return FPC_BEP_RESULT_IO_ERROR
      else
        let _ ← writeConst fpcComAck 0
        return FPC_BEP_RESULT_OK

/-- `_tx_link`.  The result of the write is overwritten by that of the read. -/
def txLink : Hcp FpcBepResult := do
  let crcCalc := fpcCrc 0 (← load .txrx 4 (← load16 .txrx 2))
  store32 .txrx ((← load16 .txrx 2) + 4) crcCalc
  let size := ((← load16 .txrx 2) + 8) % 65536
  let _ ← writeTxrx size 0
  let (bepResult, ack) ← readLocal 4 500
  if bepResult = FPC_BEP_RESULT_TIMEOUT then
    bmliteOnError .sendCmd FPC_BEP_RESULT_TIMEOUT
    return FPC_BEP_RESULT_IO_ERROR
  else if dec32 ack ≠ FPC_BEP_ACK then
    return FPC_BEP_RESULT_IO_ERROR
  else
    return FPC_BEP_RESULT_OK

/-! ## Transport -/

/-- The loop of `bmlite_send`; `p` is the offset of the next byte in the packet buffer. -/
def bmliteSend.loop (appMtu seqLen : Nat) :
    (rounds seqNr dataLeft p : Nat) → FpcBepResult → Hcp FpcBepResult
  | 0, _, _, _, _ => outOfRounds
  | rounds + 1, seqNr, dataLeft, p, bepResult =>
    if seqNr ≤ seqLen ∧ bepResult = FPC_BEP_RESULT_OK then do
      store16 .txrx 6 seqNr
      if dataLeft < appMtu then
        store16 .txrx 4 dataLeft
      else
        store16 .txrx 4 appMtu
      store .txrx 10 (← load .pkt p (← load16 .txrx 4))
      store16 .txrx 2 ((← load16 .txrx 4) + 6)
      let tSize ← load16 .txrx 4
      let bepResult ← txLink
      bmliteSend.loop appMtu seqLen rounds ((seqNr + 1) % 65536)
        ((dataLeft + 65536 - tSize) % 65536) (p + tSize) bepResult
    else
      return bepResult

/-- `bmlite_send`. -/
def bmliteSend : Hcp FpcBepResult := do
  let c ← get
  let dataLeft := c.pktSize % 65536
  let appMtu := MTU - 6 - 8
  let seqLen := dataLeft / appMtu + 1
  store16 .txrx 0 0
  store16 .txrx 8 seqLen
  let bepResult ←
    bmliteSend.loop appMtu seqLen (seqLen + 1) 1 dataLeft 0 FPC_BEP_RESULT_OK
  if bepResult ≠ FPC_BEP_RESULT_OK then
    bmliteOnError .sendCmd bepResult
  return bepResult

/-- The loop of `bmlite_receive`; `p` is the offset of the next byte in the packet buffer. -/
def bmliteReceive.loop :
    (rounds seqNr seqLen p bufLen : Nat) → (comResult : FpcBepResult) → Hcp FpcBepResult
  | 0, _, _, _, _, _ => outOfRounds
  | rounds + 1, seqNr, seqLen, p, bufLen, comResult => do
    if seqNr < seqLen then
      let bepResult ← rxLink
      if bepResult = FPC_BEP_RESULT_OK then
        let seqNr ← load16 .txrx 6
        let seqLen ← load16 .txrx 8
        let tSize ← load16 .txrx 4
        let lnkSize ← load16 .txrx 2
        if (tSize : Int) ≠ (lnkSize : Int) - 6 then
          bmliteReceive.loop rounds seqNr seqLen p bufLen FPC_BEP_RESULT_IO_ERROR
        else
          let c ← get
          if bufLen + tSize < c.pktSizeMax then
            store .pkt p (← load .txrx 10 tSize)
            bmliteReceive.loop rounds seqNr seqLen (p + tSize) ((bufLen + tSize) % 65536) comResult
          else
            bmliteReceive.loop rounds seqNr seqLen p bufLen FPC_BEP_RESULT_NO_MEMORY
      else
        bmliteOnError .sendCmd bepResult
        return bepResult
    else
      modify fun c => { c with pktSize := bufLen }
      if comResult ≠ FPC_BEP_RESULT_OK then
        bmliteOnError .sendCmd comResult
      return comResult

/-- `bmlite_receive`, cut off after `rounds` rounds of its loop. -/
def bmliteReceive (rounds : Nat) : Hcp FpcBepResult :=
  bmliteReceive.loop rounds 0 1 0 0 FPC_BEP_RESULT_OK

/-- `*(int8_t *)hcp_comm->arg.data` as an `fpc_bep_result_t`. -/
def resultOfByte (bs : List Byte) : FpcBepResult := Int8.ofBitVec (bs.headD 0)

/-- `bmlite_tranceive`. -/
def bmliteTranceive (rounds : Nat) : Hcp FpcBepResult := do
  let before ← get
  let bepResult ← bmliteSend
  if bepResult = FPC_BEP_RESULT_OK then
    let bepResult ← bmliteReceive rounds
    if (← bmliteGetArg ARG_RESULT) = FPC_BEP_RESULT_OK then
      let data ← load .pkt (← chainArg).data 1
      modify fun c => { c with bepResult := resultOfByte data }
    else
      modify fun c => { c with bepResult := FPC_BEP_RESULT_OK }
    noteExchange before bepResult
    return bepResult
  else
    noteExchange before bepResult
    return bepResult

end BMLite
