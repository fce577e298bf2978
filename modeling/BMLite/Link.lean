import BMLite.Packet

/-!
# The link layer

* `runs_rxLink`, `runs_txLink` — all that a call of `_rx_link` or `_tx_link` can do;
* `LinkFrame` — a CRC-valid frame: channel, at most 248 bytes of body, and the CRC-32 of the body;
* `rxLink_frame` — `_rx_link` accepts such a frame and leaves it in `txrx_buffer`;
* `rxLink_burst` — it rejects the frame after an error burst of at most 32 bits;
* `rxLink_received` — **when an accepted frame has been received**: in every case but one, in
  which the second read fails and the buffer still holds a body with a matching CRC.
-/

set_option autoImplicit false

namespace BMLite

open FlatMemory Process

/-! ## What a call can do -/

/-- The size in the header is not touched by what is read behind it. -/
theorem lnkSize_fill_body (c : HcpComm) (bs : List Byte) : (c.fill 4 bs).lnkSize = c.lnkSize := by
  rw [HcpComm.lnkSize, HcpComm.fill, slice_blit_disjoint _ _ (by omega), HcpComm.lnkSize]

/-- The body of `size` bytes in `txrx_buffer` agrees with the CRC that follows it. -/
def HcpComm.CrcValid (c : HcpComm) (size : Nat) : Prop :=
  fpcCrc 0 (slice c.txrxBuffer 4 size) = dec32 (slice c.txrxBuffer (4 + size) 4)

instance (c : HcpComm) (size : Nat) : Decidable (c.CrcValid size) :=
  inferInstanceAs (Decidable (_ = _))

theorem fill_fill (c : HcpComm) (off : Nat) (xs ys : List Byte) :
    (c.fill off xs).fill (off + xs.length) ys = c.fill off (xs ++ ys) := by
  simp [HcpComm.fill, blit_blit_append]

/-- The outcomes of `_rx_link`. -/
inductive RxLink (c : HcpComm) : List HcpEvent → FpcBepResult → HcpComm → Prop
  | noHeader {r d} : r ≠ FPC_BEP_RESULT_OK →
      RxLink c [.read 4 c.phyRxTimeout r d] r (c.fill 0 (d.take 4))
  | tooLong {d c₁} : c₁ = c.fill 0 (d.take 4) → MTU < c₁.lnkSize + 8 →
      RxLink c [.read 4 c.phyRxTimeout FPC_BEP_RESULT_OK d] FPC_BEP_RESULT_IO_ERROR c₁
  | badCrc {d r d' c₁ c₂} : c₁ = c.fill 0 (d.take 4) → c₁.lnkSize + 8 ≤ MTU →
      c₂ = c₁.fill 4 (d'.take (c₁.lnkSize + 4)) → ¬ c₂.CrcValid c₁.lnkSize →
      RxLink c [.read 4 c.phyRxTimeout FPC_BEP_RESULT_OK d, .read (c₁.lnkSize + 4) 100 r d']
        FPC_BEP_RESULT_IO_ERROR c₂
  | accepted {d r d' w c₁ c₂} : c₁ = c.fill 0 (d.take 4) → c₁.lnkSize + 8 ≤ MTU →
      c₂ = c₁.fill 4 (d'.take (c₁.lnkSize + 4)) → c₂.CrcValid c₁.lnkSize →
      RxLink c [.read 4 c.phyRxTimeout FPC_BEP_RESULT_OK d, .read (c₁.lnkSize + 4) 100 r d',
        .write fpcComAck 0 w] FPC_BEP_RESULT_OK c₂

theorem toUInt16_eq_zero {r : FpcBepResult} :
    r.toInt16.toUInt16 = 0 ↔ r = FPC_BEP_RESULT_OK := by
  constructor
  · intro h
    have hr : r.toInt16.toUInt16.toInt16.toInt8 = (0 : UInt16).toInt16.toInt8 := by rw [h]
    rwa [Int16.toInt16_toUInt16, Int8.toInt8_toInt16] at hr
  · rintro rfl; rfl

/-- `bmlite_on_error`, as the functions of the transport and the link call it. -/
def sendCmdError (value : FpcBepResult) : Action := .callback (.onError .sendCmd value)

/-- Report `value` if `b`, and go on. -/
def reportIf {α : Type} (b : Prop) [Decidable b] (value : FpcBepResult) (p : HcpProc α) :
    HcpProc α :=
  if b then .touch (sendCmdError value) p else p

@[simp] theorem touches_reportIf {α : Type} {b : Prop} [Decidable b] {value : FpcBepResult}
    {p : HcpProc α} {es : List HcpEvent} {acc : Access} :
    Touches (reportIf b value p) es (.access acc) ↔ Touches p es (.access acc) := by
  unfold reportIf
  split
  · exact touches_callback
  · exact Iff.rfl

@[simp] theorem runs_reportIf {α : Type} {b : Prop} [Decidable b] {value : FpcBepResult}
    {p : HcpProc α} {es : List HcpEvent} {a : α} :
    Runs (reportIf b value p) es a ↔ Runs p es a := by
  unfold reportIf
  split
  · exact runs_touch
  · exact Iff.rfl

/-- Return, with a report of a result that is an error. -/
def reportResult (x : FpcBepResult × HcpComm) : HcpProc (FpcBepResult × HcpComm) :=
  reportIf (x.1 ≠ FPC_BEP_RESULT_OK) x.1 (.ret x)

@[simp] theorem runs_reportResult {x y : FpcBepResult × HcpComm} {es : List HcpEvent} :
    Runs (reportResult x) es y ↔ es = [] ∧ x = y :=
  runs_reportIf.trans runs_ret

theorem touches_reportResult {x : FpcBepResult × HcpComm} {es : List HcpEvent} {acc : Access} :
    ¬ Touches (reportResult x) es (.access acc) :=
  fun h => touches_ret (touches_reportIf.1 h)

/-- A report at the end does not change the runs. -/
@[simp] theorem runs_bind_reportResult {p : HcpProc (FpcBepResult × HcpComm)}
    {es : List HcpEvent} {y : FpcBepResult × HcpComm} :
    Runs (p >>= reportResult) es y ↔ Runs p es y := by
  rw [runs_bind]
  constructor
  · rintro ⟨x, es₁, es₂, rfl, hp, hend⟩
    obtain ⟨rfl, rfl⟩ := runs_reportResult.1 hend
    rwa [List.append_nil]
  · intro hp
    exact ⟨y, es, [], (List.append_nil es).symm, hp, runs_reportResult.2 ⟨rfl, rfl⟩⟩

/-- A report makes no access. -/
theorem touches_bind_reportResult {p : HcpProc (FpcBepResult × HcpComm)}
    {es : List HcpEvent} {acc : Access} :
    Touches (p >>= reportResult) es (.access acc) ↔ Touches p es (.access acc) := by
  rw [touches_bind]
  refine or_iff_left ?_
  rintro ⟨x, es₁, es₂, -, -, hend⟩
  exact touches_reportResult hend

/-- `_rx_link` as a process. -/
theorem rxLink_run (c : HcpComm) :
    rxLink.run c = .touch (.access ⟨.txrx, true, 0, 4⟩) (.read 4 c.phyRxTimeout fun r d =>
      let c₁ := c.fill 0 (d.take 4)
      if r ≠ FPC_BEP_RESULT_OK then .ret (r, c₁)
      else .touch (.access ⟨.txrx, false, 2, 2⟩) <|
        if MTU < c₁.lnkSize + 8 then
          .touch (sendCmdError FPC_BEP_RESULT_IO_ERROR) <| .ret (FPC_BEP_RESULT_IO_ERROR, c₁)
        else .touch (.access ⟨.txrx, true, 4, c₁.lnkSize + 4⟩) <|
          .read (c₁.lnkSize + 4) 100 fun _ d' =>
            let c₂ := c₁.fill 4 (d'.take (c₁.lnkSize + 4))
            .touch (.access ⟨.txrx, false, 4 + c₁.lnkSize, 4⟩) <|
              .touch (.access ⟨.txrx, false, 4, c₁.lnkSize⟩) <|
                if c₂.CrcValid c₁.lnkSize then
                  .write fpcComAck 0 fun _ => .ret (FPC_BEP_RESULT_OK, c₂)
                else .touch (sendCmdError FPC_BEP_RESULT_IO_ERROR) <|
                  .ret (FPC_BEP_RESULT_IO_ERROR, c₂)) := by
  simp only [rxLink, StateT.run_bind, StateT.run_get, pure_eq, ret_bind, run_readTxrx, touch_bind,
    read_bind]
  congr 2
  funext r d
  by_cases hr : r = FPC_BEP_RESULT_OK
  · rw [if_neg (not_not.2 (toUInt16_eq_zero.2 hr)), if_neg (not_not.2 hr)]
    simp only [StateT.run_bind, run_load16, touch_bind, ret_bind]
    congr 1
    by_cases hsize : MTU < (c.fill 0 (d.take 4)).lnkSize + 8
    · rw [if_pos hsize]
      exact congrArg (StateT.run · _) (if_pos hsize)
    · rw [if_neg hsize]
      refine (congrArg (StateT.run · _) (if_neg hsize)).trans ?_
      simp only [StateT.run_bind, run_readTxrx, touch_bind, read_bind, ret_bind, run_load32,
        run_load]
      congr 2
      funext r' d'
      congr 2
      split <;> rename_i hcrc
      · refine Eq.trans rfl (if_neg ?_).symm
        exact hcrc
      · refine Eq.trans rfl (if_pos ?_).symm
        exact not_not.1 hcrc
  · rw [if_pos (mt toUInt16_eq_zero.1 hr), if_pos hr, Int16.toInt16_toUInt16, Int8.toInt8_toInt16]
    rfl

/-- **`_rx_link`**, whatever its reads deliver. -/
theorem runs_rxLink {c c' : HcpComm} {es : List HcpEvent} {r : FpcBepResult} :
    Runs (rxLink.run c) es (r, c') ↔ RxLink c es r c' := by
  rw [rxLink_run]
  simp only [runs_touch, runs_read]
  constructor
  · rintro ⟨r₁, d, fs, rfl, h⟩
    split at h <;> rename_i hr
    · obtain ⟨rfl, ⟨⟩⟩ := runs_ret.1 h
      exact .noHeader hr
    obtain rfl := not_not.1 hr
    rw [runs_touch] at h
    split at h <;> rename_i hsize
    · obtain ⟨rfl, ⟨⟩⟩ := runs_ret.1 (runs_touch.1 h)
      exact .tooLong rfl hsize
    rw [runs_touch, runs_read] at h
    obtain ⟨r₂, d', gs, rfl, h⟩ := h
    rw [runs_touch, runs_touch] at h
    split at h <;> rename_i hcrc
    · obtain ⟨w, ks, rfl, hw⟩ := runs_write.1 h
      obtain ⟨rfl, ⟨⟩⟩ := runs_ret.1 hw
      exact .accepted rfl (Nat.not_lt.1 hsize) rfl hcrc
    · obtain ⟨rfl, ⟨⟩⟩ := runs_ret.1 (runs_touch.1 h)
      exact .badCrc rfl (Nat.not_lt.1 hsize) rfl hcrc
  · intro h
    cases h with
    | noHeader hr => exact ⟨_, _, _, rfl, by rw [if_pos hr]; exact .refl _⟩
    | tooLong hc₁ hsize =>
      subst hc₁
      refine ⟨_, _, _, rfl, ?_⟩
      rw [if_neg (not_not.2 rfl), runs_touch, if_pos hsize]
      exact .touch (.refl _)
    | badCrc hc₁ hsize hc₂ hcrc =>
      subst hc₁ hc₂
      refine ⟨_, _, _, rfl, ?_⟩
      rw [if_neg (not_not.2 rfl), runs_touch, if_neg (Nat.not_lt.2 hsize), runs_touch, runs_read]
      refine ⟨_, _, _, rfl, ?_⟩
      rw [runs_touch, runs_touch, if_neg hcrc]
      exact .touch (.refl _)
    | accepted hc₁ hsize hc₂ hcrc =>
      subst hc₁ hc₂
      refine ⟨_, _, _, rfl, ?_⟩
      rw [if_neg (not_not.2 rfl), runs_touch, if_neg (Nat.not_lt.2 hsize), runs_touch, runs_read]
      refine ⟨_, _, _, rfl, ?_⟩
      rw [runs_touch, runs_touch, if_pos hcrc]
      exact .write (.refl _)

/-- The chain after `_tx_link` has stored the CRC. -/
def HcpComm.seal (c : HcpComm) : HcpComm :=
  c.fill (c.lnkSize + 4) (enc32 (fpcCrc 0 (slice c.txrxBuffer 4 c.lnkSize)))

/-- What `_tx_link` returns after its read for the ACK. -/
def ackResult (r : FpcBepResult) (ack : List Byte) : FpcBepResult :=
  if r = FPC_BEP_RESULT_TIMEOUT then FPC_BEP_RESULT_IO_ERROR
  else if dec32 ack ≠ FPC_BEP_ACK then FPC_BEP_RESULT_IO_ERROR
  else FPC_BEP_RESULT_OK

theorem lnkSize_seal (c : HcpComm) : c.seal.lnkSize = c.lnkSize := by
  rw [HcpComm.lnkSize, HcpComm.seal, HcpComm.fill, slice_blit_disjoint _ _ (by omega)]; rfl

/-- `_tx_link` as a process. -/
theorem txLink_run (c : HcpComm) :
    txLink.run c = .touch (.access ⟨.txrx, false, 2, 2⟩) (
      .touch (.access ⟨.txrx, false, 4, c.lnkSize⟩) <|
      .touch (.access ⟨.txrx, false, 2, 2⟩) <|
      .touch (.access ⟨.txrx, true, c.lnkSize + 4, 4⟩) <|
      .touch (.access ⟨.txrx, false, 2, 2⟩) <|
      .touch (.access ⟨.txrx, false, 0, (c.lnkSize + 8) % 65536⟩) <|
      .write (slice c.seal.txrxBuffer 0 ((c.lnkSize + 8) % 65536)) 0 fun _ =>
        .read 4 500 fun r d => reportIf (r = FPC_BEP_RESULT_TIMEOUT) FPC_BEP_RESULT_TIMEOUT <|
          .ret (ackResult r (d.take 4), c.seal)) := by
  have hseal : dec16 (slice (c.seal.mem .txrx) 2 2) = c.lnkSize := lnkSize_seal c
  have hstore : (store32 .txrx (c.lnkSize + 4) (fpcCrc 0 (slice (c.mem .txrx) 4 c.lnkSize))).run c =
      .touch (.access ⟨.txrx, true, c.lnkSize + 4, 4⟩) (.ret ((), c.seal)) := rfl
  simp only [txLink, StateT.run_bind, run_load16, run_load, touch_bind, ret_bind]
  rw [show dec16 (slice (c.mem .txrx) 2 2) = c.lnkSize from rfl, hstore]
  simp only [touch_bind, ret_bind, hseal, run_writeTxrx, run_readLocal, write_bind, read_bind]
  congr
  funext w
  congr
  funext r d
  unfold ackResult reportIf
  split
  · rfl
  · split <;> rfl

/-- **`_tx_link`**, whatever its write and its read return. -/
theorem runs_txLink {c c' : HcpComm} {es : List HcpEvent} {r : FpcBepResult} :
    Runs (txLink.run c) es (r, c') ↔ ∃ w r₁ d,
      es = [.write (slice c.seal.txrxBuffer 0 ((c.lnkSize + 8) % 65536)) 0 w, .read 4 500 r₁ d] ∧
      r = ackResult r₁ (d.take 4) ∧ c' = c.seal := by
  rw [txLink_run]
  simp only [runs_touch, runs_write, runs_read]
  constructor
  · rintro ⟨w, _, rfl, r₁, d, _, rfl, h⟩
    obtain ⟨rfl, heq⟩ := runs_ret.1 (runs_reportIf.1 h)
    cases heq
    exact ⟨w, r₁, d, rfl, rfl, rfl⟩
  · rintro ⟨w, r₁, d, rfl, rfl, rfl⟩
    exact ⟨w, _, rfl, r₁, d, _, rfl, runs_reportIf.2 (.refl _)⟩

/-! ## CRC-valid frames -/

/-- A frame of the link layer; its CRC is that of its body. -/
structure LinkFrame where
  chn : Nat
  body : List Byte
  chn_lt : chn < 65536
  body_le : body.length + 8 ≤ MTU

def LinkFrame.header (f : LinkFrame) : List Byte := enc16 f.chn ++ enc16 f.body.length

/-- What follows the header. -/
def LinkFrame.tail (f : LinkFrame) : List Byte := f.body ++ enc32 (fpcCrc 0 f.body)

def LinkFrame.bytes (f : LinkFrame) : List Byte := f.header ++ f.tail

@[simp] theorem LinkFrame.header_length (f : LinkFrame) : f.header.length = 4 := rfl

@[simp] theorem LinkFrame.tail_length (f : LinkFrame) : f.tail.length = f.body.length + 4 := by
  simp [LinkFrame.tail]

@[simp] theorem LinkFrame.bytes_length (f : LinkFrame) : f.bytes.length = f.body.length + 8 := by
  simp [LinkFrame.bytes]; omega

theorem LinkFrame.size_lt (f : LinkFrame) : f.body.length < 65536 := by
  have := f.body_le
  simp only [MTU] at this
  omega

theorem fill_header (c : HcpComm) (f : LinkFrame) (bs : List Byte) :
    (c.fill 0 f.header).fill 4 bs = c.fill 0 (f.header ++ bs) := by
  rw [← fill_fill]; rfl

theorem lnkSize_header (c : HcpComm) (f : LinkFrame) :
    (c.fill 0 f.header).lnkSize = f.body.length := by
  have h := (holds_append.1 (holds_blit c.txrxBuffer 0 f.header)).2
  exact dec16_of_holds h f.size_lt

/-- The CRC of a received tail, wherever it came from. -/
theorem crcValid_tail (c : HcpComm) (f : LinkFrame) {x : List Byte}
    (hx : x.length = f.body.length + 4) :
    (c.fill 0 (f.header ++ x)).CrcValid f.body.length ↔
      fpcCrc 0 (x.take f.body.length) = dec32 (x.drop f.body.length) := by
  have h : Holds (c.fill 0 (f.header ++ x)).txrxBuffer 4 x :=
    (holds_append.1 (holds_blit c.txrxBuffer 0 (f.header ++ x))).2
  have hbody := h.slice (o := 0) (n := f.body.length) (by omega)
  have hcrc := h.slice (o := f.body.length) (n := 4) (by omega)
  rw [List.take_of_length_le (by simp; omega)] at hcrc
  rw [HcpComm.CrcValid, hcrc, show slice _ 4 f.body.length = _ from hbody, List.drop_zero]

/-- **`_rx_link` accepts a CRC-valid frame** and leaves it at the start of `txrx_buffer`. -/
theorem rxLink_frame (c : HcpComm) (f : LinkFrame) (r w : FpcBepResult) :
    Runs (rxLink.run c) [.read 4 c.phyRxTimeout FPC_BEP_RESULT_OK f.header,
      .read (f.body.length + 4) 100 r f.tail, .write fpcComAck 0 w]
      (FPC_BEP_RESULT_OK, c.fill 0 f.bytes) := by
  have hsize := lnkSize_header c f
  have hhdr : c.fill 0 f.header = c.fill 0 (f.header.take 4) := by
    rw [List.take_of_length_le (by simp)]
  rw [runs_rxLink, ← hsize]
  refine .accepted hhdr (by rw [hsize]; exact f.body_le) ?_ ?_
  · rw [List.take_of_length_le (by rw [hsize]; simp), fill_header]; rfl
  · rw [hsize]
    refine (crcValid_tail c f (x := f.tail) (by simp)).2 ?_
    simp [LinkFrame.tail, dec32_enc32]

/-- **`_rx_link` rejects a frame after an error burst of at most 32 bits** behind its header. -/
theorem rxLink_burst {c c' : HcpComm} {f : LinkFrame} {x : List Byte}
    (hx : x.length = f.body.length + 4) (hne : x ≠ f.tail) {a : Nat}
    (hwin : ∀ i, (byteBits f.tail)[i]? ≠ (byteBits x)[i]? → a ≤ i ∧ i < a + 32)
    {t n t' : Nat} {r₂ r : FpcBepResult} {es : List HcpEvent} :
    Runs (rxLink.run c) (.read 4 t FPC_BEP_RESULT_OK f.header :: .read n t' r₂ x :: es) (r, c') ↔
      t = c.phyRxTimeout ∧ n = f.body.length + 4 ∧ t' = 100 ∧ es = [] ∧
      r = FPC_BEP_RESULT_IO_ERROR ∧ c' = c.fill 0 (f.header ++ x) := by
  have hsize := lnkSize_header c f
  have hhdr : c.fill 0 (f.header.take 4) = c.fill 0 f.header := by
    rw [List.take_of_length_le (by simp)]
  have hcrc : ¬ (c.fill 0 (f.header ++ x)).CrcValid f.body.length := by
    rw [crcValid_tail c f hx]
    exact fpcCrc_burst hx hne hwin
  have htake : x.take (f.body.length + 4) = x := List.take_of_length_le (by omega)
  rw [runs_rxLink]
  constructor
  · intro h
    cases h with
    | badCrc hc₁ _ hc₂ _ =>
      rw [hhdr] at hc₁
      subst hc₁
      rw [hsize, htake, fill_header] at hc₂
      exact ⟨rfl, by rw [hsize], rfl, rfl, rfl, hc₂⟩
    | accepted hc₁ _ hc₂ hvalid =>
      rw [hhdr] at hc₁
      subst hc₁
      rw [hsize, htake, fill_header] at hc₂
      rw [hc₂, hsize] at hvalid
      exact absurd hvalid hcrc
  · rintro ⟨rfl, rfl, rfl, rfl, rfl, rfl⟩
    rw [← hsize]
    refine .badCrc hhdr.symm (by rw [hsize]; exact f.body_le) ?_ (by rw [hsize]; exact hcrc)
    rw [hsize, htake, fill_header]

/-! ## Reads that succeed -/

/-- A read, if it is one, succeeds and fills what it was asked for. -/
def ReadOk : HcpEvent → Prop
  | .read n _ r d => r = FPC_BEP_RESULT_OK ∧ d.length = n
  | _ => True

/-- A call that succeeds on successful reads has read a frame. -/
theorem rxLink_accepts {c c' : HcpComm} {es : List HcpEvent}
    (h : RxLink c es FPC_BEP_RESULT_OK c') (hes : ∀ e ∈ es, ReadOk e) :
    ∃ d d' w, es = [.read 4 c.phyRxTimeout FPC_BEP_RESULT_OK d,
        .read (c'.lnkSize + 4) 100 FPC_BEP_RESULT_OK d', .write fpcComAck 0 w] ∧
      c' = c.fill 0 (d ++ d') ∧ d.length = 4 ∧ d'.length = c'.lnkSize + 4 ∧
      c'.lnkSize + 8 ≤ MTU ∧ c'.CrcValid c'.lnkSize := by
  cases h with
  | noHeader hr => exact absurd rfl hr
  | @accepted d r d' w c₁ _ hc₁ hsize hc₂ hcrc =>
    have hd : d.length = 4 := (hes _ (List.mem_cons_self ..)).2
    obtain ⟨rfl, hd'⟩ := hes (.read (c₁.lnkSize + 4) 100 r d') (by simp)
    rw [List.take_of_length_le (by omega)] at hc₁ hc₂
    have hlnk : c'.lnkSize = c₁.lnkSize := by rw [hc₂, lnkSize_fill_body]
    rw [hlnk]
    refine ⟨d, d', w, rfl, ?_, hd, hd', hsize, hcrc⟩
    rw [hc₂, hc₁, ← fill_fill, hd]

/-! ## Frames that were not received -/

/-- A read that succeeds fills what it was asked for, and one that fails stores nothing. -/
def Honest : HcpEvent → Prop
  | .read n _ r d => if r = FPC_BEP_RESULT_OK then d.length = n else d = []
  | _ => True

/-- Both reads of the call succeeded, and the CRC was computed over, and compared with, the bytes
of the second one. -/
def Delivered (c' : HcpComm) (es : List HcpEvent) : Prop :=
  ∃ t d t' d' w,
    es = [.read 4 t FPC_BEP_RESULT_OK d, .read (dec16 (d.drop 2) + 4) t' FPC_BEP_RESULT_OK d',
      .write fpcComAck 0 w] ∧
    slice c'.txrxBuffer 4 (dec16 (d.drop 2) + 4) = d' ∧ c'.CrcValid (dec16 (d.drop 2))

/-- A header was read whose body could not be read, and the buffer already held a body of that
size with a matching CRC. -/
def StaleBody (c : HcpComm) (es : List HcpEvent) : Prop :=
  ∃ t d n t' r es', es = .read 4 t FPC_BEP_RESULT_OK d :: .read n t' r [] :: es' ∧
    r ≠ FPC_BEP_RESULT_OK ∧ dec16 (d.drop 2) + 8 ≤ MTU ∧ c.CrcValid (dec16 (d.drop 2))

theorem lnkSize_fill (c : HcpComm) {d : List Byte} (hd : d.length = 4) :
    (c.fill 0 d).lnkSize = dec16 (d.drop 2) := by
  have h := (holds_blit c.txrxBuffer 0 d).slice (o := 2) (n := 2) (by omega)
  rw [List.take_of_length_le (by simp; omega)] at h
  rw [HcpComm.lnkSize, ← h]; rfl

/-- A header does not touch the body behind it. -/
theorem crcValid_fill (c : HcpComm) {d : List Byte} (hd : d.length = 4) (size : Nat) :
    (c.fill 0 d).CrcValid size ↔ c.CrcValid size := by
  simp only [HcpComm.CrcValid, HcpComm.fill]
  rw [slice_blit_disjoint _ _ (by omega), slice_blit_disjoint _ _ (by omega)]

theorem not_staleBody_singleton (c : HcpComm) (e : HcpEvent) : ¬ StaleBody c [e] := by
  rintro ⟨_, _, _, _, _, _, h, _⟩
  cases h

/-- **An accepted frame has been received, except when** the body could not be read and a stale
one took its place. -/
theorem rxLink_received {c c' : HcpComm} {es : List HcpEvent} {r : FpcBepResult}
    (h : Runs (rxLink.run c) es (r, c')) (hes : ∀ e ∈ es, Honest e) :
    (r = FPC_BEP_RESULT_OK ∨ (∃ t w, .write fpcComAck t w ∈ es) → Delivered c' es) ↔
      ¬ StaleBody c es := by
  cases runs_rxLink.1 h with
  | noHeader hr =>
    refine iff_of_true (fun hor => absurd hor ?_) (not_staleBody_singleton c _)
    rintro (hok | ⟨t, w, hw⟩)
    · exact hr hok
    · simp at hw
  | tooLong hc₁ hsize =>
    refine iff_of_true (fun hor => absurd hor ?_) (not_staleBody_singleton c _)
    rintro (hok | ⟨t, w, hw⟩)
    · cases hok
    · simp at hw
  | @badCrc d r₂ d' c₁ _ hc₁ hsize hc₂ hcrc =>
    have hd : d.length = 4 := by simpa [Honest] using hes _ (List.mem_cons_self ..)
    refine iff_of_true (fun hor => absurd hor ?_) ?_
    · rintro (hok | ⟨t, w, hw⟩)
      · cases hok
      · simp at hw
    · rintro ⟨t, e, n, t', r', es', heq, -, -, hvalid⟩
      cases heq
      rw [List.take_of_length_le (by omega)] at hc₁
      subst hc₁
      rw [lnkSize_fill c hd] at hc₂ hcrc
      rw [hc₂] at hcrc
      exact hcrc (by simpa [HcpComm.fill] using (crcValid_fill c hd _).2 hvalid)
  | @accepted d r₂ d' w c₁ _ hc₁ hsize hc₂ hcrc =>
    have hd : d.length = 4 := by simpa [Honest] using hes _ (List.mem_cons_self ..)
    have hd' := hes (.read (c₁.lnkSize + 4) 100 r₂ d') (by simp)
    rw [List.take_of_length_le (by omega)] at hc₁
    subst hc₁
    rw [lnkSize_fill c hd] at hsize hc₂ hcrc hd' ⊢
    by_cases hr₂ : r₂ = FPC_BEP_RESULT_OK
    · have hlen : d'.length = dec16 (d.drop 2) + 4 := by simpa [Honest, hr₂] using hd'
      subst hr₂
      refine iff_of_true (fun _ => ⟨_, d, _, d', w, rfl, ?_, hcrc⟩) ?_
      · rw [hc₂, List.take_of_length_le (by omega), ← hlen]
        exact slice_blit_self _ 4 d'
      · rintro ⟨t, e, n, t', r', es', heq, hr', -⟩
        cases heq
        exact hr' rfl
    · have hnil : d' = [] := by simpa [Honest, hr₂] using hd'
      subst hnil
      refine iff_of_false ?_ (not_not.2 ⟨_, d, _, _, r₂, _, rfl, hr₂, hsize, ?_⟩)
      · intro hdel
        obtain ⟨t, e, t', e', v, heq, -⟩ := hdel (.inl rfl)
        cases heq
        exact hr₂ rfl
      · rw [hc₂] at hcrc
        simpa [HcpComm.fill] using (crcValid_fill c hd _).1 (by simpa [HcpComm.fill] using hcrc)

/-- A request for `CMD_IDENTIFY`, as `bmlite_send` leaves it in `txrx_buffer`. -/
def identifyFrame : List Byte :=
  [0, 0, 10, 0, 4, 0, 1, 0, 1, 0, 3, 0, 0, 0, 0xd9, 0xb4, 0x22, 0xff]

/-- An answer that is received as announced. -/
theorem rxLink_received_answer :
    ∃ c', Delivered c' [.read 4 2000 FPC_BEP_RESULT_OK (identifyFrame.take 4),
      .read 14 100 FPC_BEP_RESULT_OK (identifyFrame.drop 4),
      .write fpcComAck 0 FPC_BEP_RESULT_OK] := by
  have hrun : Runs (rxLink.run hcpChain)
      [.read 4 2000 FPC_BEP_RESULT_OK (identifyFrame.take 4),
        .read 14 100 FPC_BEP_RESULT_OK (identifyFrame.drop 4),
        .write fpcComAck 0 FPC_BEP_RESULT_OK]
      (FPC_BEP_RESULT_OK, (hcpChain.fill 0 (identifyFrame.take 4)).fill 4 (identifyFrame.drop 4)) :=
    runs_rxLink.2 (.accepted rfl (by decide) rfl (by decide +kernel))
  refine ⟨_, (rxLink_received hrun (by simp [Honest, identifyFrame])).2 ?_ (.inl rfl)⟩
  rintro ⟨t, d, n, t', r, es', heq, hr, -⟩
  cases heq

/-- **The request itself is accepted as the answer**: the header of an answer of the same size is
read, the body is not, and the call succeeds and writes an ACK. -/
theorem rxLink_accepts_request :
    let c := hcpChain.fill 0 identifyFrame
    let es := [.read 4 2000 FPC_BEP_RESULT_OK [0, 0, 10, 0],
      .read 14 100 FPC_BEP_RESULT_TIMEOUT [], .write fpcComAck 0 FPC_BEP_RESULT_OK]
    ∃ c', Runs (rxLink.run c) es (FPC_BEP_RESULT_OK, c') ∧ (∀ e ∈ es, Honest e) ∧
      ¬ Delivered c' es := by
  intro c es
  refine ⟨_, runs_rxLink.2 (.accepted rfl ?_ rfl ?_), ?_, ?_⟩
  · decide
  · decide +kernel
  · simp [es, Honest, FPC_BEP_RESULT_OK, FPC_BEP_RESULT_TIMEOUT]
  · rintro ⟨t, d, t', d', w, heq, -⟩
    unfold es at heq
    cases heq

end BMLite
