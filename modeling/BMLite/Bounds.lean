import BMLite.Lib.Access
import BMLite.Receive

/-!
# Buffer bounds

The accesses that `bmlite_send` and `bmlite_receive` make to the two buffers, whatever the channel
delivers.

* `rxLink_touches`, `txLink_touches` — the link layer stays in the first 256 bytes of
  `txrx_buffer`;
* `send_loop_touches` — `bmlite_send` reads the packet buffer below `pkt_size`;
* `receive_loop_touches` — `bmlite_receive` writes to it below `pkt_size_max`;
* `buffer_bounds` — **both together**, and the size that is left behind.
-/

set_option autoImplicit false

namespace BMLite

open FlatMemory Process

/-! ## The link layer -/

/-- The access lies in the `MTU` bytes of `txrx_buffer`. -/
def Access.InTxrx (acc : Access) : Prop := acc.buffer = .txrx ∧ acc.offset + acc.length ≤ MTU

theorem rxLink_touches {c : HcpComm} {es : List HcpEvent} {acc : Access}
    (h : Touches (rxLink.run c) es (.access acc)) : acc.InTxrx := by
  rw [rxLink_run, touches_access, touches_read] at h
  rcases h with rfl | ⟨r, d, fs, rfl, h⟩
  · exact ⟨rfl, by decide⟩
  split at h
  · exact absurd h touches_ret
  rw [touches_access] at h
  rcases h with rfl | h
  · exact ⟨rfl, by decide⟩
  split at h <;> rename_i hsize
  · exact absurd (touches_callback.1 h) touches_ret
  have hle := Nat.not_lt.1 hsize
  rw [touches_access, touches_read] at h
  rcases h with rfl | ⟨r', d', gs, rfl, h⟩
  · exact ⟨rfl, by simp only; omega⟩
  rw [touches_access, touches_access] at h
  rcases h with rfl | rfl | h
  · exact ⟨rfl, by simp only; omega⟩
  · exact ⟨rfl, by simp only; omega⟩
  split at h
  · obtain ⟨w, ks, -, hw⟩ := touches_write.1 h
    exact absurd hw touches_ret
  · exact absurd (touches_callback.1 h) touches_ret

theorem txLink_touches {c : HcpComm} (hsize : c.lnkSize + 8 ≤ MTU) {es : List HcpEvent}
    {acc : Access} (h : Touches (txLink.run c) es (.access acc)) : acc.InTxrx := by
  rw [txLink_run] at h
  simp only [touches_access, touches_write, touches_read, touches_reportIf, touches_ret, and_false,
    exists_false, or_false] at h
  unfold Access.InTxrx
  simp only [MTU] at hsize ⊢
  rcases h with rfl | rfl | rfl | rfl | rfl | rfl <;> refine ⟨rfl, ?_⟩ <;> simp only <;> omega

/-! ## The transport layer -/

/-- The access lies in `txrx_buffer`, or it reads the packet buffer below `size`. -/
def Access.Sending (acc : Access) (size : Nat) : Prop :=
  acc.InTxrx ∨ (acc.buffer = .pkt ∧ acc.isWrite = false ∧ acc.offset + acc.length ≤ size)

/-- The access lies in `txrx_buffer`, or it writes to the packet buffer below `max`. -/
def Access.Receiving (acc : Access) (max : Nat) : Prop :=
  acc.InTxrx ∨ (acc.buffer = .pkt ∧ acc.isWrite = true ∧ acc.offset + acc.length ≤ max)

theorem touches_buildChunk {α : Type} {n p : Nat} (hn : n ≤ APP_MTU) {next : HcpProc α}
    {es : List HcpEvent} {acc : Access} (h : Touches (buildChunk n p next) es (.access acc)) :
    acc.Sending (p + n) ∨ Touches next es (.access acc) := by
  unfold buildChunk at h
  simp only [touches_access] at h
  unfold Access.Sending Access.InTxrx
  simp only [APP_MTU, MTU] at hn ⊢
  rcases h with rfl | rfl | rfl | rfl | rfl | rfl | rfl | h
  · exact .inl (.inl ⟨rfl, by decide⟩)
  · exact .inl (.inl ⟨rfl, by decide⟩)
  · exact .inl (.inr ⟨rfl, rfl, Nat.le_refl _⟩)
  · exact .inl (.inl ⟨rfl, show 10 + n ≤ 256 by omega⟩)
  · exact .inl (.inl ⟨rfl, by decide⟩)
  · exact .inl (.inl ⟨rfl, by decide⟩)
  · exact .inl (.inl ⟨rfl, by decide⟩)
  · exact .inr h

theorem lnkSize_putChunk {c : HcpComm} {seqNr n p : Nat} (hn : n ≤ APP_MTU) :
    (c.putChunk seqNr n p).lnkSize = n + 6 := by
  simp only [APP_MTU, MTU] at hn
  exact dec16_of_holds (holds_blit _ _ _) (by omega)

/-- The loop of `bmlite_send`: what is left of the packet begins at `p`. -/
theorem send_loop_touches (rounds : Nat) :
    ∀ {c : HcpComm} {seqLen seqNr dataLeft p size : Nat} {bepResult : FpcBepResult}
      {es : List HcpEvent} {acc : Access}, p + dataLeft = size → dataLeft < 65536 →
      Touches ((bmliteSend.loop APP_MTU seqLen rounds seqNr dataLeft p bepResult).run c) es
        (.access acc) →
      acc.Sending size := by
  induction rounds with
  | zero =>
    intro c seqLen seqNr dataLeft p size bepResult es acc _ _ h
    exact absurd h touches_out
  | succ rounds ih =>
    intro c seqLen seqNr dataLeft p size bepResult es acc hsize hlt h
    by_cases hgo : seqNr ≤ seqLen ∧ bepResult = FPC_BEP_RESULT_OK
    · obtain ⟨hgo, rfl⟩ := hgo
      have hle : chunkSize dataLeft ≤ dataLeft ∧ chunkSize dataLeft ≤ APP_MTU := by
        rw [chunkSize_eq]
        omega
      rw [send_loop_run hgo] at h
      rcases touches_access.1 h with rfl | h
      · exact .inl ⟨rfl, by decide⟩
      rcases touches_buildChunk hle.2 h with h | h
      · rcases h with h | ⟨hb, hr, hend⟩
        · exact .inl h
        · exact .inr ⟨hb, hr, by omega⟩
      rcases touches_bind.1 h with h | ⟨x, es₁, es₂, rfl, -, h⟩
      · refine .inl (txLink_touches ?_ h)
        rw [lnkSize_putChunk hle.2]
        have := hle.2
        simp only [APP_MTU, MTU] at this ⊢
        omega
      · exact ih (by omega) (by omega) h
    · simp only [bmliteSend.loop, hgo, if_false] at h
      exact absurd h touches_ret

theorem touches_copyChunk {α : Type} {c : HcpComm} {p bufLen : Nat} {next : HcpProc α}
    {es : List HcpEvent} {acc : Access} (hsize : c.lnkSize + 8 ≤ MTU)
    (h : Touches (copyChunk c p bufLen next) es (.access acc)) :
    acc.InTxrx ∨ (c.Takes bufLen ∧ acc = ⟨.pkt, true, p, c.tSize⟩) ∨
      Touches next es (.access acc) := by
  unfold copyChunk at h
  simp only [touches_access] at h
  unfold Access.InTxrx
  simp only [MTU] at hsize ⊢
  rcases h with rfl | rfl | rfl | rfl | h
  · exact .inl ⟨rfl, by decide⟩
  · exact .inl ⟨rfl, by decide⟩
  · exact .inl ⟨rfl, by decide⟩
  · exact .inl ⟨rfl, by decide⟩
  split at h <;> rename_i htakes
  · rcases touches_access.1 h with rfl | h
    · have ht := htakes.1
      exact .inl ⟨rfl, show 10 + c.tSize ≤ 256 by omega⟩
    rcases touches_access.1 h with rfl | h
    · exact .inr (.inl ⟨htakes, rfl⟩)
    · exact .inr (.inr h)
  · exact .inr (.inr h)

/-- The size in the header of an accepted frame. -/
theorem rxLink_lnkSize_le {c c₁ : HcpComm} {es : List HcpEvent}
    (h : RxLink c es FPC_BEP_RESULT_OK c₁) : c₁.lnkSize + 8 ≤ MTU := by
  cases h with
  | noHeader hr => exact absurd rfl hr
  | accepted hc₁ hsize hc₂ hcrc =>
    rw [hc₂, lnkSize_fill_body]
    exact hsize

/-- The count of the received bytes stays within the buffer. -/
theorem takeChunk_bufLen_le {c : HcpComm} {bufLen : Nat} (h : bufLen ≤ c.pktSizeMax) (p : Nat)
    (comResult : FpcBepResult) : (c.takeChunk p bufLen comResult).bufLen ≤ c.pktSizeMax := by
  rcases takeChunk_bufLen c p bufLen comResult with heq | ⟨hfit, heq⟩
  · rw [heq]
    exact h
  · rw [heq]
    exact (Nat.mod_le _ _).trans (Nat.le_of_lt hfit)

/-- The count and the pointer go together as long as the count does not wrap. -/
theorem takeChunk_p_eq {c : HcpComm} (hmax : c.pktSizeMax ≤ 65536) (p : Nat)
    (comResult : FpcBepResult) :
    (c.takeChunk p p comResult).p = (c.takeChunk p p comResult).bufLen := by
  unfold HcpComm.takeChunk
  split
  · rfl
  · split <;> rename_i hfit
    · exact (Nat.mod_eq_of_lt (lt_of_lt_of_le hfit hmax)).symm
    · rfl

/-- The loop of `bmlite_receive`: the packet goes on at `p`. -/
theorem receive_loop_touches (rounds : Nat) :
    ∀ {c : HcpComm} {seqNr seqLen p : Nat} {comResult : FpcBepResult} {es : List HcpEvent}
      {acc : Access}, c.pktSizeMax ≤ 65536 →
      Touches ((bmliteReceive.loop rounds seqNr seqLen p p comResult).run c) es (.access acc) →
      acc.Receiving c.pktSizeMax := by
  induction rounds with
  | zero =>
    intro c seqNr seqLen p comResult es acc _ h
    exact absurd h touches_out
  | succ rounds ih =>
    intro c seqNr seqLen p comResult es acc hmax h
    by_cases hgo : seqNr < seqLen
    · rw [receive_round_run hgo, touches_bind] at h
      rcases h with h | ⟨⟨r, c₁⟩, es₁, es₂, rfl, hlink, h⟩
      · exact .inl (rxLink_touches h)
      split at h <;> rename_i hr
      · cases hr
        have hlink := runs_rxLink.1 hlink
        have hmax₁ := (rxLink_sizes_eq hlink).2
        rcases touches_copyChunk (rxLink_lnkSize_le hlink) h with h | ⟨htakes, rfl⟩ | h
        · exact .inl h
        · have hfit := htakes.2
          rw [hmax₁] at hfit
          exact .inr ⟨rfl, rfl, Nat.le_of_lt hfit⟩
        · have hmax₂ := (takeChunk_sizes c₁ p p comResult).2
          rw [hmax₁] at hmax₂
          rw [takeChunk_p_eq (by rw [hmax₁]; exact hmax)] at h
          rw [← hmax₂]
          exact ih (by rw [hmax₂]; exact hmax) h
      · exact absurd h touches_reportResult
    · rw [receive_exit_run hgo] at h
      exact absurd h touches_reportResult

/-- The size that the loop of `bmlite_receive` leaves behind. -/
theorem RxRounds.size_le {c c' : HcpComm} {bufLen : Nat} {comResult r : FpcBepResult}
    {es : List HcpEvent} (h : RxRounds c bufLen comResult es r c') (hsize : c.pktSize ≤ c.pktSizeMax)
    (hbuf : bufLen ≤ c.pktSizeMax) : c'.pktSize ≤ c.pktSizeMax := by
  induction h with
  | done c bufLen comResult => exact hbuf
  | failed _ hlink =>
    rw [(rxLink_sizes_eq hlink).1]
    exact hsize
  | @next c c₁ c' bufLen comResult r es₁ es₂ p hlink _ ih =>
    obtain ⟨hsize₁, hmax₁⟩ := rxLink_sizes_eq hlink
    obtain ⟨hsize₂, hmax₂⟩ := takeChunk_sizes c₁ p bufLen comResult
    rw [hsize₁] at hsize₂
    rw [← hmax₁] at hbuf
    have hbuf' := takeChunk_bufLen_le hbuf p comResult
    rw [hmax₁] at hmax₂ hbuf'
    rw [← hmax₂] at hbuf' ⊢
    exact ih (by rw [hsize₂, hmax₂]; exact hsize) hbuf'

/-! ## Both together -/

/-- Every index of the access lies in `txrx_buffer`, or in the part of the packet buffer that may
be accessed so. -/
def Access.Within (acc : Access) (c : HcpComm) : Prop :=
  ∀ i, acc.offset ≤ i → i < acc.offset + acc.length →
    match acc.buffer, acc.isWrite with
    | .txrx, _ => i < MTU
    | .pkt, true => i < c.pktSizeMax
    | .pkt, false => i < c.pktSize

theorem Access.InTxrx.within {acc : Access} (h : acc.InTxrx) (c : HcpComm) : acc.Within c := by
  intro i _ hi
  rw [h.1]
  exact lt_of_lt_of_le hi h.2

theorem Access.Sending.within {acc : Access} {c : HcpComm} (h : acc.Sending c.pktSize) :
    acc.Within c := by
  rcases h with h | ⟨hb, hr, hle⟩
  · exact h.within c
  · intro i _ hi
    rw [hb, hr]
    exact lt_of_lt_of_le hi hle

theorem Access.Receiving.within {acc : Access} {c : HcpComm} (h : acc.Receiving c.pktSizeMax) :
    acc.Within c := by
  rcases h with h | ⟨hb, hw, hle⟩
  · exact h.within c
  · intro i _ hi
    rw [hb, hw]
    exact lt_of_lt_of_le hi hle

/-- **Buffer bounds against an arbitrary module.**  Whatever the reads and the writes return and
deliver, `bmlite_send` and `bmlite_receive` stay inside both buffers, and the size that
`bmlite_receive` leaves fits the packet buffer. -/
theorem buffer_bounds {c : HcpComm} (hsize : c.pktSize ≤ c.pktSizeMax)
    (hmax : c.pktSizeMax ≤ 65535) :
    (∀ es acc, Touches (bmliteSend.run c) es (.access acc) → acc.Within c) ∧
    (∀ rounds es acc, Touches ((bmliteReceive rounds).run c) es (.access acc) → acc.Within c) ∧
    ∀ rounds es r c', Runs ((bmliteReceive rounds).run c) es (r, c') →
      c'.pktSize ≤ c'.pktSizeMax ∧ c'.pktSizeMax = c.pktSizeMax := by
  refine ⟨fun es acc h => ?_, fun rounds es acc h => ?_, fun rounds es r c' h => ?_⟩
  · rw [send_run, touches_access, touches_access] at h
    rw [touches_bind_reportResult] at h
    rcases h with rfl | rfl | h
    · exact Access.InTxrx.within ⟨rfl, by decide⟩ c
    · exact Access.InTxrx.within ⟨rfl, by decide⟩ c
    · have hlen : c.outgoing.length = c.pktSize := by
        rw [HcpComm.outgoing, slice_length, Nat.mod_eq_of_lt (by omega)]
      rw [hlen] at h
      have hall : 0 + (c.pktSize - APP_MTU * 0) = c.pktSize := by omega
      exact (send_loop_touches _ hall (by omega) h).within
  · exact (receive_loop_touches rounds (by omega) h).within
  · have hrounds := receive_loop_rounds rounds h
    have hmax' := hrounds.max_eq
    exact ⟨by rw [hmax']; exact hrounds.size_le hsize (Nat.zero_le _), hmax'⟩

/-- The buffers of the example program. -/
theorem buffer_bounds_chain :
    (∀ es acc, Touches (bmliteSend.run hcpChain) es (.access acc) → acc.Within hcpChain) ∧
    (∀ rounds es acc, Touches ((bmliteReceive rounds).run hcpChain) es (.access acc) →
      acc.Within hcpChain) ∧
    ∀ rounds es r c', Runs ((bmliteReceive rounds).run hcpChain) es (r, c') →
      c'.pktSize ≤ c'.pktSizeMax ∧ c'.pktSizeMax = hcpChain.pktSizeMax :=
  buffer_bounds (by decide) (by decide)

end BMLite
