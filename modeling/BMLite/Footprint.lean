import BMLite.Bounds
import BMLite.Calls
import BMLite.Lib.Confined
import BMLite.Search

/-!
# What the interface touches and writes

The functions of `hcp_tiny.c` and the commands of `bmlite_if.c`, whatever the module and the
transport do.

* `footprint` — what a call is confined to: stores stay inside both buffers, a load from the packet
  buffer ends at most `reach` bytes behind it, and what is written is an ACK or a frame of one of
  the commands `qs`;
* `HcpComm.Sound` — the invariant of the chain between two calls;
* `Kept` — a function keeps it, and is confined;
* `send_confined`, `receive_confined`, `tranceive_confined` — the transport;
* `kept_getArg`, `kept_copyArg`, `confined_add`, `kept_init` — packets;
* `kept_sendCmd`, `kept_sendCmdArg` — **commands**.
-/

set_option autoImplicit false

namespace BMLite

open FlatMemory Process

/-! ## Confinement -/

/-- The access lies in `txrx_buffer`, or in the packet buffer; a read may go `reach` bytes too
far. -/
def Access.Bounded (max reach : Nat) (acc : Access) : Prop :=
  acc.InTxrx ∨
    (acc.buffer = .pkt ∧ acc.offset + acc.length ≤ if acc.isWrite then max else max + reach)

/-- The block is an ACK, or a frame of one of the commands. -/
def Listed (qs : List Command) (data : List Byte) : Prop :=
  data = fpcComAck ∨ ∃ q ∈ qs, ∃ h : q.packet.length < 65536, ∃ ch ∈ segments q.packet h,
    data = ch.bytes

/-- Only the accesses are bounded; `Composed` says what else there may be. -/
def Action.Bounded (max reach : Nat) : Action → Prop
  | .access acc => acc.Bounded max reach
  | _ => True

/-- What the functions of the interface are confined to.  A read asks for a header, or for the rest
of a frame. -/
def footprint (max reach : Nat) (qs : List Command) : Policy Action Byte where
  access := Action.Bounded max reach
  write := Listed qs
  read n _ := 4 ≤ n ∧ n ≤ 252

/-- The footprint of the transport layer, as far as the channel is concerned. -/
def traffic (write : List Byte → Prop) : Policy Action Byte where
  access _ := True
  write := write
  read n _ := 4 ≤ n ∧ n ≤ 252

theorem read_header {write : List Byte → Prop} {t : Nat} : (traffic write).read 4 t :=
  ⟨by decide, by decide⟩

/-- Between two calls: the packet buffer has room for a header, the packet fits it, and so does what
`arg` points to, if a search has succeeded. -/
structure HcpComm.Sound (c : HcpComm) (max : Nat) : Prop where
  max_eq : c.pktSizeMax = max
  max_ge : 4 ≤ max
  max_le : max ≤ 65535
  size_le : c.pktSize ≤ max
  arg_le : ∀ a ∈ c.arg, a.data ≤ max + 4
  arg_lt : ∀ a ∈ c.arg, a.size < 65536

/-- What the invariant depends on. -/
theorem HcpComm.Sound.of_eq {c c' : HcpComm} {max : Nat} (hc : c.Sound max)
    (hmax : c'.pktSizeMax = c.pktSizeMax) (harg : c'.arg = c.arg) (hsize : c'.pktSize ≤ max) :
    c'.Sound max :=
  ⟨hmax.trans hc.max_eq, hc.max_ge, hc.max_le, hsize, by rw [harg]; exact hc.arg_le,
    by rw [harg]; exact hc.arg_lt⟩

theorem Access.Bounded.mono {max reach reach' : Nat} {acc : Access} (h : acc.Bounded max reach)
    (hle : reach ≤ reach') : acc.Bounded max reach' := by
  rcases h with h | ⟨hb, hend⟩
  · exact .inl h
  · refine .inr ⟨hb, hend.trans ?_⟩
    split
    · exact Nat.le_refl _
    · exact Nat.add_le_add_left hle _

theorem Action.Bounded.mono {max reach reach' : Nat} {a : Action} (h : a.Bounded max reach)
    (hle : reach ≤ reach') : a.Bounded max reach' := by
  cases a with
  | access acc => exact Access.Bounded.mono h hle
  | callback _ | busyWait _ | null => trivial

theorem Listed.mono {qs qs' : List Command} {data : List Byte} (h : Listed qs data)
    (hsub : ∀ q ∈ qs, q ∈ qs') : Listed qs' data := by
  rcases h with h | ⟨q, hq, hframe⟩
  · exact .inl h
  · exact .inr ⟨q, hsub q hq, hframe⟩

/-- Only the accesses need to be looked at. -/
theorem bounded_of_accesses {α : Type} {max reach : Nat} {p : HcpProc α}
    (h : ∀ es acc, Touches p es (.access acc) → acc.Bounded max reach) :
    ∀ es a, Touches p es a → a.Bounded max reach := by
  intro es a ha
  cases a with
  | access acc => exact h es acc ha
  | callback _ | busyWait _ | null => trivial

/-- A read of the packet buffer. -/
theorem bounded_read {max reach off n : Nat} (h : off + n ≤ max + reach) :
    Access.Bounded max reach ⟨.pkt, false, off, n⟩ := .inr ⟨rfl, h⟩

/-- A store to the packet buffer. -/
theorem bounded_store {max reach off n : Nat} (h : off + n ≤ max) :
    Access.Bounded max reach ⟨.pkt, true, off, n⟩ := .inr ⟨rfl, h⟩

/-! ## The transport layer -/

/-- The loop of `bmlite_send` writes segments of its packet. -/
theorem send_loop_writes {b : List Byte} (hb : b.length < 65536) (m : Nat) :
    ∀ {k p : Nat} {c : HcpComm} {bepResult : FpcBepResult},
      k + m = b.length / APP_MTU + 1 → (m ≠ 0 → p = APP_MTU * k) →
      Holds c.txrxBuffer 0 (enc16 0) → Holds c.txrxBuffer 8 (enc16 (b.length / APP_MTU + 1)) →
      Holds c.pktBuffer 0 b →
      Confined (traffic fun data => ∃ ch ∈ segments b hb, data = ch.bytes)
        ((bmliteSend.loop APP_MTU (b.length / APP_MTU + 1) (m + 1) (k + 1)
          (b.length - APP_MTU * k) p bepResult).run c) fun _ => True := by
  induction m with
  | zero =>
    intro k p c bepResult hk _ _ _ _
    have hexit : ¬ (k + 1 ≤ b.length / APP_MTU + 1 ∧ bepResult = FPC_BEP_RESULT_OK) := by
      omega
    rw [bmliteSend.loop, if_neg hexit]
    trivial
  | succ m ih =>
    intro k p c bepResult hk hp h0 h8 hpkt
    by_cases hres : bepResult = FPC_BEP_RESULT_OK
    · subst hres
      obtain rfl := hp (by omega)
      let i : Fin (b.length / APP_MTU + 1) := ⟨k, by omega⟩
      have hlen := segment_length b hb i
      have hslice := segment_slice hb hpkt i
      obtain ⟨hlnk, hframe⟩ := seal_chunk (segment b hb i) h0 h8 hslice
      obtain ⟨h0', h8'⟩ := Chunk.holds_bytes hframe
      have hle := (segment b hb i).payload_le
      have hbytes := (segment b hb i).bytes_length
      have hmem : segment b hb i ∈ segments b hb := List.mem_ofFn.2 ⟨i, rfl⟩
      simp only [APP_MTU, MTU] at hle
      rw [send_loop_run (by omega : k + 1 ≤ b.length / APP_MTU + 1)]
      refine ⟨trivial, ?_⟩
      unfold buildChunk
      refine ⟨trivial, trivial, trivial, trivial, trivial, trivial, trivial, ?_⟩
      rw [← (hlen : (segment b hb i).payload.length = chunkSize (b.length - APP_MTU * k)),
        txLink_run]
      refine Confined.bind
        ⟨trivial, trivial, trivial, trivial, trivial, trivial, ?_,
          fun w => ⟨read_header, fun r d => confined_reportIf trivial ?_⟩⟩
      · refine ⟨segment b hb i, hmem, hframe.eq ?_⟩
        rw [show (c.putChunk (k + 1) (segment b hb i).payload.length (APP_MTU * k)).lnkSize =
          (segment b hb i).payload.length + 6 from hlnk]
        omega
      · have hnext : (k + 1 + 1) % 65536 = k + 1 + 1 := by
          simp only [APP_MTU, MTU] at hk
          omega
        have hleft : (b.length - APP_MTU * k + 65536 - (segment b hb i).payload.length) % 65536 =
            b.length - APP_MTU * (k + 1) := by
          rw [hlen, chunkSize_eq]
          simp only [APP_MTU, MTU, i]
          omega
        rw [hnext, hleft]
        refine ih (by omega) (fun hm => ?_) h0' h8' hpkt
        exact segment_end hb i (show k ≠ b.length / APP_MTU by omega)
    · rw [bmliteSend.loop, if_neg (fun hgo => hres hgo.2)]
      trivial

/-- **`bmlite_send`** reads the packet and writes its frames. -/
theorem send_confined {c : HcpComm} {max reach : Nat} {qs : List Command}
    {q : Command} (hc : c.Sound max) (hq : c.packet = q.packet) (hmem : q ∈ qs) :
    Confined (footprint max reach qs) (bmliteSend.run c)
      fun y => y.2.Sound max := by
  have hle := hc.max_le
  have hsize := hc.size_le
  have hout : c.outgoing = q.packet := (outgoing_eq_packet (by omega)).trans hq
  have hlen : c.outgoing.length = c.pktSize := by
    rw [HcpComm.outgoing, slice_length, Nat.mod_eq_of_lt (by omega)]
  refine Confined.of_runs (Confined.of_touches ?_ ?_) ?_
  · rw [send_run]
    refine ⟨trivial, trivial, Confined.bind ?_⟩
    refine (send_loop_writes (outgoing_length_lt c) _ (Nat.zero_add _) (fun _ => rfl) ?_
      (holds_blit _ _ _) ?_).mono (fun _ => id) ?_ (fun _ _ => id) fun _ _ =>
        confined_reportResult trivial trivial
    · exact (holds_blit _ _ _).blit _ (by simp)
    · exact holds_slice ..
    · rintro data ⟨ch, hch, rfl⟩
      simp only [hout] at hch
      exact .inr ⟨q, hmem, _, ch, hch, rfl⟩
  · refine bounded_of_accesses fun es acc h => ?_
    rw [send_run, touches_access, touches_access, touches_bind_reportResult] at h
    rcases h with rfl | rfl | h
    · exact .inl ⟨rfl, by decide⟩
    · exact .inl ⟨rfl, by decide⟩
    · rw [hlen] at h
      have hall : 0 + (c.pktSize - APP_MTU * 0) = c.pktSize := by omega
      rcases send_loop_touches _ hall (by omega) h with h | ⟨hb, hread, hend⟩
      · exact .inl h
      · refine .inr ⟨hb, ?_⟩
        rw [hread]
        exact hend.trans (Nat.le_add_right_of_le hsize)
  · rintro es ⟨r, c'⟩ hrun
    obtain ⟨⟨t, rfl⟩, -⟩ := runs_send_cases hrun
    exact hc.of_eq rfl rfl hc.size_le

/-- `_rx_link` writes nothing but ACKs. -/
theorem rxLink_writes {c : HcpComm} {Q : FpcBepResult × HcpComm → Prop}
    (hQ : ∀ es y, Runs (rxLink.run c) es y → Q y) :
    Confined (traffic (· = fpcComAck)) (rxLink.run c) Q := by
  refine Confined.of_runs ?_ hQ
  rw [rxLink_run]
  refine ⟨trivial, read_header, fun r d => ?_⟩
  dsimp only
  split
  · trivial
  refine ⟨trivial, ?_⟩
  split <;> rename_i hsize
  · exact ⟨trivial, trivial⟩
  simp only [MTU] at hsize
  refine ⟨trivial, ⟨by omega, by omega⟩, fun r' d' => ⟨trivial, trivial, ?_⟩⟩
  split
  · exact ⟨rfl, fun w => trivial⟩
  · exact ⟨trivial, trivial⟩

theorem receive_loop_writes (rounds : Nat) :
    ∀ {c : HcpComm} {seqNr seqLen p bufLen : Nat} {comResult : FpcBepResult},
      Confined (traffic (· = fpcComAck))
        ((bmliteReceive.loop rounds seqNr seqLen p bufLen comResult).run c) fun _ => True := by
  induction rounds with
  | zero =>
    intro c seqNr seqLen p bufLen comResult
    trivial
  | succ rounds ih =>
    intro c seqNr seqLen p bufLen comResult
    by_cases hgo : seqNr < seqLen
    · rw [receive_round_run hgo]
      refine Confined.bind (rxLink_writes ?_)
      rintro es ⟨r, c₁⟩ -
      dsimp only
      split
      · unfold copyChunk
        refine ⟨trivial, trivial, trivial, trivial, ?_⟩
        split
        · exact ⟨trivial, trivial, ih⟩
        · exact ih
      · exact confined_reportResult trivial trivial
    · rw [receive_exit_run hgo]
      exact confined_reportResult trivial trivial

/-- A reception does not move `arg`. -/
theorem RxRounds.arg_eq {c c' : HcpComm} {bufLen : Nat} {comResult r : FpcBepResult}
    {es : List HcpEvent} (h : RxRounds c bufLen comResult es r c') : c'.arg = c.arg := by
  have hlink {c c₁ : HcpComm} {es : List HcpEvent} {r : FpcBepResult} (h : RxLink c es r c₁) :
      c₁.arg = c.arg := by
    cases h with
    | noHeader _ => rfl
    | tooLong hc₁ _ => subst hc₁; rfl
    | badCrc hc₁ _ hc₂ _ => subst hc₁ hc₂; rfl
    | accepted hc₁ _ hc₂ _ => subst hc₁ hc₂; rfl
  induction h with
  | done c bufLen comResult => rfl
  | failed _ h => exact hlink h
  | @next c c₁ c' bufLen comResult r es₁ es₂ p h _ ih =>
    obtain ⟨b, hb⟩ := takeChunk_comm c₁ p bufLen comResult
    have hcomm : (c₁.takeChunk p bufLen comResult).comm.arg = c₁.arg := by rw [hb]
    exact ih.trans (hcomm.trans (hlink h))

/-- **`bmlite_receive`** writes to the packet buffer below its end, and sends ACKs. -/
theorem receive_confined {c : HcpComm} {max reach rounds : Nat}
    {qs : List Command} (hc : c.Sound max) :
    Confined (footprint max reach qs) ((bmliteReceive rounds).run c)
      fun y => y.2.Sound max := by
  have hle := hc.max_le
  have hmax := hc.max_eq
  refine Confined.of_runs (Confined.of_touches ?_ ?_) ?_
  · exact (receive_loop_writes rounds).mono (fun _ => id) (fun _ => Or.inl) (fun _ _ => id)
      fun _ => id
  · refine bounded_of_accesses fun es acc h => ?_
    rcases receive_loop_touches rounds (by omega) h with h | ⟨hb, hwrite, hend⟩
    · exact .inl h
    · refine .inr ⟨hb, ?_⟩
      rw [hwrite, if_pos rfl, ← hmax]
      exact hend
  · rintro es ⟨r, c'⟩ hrun
    have hrounds := receive_loop_rounds rounds hrun
    have hsize := hrounds.size_le (by rw [hmax]; exact hc.size_le) (Nat.zero_le _)
    rw [hmax] at hsize
    exact hc.of_eq hrounds.max_eq hrounds.arg_eq hsize

/-! ## Searching -/

theorem search_touches {c : HcpComm} {t : Nat} (hsize : c.pktSize ≤ 65535) (left : Nat) :
    ∀ {pdata : Nat} {es : List HcpEvent} {acc : Access}, pdata < 2 ^ 32 →
      Touches ((bmliteGetArg.search t left pdata).run c) es (.access acc) →
      acc.buffer = .pkt ∧ acc.isWrite = false ∧ acc.offset + acc.length ≤ c.pktSize + 4 := by
  induction left with
  | zero =>
    intro pdata es acc _ h
    exact absurd h touches_missing
  | succ left ih =>
    intro pdata es acc hlt h
    rw [search_run] at h
    split at h <;> rename_i hgo
    · rw [Nat.mod_eq_of_lt hlt] at hgo
      rw [touches_access, touches_access] at h
      rcases h with rfl | rfl | h
      · exact ⟨rfl, rfl, by simp only; omega⟩
      · exact ⟨rfl, rfl, by simp only; omega⟩
      split at h
      · exact absurd h touches_ret
      · have hword := dec16_lt (slice c.pktBuffer (pdata + 2) 2)
        exact ih (by omega) h
    · exact absurd h touches_missing

/-- What a search finds has its header at the end of the packet at the latest. -/
theorem findArg_data_le {m : Mem Byte} {pktSize t : Nat} (hsize : pktSize ≤ 65535) (left : Nat) :
    ∀ {pdata : Nat} {a : HcpArg}, pdata < 2 ^ 32 → findArg m pktSize t left pdata = some a →
      a.data ≤ pktSize + 4 ∧ a.size < 65536 := by
  induction left with
  | zero =>
    intro pdata a _ h
    cases h
  | succ left ih =>
    intro pdata a hlt h
    unfold findArg at h
    split at h <;> rename_i hgo
    · rw [Nat.mod_eq_of_lt hlt] at hgo
      have hword := dec16_lt (slice m (pdata + 2) 2)
      split at h
      · cases h
        exact ⟨Nat.add_le_add_right hgo 4, hword⟩
      · exact ih (by omega) h
    · cases h

/-! ## Functions on the chain -/

variable {max reach rounds : Nat} {qs : List Command} {α β : Type}

/-- The function keeps the invariant and is confined, and its result satisfies `Q`. -/
def Kept (max reach : Nat) (qs : List Command) (m : Hcp α) (Q : α → Prop) : Prop :=
  ∀ c : HcpComm, c.Sound max →
    Confined (footprint max reach qs) (m.run c) fun y => Q y.1 ∧ y.2.Sound max

theorem Kept.mono {reach' : Nat} {qs' : List Command} {m : Hcp α} {P Q : α → Prop}
    (h : Kept max reach qs m P) (hle : reach ≤ reach') (hsub : ∀ q ∈ qs, q ∈ qs')
    (hQ : ∀ a, P a → Q a) : Kept max reach' qs' m Q :=
  fun c hc => (h c hc).mono (fun _ ha => Action.Bounded.mono ha hle)
    (fun _ hdata => Listed.mono hdata hsub) (fun _ _ => id) fun _ hy => ⟨hQ _ hy.1, hy.2⟩

theorem kept_pure {a : α} {Q : α → Prop} (h : Q a) : Kept max reach qs (pure a) Q :=
  fun _ hc => ⟨h, hc⟩

/-- **A sequence of functions.** -/
theorem Kept.bind {m : Hcp α} {f : α → Hcp β} {P : α → Prop} {Q : β → Prop}
    (h : Kept max reach qs m P) (hf : ∀ a, P a → Kept max reach qs (f a) Q) :
    Kept max reach qs (m >>= f) Q := by
  intro c hc
  rw [StateT.run_bind]
  refine Confined.bind ((h c hc).imp ?_)
  rintro ⟨a, c'⟩ ⟨ha, hc'⟩
  exact hf a ha c' hc'

/-- The chain itself, as the function finds it. -/
theorem kept_get {f : HcpComm → Hcp β} {Q : β → Prop}
    (h : ∀ c : HcpComm, c.Sound max → Kept max reach qs (f c) Q) :
    Kept max reach qs (get >>= f) Q := fun c hc => h c hc c hc

theorem kept_load {off n : Nat} (h : off + n ≤ max + reach) :
    Kept max reach qs (load .pkt off n) fun _ => True :=
  fun _ hc => ⟨bounded_read h, trivial, hc⟩

theorem kept_load16 {off : Nat} (h : off + 2 ≤ max + reach) :
    Kept max reach qs (load16 .pkt off) fun _ => True :=
  fun _ hc => ⟨bounded_read h, trivial, hc⟩

theorem kept_load32 {off : Nat} (h : off + 4 ≤ max + reach) :
    Kept max reach qs (load32 .pkt off) fun _ => True :=
  fun _ hc => ⟨bounded_read h, trivial, hc⟩

/-- The invariant after a search. -/
theorem HcpComm.Sound.found {c : HcpComm} {t : Nat} {a : HcpArg} (hc : c.Sound max)
    (h : c.findArg t = some a) : ({ c with arg := some a } : HcpComm).Sound max := by
  have hle := hc.max_le
  have hsize := hc.size_le
  obtain ⟨hdata, hlt⟩ := findArg_data_le (by omega) _ (by decide) h
  refine ⟨hc.max_eq, hc.max_ge, hle, hsize, ?_, ?_⟩
  · rintro _ ⟨⟩
    omega
  · rintro _ ⟨⟩
    exact hlt

/-- **`bmlite_get_arg`** reads at most four bytes behind the packet. -/
theorem kept_getArg (hreach : 4 ≤ reach) (t : Nat) :
    Kept max reach qs (bmliteGetArg t) fun _ => True := by
  intro c hc
  have hmin := hc.max_ge
  have hle := hc.max_le
  have hsize := hc.size_le
  refine Confined.of_returns (getArg_returns c t) (bounded_of_accesses fun es acc h => ?_) ?_
  · have hrun : (bmliteGetArg t).run c = .touch (.access ⟨.pkt, false, 2, 2⟩)
      ((bmliteGetArg.search t (dec16 (slice c.pktBuffer 2 2)) 4).run c) := rfl
    rw [hrun, touches_access] at h
    rcases h with rfl | h
    · exact bounded_read (by omega)
    · obtain ⟨hb, hread, hend⟩ := search_touches (by omega) _ (by decide) h
      refine .inr ⟨hb, ?_⟩
      rw [hread]
      exact hend.trans (by simp only [Bool.false_eq_true, if_false]; omega)
  · cases hfind : c.findArg t with
    | none => exact ⟨trivial, hc⟩
    | some a => exact ⟨trivial, hc.found hfind⟩

/-- Where there is a pointer, what it points to is in the packet buffer or just behind it. -/
theorem kept_chainArg {f : HcpArg → Hcp β} {Q : β → Prop}
    (h : ∀ a : HcpArg, a.data ≤ max + 4 → a.size < 65536 → Kept max reach qs (f a) Q) :
    Kept max reach qs (chainArg >>= f) Q := by
  intro c hc
  rw [StateT.run_bind, chainArg_run]
  split <;> rename_i a ha
  · exact h a (hc.arg_le a ha) (hc.arg_lt a ha) c hc
  · exact ⟨trivial, trivial⟩

/-- Callbacks and busy waits leave the chain alone. -/
theorem kept_callback (cb : Callback) : Kept max reach qs (callback cb) fun _ => True :=
  fun _ hc => ⟨trivial, trivial, hc⟩

theorem kept_busyWait (ticks : Nat) : Kept max reach qs (busyWait ticks) fun _ => True :=
  fun _ hc => ⟨trivial, trivial, hc⟩

/-- The caller's memory behind its first `n` bytes is left alone. -/
def Spares (n : Nat) (dest dest' : Option (Mem Byte)) : Prop :=
  ∀ m', dest' = some m' → ∃ m, dest = some m ∧ ∀ i, n ≤ i → m' i = m i

theorem spares_self (n : Nat) (dest : Option (Mem Byte)) : Spares n dest dest :=
  fun m hm => ⟨m, hm, fun _ _ => rfl⟩

/-- **`bmlite_copy_arg`** reads what it copies, and copies no more than there is room for. -/
theorem kept_copyArg (t : Nat) (dest : Option (Mem Byte)) {n : Nat} (hreach : 4 + n ≤ reach) :
    Kept max reach qs (bmliteCopyArg t dest n) fun y => Spares n dest y.2 := by
  unfold bmliteCopyArg
  refine (kept_getArg (by omega) t).bind fun r _ => ?_
  split
  · cases dest with
    | none => exact (kept_callback _).bind fun _ _ => kept_pure (spares_self n none)
    | some m =>
      refine kept_chainArg fun a harg _ => ?_
      have hload : Kept max reach qs (load .pkt a.data (min n a.size)) fun d => d.length ≤ n := by
        intro c' hc'
        refine ⟨bounded_read (by omega), ?_, hc'⟩
        exact (slice_length ..).trans_le (Nat.min_le_left _ _)
      refine hload.bind fun d hd => kept_pure ?_
      intro m' hm'
      cases hm'
      refine ⟨m, rfl, fun i hi => ?_⟩
      exact blit_of_ge m d (by omega)
  · exact (kept_callback _).bind fun _ _ => kept_pure (spares_self n dest)

/-- **`bmlite_tranceive`**, on the packet of one of the commands. -/
theorem tranceive_confined {c : HcpComm} {q : Command} (hc : c.Sound max)
    (hreach : 5 ≤ reach) (hq : c.packet = q.packet) (hmem : q ∈ qs) :
    Confined (footprint max reach qs) ((bmliteTranceive rounds).run c)
      fun y => True ∧ y.2.Sound max := by
  simp only [bmliteTranceive, StateT.run_bind, StateT.run_get, pure_eq, ret_bind]
  refine Confined.bind ((send_confined hc hq hmem).imp ?_)
  rintro ⟨r, c₁⟩ hc₁
  dsimp only
  split
  · rw [StateT.run_bind]
    refine Confined.bind ((receive_confined hc₁).imp ?_)
    rintro ⟨r', c₂⟩ hc₂
    refine (?_ : Kept max reach qs _ fun _ => True) c₂ hc₂
    refine (kept_getArg (by omega) ARG_RESULT).bind fun r₁ _ => ?_
    have hnote (d : FpcBepResult) : Kept max reach qs (do
        modify fun c => { c with bepResult := d }
        noteExchange c r'
        return r') fun _ => True :=
      fun c₃ hc₃ => ⟨trivial, hc₃.of_eq rfl rfl hc₃.size_le⟩
    split
    · refine kept_chainArg fun a harg _ => ?_
      refine (kept_load (by omega)).bind fun d _ => ?_
      exact hnote (resultOfByte d)
    · exact hnote FPC_BEP_RESULT_OK
  · exact ⟨trivial, hc₁⟩

/-! ## Commands -/

/-- A command with a key. -/
def Command.key (cmd argKey : Nat) : Command := ⟨cmd, keyOf argKey⟩

/-- A command with a key and `n` bytes of `d`. -/
def Command.cut (cmd argKey t : Nat) (d : List Byte) (n : Nat) : Command :=
  ⟨cmd, keyOf argKey ++ [cutArg t d n]⟩

theorem kept_assertOk {call next : Hcp FpcBepResult} {Q : FpcBepResult → Prop}
    (hcall : Kept max reach qs call fun _ => True) (hexit : ∀ r, Q r)
    (hnext : Kept max reach qs next Q) : Kept max reach qs (assertOk call next) Q := by
  refine hcall.bind fun r _ => ?_
  split
  · exact kept_pure (hexit r)
  · exact hnext

theorem kept_assertOut {call : Hcp FpcBepResult} {out : α} {next : Hcp (FpcBepResult × α)}
    {Q : FpcBepResult × α → Prop} (hcall : Kept max reach qs call fun _ => True)
    (hexit : ∀ r, Q (r, out)) (hnext : Kept max reach qs next Q) :
    Kept max reach qs (assertOut call out next) Q := by
  refine hcall.bind fun r _ => ?_
  split
  · exact kept_pure (hexit r)
  · exact hnext

theorem kept_exitIfErr {call : Hcp FpcBepResult} {exit next : FpcBepResult → Hcp α}
    {Q : α → Prop} (hcall : Kept max reach qs call fun _ => True)
    (hexit : ∀ r, Kept max reach qs (exit r) Q)
    (hnext : ∀ r, Kept max reach qs (next r) Q) :
    Kept max reach qs (exitIfErr call exit next) Q := by
  refine hcall.bind fun r _ => kept_get fun c _ => ?_
  split
  · exact hexit r
  · exact hnext r

/-- The packet of `args` has been built so far. -/
structure HcpComm.Begun (c : HcpComm) (max cmd : Nat) (args : List CmdArg) : Prop where
  sound : c.Sound max
  packet_eq : c.packet = encodePacket cmd args

theorem touches_addArg {c : HcpComm} {t n : Nat} {d : List Byte} (hn : n < 65536)
    (hsize : c.pktSize ≤ 65535) (hmin : 4 ≤ c.pktSizeMax) {es : List HcpEvent} {acc : Access}
    (h : Touches ((bmliteAddArg t d n).run c) es (.access acc)) :
    acc.Bounded c.pktSizeMax reach := by
  have hlen : (d.take n).length ≤ n := List.length_take_le ..
  simp only [bmliteAddArg, StateT.run_bind, StateT.run_get, pure_eq, ret_bind] at h
  split at h <;> rename_i hfit
  · exact absurd (touches_callback.1 h) touches_ret
  rw [Nat.mod_eq_of_lt (by omega)] at hfit
  simp only [StateT.run_bind, run_load16, run_store16, touch_bind, ret_bind, touches_access] at h
  rcases h with rfl | rfl | rfl | rfl | h
  · exact bounded_read (by omega)
  · exact bounded_store (by omega)
  · exact bounded_store (by omega)
  · exact bounded_store (by omega)
  · split at h
    · simp only [StateT.run_bind, run_store, touch_bind, ret_bind, touches_access] at h
      rcases h with rfl | h
      · exact bounded_store (by omega)
      · exact absurd h touches_ret
    · exact absurd h touches_ret

/-- **`bmlite_add_arg`**, in a command. -/
theorem confined_add {c : HcpComm} {cmd : Nat} {args : List CmdArg} {a : CmdArg} {d : List Byte}
    {n : Nat} (hc : c.Begun max cmd args) (hd : d.take n = a.data) (hn : n = a.data.length)
    {next : Hcp FpcBepResult}
    (hnext : ∀ c', c'.Begun max cmd (args ++ [a]) →
      Confined (footprint max reach qs) (next.run c')
        fun y => True ∧ y.2.Sound max) :
    Confined (footprint max reach qs)
      ((assertOk (bmliteAddArg a.type d n) next).run c) fun y => True ∧ y.2.Sound max := by
  obtain ⟨hsound, hpkt⟩ := hc
  have hmax := hsound.max_eq
  have hmin := hsound.max_ge
  have hle := hsound.max_le
  have hsize := hsound.size_le
  have ha := a.size_lt
  have hadd := runs_addArg (c := c) (t := a.type) (n := n) (d := d)
  rw [Nat.mod_eq_of_lt (by omega)] at hadd
  simp only [assertOk, StateT.run_bind]
  refine Confined.bind (Confined.of_returns hadd (bounded_of_accesses fun es acc h => ?_) ?_)
  · have hbound : acc.Bounded c.pktSizeMax reach :=
      touches_addArg (by omega) (by omega) (by omega) h
    rw [hmax] at hbound
    exact hbound
  by_cases hfit : c.pktSize + 4 + n > c.pktSizeMax
  · rw [if_pos hfit]
    exact ⟨trivial, hsound⟩
  · rw [if_neg hfit]
    have heq : c.addArg a.type d n = c.addArg a.type a.data a.data.length := by
      unfold HcpComm.addArg
      rw [hd, hn, List.take_length]
    refine hnext _ ⟨hsound.of_eq rfl rfl ?_, ?_⟩
    · show (c.pktSize + (4 + n)) % 2 ^ 32 ≤ max
      omega
    · rw [heq]
      exact addArg_packet hpkt (by omega)

theorem touches_initCmd {c : HcpComm} {cmd argKey : Nat} (hmin : 4 ≤ c.pktSizeMax)
    {es : List HcpEvent} {acc : Access}
    (h : Touches ((bmliteInitCmd cmd argKey).run c) es (.access acc)) :
    acc.Bounded c.pktSizeMax reach := by
  simp only [bmliteInitCmd, StateT.run_bind, run_store16, StateT.run_modify, touch_bind, ret_bind,
    touches_access, pure_eq] at h
  rcases h with rfl | rfl | h
  · exact bounded_store (by omega)
  · exact bounded_store (by omega)
  split at h
  · rw [StateT.run_bind, touches_bind] at h
    rcases h with h | ⟨x, es₁, es₂, rfl, -, h⟩
    · have hbound := @touches_addArg reach _ _ _ _ (by decide) (show 4 ≤ 65535 by decide)
        (by exact hmin) _ _ h
      exact hbound
    · split at h
      · exact absurd (touches_callback.1 h) touches_ret
      · exact absurd h touches_ret
  · exact absurd h touches_ret

/-- **`bmlite_init_cmd`**, in a command. -/
theorem kept_init (cmd : Nat) {argKey : Nat} (hkey : argKey < 65536)
    {next : Hcp FpcBepResult} (hnext : ∀ c', c'.Begun max cmd (keyOf argKey) →
      Confined (footprint max reach qs) (next.run c')
        fun y => True ∧ y.2.Sound max) :
    Kept max reach qs (assertOk (bmliteInitCmd cmd argKey) next) fun _ => True := by
  intro c hc
  have hmax := hc.max_eq
  have hmin := hc.max_ge
  have hinit := runs_initCmd c cmd argKey
  simp only [assertOk, StateT.run_bind]
  refine Confined.bind (Confined.of_returns hinit (bounded_of_accesses fun es acc h => ?_) ?_)
  · have hbound : acc.Bounded c.pktSizeMax reach := touches_initCmd (by omega) h
    rw [hmax] at hbound
    exact hbound
  by_cases hrej : argKey ≠ ARG_NONE ∧ c.pktSizeMax < 8
  · rw [if_pos hrej]
    exact ⟨trivial, hc.of_eq rfl rfl hmin⟩
  · rw [if_neg hrej]
    have hpkt := prepare_packet c cmd hkey
    rw [← keyOf_eq hkey] at hpkt
    refine hnext _ ⟨hc.of_eq (prepare_max_eq c cmd argKey) ?_ ?_, hpkt⟩
    · unfold HcpComm.prepare
      split <;> rfl
    · unfold HcpComm.prepare
      split <;> rename_i hnone
      · exact hmin
      · have hroom : ¬ c.pktSizeMax < 8 := fun h => hrej ⟨hnone, h⟩
        show (4 + (4 + 0)) % 2 ^ 32 ≤ max
        omega

/-- **`bmlite_send_cmd`.** -/
theorem kept_sendCmd (hreach : 5 ≤ reach) {cmd argKey : Nat} (hkey : argKey < 65536)
    (hmem : .key cmd argKey ∈ qs) :
    Kept max reach qs (bmliteSendCmd rounds cmd argKey) fun _ => True :=
  kept_init cmd hkey fun _ hc =>
    tranceive_confined (q := .key cmd argKey) hc.sound hreach hc.packet_eq hmem

/-- **`bmlite_send_cmd_arg`**, with `n` bytes of `d`. -/
theorem kept_sendCmdArg (hreach : 5 ≤ reach) {cmd argKey t n : Nat} {d : List Byte}
    (hkey : argKey < 65536) (ht : t < 65536) (hn : n < 65536)
    (hd : n ≤ d.length) (hmem : .cut cmd argKey t d n ∈ qs) :
    Kept max reach qs (bmliteSendCmdArg rounds cmd argKey t d n) fun _ => True := by
  have htype : (cutArg t d n).type = t := Nat.mod_eq_of_lt ht
  have hdata : d.take n = (cutArg t d n).data := by
    simp [cutArg, Nat.mod_eq_of_lt hn]
  have hlen : n = (cutArg t d n).data.length := by
    rw [← hdata, List.length_take, Nat.min_eq_left hd]
  unfold bmliteSendCmdArg
  refine kept_init cmd hkey fun c hc => ?_
  rw [← htype]
  refine confined_add hc hdata hlen fun c' hc' => ?_
  exact tranceive_confined (q := .cut cmd argKey t d n) hc'.sound hreach
    hc'.packet_eq hmem

/-- A timeout of its own does not matter. -/
theorem kept_withTimeout {body : Hcp FpcBepResult} (h : Kept max reach qs body fun _ => True)
    (t : Nat) : Kept max reach qs (withTimeout t body) fun _ => True := by
  intro c hc
  have hbody := h { c with phyRxTimeout := t } (hc.of_eq rfl rfl hc.size_le)
  simp only [withTimeout, StateT.run_bind, StateT.run_get, StateT.run_modify, pure_eq, ret_bind]
  refine Confined.bind (hbody.imp ?_)
  rintro ⟨r, c'⟩ ⟨-, hc'⟩
  exact ⟨trivial, hc'.of_eq rfl rfl hc'.size_le⟩

end BMLite
