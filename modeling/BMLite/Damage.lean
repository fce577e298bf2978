import BMLite.Lib.CrcDistance
import BMLite.Receive

/-!
# Frames with a few wrong bits

* `crcPoly_spread` — over the 2016 bits of the longest frame CRC-32 has a distance of four or more;
* `rxLink_damaged`, `receive_damaged` — a frame whose CRC does not agree ends the reception;
* `wrong_bits_rejected` — **one, two or three wrong bits behind the link header are always
  noticed**, however far they lie apart.
-/

set_option autoImplicit false

namespace BMLite

open CrcRegister FlatMemory Process

/-! ## CRC-32 -/

/-- The registers that a single one goes through are marked by 20 of their bits. -/
theorem crcPoly_spread : Spread crcPoly 2016 :=
  spread_of_distinct (show distinct crcPoly 20 2016 1 0 = true by decide +kernel)

/-- The number of bits in which two byte strings differ. -/
def wrongBits (x y : List Byte) : Nat := (List.zipWith xor (byteBits x) (byteBits y)).count true

/-- **A stored CRC never agrees when at most three bits are wrong.** -/
theorem fpcCrc_sparse {body x : List Byte} (hmax : body.length + 4 ≤ 252)
    (hlen : x.length = body.length + 4) (hne : x ≠ body ++ enc32 (fpcCrc 0 body))
    (hfew : wrongBits (body ++ enc32 (fpcCrc 0 body)) x ≤ 3) :
    fpcCrc 0 (x.take body.length) ≠ dec32 (x.drop body.length) := by
  have hx : byteBits x = byteBits (x.take body.length) ++ bits (dec32 (x.drop body.length)) := by
    rw [← byteBits_enc32, enc32_dec32 (by simp; omega), ← byteBits_append, List.take_append_drop]
  have hf : byteBits (body ++ enc32 (fpcCrc 0 body)) =
      byteBits body ++ bits (fpcCrc 0 body) := by
    rw [byteBits_append, byteBits_enc32]
  have hall : (body ++ enc32 (fpcCrc 0 body)).length = x.length := by simp [hlen]
  have hbody : (byteBits body).length = (byteBits (x.take body.length)).length := by
    rw [byteBits_length, byteBits_length, List.length_take, hlen, Nat.min_eq_left (by omega)]
  rw [fpcCrc_eq 0 (x.take body.length)]
  refine (sparse_detected crcPoly_top crcPoly_spread hbody ?_ (fpcCrc_eq 0 body) ?_ ?_).symm
  · rw [byteBits_length]
    omega
  · rw [← hx, ← hf]
    exact fun heq => hne (byteBits_injective hall heq).symm
  · rw [← hx, ← hf]
    exact hfew

/-! ## A CRC that does not agree -/

/-- `_rx_link` rejects the frame. -/
theorem rxLink_damaged {c c' : HcpComm} {f : LinkFrame} {x : List Byte}
    (hx : x.length = f.body.length + 4)
    (hcrc : fpcCrc 0 (x.take f.body.length) ≠ dec32 (x.drop f.body.length))
    {t n t' : Nat} {r₂ r : FpcBepResult} {es : List HcpEvent} :
    Runs (rxLink.run c) (.read 4 t FPC_BEP_RESULT_OK f.header :: .read n t' r₂ x :: es) (r, c') ↔
      t = c.phyRxTimeout ∧ n = f.body.length + 4 ∧ t' = 100 ∧ es = [] ∧
      r = FPC_BEP_RESULT_IO_ERROR ∧ c' = c.fill 0 (f.header ++ x) := by
  have hsize := lnkSize_header c f
  have hhdr : c.fill 0 (f.header.take 4) = c.fill 0 f.header := by
    rw [List.take_of_length_le (by simp)]
  have hinvalid : ¬ (c.fill 0 (f.header ++ x)).CrcValid f.body.length := by
    rw [crcValid_tail c f hx]
    exact hcrc
  have htake : x.take (f.body.length + 4) = x := List.take_of_length_le (by omega)
  rw [runs_rxLink]
  constructor
  · intro h
    cases h with
    | badCrc hc₁ _ hc₂ _ =>
      rw [hhdr] at hc₁
      subst hc₁
      rw [hsize, htake, fill_header] at hc₂
      exact ⟨rfl, by rw [hsize], rfl, rfl, rfl, hc₂⟩
    | accepted hc₁ _ hc₂ hvalid =>
      rw [hhdr] at hc₁
      subst hc₁
      rw [hsize, htake, fill_header] at hc₂
      rw [hc₂, hsize] at hvalid
      exact absurd hvalid hinvalid
  · rintro ⟨rfl, rfl, rfl, rfl, rfl, rfl⟩
    rw [← hsize]
    refine .badCrc hhdr.symm (by rw [hsize]; exact f.body_le) ?_ (by rw [hsize]; exact hinvalid)
    rw [hsize, htake, fill_header]

/-- `bmlite_receive` ends with it, in whichever round. -/
theorem receive_damaged {f : LinkFrame} {x : List Byte} (hx : x.length = f.body.length + 4)
    (hcrc : fpcCrc 0 (x.take f.body.length) ≠ dec32 (x.drop f.body.length))
    {rounds rounds' seqNr seqLen p bufLen : Nat} {comResult : FpcBepResult} {c c₁ : HcpComm}
    {es₁ : List HcpEvent} (hgo : seqNr < seqLen)
    (hsteps : Steps ((bmliteReceive rounds).run c) es₁
      ((bmliteReceive.loop (rounds' + 1) seqNr seqLen p bufLen comResult).run c₁))
    {c' : HcpComm} {t n t' : Nat} {r : FpcBepResult} {es₂ : List HcpEvent}
    (h : Runs ((bmliteReceive rounds).run c) (es₁ ++ .read 4 t FPC_BEP_RESULT_OK f.header ::
      .read n t' FPC_BEP_RESULT_OK x :: es₂) (r, c')) :
    es₂ = [] ∧ r = FPC_BEP_RESULT_IO_ERROR ∧ c' = c₁.fill 0 (f.header ++ x) := by
  rw [hsteps.runs_append, runs_receive_round hgo] at h
  rcases h with ⟨-, hlink⟩ | ⟨es, es', c₂, heq, hlink, -⟩
  · exact ((rxLink_damaged hx hcrc).1 (runs_rxLink.2 hlink)).2.2.2
  · cases hlink with
    | noHeader hr => exact absurd rfl hr
    | accepted hc₁ hsize hc₂ hvalid =>
      simp only [List.cons_append, List.cons.injEq, Event.read.injEq] at heq
      obtain ⟨⟨-, -, -, rfl⟩, ⟨-, -, -, rfl⟩, -⟩ := heq
      have hbad := (rxLink_damaged hx hcrc).1
        (runs_rxLink.2 (.accepted (w := FPC_BEP_RESULT_OK) (r := r) hc₁ hsize hc₂ hvalid))
      cases hbad.2.2.2.1

/-- **One, two or three wrong bits behind the link header are noticed**, wherever they lie in the
body and the CRC of a frame: `_rx_link` returns `IO_ERROR` and writes no ACK, and so does
`bmlite_receive` in whichever round, without copying a byte of the frame. -/
theorem wrong_bits_rejected {f : LinkFrame} {x : List Byte} (hx : x.length = f.body.length + 4)
    (hne : x ≠ f.tail) (hfew : wrongBits f.tail x ≤ 3) :
    (∀ c c' t n t' r es,
      Runs (rxLink.run c) (.read 4 t FPC_BEP_RESULT_OK f.header ::
          .read n t' FPC_BEP_RESULT_OK x :: es) (r, c') ↔
        t = c.phyRxTimeout ∧ n = f.body.length + 4 ∧ t' = 100 ∧ es = [] ∧
        r = FPC_BEP_RESULT_IO_ERROR ∧ c' = c.fill 0 (f.header ++ x)) ∧
    ∀ rounds c es₁ rounds' seqNr seqLen p bufLen comResult c₁, seqNr < seqLen →
      Steps ((bmliteReceive rounds).run c) es₁
        ((bmliteReceive.loop (rounds' + 1) seqNr seqLen p bufLen comResult).run c₁) →
      ∀ c' t n t' r es₂,
        Runs ((bmliteReceive rounds).run c) (es₁ ++ .read 4 t FPC_BEP_RESULT_OK f.header ::
            .read n t' FPC_BEP_RESULT_OK x :: es₂) (r, c') →
          es₂ = [] ∧ r = FPC_BEP_RESULT_IO_ERROR ∧ c' = c₁.fill 0 (f.header ++ x) := by
  have hmax := f.body_le
  simp only [MTU] at hmax
  have hcrc := fpcCrc_sparse (by omega) hx hne hfew
  refine ⟨fun c c' t n t' r es => rxLink_damaged hx hcrc, ?_⟩
  intro rounds c es₁ rounds' seqNr seqLen p bufLen comResult c₁ hgo hsteps c' t n t' r es₂ h
  exact receive_damaged hx hcrc hgo hsteps h

/-- A request whose first bit, whose count and whose last bit are wrong. -/
theorem wrong_bits_rejected_three :
    Runs (rxLink.run hcpChain) [.read 4 2000 FPC_BEP_RESULT_OK [0, 0, 10, 0],
        .read 14 100 FPC_BEP_RESULT_OK
          [5, 0, 1, 0, 1, 0, 3, 0, 1, 0, 0xd9, 0xb4, 0x22, 0x7f]]
      (FPC_BEP_RESULT_IO_ERROR, hcpChain.fill 0
        [0, 0, 10, 0, 5, 0, 1, 0, 1, 0, 3, 0, 1, 0, 0xd9, 0xb4, 0x22, 0x7f]) := by
  let f : LinkFrame := ⟨0, [4, 0, 1, 0, 1, 0, 3, 0, 0, 0], by decide, by decide⟩
  let x : List Byte := [5, 0, 1, 0, 1, 0, 3, 0, 1, 0, 0xd9, 0xb4, 0x22, 0x7f]
  have htail : f.tail = [4, 0, 1, 0, 1, 0, 3, 0, 0, 0, 0xd9, 0xb4, 0x22, 0xff] := by
    decide +kernel
  have hne : x ≠ f.tail := by
    rw [htail]
    decide
  have hfew : wrongBits f.tail x ≤ 3 := by
    rw [htail]
    decide +kernel
  have hhdr : f.header = [0, 0, 10, 0] := by decide
  have hrun := ((wrong_bits_rejected (show x.length = f.body.length + 4 from rfl) hne hfew).1
    hcpChain (hcpChain.fill 0 (f.header ++ x)) 2000 14 100 FPC_BEP_RESULT_IO_ERROR []).2
    ⟨rfl, rfl, rfl, rfl, rfl, rfl⟩
  rw [hhdr] at hrun
  exact hrun

end BMLite
