import BMLite.Receive
import BMLite.Lib.Duplex

/-!
# A sender and a receiver

`bmlite_send` on one side and `bmlite_receive` on the other, each reading what the other writes.

* `chunkRound` — one chunk: the sender writes it, the receiver reads it and answers with the ACK,
  the sender reads the ACK;
* `transport_round_trip` — **every run of the two ends with the packet delivered**.
-/

set_option autoImplicit false

namespace BMLite

open FlatMemory Process

/-- What the two sides do about one chunk, `t` being the receiver's timeout. -/
def chunkRound (t : Nat) (ch : Chunk) : Round Exchange Byte FpcBepResult where
  ask := [.write ch.bytes 0 FPC_BEP_RESULT_OK]
  answer := [.read 4 t FPC_BEP_RESULT_OK ch.link.header,
    .read (ch.body.length + 4) 100 FPC_BEP_RESULT_OK ch.link.tail,
    .write fpcComAck 0 FPC_BEP_RESULT_OK]
  close := [.read 4 500 FPC_BEP_RESULT_OK fpcComAck]
  asked := [ch.bytes]
  answered := [fpcComAck]

theorem chunkRound_fits (t : Nat) (ch : Chunk) : (chunkRound t ch).Fits FPC_BEP_RESULT_OK := by
  refine ⟨⟨rfl, [], rfl, rfl, rfl⟩, ⟨rfl, rfl, ch.link.tail, ?_, rfl, ch.link.tail_length, [], ?_,
    rfl, [], rfl, rfl, rfl⟩, ⟨rfl, rfl, [], ?_, rfl, rfl⟩⟩
  · simp [chunkRound, Chunk.bytes, LinkFrame.bytes]
  · simp
  · simp [chunkRound]

/-- The sender's side of all rounds. -/
theorem sent_rounds (t : Nat) (cs : List Chunk) :
    Sent (cs.map Chunk.bytes)
      ((cs.map (chunkRound t)).flatMap fun rd => rd.ask ++ rd.close) FPC_BEP_RESULT_OK := by
  induction cs with
  | nil => exact .done
  | cons ch cs ih => exact .next (by decide) ih

/-- The receiver's side of all rounds. -/
theorem arrive_rounds (t : Nat) (cs : List Chunk) :
    Arrive t cs ((cs.map (chunkRound t)).flatMap (·.answer)) := by
  induction cs with
  | nil => exact .nil
  | cons ch cs ih => exact .cons ih

theorem rounds_asked (t : Nat) (cs : List Chunk) :
    (cs.map (chunkRound t)).flatMap (·.asked) = cs.map Chunk.bytes := by
  induction cs with
  | nil => rfl
  | cons ch cs ih => rw [List.map_cons, List.flatMap_cons, ih]; rfl

theorem rounds_answered (t : Nat) (cs : List Chunk) :
    (cs.map (chunkRound t)).flatMap (·.answered) = List.replicate cs.length fpcComAck := by
  induction cs with
  | nil => rfl
  | cons ch cs ih => rw [List.map_cons, List.flatMap_cons, ih]; rfl

/-- **The transport round trip.**  A sender with a packet of at most 65535 bytes and a receiver
with room for it, joined by queues that lose nothing: whatever the order of their moves, both
return OK, the receiver holds the packet, and the frames that were written are its chunks. -/
theorem transport_round_trip {s c : HcpComm} {rounds : Nat} (hs : s.packet.length < 65536)
    (hmax : s.packet.length < c.pktSizeMax) (hrounds : s.packet.length / 242 + 2 ≤ rounds) :
    ∃ s' c',
      Converges (Duplex.Step FPC_BEP_RESULT_OK)
        ⟨bmliteSend.run s, (bmliteReceive rounds).run c, [], [], [], []⟩
        ⟨.ret (FPC_BEP_RESULT_OK, s'), .ret (FPC_BEP_RESULT_OK, c'), [], [],
          (segments s.packet hs).map Chunk.bytes,
          List.replicate (s.packet.length / 242 + 1) fpcComAck⟩ ∧
      c'.pktSize = s.packet.length ∧ c'.packet = s.packet ∧
      (segments s.packet hs).length = s.packet.length / 242 + 1 ∧ Numbered (segments s.packet hs) ∧
      ∀ ch ∈ segments s.packet hs, ch.bytes.length = (ch.payload.length + 6) + 8 ∧
        ch.bytes.length ≤ MTU ∧
        ∃ body : List Byte, body.length = ch.payload.length + 6 ∧
          body = enc16 ch.payload.length ++ enc16 ch.seqNr ++ enc16 ch.seqLen ++ ch.payload ∧
          ch.bytes = enc16 0 ++ enc16 (ch.payload.length + 6) ++ body ++ enc32 (fpcCrc 0 body) := by
  let cs := segments s.packet hs
  have hlen : cs.length = s.packet.length / 242 + 1 := segments_length s.packet hs
  have hsize : s.packet.length = s.pktSize := slice_length ..
  have hout : s.outgoing = s.packet := outgoing_eq_packet (by omega)
  have hseg : segments s.outgoing (outgoing_length_lt s) = cs := by simp only [hout]; rfl
  obtain ⟨t, hsend⟩ := runs_send.1.2 (by rw [hseg]; exact sent_rounds c.phyRxTimeout cs)
  obtain ⟨t', hrecv⟩ := receive_segments hs (arrive_rounds c.phyRxTimeout cs) hrounds hmax
  have hfit : ∀ rd ∈ cs.map (chunkRound c.phyRxTimeout), rd.Fits FPC_BEP_RESULT_OK := by
    intro rd hrd
    obtain ⟨ch, -, rfl⟩ := List.mem_map.1 hrd
    exact chunkRound_fits c.phyRxTimeout ch
  have hreach := reaches_of_rounds hfit hsend hrecv [] []
  rw [rounds_asked, rounds_answered, hlen, List.nil_append, List.nil_append] at hreach
  refine ⟨_, _, converges_of_path (fun _ _ _ => Duplex.Step.diamond) hreach Duplex.final, rfl,
    packet_holding .., hlen, numbered_segments s.packet hs, ?_⟩
  intro ch hch
  obtain ⟨i, rfl⟩ := (List.mem_ofFn' _ _).1 hch
  have hle := (segment s.packet hs i).payload_le
  have hbody := (segment s.packet hs i).body_length
  have hbytes := (segment s.packet hs i).bytes_length
  simp only [APP_MTU, MTU] at hle ⊢
  refine ⟨by omega, by omega, _, hbody, rfl, ?_⟩
  rw [Chunk.bytes_body, hbody]
  rfl

/-- A packet of 600 bytes goes to a buffer of 601 other bytes in two full frames and a short
one. -/
theorem transport_round_trip_three :
    let c : HcpComm := { hcpChain with pktBuffer := fun _ => 0xff, pktSizeMax := 601 }
    ∃ s' c' fs,
      Converges (Duplex.Step FPC_BEP_RESULT_OK)
        ⟨bmliteSend.run (countingChain 600), (bmliteReceive 4).run c, [], [], [], []⟩
        ⟨.ret (FPC_BEP_RESULT_OK, s'), .ret (FPC_BEP_RESULT_OK, c'), [], [], fs,
          [fpcComAck, fpcComAck, fpcComAck]⟩ ∧
      fs.map List.length = [256, 256, 130] ∧ c'.packet = (countingChain 600).packet := by
  intro c
  have hlen := countingChain_length 600
  have hlt := countingChain_lt (by decide : 600 < 65536)
  obtain ⟨s', c', hconv, -, hpkt, -⟩ := @transport_round_trip (countingChain 600) c 4 hlt
    (by rw [hlen]; decide) (by rw [hlen])
  have hfs : ((segments (countingChain 600).packet (countingChain_lt (by decide))).map
      Chunk.bytes).map List.length = [256, 256, 130] := by decide +kernel
  rw [hlen] at hconv
  exact ⟨s', c', _, hconv, hfs, hpkt⟩

end BMLite
