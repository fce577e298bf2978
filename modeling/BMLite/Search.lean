import BMLite.Lib.Access
import BMLite.Packet

/-!
# Where the search for an argument looks

`bmlite_get_arg` walks over the arguments of the packet; the count and the sizes that guide it
come from the other side.

* `SearchInside` — the search stays inside the `pkt_size` bytes of the packet, and so does what it
  finds;
* `Inside` — the same as a condition on the memory from one header on (`search_inside`);
* `HcpComm.Searchable` — the received bytes are complete arguments, up to where the search ends;
* `getArg_inside_iff` — **the search stays inside exactly when they are**.
-/

set_option autoImplicit false

namespace BMLite

open FlatMemory Process

/-! ## Accesses of the search -/

/-- Every index of the access lies in the packet. -/
def Access.InPacket (acc : Access) (pktSize : Nat) : Prop :=
  acc.buffer = .pkt ∧ ∀ i, acc.offset ≤ i → i < acc.offset + acc.length → i < pktSize

/-- `bmlite_get_arg` examines only bytes of the packet; an argument that it finds lies inside the
packet, its header included; and its result does not depend on what follows the packet. -/
def SearchInside (c : HcpComm) (t : Nat) : Prop :=
  (∀ es acc, Touches ((bmliteGetArg t).run c) es (.access acc) → acc.InPacket c.pktSize) ∧
  (∀ es c', Runs ((bmliteGetArg t).run c) es (FPC_BEP_RESULT_OK, c') →
    ∃ a, c'.arg = some a ∧ 4 ≤ a.data ∧ a.data + a.size ≤ c.pktSize) ∧
  ∀ d : HcpComm, d.pktSize = c.pktSize → d.packet = c.packet →
    ∀ es es' r r' c' d', Runs ((bmliteGetArg t).run c) es (r, c') →
      Runs ((bmliteGetArg t).run d) es' (r', d') →
      r' = r ∧ (r = FPC_BEP_RESULT_OK → d'.arg = c'.arg)

/-- From the header at `pdata` on, the search meets complete headers only, and the argument that it
finds is complete. -/
def Inside (m : Mem Byte) (pktSize t : Nat) : (left pdata : Nat) → Prop
  | 0, _ => True
  | left + 1, pdata =>
    pdata % 2 ^ 32 ≤ pktSize →
      pdata + 4 ≤ pktSize ∧
      if dec16 (slice m pdata 2) = t then pdata + 4 + dec16 (slice m (pdata + 2) 2) ≤ pktSize
      else Inside m pktSize t left (pdata + (4 + dec16 (slice m (pdata + 2) 2)))

/-- A step of the search as a process. -/
theorem search_run (c : HcpComm) (t left pdata : Nat) :
    (bmliteGetArg.search t (left + 1) pdata).run c =
      if pdata % 2 ^ 32 ≤ c.pktSize then
        .touch (.access ⟨.pkt, false, pdata, 2⟩) <| .touch (.access ⟨.pkt, false, pdata + 2, 2⟩) <|
          if dec16 (slice c.pktBuffer pdata 2) = t then
            .ret (FPC_BEP_RESULT_OK,
              { c with arg := some ⟨dec16 (slice c.pktBuffer (pdata + 2) 2), pdata + 4⟩ })
          else (bmliteGetArg.search t left
            (pdata + (4 + dec16 (slice c.pktBuffer (pdata + 2) 2)))).run c
      else bmliteGetArg.missing.run c := by
  simp only [bmliteGetArg.search, StateT.run_bind, StateT.run_get, pure_eq, ret_bind]
  split
  · simp only [StateT.run_bind, run_load16, touch_bind, ret_bind, HcpComm.mem_pkt]
    congr 1
    split <;> rfl
  · rfl

/-- A search that has found nothing looks at nothing more. -/
theorem touches_missing {c : HcpComm} {es : List HcpEvent} {acc : Access} :
    ¬ Touches (bmliteGetArg.missing.run c) es (.access acc) := by
  rw [run_missing, touches_callback]
  exact touches_ret

theorem inPacket_word {pdata pktSize : Nat} (h : pdata + 2 ≤ pktSize) :
    Access.InPacket ⟨.pkt, false, pdata, 2⟩ pktSize := by
  refine ⟨rfl, fun i _ hi => ?_⟩
  simp only at hi
  omega

/-- **The search stays inside exactly when** the headers that it meets, and the argument that it
finds, are complete. -/
theorem search_inside {c : HcpComm} {t : Nat} (left : Nat) :
    ∀ {pdata : Nat},
      ((∀ es acc, Touches ((bmliteGetArg.search t left pdata).run c) es (.access acc) →
          acc.InPacket c.pktSize) ∧
        ∀ a, findArg c.pktBuffer c.pktSize t left pdata = some a → a.data + a.size ≤ c.pktSize) ↔
      Inside c.pktBuffer c.pktSize t left pdata := by
  induction left with
  | zero =>
    intro pdata
    refine iff_of_true ⟨fun es acc h => ?_, fun a h => ?_⟩ trivial
    · exact absurd h touches_missing
    · cases h
  | succ left ih =>
    intro pdata
    unfold findArg Inside
    rw [search_run]
    by_cases hgo : pdata % 2 ^ 32 ≤ c.pktSize
    · rw [if_pos hgo, if_pos hgo]
      constructor
      · intro h _
        obtain ⟨htouch, hfind⟩ := h
        have hlast := (htouch [] _ (.touch .here)).2 (pdata + 3) (Nat.le_add_right _ 1)
          (Nat.lt_succ_self _)
        refine ⟨hlast, ?_⟩
        split at htouch <;> rename_i htype
        · rw [if_pos htype] at hfind ⊢
          exact hfind _ rfl
        · rw [if_neg htype] at hfind ⊢
          exact ih.1 ⟨fun es acc h => htouch es acc (.touch (.touch h)), hfind⟩
      · intro h
        obtain ⟨hle, hrest⟩ := h hgo
        have hword : pdata + 2 ≤ c.pktSize := by omega
        split at hrest <;> rename_i htype
        · rw [if_pos htype, if_pos htype]
          refine ⟨fun es acc h => ?_, fun a h => ?_⟩
          · rw [touches_access, touches_access] at h
            rcases h with rfl | rfl | h
            · exact inPacket_word hword
            · exact inPacket_word hle
            · exact absurd h touches_ret
          · cases h
            exact hrest
        · rw [if_neg htype, if_neg htype]
          obtain ⟨htouch, hfind⟩ := ih.2 hrest
          refine ⟨fun es acc h => ?_, hfind⟩
          rw [touches_access, touches_access] at h
          rcases h with rfl | rfl | h
          · exact inPacket_word hword
          · exact inPacket_word hle
          · exact htouch es acc h
    · rw [if_neg hgo, if_neg hgo]
      refine iff_of_true ⟨fun es acc h => ?_, fun a h => ?_⟩ fun h => absurd h hgo
      · exact absurd h touches_missing
      · cases h

/-- What lies behind the packet does not matter to such a search. -/
theorem Inside.findArg_congr {m m' : Mem Byte} {pktSize t : Nat}
    (hm : ∀ i < pktSize, m' i = m i) (left : Nat) :
    ∀ {pdata : Nat}, Inside m pktSize t left pdata →
      findArg m' pktSize t left pdata = findArg m pktSize t left pdata := by
  induction left with
  | zero =>
    intro pdata _
    rfl
  | succ left ih =>
    intro pdata h
    unfold findArg
    split <;> rename_i hgo
    · unfold Inside at h
      obtain ⟨hle, hrest⟩ := h hgo
      have htype : slice m' pdata 2 = slice m pdata 2 :=
        slice_congr fun i hi => hm _ (by omega)
      have hsize : slice m' (pdata + 2) 2 = slice m (pdata + 2) 2 :=
        slice_congr fun i hi => hm _ (by omega)
      rw [htype, hsize]
      split <;> rename_i heq
      · rfl
      · rw [if_neg heq] at hrest
        exact ih hrest
    · rfl

theorem findArg_data_ge {m : Mem Byte} {pktSize t : Nat} (left : Nat) :
    ∀ {pdata : Nat} {a : HcpArg}, findArg m pktSize t left pdata = some a → pdata + 4 ≤ a.data := by
  induction left with
  | zero =>
    intro pdata a h
    cases h
  | succ left ih =>
    intro pdata a h
    unfold findArg at h
    split at h
    · split at h
      · cases h
        exact Nat.le_refl _
      · have hle := ih h
        omega
    · cases h

/-- `bmlite_get_arg` stays inside exactly when its packet has a count, and its search does. -/
theorem searchInside_iff (c : HcpComm) (t : Nat) :
    SearchInside c t ↔ 4 ≤ c.pktSize ∧
      Inside c.pktBuffer c.pktSize t (dec16 (slice c.pktBuffer 2 2)) 4 := by
  have hrun (c : HcpComm) : (bmliteGetArg t).run c = .touch (.access ⟨.pkt, false, 2, 2⟩)
      ((bmliteGetArg.search t (dec16 (slice c.pktBuffer 2 2)) 4).run c) := rfl
  constructor
  · intro h
    obtain ⟨htouch, hfound, -⟩ := h
    rw [hrun] at htouch
    refine ⟨(htouch [] _ .here).2 3 (by decide) (by decide), (search_inside _).1 ⟨?_, ?_⟩⟩
    · intro es acc h
      exact htouch es acc (.touch h)
    · intro a ha
      have hget : Runs ((bmliteGetArg t).run c) []
          (FPC_BEP_RESULT_OK, { c with arg := some a }) := by
        refine runs_getArg.2 ⟨rfl, ?_⟩
        rw [show c.findArg t = some a from ha]
        exact ⟨rfl, rfl⟩
      obtain ⟨b, hb, -, hle⟩ := hfound [] _ hget
      cases hb
      exact hle
  · intro h
    obtain ⟨hcount, hinside⟩ := h
    obtain ⟨htouch, hfind⟩ := (search_inside _).2 hinside
    refine ⟨?_, ?_, ?_⟩
    · intro es acc h
      rw [hrun, touches_access] at h
      rcases h with rfl | h
      · exact inPacket_word hcount
      · exact htouch es acc h
    · intro es c' h
      have hcases := (runs_getArg.1 h).2
      split at hcases <;> rename_i a ha
      · obtain ⟨-, rfl⟩ := hcases
        have hge : 4 + 4 ≤ a.data := findArg_data_ge _ ha
        exact ⟨a, rfl, by omega, hfind a ha⟩
      · cases hcases.1
    · intro d hsize hpacket es es' r r' c' d' h h'
      have hcells : ∀ i < c.pktSize, d.pktBuffer i = c.pktBuffer i := by
        unfold HcpComm.packet at hpacket
        rw [hsize, slice_eq_iff] at hpacket
        intro i hi
        have hcell := hpacket i hi
        rwa [Nat.zero_add] at hcell
      have hnr : slice d.pktBuffer 2 2 = slice c.pktBuffer 2 2 :=
        slice_congr fun i hi => hcells _ (by omega)
      have hsame : d.findArg t = c.findArg t := by
        unfold HcpComm.findArg
        rw [hsize, hnr]
        exact hinside.findArg_congr hcells _
      have hc := (runs_getArg.1 h).2
      have hd := (runs_getArg.1 h').2
      rw [hsame] at hd
      split at hc <;> rename_i ha
      · obtain ⟨rfl, rfl⟩ := hc
        rw [ha] at hd
        obtain ⟨rfl, rfl⟩ := hd
        exact ⟨rfl, fun _ => rfl⟩
      · obtain ⟨rfl, rfl⟩ := hc
        rw [ha] at hd
        obtain ⟨rfl, rfl⟩ := hd
        exact ⟨rfl, fun hok => by cases hok⟩

/-! ## What has been received -/

/-- How the search for `t` ends on the bytes `rest` of the packet, when `left` arguments remain: the
count ends, or an argument of type `t` comes, or the packet ends within an argument of another
type, by more than its header (whose end is then a 32-bit offset, unless it is the last one). -/
inductive SearchEnds (t pktSize : Nat) : (left : Nat) → List Byte → Prop
  | count {rest} : SearchEnds t pktSize 0 rest
  | found {left a post} : a.type = t → SearchEnds t pktSize (left + 1) (CmdArg.encode a ++ post)
  | cut {left type size post} : type ≠ t → type < 65536 → size < 65536 → post.length < size →
      (left = 0 ∨ pktSize - post.length + size < 2 ^ 32) →
      SearchEnds t pktSize (left + 1) (enc16 type ++ enc16 size ++ post)

/-- The packet has a command and a count, complete arguments of other types than `t`, and then ends
the search. -/
def HcpComm.Searchable (c : HcpComm) (t : Nat) : Prop :=
  ∃ cmd left pre rest, c.packet = enc16 cmd ++ enc16 (pre.length + left) ++ encodeArgs pre ++ rest ∧
    pre.length + left < 65536 ∧ (∀ a ∈ pre, a.type ≠ t) ∧ SearchEnds t c.pktSize left rest

/-- The header of an argument in memory. -/
theorem holds_header {m : Mem Byte} {off type size : Nat} {xs : List Byte} (htype : type < 65536)
    (hsize : size < 65536) (h : Holds m off (enc16 type ++ enc16 size ++ xs)) :
    dec16 (slice m off 2) = type ∧ dec16 (slice m (off + 2) 2) = size ∧ Holds m (off + 4) xs := by
  rw [List.append_assoc] at h
  obtain ⟨h1, h⟩ := holds_word h htype
  obtain ⟨h2, h⟩ := holds_word h hsize
  exact ⟨h1, h2, h⟩

/-- Beyond the packet the search stops. -/
theorem inside_of_beyond {m : Mem Byte} {pktSize t left pdata : Nat} (h : pktSize < pdata % 2 ^ 32) :
    Inside m pktSize t left pdata := by
  cases left with
  | zero => trivial
  | succ left => exact fun hgo => absurd hgo (Nat.not_le.2 h)

theorem inside_of_ends {m : Mem Byte} {pktSize t left : Nat} {rest : List Byte}
    (hends : SearchEnds t pktSize left rest) (pre : List CmdArg) :
    ∀ {pdata : Nat}, Holds m pdata (encodeArgs pre ++ rest) →
      pdata + (encodeArgs pre ++ rest).length = pktSize → (∀ a ∈ pre, a.type ≠ t) →
      Inside m pktSize t (pre.length + left) pdata := by
  induction pre with
  | nil =>
    intro pdata h hlen _
    rw [encodeArgs_nil, List.nil_append] at h hlen
    rw [List.length_nil, Nat.zero_add]
    cases hends with
    | count => trivial
    | @found left a post htype =>
      have harg : Holds m pdata (enc16 a.type ++ enc16 a.data.length ++ (a.data ++ post)) := by
        rw [← List.append_assoc]
        exact h
      obtain ⟨h1, h2, -⟩ := holds_header a.type_lt a.size_lt harg
      rw [List.length_append, CmdArg.encode_length] at hlen
      intro _
      rw [h1, if_pos htype, h2]
      omega
    | @cut left type size post htype hlt hlt' hcut hwrap =>
      obtain ⟨h1, h2, -⟩ := holds_header hlt hlt' h
      simp only [List.length_append, enc16_length] at hlen
      intro _
      rw [h1, if_neg htype, h2]
      refine ⟨by omega, ?_⟩
      rcases hwrap with rfl | hwrap
      · trivial
      · apply inside_of_beyond
        rw [Nat.mod_eq_of_lt (by omega)]
        omega
  | cons a pre ih =>
    intro pdata h hlen hpre
    rw [encodeArgs_cons, List.append_assoc] at h hlen
    have harg : Holds m pdata
        (enc16 a.type ++ enc16 a.data.length ++ (a.data ++ (encodeArgs pre ++ rest))) := by
      rw [← List.append_assoc]
      exact h
    obtain ⟨h1, h2, -⟩ := holds_header a.type_lt a.size_lt harg
    have hrest := (holds_append.1 h).2
    rw [List.length_append, CmdArg.encode_length] at hlen
    rw [CmdArg.encode_length] at hrest
    rw [List.length_cons, Nat.add_right_comm]
    intro _
    rw [h1, if_neg (hpre a (List.mem_cons_self ..)), h2]
    refine ⟨by omega, ih hrest (by omega) fun b hb => hpre b (List.mem_cons_of_mem _ hb)⟩

/-- The two words of a header, read back. -/
theorem holds_header_of_memory (m : Mem Byte) (off : Nat) :
    Holds m off (enc16 (dec16 (slice m off 2)) ++ enc16 (dec16 (slice m (off + 2) 2))) := by
  rw [enc16_dec16 (slice_length ..), enc16_dec16 (slice_length ..), holds_append, slice_length]
  exact ⟨holds_slice .., holds_slice ..⟩

theorem exists_ends {m : Mem Byte} {pktSize t : Nat} (hsize : pktSize < 2 ^ 32) (left : Nat) :
    ∀ {pdata : Nat}, pdata ≤ pktSize → Inside m pktSize t left pdata →
      ∃ k pre rest, left = List.length pre + k ∧ Holds m pdata (encodeArgs pre ++ rest) ∧
        pdata + (encodeArgs pre ++ rest).length = pktSize ∧ (∀ a ∈ pre, a.type ≠ t) ∧
        SearchEnds t pktSize k rest := by
  induction left with
  | zero =>
    intro pdata hle _
    refine ⟨0, [], slice m pdata (pktSize - pdata), rfl, holds_slice .., ?_, by simp, .count⟩
    rw [encodeArgs_nil, List.nil_append, slice_length]
    omega
  | succ left ih =>
    intro pdata hle h
    obtain ⟨hhdr, hrest⟩ := h ((Nat.mod_le _ _).trans hle)
    have htype := dec16_lt (slice m pdata 2)
    have hlen := dec16_lt (slice m (pdata + 2) 2)
    have hwords := holds_header_of_memory m pdata
    generalize dec16 (slice m pdata 2) = type at *
    generalize dec16 (slice m (pdata + 2) 2) = size at *
    -- The memory from this header on, up to a given offset.
    have hholds (n : Nat) : Holds m pdata (enc16 type ++ enc16 size ++ slice m (pdata + 4) n) :=
      holds_append.2 ⟨hwords, holds_slice ..⟩
    let a : CmdArg := ⟨type, slice m (pdata + 4) size, htype, by rw [slice_length]; exact hlen⟩
    have ha : a.encode = enc16 type ++ enc16 size ++ slice m (pdata + 4) size := by
      simp [a, CmdArg.encode]
    have halen : a.encode.length = 4 + size := by simp [a]
    by_cases heq : type = t
    · -- The argument is found.
      rw [if_pos heq] at hrest
      refine ⟨left + 1, [], a.encode ++ slice m (pdata + (4 + size)) (pktSize - (pdata + (4 + size))),
        (Nat.zero_add _).symm, ?_, ?_, by simp, .found heq⟩
      · rw [encodeArgs_nil, List.nil_append, holds_append, halen, ha]
        exact ⟨hholds size, holds_slice ..⟩
      · rw [encodeArgs_nil, List.nil_append, List.length_append, halen, slice_length]
        omega
    rw [if_neg heq] at hrest
    by_cases hin : pdata + (4 + size) ≤ pktSize
    · -- The argument is skipped.
      obtain ⟨k, pre, rest, rfl, hmem, hend, hpre, hends⟩ := ih hin hrest
      refine ⟨k, a :: pre, rest, by simp; omega, ?_, ?_, ?_, hends⟩
      · rw [encodeArgs_cons, List.append_assoc, holds_append, halen, ha]
        exact ⟨hholds size, hmem⟩
      · rw [encodeArgs_cons, List.append_assoc, List.length_append, halen]
        omega
      · intro b hb
        rcases List.mem_cons.1 hb with rfl | hb
        · exact heq
        · exact hpre b hb
    · -- The packet ends within the argument.
      refine ⟨left + 1, [], enc16 type ++ enc16 size ++ slice m (pdata + 4) (pktSize - (pdata + 4)),
        (Nat.zero_add _).symm, hholds _, ?_, by simp, .cut heq htype hlen ?_ ?_⟩
      · rw [encodeArgs_nil, List.nil_append, List.length_append, slice_length]
        simp only [List.length_append, enc16_length]
        omega
      · rw [slice_length]
        omega
      · rw [slice_length]
        cases left with
        | zero => exact .inl rfl
        | succ left =>
          refine .inr (Nat.lt_of_not_le fun hwrap => ?_)
          obtain ⟨hbad, -⟩ := hrest (by omega)
          omega

/-- **The search for an argument stays inside the packet exactly when** the received bytes are
complete arguments, up to the one that it looks for, to the end of the count, or to an argument
whose header is complete and whose data is not. -/
theorem getArg_inside_iff {c : HcpComm} (hsize : c.pktSize < 2 ^ 32) (t : Nat) :
    SearchInside c t ↔ c.Searchable t := by
  rw [searchInside_iff]
  constructor
  · intro h
    obtain ⟨hcount, hinside⟩ := h
    obtain ⟨left, pre, rest, hnr, hholds, hlen, hpre, hends⟩ := exists_ends hsize _ hcount hinside
    have hlt := dec16_lt (slice c.pktBuffer 2 2)
    have hwords := holds_header_of_memory c.pktBuffer 0
    rw [Nat.zero_add] at hwords
    rw [hnr] at hlt hwords
    refine ⟨dec16 (slice c.pktBuffer 0 2), left, pre, rest, ?_, hlt, hpre, hends⟩
    have hall := holds_append.2 ⟨hwords, hholds⟩
    rw [← List.append_assoc] at hall
    exact hall.eq (by simp only [List.length_append, enc16_length] at hlen ⊢; omega)
  · intro h
    obtain ⟨cmd, left, pre, rest, hpacket, hlt, hpre, hends⟩ := h
    have hlen := congrArg List.length hpacket
    simp only [HcpComm.packet, slice_length, List.length_append, enc16_length] at hlen
    have hholds : Holds c.pktBuffer 0
        (enc16 cmd ++ enc16 (pre.length + left) ++ (encodeArgs pre ++ rest)) := by
      rw [← List.append_assoc, ← hpacket, HcpComm.packet]
      exact holds_slice ..
    rw [List.append_assoc] at hholds
    obtain ⟨hnr, hargs⟩ := holds_word (holds_append.1 hholds).2 hlt
    rw [enc16_length, Nat.zero_add] at hnr hargs
    refine ⟨by omega, ?_⟩
    rw [hnr]
    exact inside_of_ends hends pre hargs (by rw [List.length_append]; omega) hpre

/-- A buffer that begins with the answer `01 20 01 00 f5` to `CMD_IDENTIFY`: an `ARG_RESULT`. -/
def resultChain (pktSize : Nat) : HcpComm :=
  { hcpChain with
    pktBuffer := fun i => ([3, 0, 1, 0, 1, 0x20, 1, 0, 0xf5] : List Byte).getD i 0
    pktSize := pktSize }

/-- The answer as a whole. -/
theorem getArg_inside_result : SearchInside (resultChain 9) ARG_RESULT := by
  refine (getArg_inside_iff (by decide) _).2 ⟨3, 1, [], [1, 0x20, 1, 0, 0xf5], by decide, by decide,
    by simp, ?_⟩
  exact @SearchEnds.found _ _ 0 ⟨ARG_RESULT, [0xf5], by decide, by decide⟩ [] rfl

/-- **A packet that ends before the argument that its count announces**: the argument is found
behind the packet. -/
theorem getArg_outside : ¬ SearchInside (resultChain 4) ARG_RESULT := by
  intro h
  have hfind : (resultChain 4).findArg ARG_RESULT = some ⟨1, 8⟩ := rfl
  obtain ⟨a, ha, -, hle⟩ := h.2.1 [] { resultChain 4 with arg := some ⟨1, 8⟩ }
    (runs_getArg.2 ⟨rfl, by rw [hfind]; exact ⟨rfl, rfl⟩⟩)
  cases ha
  exact absurd hle (by decide)

end BMLite
