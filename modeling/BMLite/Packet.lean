import BMLite.BmliteIf

/-!
# Packets: building and searching

A packet is a command, a count and a list of arguments, each a type, a size and that many bytes,
all words little-endian (`encodePacket`).

* `runs_addArg`, `runs_initCmd`, `runs_getArg` — what `bmlite_add_arg`, `bmlite_init_cmd` and
  `bmlite_get_arg` do to the chain;
* `addArg_packet` — an accepted argument is appended to the packet;
* `findArg_encoded` — on an encoded packet the search finds the first argument of its type;
* `build_parse` — **building and parsing invert each other over whole sequences of calls**.
-/

set_option autoImplicit false

namespace BMLite

open FlatMemory Process

/-! ## Abstract packets -/

/-- An argument (`_CMD_arg_t`); its type and its size are 16-bit words. -/
structure CmdArg where
  type : Nat
  data : List Byte
  type_lt : type < 65536
  size_lt : data.length < 65536

/-- An argument without data. -/
def CmdArg.flag (type : Nat) (h : type < 65536) : CmdArg := ⟨type, [], h, by simp⟩

def CmdArg.encode (a : CmdArg) : List Byte := enc16 a.type ++ enc16 a.data.length ++ a.data

def encodeArgs (args : List CmdArg) : List Byte := args.flatMap CmdArg.encode

/-- The bytes of a packet. -/
def encodePacket (cmd : Nat) (args : List CmdArg) : List Byte :=
  enc16 cmd ++ enc16 args.length ++ encodeArgs args

@[simp] theorem CmdArg.encode_length (a : CmdArg) : a.encode.length = 4 + a.data.length := by
  simp [CmdArg.encode]; omega

@[simp] theorem encodeArgs_nil : encodeArgs [] = [] := rfl

@[simp] theorem encodeArgs_cons (a : CmdArg) (args : List CmdArg) :
    encodeArgs (a :: args) = a.encode ++ encodeArgs args := rfl

theorem encodeArgs_append (as bs : List CmdArg) :
    encodeArgs (as ++ bs) = encodeArgs as ++ encodeArgs bs := by
  simp [encodeArgs]

theorem encodePacket_length (cmd : Nat) (args : List CmdArg) :
    (encodePacket cmd args).length = 4 + (encodeArgs args).length := by
  simp [encodePacket]; omega

theorem four_mul_length_le (args : List CmdArg) : 4 * args.length ≤ (encodeArgs args).length := by
  induction args with
  | nil => simp
  | cons a args ih => simp; omega

/-- The first argument of a type. -/
def firstArg (args : List CmdArg) (t : Nat) : Option CmdArg := args.find? (·.type = t)

/-! ## Searching -/

/-- The search of `bmlite_get_arg` on a memory: the argument it would leave in the chain. -/
def findArg (m : Mem Byte) (pktSize argType : Nat) : (left pdata : Nat) → Option HcpArg
  | 0, _ => none
  | left + 1, pdata =>
    if pdata % 2 ^ 32 ≤ pktSize then
      if dec16 (slice m pdata 2) = argType then
        some ⟨dec16 (slice m (pdata + 2) 2), pdata + 4⟩
      else
        findArg m pktSize argType left (pdata + (4 + dec16 (slice m (pdata + 2) 2)))
    else none

/-- What `bmlite_get_arg` finds in the chain. -/
def HcpComm.findArg (c : HcpComm) (argType : Nat) : Option HcpArg :=
  BMLite.findArg c.pktBuffer c.pktSize argType (dec16 (slice c.pktBuffer 2 2)) 4

@[simp] theorem run_missing (c : HcpComm) :
    bmliteGetArg.missing.run c =
      .touch (.callback (.onError .getArg FPC_BEP_RESULT_INVALID_ARGUMENT))
        (.ret (FPC_BEP_RESULT_INVALID_ARGUMENT, c)) := rfl

theorem runs_search {c c' : HcpComm} {t left pdata : Nat} {es : List HcpEvent}
    {r : FpcBepResult} :
    Runs ((bmliteGetArg.search t left pdata).run c) es (r, c') ↔
      es = [] ∧ match findArg c.pktBuffer c.pktSize t left pdata with
        | some a => r = FPC_BEP_RESULT_OK ∧ c' = { c with arg := some a }
        | none => r = FPC_BEP_RESULT_INVALID_ARGUMENT ∧ c' = c := by
  induction left generalizing pdata with
  | zero => simp [bmliteGetArg.search, findArg, eq_comm]
  | succ left ih =>
    simp only [bmliteGetArg.search, findArg, StateT.run_bind, StateT.run_get, pure_eq, ret_bind]
    split
    · simp only [StateT.run_bind, run_load16, touch_bind, ret_bind, runs_touch, HcpComm.mem_pkt]
      split
      · simp [StateT.run_bind, eq_comm]
      · simpa [StateT.run_bind] using ih
    · simp [eq_comm]

/-- **`bmlite_get_arg`** does no communication and leaves what it finds in `arg`. -/
theorem runs_getArg {c c' : HcpComm} {t : Nat} {es : List HcpEvent} {r : FpcBepResult} :
    Runs ((bmliteGetArg t).run c) es (r, c') ↔
      es = [] ∧ match c.findArg t with
        | some a => r = FPC_BEP_RESULT_OK ∧ c' = { c with arg := some a }
        | none => r = FPC_BEP_RESULT_INVALID_ARGUMENT ∧ c' = c := by
  simp only [bmliteGetArg, StateT.run_bind, run_load16, touch_bind, ret_bind, runs_touch]
  exact runs_search

theorem getArg_returns (c : HcpComm) (t : Nat) :
    Returns ((bmliteGetArg t).run c) (match c.findArg t with
      | some a => (FPC_BEP_RESULT_OK, { c with arg := some a })
      | none => (FPC_BEP_RESULT_INVALID_ARGUMENT, c)) := by
  refine returns_of_runs (runs_getArg.2 ⟨rfl, ?_⟩)
  split <;> exact ⟨rfl, rfl⟩

/-- A search whose result is dropped: the pointer moves if there is an argument to find. -/
theorem getArg_dropped (c : HcpComm) (t : Nat) : ∃ r,
    Returns ((bmliteGetArg t).run c) (r, { c with arg := (c.findArg t).or c.arg }) := by
  have hget := getArg_returns c t
  cases hfind : c.findArg t with
  | some a =>
    rw [hfind] at hget
    exact ⟨_, hget⟩
  | none =>
    rw [hfind] at hget
    exact ⟨_, hget⟩

/-- **On encoded arguments the search finds the first one of its type.** -/
theorem findArg_encoded {m : Mem Byte} {pktSize t : Nat} (hsize : pktSize < 2 ^ 32)
    (args : List CmdArg) (off : Nat) (h : Holds m off (encodeArgs args))
    (hoff : off + (encodeArgs args).length ≤ pktSize) :
    match firstArg args t with
    | some a => ∃ pre post, args = pre ++ a :: post ∧ (∀ b ∈ pre, b.type ≠ t) ∧
        findArg m pktSize t args.length off =
          some ⟨a.data.length, off + (encodeArgs pre).length + 4⟩
    | none => findArg m pktSize t args.length off = none := by
  induction args generalizing off with
  | nil => rfl
  | cons a args ih =>
    rw [encodeArgs_cons, holds_append, CmdArg.encode_length] at h
    rw [encodeArgs_cons, List.length_append, CmdArg.encode_length] at hoff
    obtain ⟨henc, hrest⟩ := h
    obtain ⟨⟨htype, hlen⟩, -⟩ := (holds_append.trans (and_congr_left' holds_append)).1 henc
    rw [enc16_length] at hlen
    have htype' := dec16_of_holds htype a.type_lt
    have hlen' := dec16_of_holds hlen a.size_lt
    have hin : off % 2 ^ 32 ≤ pktSize := by omega
    by_cases ht : a.type = t
    · simp only [firstArg, List.find?_cons, ht, decide_true, List.length_cons, findArg, hin,
        if_true, htype', hlen']
      exact ⟨[], args, rfl, by simp, rfl⟩
    · have hstep := ih (off + (4 + a.data.length)) hrest (by omega)
      simp only [firstArg, List.find?_cons, ht, decide_false, List.length_cons, findArg, hin,
        if_true, htype', if_false, hlen'] at hstep ⊢
      split at hstep
      · rename_i b hb
        rw [hb]
        obtain ⟨pre, post, rfl, hpre, hfind⟩ := hstep
        refine ⟨a :: pre, post, rfl, ?_, ?_⟩
        · intro x hx
          rcases List.mem_cons.1 hx with rfl | hx
          · exact ht
          · exact hpre x hx
        · rw [hfind]; simp; omega
      · rename_i hb
        rw [hb]
        exact hstep

/-- `bmlite_get_arg` for `t` leaves the first argument of type `t` of `args` in `arg`, or fails
and changes nothing. -/
def HcpComm.Yields (c : HcpComm) (args : List CmdArg) (t : Nat) : Prop :=
  match firstArg args t with
  | some a => ∃ pre post, args = pre ++ a :: post ∧ (∀ b ∈ pre, b.type ≠ t) ∧
      let data := 4 + (encodeArgs pre).length + 4
      Returns ((bmliteGetArg t).run c)
        (FPC_BEP_RESULT_OK, { c with arg := some ⟨a.data.length, data⟩ }) ∧
      slice c.pktBuffer data a.data.length = a.data ∧ data + a.data.length ≤ c.pktSize
  | none => Returns ((bmliteGetArg t).run c) (FPC_BEP_RESULT_INVALID_ARGUMENT, c)

theorem packet_size {c : HcpComm} {cmd : Nat} {args : List CmdArg}
    (h : c.packet = encodePacket cmd args) : c.pktSize = 4 + (encodeArgs args).length := by
  rw [← encodePacket_length cmd, ← h, HcpComm.packet, slice_length]

/-- The parts of an encoded packet in the buffer. -/
theorem packet_holds {c : HcpComm} {cmd : Nat} {args : List CmdArg} :
    c.packet = encodePacket cmd args ↔ c.pktSize = 4 + (encodeArgs args).length ∧
      Holds c.pktBuffer 0 (enc16 cmd) ∧ Holds c.pktBuffer 2 (enc16 args.length) ∧
      Holds c.pktBuffer 4 (encodeArgs args) := by
  have hparts : Holds c.pktBuffer 0 (encodePacket cmd args) ↔ Holds c.pktBuffer 0 (enc16 cmd) ∧
      Holds c.pktBuffer 2 (enc16 args.length) ∧ Holds c.pktBuffer 4 (encodeArgs args) := by
    simp [encodePacket, holds_append]
  rw [← hparts]
  constructor
  · intro h
    have hsize := packet_size h
    refine ⟨hsize, ?_⟩
    rw [Holds, encodePacket_length, ← hsize]
    exact h
  · rintro ⟨hsize, h⟩
    rw [HcpComm.packet, hsize, ← encodePacket_length cmd]
    exact h

theorem args_length_lt {c : HcpComm} {cmd : Nat} {args : List CmdArg}
    (h : c.packet = encodePacket cmd args) (hsize : c.pktSize ≤ 65535) : args.length < 65536 := by
  have h1 := packet_size h
  have h2 := four_mul_length_le args
  omega

/-- The search in an encoded packet. -/
theorem findArg_packet {c : HcpComm} {cmd : Nat} {args : List CmdArg}
    (h : c.packet = encodePacket cmd args) (hsize : c.pktSize ≤ 65535) (t : Nat) :
    match firstArg args t with
    | some a => ∃ pre post, args = pre ++ a :: post ∧ (∀ b ∈ pre, b.type ≠ t) ∧
        let data := 4 + (encodeArgs pre).length + 4
        c.findArg t = some ⟨a.data.length, data⟩ ∧
        slice c.pktBuffer data a.data.length = a.data ∧ data + a.data.length ≤ c.pktSize
    | none => c.findArg t = none := by
  have hlt := args_length_lt h hsize
  obtain ⟨hlen, -, hnr, hargs⟩ := packet_holds.1 h
  have hfind := findArg_encoded (t := t) (show c.pktSize < 2 ^ 32 by omega) args 4 hargs
    (by omega)
  have hget : c.findArg t = findArg c.pktBuffer c.pktSize t args.length 4 := by
    rw [HcpComm.findArg, dec16_of_holds hnr hlt]
  rw [hget]
  split
  · rename_i a ha
    rw [ha] at hfind
    obtain ⟨pre, post, rfl, hpre, hfind⟩ := hfind
    refine ⟨pre, post, rfl, hpre, hfind, ?_, ?_⟩
    · rw [encodeArgs_append, holds_append, encodeArgs_cons, holds_append, CmdArg.encode,
        holds_append] at hargs
      exact hargs.2.1.2
    · rw [encodeArgs_append] at hlen; simp at hlen; omega
  · rename_i ha
    rw [ha] at hfind
    exact hfind

/-- **`bmlite_get_arg` parses an encoded packet.** -/
theorem getArg_encoded {c : HcpComm} {cmd : Nat} {args : List CmdArg}
    (h : c.packet = encodePacket cmd args) (hsize : c.pktSize ≤ 65535) (t : Nat) :
    c.Yields args t := by
  have hfind := findArg_packet h hsize t
  have hget := getArg_returns c t
  unfold HcpComm.Yields
  split <;> rename_i ha <;> rw [ha] at hfind
  · obtain ⟨pre, post, hargs, hpre, hsome, hdata, hle⟩ := hfind
    rw [hsome] at hget
    exact ⟨pre, post, hargs, hpre, hget, hdata, hle⟩
  · rw [show c.findArg t = none from hfind] at hget
    exact hget

/-! ## Building -/

/-- The chain after an accepted argument. -/
def HcpComm.addArg (c : HcpComm) (argType : Nat) (argData : List Byte) (argSize : Nat) : HcpComm :=
  { c with
    pktBuffer := blit (blit c.pktBuffer 2 (enc16 (dec16 (slice c.pktBuffer 2 2) + 1))) c.pktSize
      (enc16 argType ++ enc16 argSize ++ argData.take argSize)
    pktSize := (c.pktSize + (4 + argSize)) % 2 ^ 32 }

/-- **`bmlite_add_arg`** rejects an argument and changes nothing, or appends it. -/
theorem runs_addArg {c : HcpComm} {t n : Nat} {d : List Byte} :
    Returns ((bmliteAddArg t d n).run c)
      (if (c.pktSize + 4 + n) % 2 ^ 32 > c.pktSizeMax then (FPC_BEP_RESULT_NO_MEMORY, c)
        else (FPC_BEP_RESULT_OK, c.addArg t d n)) := by
  refine returns_of_runs ?_
  simp only [bmliteAddArg, StateT.run_bind, StateT.run_get, pure_eq, ret_bind]
  split
  · simp
  · by_cases hn : n = 0 <;>
      simp [hn, HcpComm.addArg, StateT.run_bind, ← blit_blit_append, StateT.run_modify]

/-- The chain holds a packet under construction. -/
structure Built (c : HcpComm) (max cmd : Nat) (args : List CmdArg) : Prop where
  max_eq : c.pktSizeMax = max
  size_le : c.pktSize ≤ max
  packet_eq : c.packet = encodePacket cmd args

/-- The packet of `args` has room for `a`. -/
def Fits (max : Nat) (args : List CmdArg) (a : CmdArg) : Prop :=
  4 + (encodeArgs args).length + 4 + a.data.length ≤ max

instance (max : Nat) (args : List CmdArg) (a : CmdArg) : Decidable (Fits max args a) :=
  inferInstanceAs (Decidable (_ ≤ _))

def accept (max : Nat) (args : List CmdArg) (a : CmdArg) : List CmdArg :=
  if Fits max args a then args ++ [a] else args

def verdict (max : Nat) (args : List CmdArg) (a : CmdArg) : FpcBepResult :=
  if Fits max args a then FPC_BEP_RESULT_OK else FPC_BEP_RESULT_NO_MEMORY

/-- The arguments of a packet after a sequence of calls that began with `args`. -/
def accepted (max : Nat) (args calls : List CmdArg) : List CmdArg := calls.foldl (accept max) args

/-- The results of the calls. -/
def verdicts (max : Nat) : (args calls : List CmdArg) → List FpcBepResult
  | _, [] => []
  | args, a :: calls => verdict max args a :: verdicts max (accept max args a) calls

/-- **An accepted argument is appended to the packet.** -/
theorem addArg_packet_of_lt {c : HcpComm} {cmd : Nat} {args : List CmdArg} {a : CmdArg}
    (h : c.packet = encodePacket cmd args) (hlt : args.length < 65536)
    (hsize : c.pktSize + 4 + a.data.length < 2 ^ 32) :
    (c.addArg a.type a.data a.data.length).packet = encodePacket cmd (args ++ [a]) := by
  obtain ⟨hlen, hcmd, hnr, hargs⟩ := packet_holds.1 h
  have hnr' : dec16 (slice c.pktBuffer 2 2) = args.length := dec16_of_holds hnr hlt
  refine packet_holds.2 ⟨?_, ?_, ?_, ?_⟩
  · simp only [HcpComm.addArg, encodeArgs_append, encodeArgs_cons, encodeArgs_nil,
      List.length_append, CmdArg.encode_length, List.length_nil]
    omega
  · exact (hcmd.blit _ (by simp)).blit _ (by simp; omega)
  · simp only [HcpComm.addArg, hnr', List.length_append, List.length_singleton]
    exact (holds_blit _ _ _).blit _ (by simp; omega)
  · rw [encodeArgs_append, holds_append, encodeArgs_cons, encodeArgs_nil, List.append_nil, ← hlen]
    refine ⟨(hargs.blit _ (by simp)).blit _ (by omega), ?_⟩
    simp only [HcpComm.addArg, List.take_length]
    exact holds_blit _ _ _

/-- The same for a packet of 16 bits of size. -/
theorem addArg_packet {c : HcpComm} {cmd : Nat} {args : List CmdArg} {a : CmdArg}
    (h : c.packet = encodePacket cmd args) (hsize : c.pktSize + 4 + a.data.length ≤ 65535) :
    (c.addArg a.type a.data a.data.length).packet = encodePacket cmd (args ++ [a]) :=
  addArg_packet_of_lt h (args_length_lt h (by omega)) (by omega)

theorem addArg_step {c : HcpComm} {max cmd : Nat} {args : List CmdArg} (hmax : max ≤ 65535)
    (h : Built c max cmd args) (a : CmdArg) :
    ∃ c', Returns ((bmliteAddArg a.type a.data a.data.length).run c) (verdict max args a, c') ∧
      Built c' max cmd (accept max args a) ∧ (¬ Fits max args a → c' = c) := by
  have hlen := packet_size h.packet_eq
  have hle := h.size_le
  have ha := a.size_lt
  have hrun := runs_addArg (c := c) (t := a.type) (n := a.data.length) (d := a.data)
  rw [Nat.mod_eq_of_lt (by omega), h.max_eq] at hrun
  by_cases hfit : Fits max args a
  · have hfit' : c.pktSize + 4 + a.data.length ≤ max := by rw [hlen]; exact hfit
    rw [if_neg (by omega)] at hrun
    refine ⟨c.addArg a.type a.data a.data.length, by rw [verdict, if_pos hfit]; exact hrun,
      ⟨h.max_eq, ?_, ?_⟩, absurd hfit⟩
    · show (c.pktSize + (4 + a.data.length)) % 2 ^ 32 ≤ max
      omega
    · rw [accept, if_pos hfit]
      exact addArg_packet h.packet_eq (by omega)
  · have hfit' : c.pktSize + 4 + a.data.length > max := by
      rw [hlen]; exact Nat.not_le.1 hfit
    rw [if_pos hfit'] at hrun
    refine ⟨c, by rw [verdict, if_neg hfit]; exact hrun, ?_, fun _ => rfl⟩
    rw [accept, if_neg hfit]
    exact h

/-- The chain at the start of a packet. -/
def HcpComm.initCmd (c : HcpComm) (cmd : Nat) : HcpComm :=
  { c with pktBuffer := blit (blit c.pktBuffer 0 (enc16 cmd)) 2 (enc16 0), pktSize := 4 }

theorem initCmd_packet (c : HcpComm) (cmd : Nat) :
    (c.initCmd cmd).packet = encodePacket cmd [] := by
  refine packet_holds.2 ⟨rfl, ?_, holds_blit _ _ _, holds_nil _ _⟩
  exact (holds_blit _ _ _).blit _ (by simp)

/-- A key other than `ARG_NONE` counts as a first argument, without data. -/
def keyCall (argKey : Nat) (h : argKey < 65536) : List CmdArg :=
  if argKey = ARG_NONE then [] else [.flag argKey h]

/-- The chain after a successful `bmlite_init_cmd`. -/
def HcpComm.prepare (c : HcpComm) (cmd argKey : Nat) : HcpComm :=
  if argKey = ARG_NONE then c.initCmd cmd else (c.initCmd cmd).addArg argKey [] 0

/-- **`bmlite_init_cmd`** begins a packet; only its key can be rejected. -/
theorem runs_initCmd (c : HcpComm) (cmd argKey : Nat) :
    Returns ((bmliteInitCmd cmd argKey).run c)
      (if argKey ≠ ARG_NONE ∧ c.pktSizeMax < 8 then (FPC_BEP_RESULT_NO_MEMORY, c.initCmd cmd)
        else (FPC_BEP_RESULT_OK, c.prepare cmd argKey)) := by
  have hadd := (runs_addArg (c := c.initCmd cmd) (t := argKey) (n := 0) (d := []) [] _).2 ⟨rfl, rfl⟩
  refine returns_of_runs ?_
  unfold HcpComm.prepare
  by_cases hnone : argKey = ARG_NONE
  · simp [bmliteInitCmd, hnone, StateT.run_bind, StateT.run_modify, HcpComm.initCmd]
  · simp only [bmliteInitCmd, StateT.run_bind, run_store16, StateT.run_modify, touch_bind, ret_bind,
      runs_touch, hnone, ne_eq, not_false_eq_true, if_true, if_false, true_and, pure_eq]
    by_cases hmax : c.pktSizeMax < 8
    · rw [if_pos (show ((c.initCmd cmd).pktSize + 4 + 0) % 2 ^ 32 > (c.initCmd cmd).pktSizeMax
        from hmax)] at hadd
      rw [if_pos hmax]
      exact runs_bind.2 ⟨_, [], [], rfl, hadd, .touch (.refl _)⟩
    · rw [if_neg (show ¬ ((c.initCmd cmd).pktSize + 4 + 0) % 2 ^ 32 > (c.initCmd cmd).pktSizeMax
        from hmax)] at hadd
      rw [if_neg hmax]
      exact runs_bind.2 ⟨_, [], [], rfl, hadd, .refl _⟩

theorem prepare_packet (c : HcpComm) (cmd : Nat) {argKey : Nat} (h : argKey < 65536) :
    (c.prepare cmd argKey).packet = encodePacket cmd (keyCall argKey h) := by
  unfold HcpComm.prepare keyCall
  split
  · exact initCmd_packet c cmd
  · exact addArg_packet (a := .flag argKey h) (initCmd_packet c cmd)
      (show 4 + 4 + 0 ≤ 65535 by decide)

theorem prepare_size_le (c : HcpComm) (cmd argKey : Nat) : (c.prepare cmd argKey).pktSize ≤ 8 := by
  unfold HcpComm.prepare
  split
  · exact (by decide : 4 ≤ 8)
  · exact (by decide : (4 + (4 + 0)) % 2 ^ 32 ≤ 8)

theorem prepare_max_eq (c : HcpComm) (cmd argKey : Nat) :
    (c.prepare cmd argKey).pktSizeMax = c.pktSizeMax := by
  unfold HcpComm.prepare
  split <;> rfl

theorem initCmd_step {c : HcpComm} (cmd : Nat) {argKey : Nat} (hkey : argKey < 65536)
    (hmin : 4 ≤ c.pktSizeMax) :
    ∃ r c', Returns ((bmliteInitCmd cmd argKey).run c) (r, c') ∧
      (if argKey = ARG_NONE then r = FPC_BEP_RESULT_OK
        else r = verdict c.pktSizeMax [] (.flag argKey hkey)) ∧
      Built c' c.pktSizeMax cmd (accepted c.pktSizeMax [] (keyCall argKey hkey)) := by
  have hrun := runs_initCmd c cmd argKey
  have hpacket := prepare_packet c cmd hkey
  by_cases hnone : argKey = ARG_NONE
  · rw [if_neg (fun h => h.1 hnone)] at hrun
    refine ⟨_, _, hrun, by rw [if_pos hnone], ?_, ?_, ?_⟩
    · simp only [HcpComm.prepare, if_pos hnone]; rfl
    · simp only [HcpComm.prepare, if_pos hnone]; exact hmin
    · rw [hpacket, keyCall, if_pos hnone]; rfl
  by_cases hmax : c.pktSizeMax < 8
  · have hfit : ¬ Fits c.pktSizeMax [] (.flag argKey hkey) := Nat.not_le.2 hmax
    rw [if_pos ⟨hnone, hmax⟩] at hrun
    refine ⟨_, _, hrun, by rw [if_neg hnone, verdict, if_neg hfit], rfl, hmin, ?_⟩
    rw [initCmd_packet, keyCall, if_neg hnone]
    exact congrArg _ (if_neg hfit).symm
  · have hfit : Fits c.pktSizeMax [] (.flag argKey hkey) := Nat.not_lt.1 hmax
    rw [if_neg (fun h => hmax h.2)] at hrun
    refine ⟨_, _, hrun, by rw [if_neg hnone, verdict, if_pos hfit], ?_, ?_, ?_⟩
    · simp only [HcpComm.prepare, if_neg hnone]; rfl
    · simp only [HcpComm.prepare, if_neg hnone]; exact hfit
    · rw [hpacket, keyCall, if_neg hnone]
      exact congrArg _ (if_pos hfit).symm

/-- The calls of `bmlite_add_arg` for `calls`, with their results. -/
def addArgs : (calls : List CmdArg) → Hcp (List FpcBepResult)
  | [] => return []
  | a :: calls => do
    let r ← bmliteAddArg a.type a.data a.data.length
    let rs ← addArgs calls
    return r :: rs

theorem addArgs_run {c : HcpComm} {max cmd : Nat} {args : List CmdArg} (hmax : max ≤ 65535)
    (h : Built c max cmd args) (calls : List CmdArg) :
    ∃ c', Returns ((addArgs calls).run c) (verdicts max args calls, c') ∧
      Built c' max cmd (accepted max args calls) := by
  induction calls generalizing c args with
  | nil => exact ⟨c, returns_of_runs (by simp [addArgs, verdicts]), h⟩
  | cons a calls ih =>
    obtain ⟨c₁, hadd, h₁, -⟩ := addArg_step hmax h a
    obtain ⟨c₂, hrest, h₂⟩ := ih h₁
    refine ⟨c₂, ?_, h₂⟩
    simp only [addArgs, StateT.run_bind]
    refine hadd.bind (hrest.bind (returns_of_runs ?_))
    simp [verdicts]

/-- `bmlite_init_cmd` and the calls of `bmlite_add_arg` that follow it. -/
def buildCmd (cmd argKey : Nat) (calls : List CmdArg) : Hcp (FpcBepResult × List FpcBepResult) := do
  let r ← bmliteInitCmd cmd argKey
  let rs ← addArgs calls
  return (r, rs)

/-- **Building and parsing invert each other over whole sequences of calls.**  The call made next
is rejected exactly when its argument does not fit, and then changes nothing; the packet holds
the accepted arguments in order, and the search yields the first of each type. -/
theorem build_parse {c : HcpComm} (cmd : Nat) {argKey : Nat} (hkey : argKey < 65536)
    (calls : List CmdArg) (hmin : 4 ≤ c.pktSizeMax) (hmax : c.pktSizeMax ≤ 65535) :
    let args := accepted c.pktSizeMax [] (keyCall argKey hkey ++ calls)
    ∃ r rs c', Returns ((buildCmd cmd argKey calls).run c) ((r, rs), c') ∧
      (if argKey = ARG_NONE then r = FPC_BEP_RESULT_OK ∧ rs = verdicts c.pktSizeMax [] calls
        else r :: rs = verdicts c.pktSizeMax [] (keyCall argKey hkey ++ calls)) ∧
      c'.pktSizeMax = c.pktSizeMax ∧ c'.pktSize ≤ c'.pktSizeMax ∧
      c'.packet = encodePacket cmd args ∧
      (∀ a : CmdArg, ∃ r' c'',
        Returns ((bmliteAddArg a.type a.data a.data.length).run c') (r', c'') ∧
        if c'.pktSize + 4 + a.data.length > c'.pktSizeMax then
          r' = FPC_BEP_RESULT_NO_MEMORY ∧ c'' = c'
        else r' = FPC_BEP_RESULT_OK ∧ c''.packet = encodePacket cmd (args ++ [a])) ∧
      ∀ t, c'.Yields args t := by
  obtain ⟨r, c₁, hinit, hr, h₁⟩ := initCmd_step cmd hkey hmin
  obtain ⟨c₂, hadd, h₂⟩ := addArgs_run hmax h₁ calls
  rw [accepted, accepted, ← List.foldl_append, ← accepted] at h₂
  refine ⟨_, _, c₂, hinit.bind (hadd.bind (returns_of_runs (runs_ret.2 ⟨rfl, rfl⟩))), ?_,
    h₂.max_eq, by rw [h₂.max_eq]; exact h₂.size_le, h₂.packet_eq, ?_,
    getArg_encoded h₂.packet_eq (Nat.le_trans h₂.size_le hmax)⟩
  · unfold keyCall
    split <;> rename_i hnone
    · rw [if_pos hnone] at hr
      exact ⟨hr, rfl⟩
    · rw [if_neg hnone] at hr
      rw [hr]
      rfl
  · intro a
    obtain ⟨c₃, hnext, h₃, hsame⟩ := addArg_step hmax h₂ a
    refine ⟨_, c₃, hnext, ?_⟩
    rw [h₂.max_eq, packet_size h₂.packet_eq]
    split <;> rename_i hfit
    · have hno := Nat.not_le.2 hfit
      exact ⟨if_neg hno, hsame hno⟩
    · have hyes := Nat.not_lt.1 hfit
      refine ⟨if_pos hyes, ?_⟩
      rw [h₃.packet_eq, accept, if_pos (show Fits _ _ _ from hyes)]

/-- A buffer of 14 bytes takes `CMD_WAIT` with its two arguments, and no third one. -/
theorem build_parse_wait :
    let timeout : CmdArg := ⟨ARG_TIMEOUT, enc16 0, by decide, by decide⟩
    ∃ r rs c', Returns ((buildCmd CMD_WAIT ARG_FINGER_UP [timeout, timeout]).run
        { hcpChain with pktSizeMax := 14 }) ((r, rs), c') ∧
      r :: rs = [FPC_BEP_RESULT_OK, FPC_BEP_RESULT_OK, FPC_BEP_RESULT_NO_MEMORY] ∧
      c'.packet = [7, 0, 2, 0, 2, 0, 0, 0, 1, 0x50, 2, 0, 0, 0] := by
  intro timeout
  obtain ⟨r, rs, c', hrun, hres, -, -, hpkt, -⟩ :=
    build_parse (c := { hcpChain with pktSizeMax := 14 }) CMD_WAIT
      (show ARG_FINGER_UP < 65536 by decide) [timeout, timeout] (by decide) (by decide)
  refine ⟨r, rs, c', hrun, ?_, ?_⟩
  · rw [if_neg (by decide)] at hres
    exact hres.trans (by decide)
  · rw [hpkt]; decide

end BMLite
