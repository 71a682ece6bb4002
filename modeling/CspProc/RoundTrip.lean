import CspProc.Wire

/-! # Decode undoes encode

What `pack_proc_into_csp_packet` and `unpack_proc_from_csp_packet` do with a
well-formed procedure, in terms of its encoding `Wire.procBytes`:

* `pack_of_fits`, `pack_of_large`, `pack_of_unknown` — the outcomes of the
  encoder, by the exact size and by what an `int` makes of it;
* `unpackData_zero_iff` — the decoder accepts exactly the encodings;
* `packContract_iff` — when the encoder's contract holds.
-/

namespace CspProc

variable {cfg : Config}

/-! ## The encoder -/

/-- The packet that carries `p`: the bytes from offset 2 on are the encoding,
all others are those of `packet`. -/
def Packet.encoded (packet : Packet cfg) (p : Proc)
    (h : 2 + (Wire.procBytes cfg p).length ≤ cfg.cspBufferSize) : Packet cfg where
  length := 2 + (Wire.procBytes cfg p).length
  data := packet.data.take 2 ++ Wire.procBytes cfg p ++
    packet.data.drop (2 + (Wire.procBytes cfg p).length)
  length_le := h
  data_length := by
    have hd := packet.data_length
    simp only [List.length_append, List.length_take, List.length_drop]
    omega

/-- What the size pass computes. -/
theorem calcProcSize_of_known {p : Proc} (hk : p.Known) :
    calcProcSize cfg p = cInt (Wire.procBytes cfg p).length := by
  rw [Wire.calcProcSize_eq]
  exact if_pos hk

/-- A packet has far fewer bytes than an `int` can count. -/
theorem calcProcSize_of_fits {p : Proc} (hk : p.Known)
    (hfit : 2 + (Wire.procBytes cfg p).length ≤ cfg.cspBufferSize) :
    calcProcSize cfg p = (Wire.procBytes cfg p).length := by
  have hbuf := cfg.buffer_lt
  rw [calcProcSize_of_known hk]
  exact cInt_of_lt (by omega) (by omega)

/-- The exact size of an encoding is one that the encoder's `int` arithmetic
judges rightly: below what an `int` holds with the two header bytes added, or
so large that it wraps to a size which is still too large for a packet. -/
def SizeJudged (cfg : Config) (size : Nat) : Prop :=
  size < 2 ^ 31 - 2 ∨ (cfg.cspBufferSize < size % 2 ^ 32 + 2 ∧ size % 2 ^ 32 < 2 ^ 31 - 2)

instance (cfg : Config) (size : Nat) : Decidable (SizeJudged cfg size) :=
  inferInstanceAs (Decidable (_ ∨ _))

theorem cInt_natCast (n : Nat) :
    cInt n = if n % 2 ^ 32 < 2 ^ 31 then ((n % 2 ^ 32 : Nat) : Int)
      else ((n % 2 ^ 32 : Nat) : Int) - 2 ^ 32 := by
  unfold cInt Int.bmod
  simp only
  split <;> split <;> omega

/-- A procedure that fits is written after the two header bytes. -/
theorem pack_of_fits {p : Proc} (hk : p.Known) (packet : Packet cfg)
    (hfit : 2 + (Wire.procBytes cfg p).length ≤ cfg.cspBufferSize) :
    packProcIntoCspPacket cfg p packet = some (0, packet.encoded p hfit) := by
  have hbuf := cfg.buffer_lt
  have hsize := calcProcSize_of_fits hk hfit
  have hbytes : p.instructionCount :: Wire.instructionBytes cfg p.instructions =
      Wire.procBytes cfg p := rfl
  have hret : Wire.passRet p.instructions = 0 := if_pos hk
  have hwrite : ByteBuf.write packet.data 2 (Wire.procBytes cfg p) =
      some (packet.encoded p hfit).data := by
    unfold ByteBuf.write
    rw [if_pos (by rw [packet.data_length]; exact hfit)]
    rfl
  have hlen : (calcProcSize cfg p + 2).toNat = 2 + (Wire.procBytes cfg p).length := by omega
  rw [Wire.packProcIntoCspPacket_eq, if_neg (by omega), if_neg (by omega),
    Wire.processed_of_known hk, hbytes]
  simp only [PackState.put, hwrite, Option.map_some, Option.bind_some, hret, if_true]
  unfold Packet.withData
  rw [dif_pos (packet.encoded p hfit).data_length, Option.bind_some,
    dif_pos (by omega)]
  simp only [hlen]
  rfl

/-- What the check makes of an encoding that does not fit. -/
theorem sizeJudged_iff {p : Proc} (hk : p.Known)
    (hlarge : cfg.cspBufferSize < 2 + (Wire.procBytes cfg p).length) :
    SizeJudged cfg (Wire.procBytes cfg p).length ↔
      calcProcSize cfg p + 2 < 2 ^ 31 ∧ (cfg.cspBufferSize : Int) < calcProcSize cfg p + 2 := by
  have hhead := cfg.header_le
  have hbuf := cfg.buffer_lt
  have hcalc : calcProcSize cfg p = _ := calcProcSize_of_known hk
  rw [cInt_natCast] at hcalc
  unfold SizeJudged
  split at hcalc <;> omega

/-- A procedure that does not fit is refused when its size is judged rightly.
Otherwise the program leaves its defined behaviour: the check's own addition
overflows, or the size has wrapped to one that passes it. -/
theorem pack_of_large {p : Proc} (hk : p.Known) (packet : Packet cfg)
    (hlarge : cfg.cspBufferSize < 2 + (Wire.procBytes cfg p).length) :
    packProcIntoCspPacket cfg p packet =
      if SizeJudged cfg (Wire.procBytes cfg p).length then some (-1, packet) else none := by
  have hbytes : p.instructionCount :: Wire.instructionBytes cfg p.instructions =
      Wire.procBytes cfg p := rfl
  have hwrite : ByteBuf.write packet.data 2 (Wire.procBytes cfg p) = none := by
    unfold ByteBuf.write
    rw [if_neg (by rw [packet.data_length]; omega)]
  have hjudged := sizeJudged_iff hk hlarge
  rw [Wire.packProcIntoCspPacket_eq, Wire.processed_of_known hk, hbytes]
  by_cases hov : 2 ^ 31 ≤ calcProcSize cfg p + 2
  · rw [if_pos hov, if_neg (fun h => by have hint := (hjudged.mp h).1; omega)]
  · rw [if_neg hov]
    by_cases hbig : (cfg.cspBufferSize : Int) < calcProcSize cfg p + 2
    · rw [if_pos hbig, if_pos (hjudged.mpr ⟨by omega, hbig⟩)]
    · -- the check is passed, and the write goes past the packet
      rw [if_neg hbig, if_neg (fun h => hbig (hjudged.mp h).2)]
      simp only [PackState.put, hwrite, Option.map_none, Option.bind_none]

/-- With an unknown type the size pass returns -1, which passes the check; the
write pass then goes as far as that instruction. -/
theorem pack_of_unknown {p : Proc} (hk : ¬ p.Known) (packet : Packet cfg) :
    packProcIntoCspPacket cfg p packet =
      (ByteBuf.write packet.data 2
        (p.instructionCount :: Wire.instructionBytes cfg (Wire.processed p.instructions))).bind
        fun data => (packet.withData data).map fun packet => (-1, packet) := by
  have hhead := cfg.header_le
  have hcalc : calcProcSize cfg p = -1 := by
    rw [Wire.calcProcSize_eq]
    exact if_neg hk
  have hret : Wire.passRet p.instructions = -1 := if_neg hk
  rw [Wire.packProcIntoCspPacket_eq, hcalc, if_neg (by omega), if_neg (by omega), hret]
  unfold PackState.put
  cases ByteBuf.write packet.data 2 (p.instructionCount ::
      Wire.instructionBytes cfg (Wire.processed p.instructions)) with
  | none => rfl
  | some data =>
      simp only [Option.map_some, Option.bind_some]
      cases packet.withData data <;> rfl

/-- The encoder's outcome does not depend on what the packet held before. -/
theorem pack_cases (p : Proc) :
    (∀ packet : Packet cfg, packProcIntoCspPacket cfg p packet = none) ∨
    (∀ packet : Packet cfg, ∃ packet', packProcIntoCspPacket cfg p packet = some (-1, packet')) ∨
    (∃ hfit : 2 + (Wire.procBytes cfg p).length ≤ cfg.cspBufferSize,
      ∀ packet : Packet cfg, packProcIntoCspPacket cfg p packet =
        some (0, packet.encoded p hfit)) := by
  have hhead := cfg.header_le
  have hbuf := cfg.buffer_lt
  by_cases hk : p.Known
  · by_cases hfit : 2 + (Wire.procBytes cfg p).length ≤ cfg.cspBufferSize
    · exact .inr (.inr ⟨hfit, fun packet => pack_of_fits hk packet hfit⟩)
    · -- a procedure that is too large is refused, unless its size is misjudged
      have hlarge := fun packet : Packet cfg => pack_of_large hk packet (by omega)
      by_cases hjudged : SizeJudged cfg (Wire.procBytes cfg p).length
      · simp only [if_pos hjudged] at hlarge
        exact .inr (.inl fun packet => ⟨packet, hlarge packet⟩)
      · simp only [if_neg hjudged] at hlarge
        exact .inl hlarge
  · -- an unknown type: all depends on whether what is written before it fits
    by_cases hroom : 2 + (1 + (Wire.instructionBytes cfg
        (Wire.processed p.instructions)).length) ≤ cfg.cspBufferSize
    · refine .inr (.inl fun packet => ?_)
      have hd := packet.data_length
      obtain ⟨data, hwrite⟩ : ∃ data, ByteBuf.write packet.data 2 (p.instructionCount ::
          Wire.instructionBytes cfg (Wire.processed p.instructions)) = some data := by
        unfold ByteBuf.write
        rw [if_pos (by simp only [List.length_cons]; omega)]
        exact ⟨_, rfl⟩
      have hlen := ByteBuf.write_length hwrite
      rw [pack_of_unknown hk packet, hwrite, Option.bind_some, Packet.withData,
        dif_pos (hlen.trans hd)]
      exact ⟨_, rfl⟩
    · refine .inl fun packet => ?_
      have hd := packet.data_length
      rw [pack_of_unknown hk packet, ByteBuf.write,
        if_neg (by simp only [List.length_cons]; omega)]
      rfl

/-! ## The decoder -/

/-- The values the wire format holds are those of known type whose operator
fits its enum. -/
theorem wire_valid_iff {ins : ProcInstruction} (hk : ins.instruction.isKnown = true) :
    (Wire.procInstruction cfg).Valid ins ↔ ins.instruction.OpFits cfg.sizeofEnum := by
  have htype : ins.instruction.type.toNat < 256 := by
    rcases ins with ⟨n, body⟩
    cases body with
    | unknown t h => cases hk
    | _ => simp [Instruction.type]
  rw [Wire.valid_iff]
  exact ⟨fun h => h.1, fun h => ⟨h, htype⟩⟩

/-- The decoder returns 0 exactly on packets that hold an encoding at offset
2, with the procedure encoded there, and then has read just the encoding. -/
theorem unpackData_zero_iff (data : List UInt8) (p : Proc) (offset : Nat) :
    unpackData cfg data = some ⟨0, p, offset⟩ ↔
      p.WellFormed cfg ∧ Wire.procBytes cfg p <+: data.drop 2 ∧
      offset = 2 + (Wire.procBytes cfg p).length := by
  have hsize : (Wire.procBytes cfg p).length =
      1 + (Wire.instructionBytes cfg p.instructions).length := by
    simp [Wire.procBytes, Nat.add_comm]
  rw [Wire.unpackData_iff, hsize]
  constructor
  · rintro ⟨count, hs, hv, hpre, hoff⟩
    -- with return value 0 the decoder has not stopped before the count
    have hall : p.instructions.length = count.toNat ∧
        ∀ ins ∈ p.instructions, ins.instruction.isKnown = true := by
      generalize hl : p.instructions = l at hs
      generalize hr : (0 : Int) = r at hs
      cases hs with
      | all hlen hknown => exact ⟨hlen, hknown⟩
      | unknown => cases hr
    have hcount : count = p.instructionCount := by
      apply UInt8.toNat_inj.mp
      rw [Proc.instructionCount_toNat, hall.1]
    subst hcount
    refine ⟨?_, hpre, by simp only at hoff; omega⟩
    intro ins hins
    have hk := hall.2 ins hins
    exact ⟨hk, (wire_valid_iff hk).mp (hv ins hins)⟩
  · rintro ⟨hp, hpre, hoff⟩
    refine ⟨p.instructionCount, .all (by simp) hp.known, ?_, hpre, by simp only; omega⟩
    intro ins hins
    exact (wire_valid_iff (hp ins hins).1).mpr (hp ins hins).2

/-- The decoder returns 0 or -1. -/
theorem unpackData_ret {data : List UInt8} {u : Unpacked} (h : unpackData cfg data = some u) :
    u.ret = 0 ∨ u.ret = -1 := by
  rcases (Wire.unpackData_iff cfg data u).mp h with ⟨count, hs, -⟩
  generalize u.procedure.instructions = l at hs
  generalize u.ret = ret at hs ⊢
  cases hs with
  | all => exact .inl rfl
  | unknown => exact .inr rfl

/-- Every packet that holds the encoding of a well-formed procedure is decoded
to that procedure. -/
theorem unpack_of_prefix {p : Proc} (hp : p.WellFormed cfg) {packet : Packet cfg}
    (hpre : Wire.procBytes cfg p <+: packet.data.drop 2) :
    unpackProcFromCspPacket cfg packet =
      some ⟨0, p, 2 + (Wire.procBytes cfg p).length⟩ :=
  (unpackData_zero_iff packet.data p _).mpr ⟨hp, hpre, rfl⟩

theorem procBytes_prefix_encoded (packet : Packet cfg) (p : Proc)
    (h : 2 + (Wire.procBytes cfg p).length ≤ cfg.cspBufferSize) :
    Wire.procBytes cfg p <+: (packet.encoded p h).data.drop 2 := by
  have hd := packet.data_length
  have hhead : (packet.data.take 2).length = 2 := by
    simp only [List.length_take]
    omega
  refine ⟨packet.data.drop (2 + (Wire.procBytes cfg p).length), ?_⟩
  unfold Packet.encoded
  simp only [List.append_assoc]
  rw [List.drop_left' hhead]

/-! ## The contract -/

/-- What the encoder and the decoder promise about `p`. When the computed size
fits, the encoder returns 0, sets the length to it, overwrites exactly the
bytes `2 .. length - 1` (with the same bytes `bs`, whatever was there), and the
decoder then returns 0 and `p`. When it does not fit, the encoder returns -1
and leaves the packet alone. -/
def PackContract (cfg : Config) (p : Proc) : Prop :=
  (2 + calcProcSize cfg p ≤ cfg.cspBufferSize →
    ∃ bs : List UInt8, ∀ packet : Packet cfg, ∃ packet' : Packet cfg,
      packProcIntoCspPacket cfg p packet = some (0, packet') ∧
      (packet'.length : Int) = 2 + calcProcSize cfg p ∧
      packet'.length = 2 + bs.length ∧
      packet'.data = packet.data.take 2 ++ bs ++ packet.data.drop packet'.length ∧
      unpackProcFromCspPacket cfg packet' = some ⟨0, p, packet'.length⟩) ∧
  (cfg.cspBufferSize < 2 + calcProcSize cfg p →
    ∀ packet : Packet cfg, packProcIntoCspPacket cfg p packet = some (-1, packet))

/-- An encoding that does not fit and is not judged rightly breaks the contract. -/
theorem not_packContract {p : Proc} (hp : p.WellFormed cfg)
    (hlarge : cfg.cspBufferSize < 2 + (Wire.procBytes cfg p).length)
    (hjudged : ¬ SizeJudged cfg (Wire.procBytes cfg p).length) : ¬ PackContract cfg p := by
  let packet : Packet cfg := .ofBytes [] [] (Nat.zero_le _)
  have hnone := pack_of_large hp.known packet hlarge
  rw [if_neg hjudged] at hnone
  rintro ⟨hpacks, hrefuses⟩
  by_cases hcheck : 2 + calcProcSize cfg p ≤ cfg.cspBufferSize
  · rcases hpacks hcheck with ⟨bs, hpack⟩
    rcases hpack packet with ⟨packet', hsome, -⟩
    rw [hnone] at hsome
    cases hsome
  · have hsome := hrefuses (by omega) packet
    rw [hnone] at hsome
    cases hsome

/-- The contract holds exactly for the sizes that are judged rightly; in
particular whenever the encoding is smaller than `2 ^ 31 - 2` bytes. -/
theorem packContract_iff (p : Proc) (hp : p.WellFormed cfg) :
    PackContract cfg p ↔ SizeJudged cfg (Wire.procBytes cfg p).length := by
  have hbuf := cfg.buffer_lt
  by_cases hfit : 2 + (Wire.procBytes cfg p).length ≤ cfg.cspBufferSize
  · -- the encoding fits a packet
    have hsize := calcProcSize_of_fits hp.known hfit
    refine iff_of_true ⟨?_, by omega⟩ (.inl (by omega))
    intro _
    refine ⟨Wire.procBytes cfg p, ?_⟩
    intro packet
    refine ⟨packet.encoded p hfit, pack_of_fits hp.known packet hfit, ?_, rfl, rfl, ?_⟩
    · simp only [Packet.encoded]
      omega
    · exact unpack_of_prefix hp (procBytes_prefix_encoded packet p hfit)
  · -- it does not, and everything depends on what the `int` makes of its size
    constructor
    · intro hcontract
      by_contra hjudged
      exact not_packContract hp (by omega) hjudged hcontract
    · intro hjudged
      have hcheck := (sizeJudged_iff hp.known (by omega)).mp hjudged
      refine ⟨by omega, ?_⟩
      intro _ packet
      rw [pack_of_large hp.known packet (by omega), if_pos hjudged]

/-- One instruction of each type, as the encoder's own test builds it. -/
def varietyProc : Proc where
  instructions :=
    [⟨1, .block (.ofBytes [112, 97] rfl) 4 (.ofBytes [112, 98] rfl)⟩,
      ⟨253, .set (.ofBytes [112, 95] rfl) (.ofBytes [49, 51, 46, 52] rfl)⟩,
      ⟨395, .unop (.ofBytes [112] rfl) 4 (.ofBytes [114] rfl)⟩,
      ⟨4, .binop (.ofBytes [112] rfl) 5 (.ofBytes [113] rfl) .nil⟩,
      ⟨79, .noop⟩,
      ⟨65, .ifelse (.ofBytes [97] rfl) 3 (.ofBytes [98] rfl)⟩,
      ⟨1525, .call 42⟩]
  length_le := Nat.le_of_ble_eq_true rfl

theorem packContract_varietyProc : PackContract .default varietyProc :=
  (packContract_iff varietyProc (by decide)).mpr (by decide +kernel)

theorem not_nul_mem_replicate (n : Nat) : (0 : UInt8) ∉ List.replicate n 97 := by
  simp

/-- The string of `n` letters a. -/
def longName (n : Nat) : CStr := ⟨List.replicate n 97, not_nul_mem_replicate n⟩

/-- A single `set` whose parameter name has `n` characters. -/
def longSet (n : Nat) : Proc where
  instructions := [⟨0, .set (longName n) .nil⟩]
  length_le := Nat.le_of_ble_eq_true rfl

theorem longSet_wellFormed (cfg : Config) (n : Nat) : (longSet n).WellFormed cfg := by
  intro ins hins
  simp only [longSet, List.mem_singleton] at hins
  subst hins
  exact ⟨rfl, trivial⟩

theorem longSet_size (cfg : Config) (n : Nat) :
    (Wire.procBytes cfg (longSet n)).length = n + 6 := by
  simp [Wire.procBytes, Wire.instructionBytes, longSet, longName, Wire.encode_eq,
    Wire.operandBytes, CStr.strlen, CStr.nil]
  omega

/-- With `2 ^ 31` characters the size is negative as an `int`, and passes the
size check. -/
theorem not_packContract_longSet :
    (longSet (2 ^ 31)).WellFormed .default ∧ ¬ PackContract .default (longSet (2 ^ 31)) := by
  have hp := longSet_wellFormed .default (2 ^ 31)
  have hsize := longSet_size .default (2 ^ 31)
  have hbuf : Config.default.cspBufferSize = 256 := rfl
  refine ⟨hp, not_packContract hp (by omega) ?_⟩
  rw [hsize]
  decide

end CspProc
