import CspProc.RoundTrip

/-! # Where the encoder writes

The `memcpy` calls that `pack_proc_into_csp_packet` makes, one by one, and when
all of their bytes are in the packet's buffer. The only check is made ahead of
them, by a size that is also an error code: an unknown type makes it -1, which
passes, and everything in front of that instruction is then written unchecked.

* `packInstruction_eq_memcpys` — the encoder makes just these calls;
* `staysInside_iff` — when it stays inside of the buffer, for any procedure.
-/

namespace CspProc

variable {cfg : Config}

/-! ## Calls of `memcpy` -/

/-- A call of `memcpy` to the packet's data. -/
structure Memcpy where
  offset : Nat
  bytes : List UInt8
deriving DecidableEq, Repr

/-- The call writes the byte at an offset. -/
def Memcpy.Writes (m : Memcpy) (i : Nat) : Prop := m.offset ≤ i ∧ i < m.offset + m.bytes.length

theorem Memcpy.writes_mk {offset i : Nat} {bs : List UInt8} :
    (⟨offset, bs⟩ : Memcpy).Writes i ↔ offset ≤ i ∧ i < offset + bs.length := Iff.rfl

/-- Calls that each write where the one before them ended. -/
def placed : Nat → List (List UInt8) → List Memcpy
  | _, [] => []
  | offset, bs :: pieces => ⟨offset, bs⟩ :: placed (offset + bs.length) pieces

theorem placed_append (offset : Nat) (pieces pieces' : List (List UInt8)) :
    placed offset (pieces ++ pieces') =
      placed offset pieces ++ placed (offset + pieces.flatten.length) pieces' := by
  induction pieces generalizing offset with
  | nil => rfl
  | cons bs pieces ih =>
      rw [List.cons_append, placed, ih, placed, List.cons_append, List.flatten_cons,
        List.length_append, Nat.add_assoc]

/-- Together they write their bytes without a gap. -/
theorem writes_placed (offset i : Nat) (pieces : List (List UInt8)) :
    (∃ m ∈ placed offset pieces, m.Writes i) ↔
      offset ≤ i ∧ i < offset + pieces.flatten.length := by
  induction pieces generalizing offset with
  | nil =>
      simp only [placed, List.not_mem_nil, false_and, exists_false, List.flatten_nil,
        List.length_nil, false_iff]
      omega
  | cons bs pieces ih =>
      simp only [placed, List.mem_cons, exists_eq_or_imp, ih, Memcpy.writes_mk,
        List.flatten_cons, List.length_append]
      omega

/-! ## The calls of the encoder -/

/-- What one iteration of the encoder's loop copies, in its order. -/
def memcpys (cfg : Config) (ins : ProcInstruction) : List (List UInt8) :=
  leBytes 2 ins.node.toNat :: [ins.instruction.type.toUInt8] ::
    match ins.instruction with
    | .block paramA op paramB | .ifelse paramA op paramB =>
        [paramA.withNul, leBytes cfg.sizeofEnum op.toNat, paramB.withNul]
    | .set param value => [param.withNul, value.withNul]
    | .unop param op result => [param.withNul, leBytes cfg.sizeofEnum op.toNat, result.withNul]
    | .binop paramA op paramB result =>
        [paramA.withNul, leBytes cfg.sizeofEnum op.toNat, paramB.withNul, result.withNul]
    | .call procedureSlot => [[procedureSlot]]
    | .noop => []
    | .unknown .. => []

/-- The calls that the loop over the instructions makes; it returns at an unknown type. -/
def loopMemcpys (cfg : Config) : Nat → List ProcInstruction → List Memcpy
  | _, [] => []
  | offset, ins :: rest =>
      placed offset (memcpys cfg ins) ++
        if ins.instruction.isKnown then
          loopMemcpys cfg (offset + (memcpys cfg ins).flatten.length) rest
        else []

/-- All calls of `pack_proc_into_csp_packet`, unless `total_size + 2` overflows. -/
def packMemcpys (cfg : Config) (procedure : Proc) : Option (List Memcpy) :=
  let totalSize := calcProcSize cfg procedure
  if 2 ^ 31 ≤ totalSize + 2 then none
  else if (cfg.cspBufferSize : Int) < totalSize + 2 then some []
  else some (⟨2, [procedure.instructionCount]⟩ :: loopMemcpys cfg 3 procedure.instructions)

/-- The encoder makes the calls, one after the other. -/
theorem packInstruction_eq_memcpys (s : PackState) (ins : ProcInstruction) :
    packInstruction cfg s ins =
      ((memcpys cfg ins).foldlM PackState.put s).map fun s =>
        (if ins.instruction.isKnown = true then 0 else -1, s) := by
  rcases ins with ⟨n, body⟩
  cases body with
  | _ => simp [packInstruction, memcpys, Instruction.isKnown, Option.map_eq_bind, Option.bind_assoc]

/-- They copy the encoding of the instruction. -/
theorem flatten_memcpys (ins : ProcInstruction) :
    (memcpys cfg ins).flatten = (Wire.procInstruction cfg).encode ins := by
  rw [Wire.encode_eq]
  rcases ins with ⟨n, body⟩
  cases body with
  | _ => simp [memcpys, Wire.operandBytes]

/-- The loop copies the encodings of the instructions that it processes. -/
theorem loopMemcpys_eq (offset : Nat) (l : List ProcInstruction) :
    loopMemcpys cfg offset l = placed offset ((Wire.processed l).flatMap (memcpys cfg)) := by
  induction l generalizing offset with
  | nil => rfl
  | cons ins l ih =>
      rw [loopMemcpys, Wire.processed]
      by_cases hk : ins.instruction.isKnown = true
      · rw [if_pos hk, if_pos hk, ih, List.flatMap_cons, placed_append]
      · rw [if_neg hk, if_neg hk, List.append_nil, List.flatMap_singleton]

theorem flatten_flatMap_memcpys (l : List ProcInstruction) :
    (l.flatMap (memcpys cfg)).flatten = Wire.instructionBytes cfg l := by
  induction l with
  | nil => rfl
  | cons ins l ih =>
      rw [List.flatMap_cons, List.flatten_append, flatten_memcpys, ih]
      rfl

/-- Without a refusal, the bytes from the third one on are written up to the end
of the encoding of what is processed. -/
theorem writes_packMemcpys (cfg : Config) (p : Proc) (i : Nat) :
    (∃ m ∈ (⟨2, [p.instructionCount]⟩ :: loopMemcpys cfg 3 p.instructions : List Memcpy),
        m.Writes i) ↔
      2 ≤ i ∧ i < 3 + (Wire.instructionBytes cfg (Wire.processed p.instructions)).length := by
  have hcalls : (⟨2, [p.instructionCount]⟩ :: loopMemcpys cfg 3 p.instructions : List Memcpy) =
      placed 2 ([p.instructionCount] :: (Wire.processed p.instructions).flatMap (memcpys cfg)) := by
    rw [placed, loopMemcpys_eq]
    rfl
  rw [hcalls, writes_placed, List.flatten_cons, flatten_flatMap_memcpys]
  simp only [List.length_append, List.length_singleton]
  omega

/-! ## Staying inside -/

/-- The encoder writes no byte behind the packet's buffer. -/
def StaysInside (cfg : Config) (procedure : Proc) : Prop :=
  ∃ calls, packMemcpys cfg procedure = some calls ∧
    ∀ m ∈ calls, ∀ i, m.Writes i → i < cfg.cspBufferSize

/-- The bytes in front of an unknown type are those of a procedure that fits, or
all types are known and the size of the encoding is judged rightly. -/
def EncodesInside (cfg : Config) (procedure : Proc) : Prop :=
  if procedure.Known then SizeJudged cfg (Wire.procBytes cfg procedure).length
  else 3 + (Wire.instructionBytes cfg (Wire.processed procedure.instructions)).length ≤
    cfg.cspBufferSize

instance (cfg : Config) (procedure : Proc) : Decidable (EncodesInside cfg procedure) := by
  unfold EncodesInside
  infer_instance

theorem StaysInside.no_overflow {p : Proc} (h : StaysInside cfg p) :
    calcProcSize cfg p + 2 < 2 ^ 31 := by
  rcases h with ⟨calls, hsome, -⟩
  by_contra hov
  unfold packMemcpys at hsome
  rw [if_pos (not_lt.mp hov)] at hsome
  cases hsome

/-- Past the check, all depends on the length of what is written. -/
theorem staysInside_of_passed {p : Proc} (hov : calcProcSize cfg p + 2 < 2 ^ 31)
    (hpass : calcProcSize cfg p + 2 ≤ cfg.cspBufferSize) :
    StaysInside cfg p ↔
      3 + (Wire.instructionBytes cfg (Wire.processed p.instructions)).length ≤
        cfg.cspBufferSize := by
  have hcalls : packMemcpys cfg p =
      some (⟨2, [p.instructionCount]⟩ :: loopMemcpys cfg 3 p.instructions) := by
    unfold packMemcpys
    rw [if_neg (by omega), if_neg (by omega)]
  unfold StaysInside
  rw [hcalls]
  constructor
  · rintro ⟨calls, hsome, hinside⟩
    rw [← Option.some.inj hsome] at hinside
    -- the last byte is inside
    have hlast := (writes_packMemcpys cfg p
      (2 + (Wire.instructionBytes cfg (Wire.processed p.instructions)).length)).mpr (by omega)
    rcases hlast with ⟨m, hm, hwrites⟩
    have := hinside m hm _ hwrites
    omega
  · intro hfit
    refine ⟨_, rfl, ?_⟩
    intro m hm i hwrites
    have := (writes_packMemcpys cfg p i).mp ⟨m, hm, hwrites⟩
    omega

/-- A refused procedure writes nothing. -/
theorem staysInside_of_refused {p : Proc} (hov : calcProcSize cfg p + 2 < 2 ^ 31)
    (hrefused : (cfg.cspBufferSize : Int) < calcProcSize cfg p + 2) : StaysInside cfg p := by
  refine ⟨[], ?_, by simp⟩
  unfold packMemcpys
  rw [if_neg (by omega), if_pos hrefused]

theorem staysInside_of_known {p : Proc} (hk : p.Known) :
    StaysInside cfg p ↔ SizeJudged cfg (Wire.procBytes cfg p).length := by
  have hbuf := cfg.buffer_lt
  have hlen : (Wire.procBytes cfg p).length = 1 + (Wire.instructionBytes cfg
      (Wire.processed p.instructions)).length := by
    rw [Wire.processed_of_known hk, Wire.procBytes, List.length_cons, Nat.add_comm]
  by_cases hfit : 2 + (Wire.procBytes cfg p).length ≤ cfg.cspBufferSize
  · -- it fits, and the size is exact
    have hsize := calcProcSize_of_fits hk hfit
    have hinside : StaysInside cfg p :=
      (staysInside_of_passed (by omega) (by omega)).mpr (by omega)
    exact iff_of_true hinside (.inl (by omega))
  · -- only a refusal keeps the encoder inside
    rw [sizeJudged_iff hk (by omega)]
    constructor
    · intro hinside
      have hov : calcProcSize cfg p + 2 < 2 ^ 31 := hinside.no_overflow
      refine ⟨hov, ?_⟩
      by_contra hpass
      have := (staysInside_of_passed hov (not_lt.mp hpass)).mp hinside
      omega
    · rintro ⟨hov, hrefused⟩
      exact staysInside_of_refused hov hrefused

/-- The error code for an unknown type passes the check. -/
theorem staysInside_of_unknown {p : Proc} (hk : ¬ p.Known) :
    StaysInside cfg p ↔
      3 + (Wire.instructionBytes cfg (Wire.processed p.instructions)).length ≤
        cfg.cspBufferSize := by
  have hhead := cfg.header_le
  have hcalc : calcProcSize cfg p = -1 := by
    rw [Wire.calcProcSize_eq]
    exact if_neg hk
  exact staysInside_of_passed (by omega) (by omega)

/-- The encoder stays inside of its buffer if and only if an unknown type has
little enough in front of it, or there is none and the size is judged rightly. -/
theorem staysInside_iff (cfg : Config) (p : Proc) :
    StaysInside cfg p ↔ EncodesInside cfg p := by
  unfold EncodesInside
  by_cases hk : p.Known
  · rw [if_pos hk]
    exact staysInside_of_known hk
  · rw [if_neg hk]
    exact staysInside_of_unknown hk

/-- The encoder's outcome is defined exactly when it stays inside. -/
theorem isSome_pack_iff (p : Proc) (packet : Packet cfg) :
    (packProcIntoCspPacket cfg p packet).isSome = true ↔ StaysInside cfg p := by
  by_cases hk : p.Known
  · rw [staysInside_of_known hk]
    by_cases hfit : 2 + (Wire.procBytes cfg p).length ≤ cfg.cspBufferSize
    · have hbuf := cfg.buffer_lt
      rw [pack_of_fits hk packet hfit]
      exact iff_of_true rfl (.inl (by omega))
    · rw [pack_of_large hk packet (by omega)]
      simp
  · have hd := packet.data_length
    rw [staysInside_of_unknown hk, pack_of_unknown hk]
    cases hwrite : ByteBuf.write packet.data 2 (p.instructionCount ::
        Wire.instructionBytes cfg (Wire.processed p.instructions)) with
    | none =>
        refine iff_of_false (by simp) ?_
        intro hfit
        rw [ByteBuf.write, if_pos (by simp only [List.length_cons]; omega)] at hwrite
        cases hwrite
    | some data =>
        have hlen : data.length = cfg.cspBufferSize := (ByteBuf.write_length hwrite).trans hd
        have hfit : 2 + (p.instructionCount :: Wire.instructionBytes cfg
            (Wire.processed p.instructions)).length ≤ packet.data.length := by
          by_contra hlong
          rw [ByteBuf.write, if_neg hlong] at hwrite
          cases hwrite
        rw [List.length_cons] at hfit
        rw [Option.bind_some, Packet.withData, dif_pos hlen]
        exact iff_of_true rfl (by omega)

/-- A `set` whose parameter has a long name, in front of an instruction of an unknown type. -/
def longUnknown : Proc where
  instructions := [⟨0, .set (longName 300) .nil⟩, ⟨0, .unknown 7 (Nat.le_refl 7)⟩]
  length_le := Nat.le_of_ble_eq_true rfl

/-- Its name is copied over the end of the packet. -/
theorem longUnknown_leaves : ¬ StaysInside .default longUnknown := by
  rintro ⟨calls, hsome, hinside⟩
  have hcalls : packMemcpys .default longUnknown = some
      (⟨2, [2]⟩ :: ⟨3, [0, 0]⟩ :: ⟨5, [2]⟩ :: ⟨6, (longName 300).withNul⟩ ::
        ⟨307, [0]⟩ :: ⟨308, [0, 0]⟩ :: ⟨310, [7]⟩ :: []) := by
    decide +kernel
  rw [← Option.some.inj (hcalls.symm.trans hsome)] at hinside
  have := hinside ⟨307, [0]⟩ (by simp) 307 (Memcpy.writes_mk.mpr (by decide))
  exact absurd this (by decide)

end CspProc
