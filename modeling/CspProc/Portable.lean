import CspProc.Canonical

/-! # The wire format on two platforms

A node writes an operator as its enum object is in memory, so the format of a
procedure depends on the size of an `enum` under the node's ABI. Here a
procedure is packed on one node and unpacked on another:

* `instructionBytes_prefix_of_larger` — a reader with larger enums runs out of
  bytes as soon as there is an operator;
* `instructionBytes_prefix_of_smaller` — a reader with smaller enums takes the
  high bytes of the first operator for what follows it, which goes unnoticed
  only when all of that is zero;
* `portableTo_iff` — when the procedure arrives.
-/

namespace CspProc

variable {cfg cfg' : Config}

/-! ## Operators in an encoding -/

/-- Where an instruction has an operator: the string in front of it, the
operator, and the strings behind it. -/
def Instruction.opFields : Instruction → Option (CStr × UInt32 × List CStr)
  | .block paramA op paramB | .ifelse paramA op paramB => some (paramA, op, [paramB])
  | .unop param op result => some (param, op, [result])
  | .binop paramA op paramB result => some (paramA, op, [paramB, result])
  | .set .. | .call .. | .noop | .unknown .. => none

/-- No instruction has an operator. -/
def NoOperator (l : List ProcInstruction) : Prop :=
  ∀ ins ∈ l, ins.instruction.opFields = none

instance (l : List ProcInstruction) : Decidable (NoOperator l) :=
  inferInstanceAs (Decidable (∀ ins ∈ l, _))

/-- `proc block "" == ""` on node 0: the instruction encoded by zeros. -/
def zeroInstruction : ProcInstruction := ⟨0, .block .nil 0 .nil⟩

/-- What stands behind the first operator is encoded by zeros: the strings
behind it are empty, and all later instructions are zero. -/
def ZeroBehindOperator : List ProcInstruction → Prop
  | [] => True
  | ins :: l =>
      match ins.instruction.opFields with
      | none => ZeroBehindOperator l
      | some (_, _, behind) => (∀ s ∈ behind, s = .nil) ∧ ∀ ins ∈ l, ins = zeroInstruction

theorem NoOperator.zeroBehindOperator {l : List ProcInstruction} (h : NoOperator l) :
    ZeroBehindOperator l := by
  induction l with
  | nil => trivial
  | cons ins l ih =>
      simp only [NoOperator, List.mem_cons, forall_eq_or_imp] at h
      rw [ZeroBehindOperator, h.1]
      exact ih h.2

/-- The strings of an instruction behind its operator, as bytes. -/
def stringBytes (ss : List CStr) : List UInt8 := ss.flatMap CStr.withNul

/-- The bytes of an instruction in front of its operator. -/
def frontBytes (ins : ProcInstruction) (front : CStr) : List UInt8 :=
  leBytes 2 ins.node.toNat ++ (ins.instruction.type.toUInt8 :: front.withNul)

theorem encode_eq_of_opFields {ins : ProcInstruction} {front : CStr} {op : UInt32}
    {behind : List CStr} (h : ins.instruction.opFields = some (front, op, behind)) :
    (Wire.procInstruction cfg).encode ins =
      frontBytes ins front ++ (leBytes cfg.sizeofEnum op.toNat ++ stringBytes behind) := by
  rcases ins with ⟨n, body⟩
  rw [Wire.encode_eq]
  cases body <;> cases h <;>
    simp [Wire.operandBytes, frontBytes, stringBytes, List.append_assoc]

/-- Without an operator the encoding is the same on every node. -/
theorem encode_congr (cfg cfg' : Config) {ins : ProcInstruction}
    (h : ins.instruction.opFields = none) :
    (Wire.procInstruction cfg').encode ins = (Wire.procInstruction cfg).encode ins := by
  rcases ins with ⟨n, body⟩
  rw [Wire.encode_eq, Wire.encode_eq]
  cases body <;> cases h <;> rfl

theorem instructionBytes_congr (cfg cfg' : Config) {l : List ProcInstruction}
    (h : cfg'.sizeofEnum = cfg.sizeofEnum ∨ NoOperator l) :
    Wire.instructionBytes cfg' l = Wire.instructionBytes cfg l := by
  induction l with
  | nil => rfl
  | cons ins l ih =>
      simp only [NoOperator, List.mem_cons, forall_eq_or_imp] at h
      rw [Wire.instructionBytes_cons, Wire.instructionBytes_cons, ih (h.imp_right And.right)]
      congr 1
      cases hop : ins.instruction.opFields with
      | none => exact encode_congr cfg cfg' hop
      | some fields =>
          rcases fields with ⟨front, op, behind⟩
          have hsize : cfg'.sizeofEnum = cfg.sizeofEnum := by
            rcases h with h | h
            · exact h
            · rw [hop] at h
              cases h.1
          rw [encode_eq_of_opFields hop, encode_eq_of_opFields hop, hsize]

/-! ## A reader with larger enums -/

theorem encode_length_le (hsize : cfg.sizeofEnum ≤ cfg'.sizeofEnum) (ins : ProcInstruction) :
    ((Wire.procInstruction cfg).encode ins).length ≤
      ((Wire.procInstruction cfg').encode ins).length := by
  cases hop : ins.instruction.opFields with
  | none => rw [encode_congr cfg cfg' hop]
  | some fields =>
      rcases fields with ⟨front, op, behind⟩
      simp only [encode_eq_of_opFields hop, List.length_append, leBytes_length]
      omega

theorem instructionBytes_length_le (hsize : cfg.sizeofEnum ≤ cfg'.sizeofEnum)
    (l : List ProcInstruction) :
    (Wire.instructionBytes cfg l).length ≤ (Wire.instructionBytes cfg' l).length := by
  induction l with
  | nil => exact Nat.le_refl _
  | cons ins l ih =>
      have hins := encode_length_le hsize ins
      simp only [Wire.instructionBytes_cons, List.length_append]
      omega

/-- An operator makes the encoding with larger enums the longer one. -/
theorem instructionBytes_length_lt (hsize : cfg.sizeofEnum < cfg'.sizeofEnum)
    {l : List ProcInstruction} (hop : ¬ NoOperator l) :
    (Wire.instructionBytes cfg l).length < (Wire.instructionBytes cfg' l).length := by
  induction l with
  | nil => exact absurd (by simp [NoOperator]) hop
  | cons ins l ih =>
      simp only [Wire.instructionBytes_cons, List.length_append]
      cases hins : ins.instruction.opFields with
      | none =>
          have hrest : ¬ NoOperator l := by
            intro hl
            refine hop ?_
            simp only [NoOperator, List.mem_cons, forall_eq_or_imp]
            exact ⟨hins, hl⟩
          have hlt := ih hrest
          rw [encode_congr cfg cfg' hins]
          omega
      | some fields =>
          rcases fields with ⟨front, op, behind⟩
          have hle := instructionBytes_length_le (Nat.le_of_lt hsize) l
          simp only [encode_eq_of_opFields hins, List.length_append, leBytes_length]
          omega

theorem instructionBytes_prefix_of_larger (hsize : cfg.sizeofEnum < cfg'.sizeofEnum)
    (l : List ProcInstruction) :
    Wire.instructionBytes cfg' l <+: Wire.instructionBytes cfg l ↔ NoOperator l := by
  constructor
  · intro hpre
    by_contra hop
    have hlt := instructionBytes_length_lt hsize hop
    have hle := hpre.length_le
    omega
  · intro hop
    have hcongr := instructionBytes_congr cfg cfg' (.inr hop)
    exact hcongr ▸ List.prefix_refl _

/-! ## A reader with smaller enums -/

theorem stringBytes_all_zero_iff (ss : List CStr) :
    (∀ b ∈ stringBytes ss, b = 0) ↔ ∀ s ∈ ss, s = .nil := by
  simp only [stringBytes, List.mem_flatMap, ← CStr.withNul_all_zero_iff]
  exact ⟨fun h s hs b hb => h b ⟨s, hs, hb⟩, fun h b ⟨s, hs, hb⟩ => h s hs b hb⟩

/-- Zeros encode `zeroInstruction` and no other instruction. -/
theorem encode_all_zero_iff {ins : ProcInstruction} (hk : ins.instruction.isKnown = true)
    (hfits : ins.instruction.OpFits cfg.sizeofEnum) :
    (∀ b ∈ (Wire.procInstruction cfg).encode ins, b = 0) ↔ ins = zeroInstruction := by
  rcases ins with ⟨n, body⟩
  have hnode := leBytes_all_zero_iff (n := 2) (v := n.toNat) n.toNat_lt
  rw [Wire.encode_eq]
  simp only [List.mem_append, List.mem_cons, or_imp, forall_and, forall_eq, hnode]
  cases body with
  | block paramA op paramB =>
      simp only [Wire.operandBytes, List.mem_append, or_imp, forall_and,
        CStr.withNul_all_zero_iff, leBytes_all_zero_iff hfits]
      simp [zeroInstruction, Instruction.type, ← UInt16.toNat_inj, ← UInt32.toNat_inj]
  | unknown => cases hk
  | _ => simp [zeroInstruction, Instruction.type]

theorem instructionBytes_all_zero_iff {l : List ProcInstruction}
    (hl : ∀ ins ∈ l, ins.instruction.isKnown = true ∧ ins.instruction.OpFits cfg.sizeofEnum) :
    (∀ b ∈ Wire.instructionBytes cfg l, b = 0) ↔ ∀ ins ∈ l, ins = zeroInstruction := by
  simp only [Wire.instructionBytes, List.mem_flatMap]
  constructor
  · intro h ins hins
    exact (encode_all_zero_iff (hl ins hins).1 (hl ins hins).2).mp fun b hb => h b ⟨ins, hins, hb⟩
  · rintro h b ⟨ins, hins, hb⟩
    exact (encode_all_zero_iff (hl ins hins).1 (hl ins hins).2).mpr (h ins hins) b hb

/-- With larger enums every operator has more zeros behind it. -/
theorem leBytes_op {op : UInt32} (hsize : cfg'.sizeofEnum < cfg.sizeofEnum)
    (hfits : op.toNat < 256 ^ cfg'.sizeofEnum) :
    leBytes cfg.sizeofEnum op.toNat = leBytes cfg'.sizeofEnum op.toNat ++
      List.replicate (cfg.sizeofEnum - cfg'.sizeofEnum - 1 + 1) 0 := by
  rw [← leBytes_add _ _ _ hfits]
  congr 1
  omega

theorem opFits_of_opFields {ins : Instruction} {front : CStr} {op : UInt32} {behind : List CStr}
    {n : Nat} (h : ins.opFields = some (front, op, behind)) (hfits : ins.OpFits n) :
    op.toNat < 256 ^ n := by
  cases ins <;> cases h <;> exact hfits

theorem dilated_instructionBytes (hsize : cfg'.sizeofEnum < cfg.sizeofEnum)
    {l : List ProcInstruction} (hl : ∀ ins ∈ l, ins.instruction.OpFits cfg'.sizeofEnum) :
    Dilated (Wire.instructionBytes cfg' l) (Wire.instructionBytes cfg l) := by
  induction l with
  | nil => exact .nil
  | cons ins l ih =>
      simp only [List.mem_cons, forall_eq_or_imp] at hl
      rw [Wire.instructionBytes_cons, Wire.instructionBytes_cons]
      cases hop : ins.instruction.opFields with
      | none =>
          rw [encode_congr cfg cfg' hop]
          exact (ih hl.2).append_left _
      | some fields =>
          rcases fields with ⟨front, op, behind⟩
          rw [encode_eq_of_opFields hop, encode_eq_of_opFields hop,
            leBytes_op hsize (opFits_of_opFields hop hl.1)]
          simp only [List.append_assoc]
          exact ((((ih hl.2).append_left _).zeros _).append_left _).append_left _

theorem instructionBytes_prefix_of_smaller (hsize : cfg'.sizeofEnum < cfg.sizeofEnum)
    {l : List ProcInstruction}
    (hl : ∀ ins ∈ l, ins.instruction.isKnown = true ∧ ins.instruction.OpFits cfg'.sizeofEnum) :
    Wire.instructionBytes cfg' l <+: Wire.instructionBytes cfg l ↔ ZeroBehindOperator l := by
  induction l with
  | nil => exact iff_of_true (List.prefix_refl _) trivial
  | cons ins l ih =>
      simp only [List.mem_cons, forall_eq_or_imp] at hl
      rw [Wire.instructionBytes_cons, Wire.instructionBytes_cons, ZeroBehindOperator]
      cases hop : ins.instruction.opFields with
      | none =>
          rw [encode_congr cfg cfg' hop, List.prefix_append_right_inj]
          exact ih hl.2
      | some fields =>
          -- the reader stops short of the operator's high bytes
          rcases fields with ⟨front, op, behind⟩
          have hdilated :=
            (dilated_instructionBytes hsize fun ins hins => (hl.2 ins hins).2).append_left
              (stringBytes behind)
          rw [encode_eq_of_opFields hop, encode_eq_of_opFields hop,
            leBytes_op hsize (opFits_of_opFields hop hl.1.2)]
          simp only [List.append_assoc, List.prefix_append_right_inj]
          rw [hdilated.prefix_zeros_iff]
          simp only [List.mem_append, or_imp, forall_and, stringBytes_all_zero_iff,
            instructionBytes_all_zero_iff hl.2]

/-! ## From one node to another -/

/-- What one node packs, the other unpacks to the same procedure, whatever its
buffer holds behind the bytes received. -/
def PortableTo (cfg cfg' : Config) (p : Proc) : Prop :=
  ∀ packet packet₁ : Packet cfg, packProcIntoCspPacket cfg p packet = some (0, packet₁) →
    ∀ packet' : Packet cfg', packet'.length = packet₁.length →
      packet'.payload packet'.length = packet₁.payload packet₁.length →
      ∃ offset, unpackProcFromCspPacket cfg' packet' = some ⟨0, p, offset⟩

/-- A packet in which some bytes stand from offset 2 on, followed by copies of
one byte. -/
def Packet.carrying (cfg : Config) (bytes : List UInt8) (b : UInt8)
    (h : 2 + bytes.length ≤ cfg.cspBufferSize) : Packet cfg where
  length := 2 + bytes.length
  data := 0 :: 0 :: (bytes ++ List.replicate (cfg.cspBufferSize - (2 + bytes.length)) b)
  length_le := h
  data_length := by
    simp only [List.length_cons, List.length_append, List.length_replicate]
    omega

/-- What counts is that the encoding on the reading node starts the encoding
on the writing node. -/
theorem portableTo_iff_prefixed {p : Proc} (hp : p.WellFormed cfg) (hp' : p.WellFormed cfg')
    (hfit : 2 + (Wire.procBytes cfg p).length ≤ cfg.cspBufferSize)
    (hfit' : 2 + (Wire.procBytes cfg p).length ≤ cfg'.cspBufferSize) :
    PortableTo cfg cfg' p ↔ Wire.procBytes cfg' p <+: Wire.procBytes cfg p := by
  constructor
  · intro h
    let packet : Packet cfg := .ofBytes [] [] (Nat.zero_le _)
    have hpack := pack_of_fits hp.known packet hfit
    rcases payload_of_packed hpack with ⟨-, hbytes⟩
    -- the reader's buffer may hold anything behind the encoding
    have hstale : ∀ b, Wire.procBytes cfg' p <+: Wire.procBytes cfg p ++
        List.replicate (cfg'.cspBufferSize - (2 + (Wire.procBytes cfg p).length)) b := by
      intro b
      have hread : (Packet.carrying cfg' (Wire.procBytes cfg p) b hfit').payload
          (2 + (Wire.procBytes cfg p).length) = Wire.procBytes cfg p := by
        rw [Packet.payload_eq_take]
        exact List.take_left
      obtain ⟨offset, hun⟩ := h packet _ hpack (.carrying cfg' (Wire.procBytes cfg p) b hfit') rfl
        (hread.trans hbytes.symm)
      exact ((unpackData_zero_iff _ p offset).mp hun).2.1
    exact prefix_of_append_replicate (hstale 0) (hstale 1)
  · intro hpre packet packet₁ hpack packet' hlen hread
    rcases payload_of_packed hpack with ⟨hlen₁, hbytes⟩
    refine ⟨_, unpack_of_prefix hp' (hpre.trans ?_)⟩
    rw [hbytes, hlen, hlen₁, Packet.payload_eq_take] at hread
    exact hread ▸ List.take_prefix _ _

/-- A procedure arrives exactly when both nodes have enums of one size, or it
has no operator, or the reader's enums are smaller and all behind the first
operator is zero. -/
theorem portableTo_iff (cfg cfg' : Config) (p : Proc) (hp : p.WellFormed cfg)
    (hp' : p.WellFormed cfg')
    (hfit : 2 + (Wire.procBytes cfg p).length ≤ cfg.cspBufferSize)
    (hfit' : 2 + (Wire.procBytes cfg p).length ≤ cfg'.cspBufferSize) :
    PortableTo cfg cfg' p ↔
      cfg'.sizeofEnum = cfg.sizeofEnum ∨ NoOperator p.instructions ∨
      (cfg'.sizeofEnum < cfg.sizeofEnum ∧ ZeroBehindOperator p.instructions) := by
  rw [portableTo_iff_prefixed hp hp' hfit hfit']
  simp only [Wire.procBytes, List.cons_prefix_cons, true_and]
  rcases Nat.lt_trichotomy cfg'.sizeofEnum cfg.sizeofEnum with hlt | heq | hgt
  · rw [instructionBytes_prefix_of_smaller hlt hp']
    constructor
    · intro h
      exact .inr (.inr ⟨hlt, h⟩)
    · rintro (h | h | h)
      · omega
      · exact h.zeroBehindOperator
      · exact h.2
  · rw [instructionBytes_congr cfg cfg' (.inl heq)]
    exact iff_of_true (List.prefix_refl _) (.inl heq)
  · rw [instructionBytes_prefix_of_larger hgt]
    constructor
    · intro h
      exact .inr (.inl h)
    · rintro (h | h | h)
      · omega
      · exact h
      · omega

/-- A microcontroller whose enums are as small as their values allow. -/
def Config.shortEnums : Config :=
  { Config.default with
    sizeofEnum := 1, enum_pos := Nat.one_pos, enum_le := Config.default.enum_pos }

/-- `set gain 60`, `call 7`. -/
def operatorFree : Proc where
  instructions :=
    [⟨3, .set (.ofBytes [103, 97, 105, 110] rfl) (.ofBytes [54, 48] rfl)⟩, ⟨0, .call 7⟩]
  length_le := Nat.le_of_ble_eq_true rfl

theorem portableTo_operatorFree : PortableTo .default .shortEnums operatorFree :=
  (portableTo_iff .default .shortEnums operatorFree (by decide) (by decide) (by decide +kernel)
    (by decide +kernel)).mpr (.inr (.inl (by decide)))

/-- `ifelse mode == safe`. -/
def compareProc : Proc where
  instructions :=
    [⟨0, .ifelse (.ofBytes [109, 111, 100, 101] rfl) 0 (.ofBytes [115, 97, 102, 101] rfl)⟩]
  length_le := one_le_maxInstructions

/-- Packed with enums of four bytes, a comparison is unpacked with enums of one
byte to a comparison with the empty string. -/
theorem not_portableTo_compareProc :
    compareProc.WellFormed .default ∧ compareProc.WellFormed .shortEnums ∧
      ¬ PortableTo .default .shortEnums compareProc := by
  refine ⟨by decide, by decide, ?_⟩
  intro h
  have hpre := (portableTo_iff_prefixed (by decide) (by decide) (by decide +kernel)
    (by decide +kernel)).mp h
  revert hpre
  decide +kernel

end CspProc
