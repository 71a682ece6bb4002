import CspProc.Canonical
import CspProc.Disposal
import CspProc.Editing

/-! # Listing a procedure

`proc list` prints the operator of an instruction by an index into one of three
tables. The decoder takes the operators as they stand in the packet, so a
procedure that has been pulled is listed within the tables exactly if the
operator words of the packet are small enough.
-/

namespace CspProc

variable {cfg : Config}

/-! ## `proc_list` -/

/-- What `proc list` prints for an instruction: the arguments of its `printf`. -/
inductive ListLine where
  | block (node : UInt16) (paramA : CStr) (op : List UInt8) (paramB : CStr)
  | ifelse (node : UInt16) (paramA : CStr) (op : List UInt8) (paramB : CStr)
  | noop
  | set (node : UInt16) (param value : CStr)
  | unop (node : UInt16) (result : CStr) (op : List UInt8) (param : CStr)
  | binop (node : UInt16) (result paramA : CStr) (op : List UInt8) (paramB : CStr)
  | call (node : UInt16) (procedureSlot : UInt8)
  | unknown (type : UInt32)
deriving DecidableEq, Repr

/-- The line of an instruction. There is none where a table is read behind its
end. -/
def listLine (ins : ProcInstruction) : Option ListLine :=
  match ins.instruction with
  | .block paramA op paramB =>
      comparisonOpStr[op.toNat]?.map fun str => .block ins.node paramA str paramB
  | .ifelse paramA op paramB =>
      comparisonOpStr[op.toNat]?.map fun str => .ifelse ins.node paramA str paramB
  | .noop => some .noop
  | .set param value => some (.set ins.node param value)
  | .unop param op result =>
      unaryOpStr[op.toNat]?.map fun str => .unop ins.node result str param
  | .binop paramA op paramB result =>
      binaryOpStr[op.toNat]?.map fun str => .binop ins.node result paramA str paramB
  | .call procedureSlot => some (.call ins.node procedureSlot)
  | .unknown type _ => some (.unknown type)

/-- `proc_list` with a current procedure: its lines. -/
def procList (p : Proc) : Option (List ListLine) := p.instructions.mapM listLine

theorem isSome_listLine_iff (ins : ProcInstruction) :
    (listLine ins).isSome = true ↔ ins.instruction.OpInEnum := by
  unfold listLine Instruction.OpInEnum
  cases ins.instruction <;> simp

/-- The tables are read within their bounds exactly if every operator is in its
enumeration. -/
theorem isSome_procList_iff (p : Proc) :
    (procList p).isSome = true ↔ ∀ ins ∈ p.instructions, ins.instruction.OpInEnum := by
  simp only [procList, List.isSome_mapM_iff, isSome_listLine_iff]

/-! ## Operators in a packet -/

/-- What stands behind the string in front. -/
def afterString (bytes : List UInt8) : List UInt8 := (bytes.dropWhile fun b => b ≠ 0).drop 1

/-- The words at the places of the operators of a number of instructions are
indices of their tables. -/
def operatorWordsInRange (cfg : Config) : Nat → List UInt8 → Bool
  | 0, _ => true
  | n + 1, bytes =>
      let operands := bytes.drop 3
      let word := leValue ((afterString operands).take cfg.sizeofEnum)
      let behind := afterString ((afterString operands).drop cfg.sizeofEnum)
      match (bytes.getD 2 0).toNat with
      | 0 | 1 => decide (word < comparisonOpStr.length) && operatorWordsInRange cfg n behind
      | 2 => operatorWordsInRange cfg n (afterString (afterString operands))
      | 3 => decide (word < unaryOpStr.length) && operatorWordsInRange cfg n behind
      | 4 => decide (word < binaryOpStr.length) && operatorWordsInRange cfg n (afterString behind)
      | 5 => operatorWordsInRange cfg n (operands.drop 1)
      | _ => operatorWordsInRange cfg n operands

/-- The operator words of a packet, whose count of instructions is its third
byte. -/
def Packet.OperatorsInRange (packet : Packet cfg) : Prop :=
  operatorWordsInRange cfg (packet.byte 2).toNat (packet.data.drop 3) = true

instance (packet : Packet cfg) : Decidable packet.OperatorsInRange :=
  inferInstanceAs (Decidable (_ = true))

@[simp] theorem afterString_withNul (s : CStr) (rest : List UInt8) :
    afterString (s.withNul ++ rest) = rest := by
  have hbytes : ∀ b ∈ s.bytes, decide (b ≠ 0) = true := by
    intro b hb
    refine decide_eq_true ?_
    rintro rfl
    exact s.nulFree hb
  rw [afterString, CStr.withNul, List.append_assoc, List.dropWhile_append_of_pos hbytes]
  simp

/-- The encoding of one instruction in front. -/
theorem operatorWordsInRange_encode {ins : ProcInstruction}
    (hknown : ins.instruction.isKnown = true) (hfits : ins.instruction.OpFits cfg.sizeofEnum)
    (n : Nat) (rest : List UInt8) :
    operatorWordsInRange cfg (n + 1) ((Wire.procInstruction cfg).encode ins ++ rest) =
      (decide ins.instruction.OpInEnum && operatorWordsInRange cfg n rest) := by
  have htype : ((Wire.procInstruction cfg).encode ins ++ rest).getD 2 0 =
      ins.instruction.type.toUInt8 := by
    rw [Wire.encode_eq]
    rfl
  have hoperands : ((Wire.procInstruction cfg).encode ins ++ rest).drop 3 =
      Wire.operandBytes cfg ins.instruction ++ rest := by
    rw [Wire.encode_eq]
    rfl
  rw [operatorWordsInRange, htype, hoperands]
  rcases ins with ⟨node, instruction⟩
  cases instruction with
  | unknown type h => cases hknown
  | block paramA op paramB =>
      have hword := leValue_leBytes cfg.sizeofEnum op.toNat hfits
      simp [Wire.operandBytes, Instruction.type, Instruction.OpInEnum, hword]
  | ifelse paramA op paramB =>
      have hword := leValue_leBytes cfg.sizeofEnum op.toNat hfits
      simp [Wire.operandBytes, Instruction.type, Instruction.OpInEnum, hword]
  | unop param op result =>
      have hword := leValue_leBytes cfg.sizeofEnum op.toNat hfits
      simp [Wire.operandBytes, Instruction.type, Instruction.OpInEnum, hword]
  | binop paramA op paramB result =>
      have hword := leValue_leBytes cfg.sizeofEnum op.toNat hfits
      simp [Wire.operandBytes, Instruction.type, Instruction.OpInEnum, hword]
  | set param value =>
      rw [decide_eq_true (show (Instruction.set param value).OpInEnum from trivial), Bool.true_and]
      simp [Wire.operandBytes, Instruction.type]
  | call procedureSlot =>
      rw [decide_eq_true (show (Instruction.call procedureSlot).OpInEnum from trivial),
        Bool.true_and]
      simp [Wire.operandBytes, Instruction.type]
  | noop =>
      rw [decide_eq_true (show (Instruction.noop).OpInEnum from trivial), Bool.true_and]
      simp [Wire.operandBytes, Instruction.type]

/-- The encodings of some instructions in front. -/
theorem operatorWordsInRange_instructionBytes {l : List ProcInstruction}
    (hknown : ∀ ins ∈ l, ins.instruction.isKnown = true)
    (hvalid : ∀ ins ∈ l, (Wire.procInstruction cfg).Valid ins) (rest : List UInt8) :
    operatorWordsInRange cfg l.length (Wire.instructionBytes cfg l ++ rest) = true ↔
      ∀ ins ∈ l, ins.instruction.OpInEnum := by
  induction l with
  | nil => simp [operatorWordsInRange]
  | cons ins l ih =>
      rw [List.forall_mem_cons] at hknown hvalid
      rw [Wire.instructionBytes_cons, List.append_assoc, List.length_cons,
        operatorWordsInRange_encode hknown.1 ((Wire.valid_iff cfg ins).mp hvalid.1).1,
        Bool.and_eq_true, decide_eq_true_eq, ih hknown.2 hvalid.2, List.forall_mem_cons]

/-- What a packet is decoded to has its operators in their enumerations, and is
listed within the tables, exactly if the packet's operator words are in range. -/
theorem operators_in_enum_iff {packet : Packet cfg} {u : Unpacked}
    (h : unpackProcFromCspPacket cfg packet = some u) (hret : u.ret = 0) :
    ((∀ ins ∈ u.procedure.instructions, ins.instruction.OpInEnum) ∧
      (procList u.procedure).isSome = true) ↔ packet.OperatorsInRange := by
  rcases (Wire.unpackData_iff cfg packet.data u).mp h with ⟨count, hstops, hvalid, hpre, -⟩
  rw [hret] at hstops
  generalize hl : u.procedure.instructions = l at hstops hvalid hpre
  cases hstops with
  | all hlen hknown =>
      rcases hpre with ⟨rest, hrest⟩
      have hcount : packet.byte 2 = count := by
        have hhead : packet.data[2]? = some count := by
          rw [← List.head?_drop, ← hrest]
          rfl
        rw [Packet.byte, List.getD_eq_getElem?_getD, hhead]
        rfl
      have hbytes : packet.data.drop 3 = Wire.instructionBytes cfg l ++ rest := by
        rw [← List.tail_drop, ← hrest]
        rfl
      rw [isSome_procList_iff, hl, and_self_iff, Packet.OperatorsInRange, hcount, hbytes, ← hlen,
        operatorWordsInRange_instructionBytes hknown hvalid]

/-- A procedure with one `block` that has an operator. -/
def blockPacket (op : UInt8) : Packet .default :=
  .ofBytes [0x82, 0, 1, 0, 0, 0, 97, 0, op, 0, 0, 0, 98, 0] [] (Nat.le_of_ble_eq_true rfl)

theorem blockPacket_five : (unpackProcFromCspPacket .default (blockPacket 5)).map Unpacked.ret =
    some 0 := by
  decide +kernel

theorem operators_in_enum_five : ∃ u,
    unpackProcFromCspPacket .default (blockPacket 5) = some u ∧ u.ret = 0 ∧
      (((∀ ins ∈ u.procedure.instructions, ins.instruction.OpInEnum) ∧
        (procList u.procedure).isSome = true) ↔ (blockPacket 5).OperatorsInRange) := by
  rcases Option.map_eq_some_iff.mp blockPacket_five with ⟨u, hu, hret⟩
  exact ⟨u, hu, hret, operators_in_enum_iff hu hret⟩

theorem blockPacket_six : (unpackProcFromCspPacket .default (blockPacket 6)).map
    (fun u => (u.ret, procList u.procedure)) = some (0, none) := by
  decide +kernel

/-- The decoder accepts the operator 6, and the table of six names is read
behind its end. -/
theorem operator_six_listed : ∃ u,
    unpackProcFromCspPacket .default (blockPacket 6) = some u ∧ u.ret = 0 ∧
      (¬ ∀ ins ∈ u.procedure.instructions, ins.instruction.OpInEnum) ∧
      procList u.procedure = none := by
  rcases Option.map_eq_some_iff.mp blockPacket_six with ⟨u, hu, heq⟩
  rcases Prod.mk.inj heq with ⟨hret, hlist⟩
  refine ⟨u, hu, hret, ?_, hlist⟩
  rw [← isSome_procList_iff, hlist]
  exact Bool.false_ne_true

end CspProc
