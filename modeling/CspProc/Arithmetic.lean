import CspProc.Operations
import CspProc.Written

/-! # What `unop` and `binop` compute

* `step_defined_iff` — when an operation that is performed is one that C defines;
* `stored_converted_iff` — when a result survives the types of its destination
  and of the operand that it overwrites;
* `unop_computes_iff` — when a unary operator computes in the width of its
  operand.
-/

namespace CspProc

open TwosComplement

/-! ## A node with integers -/

/-- The name `k`. -/
def nameK : CStr := letter 107 rfl

/-- The name `l`. -/
def nameL : CStr := letter 108 rfl

/-- The name `m`. -/
def nameM : CStr := letter 109 rfl

/-- A number of this node. -/
def numberParam (name : CStr) (type : ParamType) : Param := ⟨name, 0, type, false, 1, 0⟩

/-- `k` and `l`, with their values, and `m`. -/
def numbers (k l m : ParamType × UInt64) : List (Param × UInt64) :=
  [(numberParam nameK k.1, k.2), (numberParam nameL l.1, l.2), (numberParam nameM m.1, m.2)]

/-- `proc binop k / l m`. -/
def dividing : ProcInstruction := ⟨0, .binop nameK 3 nameL nameM⟩

/-- `proc unop k ++ m`. -/
def incrementing : ProcInstruction := ⟨0, .unop nameK 0 nameM⟩

/-- `proc unop k ! m`. -/
def complementing : ProcInstruction := ⟨0, .unop nameK 2 nameM⟩

/-- 6, 3 and room for a quotient. -/
def smallNumbers : List (Param × UInt64) := numbers (.int64, 6) (.int64, 3) (.int64, 0)

/-! ## Operations that C defines -/

namespace Operation

variable {F : Type} {fl : FloatOps F} {typeCode : ParamType → Nat} {o : Operation F}
variable {r : Operand F}

theorem inInt64_toInt (fl : FloatOps F) {x : Operand F} (hx : x.type = .int) :
    InInt64 (x.toInt fl) := by
  rw [Operand.toInt_int hx]
  exact ⟨(x.i64 fl).le_toInt, (x.i64 fl).toInt_lt⟩

section Binary

variable {op : BinaryOp} {x y : Operand F}

theorem perform_int (hx : x.type = .int) (hy : y.type = .int) :
    (binary op x y).perform fl typeCode = (op.onInt (x.i64 fl) (y.i64 fl)).map x.setI64 := by
  simp [perform, binopOperand, hx, hy, Option.map_eq_bind]

theorem perform_uint (hx : x.type = .uint) (hy : y.type = .uint) :
    (binary op x y).perform fl typeCode = (op.onUint (x.u64 fl) (y.u64 fl)).map x.setU64 := by
  simp [perform, binopOperand, hx, hy, Option.map_eq_bind]

/-- Operands of different classes are refused. -/
theorem perform_mixed (hx : x.IsInteger) (hxy : x.type ≠ y.type) :
    (binary op x y).perform fl typeCode = none := by
  rcases hx with hx | hx <;> cases hy : y.type <;> simp_all [perform, binopOperand]

end Binary

/-- Of two integers of one class nothing but a zero divisor is refused. -/
theorem onInt_eq_none {op : BinaryOp} {a b : Int64} :
    op.onInt a b = none ↔ (op = .div ∨ op = .mod) ∧ b.toInt = 0 := by
  have hzero : b = 0 ↔ b.toInt = 0 := Int64.toInt_inj.symm
  cases op <;> simp [BinaryOp.onInt, hzero]

theorem onUint_eq_none {op : BinaryOp} {a b : UInt64} :
    op.onUint a b = none ↔ (op = .div ∨ op = .mod) ∧ b.toNat = 0 := by
  have hzero : b = 0 ↔ b.toNat = 0 := UInt64.toNat_inj.symm
  cases op <;> simp [BinaryOp.onUint, hzero]

/-- A step is defined as it is, unless an operation with a hazard is performed. -/
theorem refused_or_defined_iff (typeCode : ParamType → Nat) (ho : o.IsInteger) :
    o.perform fl typeCode = none ∨ o.Defined fl ↔ ¬ o.Hazard fl := by
  cases o with
  | unary op x =>
      rcases ho x (by simp [operands]) with hx | hx
      · have hrange := inInt64_toInt fl hx
        unfold InInt64 at hrange
        cases op <;> simp [perform, unopOperand, Defined, Hazard, InInt64, UnaryOp.exact, hx] <;>
          omega
      · cases op <;> simp [perform, unopOperand, Defined, Hazard, hx]
  | binary op x y =>
      have hx := ho x (by simp [operands])
      by_cases hxy : x.type = y.type
      -- operands of two classes are refused, so that nothing undefined is performed
      case neg => simp [perform_mixed hx hxy, Hazard, hxy]
      rcases hx with hx | hx
      · have hy : y.type = .int := hxy ▸ hx
        simp only [perform_int hx hy, Option.map_eq_none_iff, onInt_eq_none, ← Operand.toInt_int hy]
        cases op <;> simp [Defined, Hazard, hx, hy] <;> omega
      · have hy : y.type = .uint := hxy ▸ hx
        simp only [perform_uint hx hy, Option.map_eq_none_iff, onUint_eq_none]
        cases op <;> simp [Defined, Hazard, hx, hy, Operand.toInt_uint] <;> omega

end Operation

namespace Host

variable {P F : Type} {h : Host P F} {ins : ProcInstruction} {s : P} {operation : Operation F}
variable {w : Write}

/-- The handler refuses the operation and returns -1 without a write, or C
defines what it performs. -/
def StepDefined (h : Host P F) (ins : ProcInstruction) (s : P) (operation : Operation F) : Prop :=
  operation.perform h.fl h.lib.typeCode = none ∧
      ((h.procRuntimeArithmetic ins).run s).value = -1 ∧
      (∀ a ∈ ((h.procRuntimeArithmetic ins).run s).accesses, ¬ a.IsWrite) ∨
    operation.Defined h.fl

/-- Of integers the handlers refuse zero divisors and operands of two classes.
That leaves signed results that 64 bits cannot hold, the quotient and remainder
of the lowest integer and -1, and the amounts of shifts. -/
theorem step_defined_iff (hfetch : ((h.fetchOperation ins).run s).value = some operation)
    (hint : operation.IsInteger) :
    h.StepDefined ins s operation ↔ ¬ operation.Hazard h.fl := by
  rw [← Operation.refused_or_defined_iff h.lib.typeCode hint]
  unfold StepDefined
  constructor
  · rintro (⟨hrefused, -⟩ | hdefined)
    · exact .inl hrefused
    · exact .inr hdefined
  · rintro (hrefused | hdefined)
    · exact .inl ⟨hrefused, refused hfetch hrefused⟩
    · exact .inr hdefined

end Host

theorem small_fetched :
    ((hostOne.fetchOperation dividing).run smallNumbers).value.isSome = true := by
  decide

theorem step_defined_small :
    ∃ operation, ((hostOne.fetchOperation dividing).run smallNumbers).value = some operation ∧
      hostOne.StepDefined dividing smallNumbers operation :=
  ⟨Option.get _ small_fetched, (Option.some_get _).symm,
    (Host.step_defined_iff (Option.some_get _).symm (by decide)).mpr (by decide)⟩

/-- The lowest integer, and -1. -/
def lowest : List (Param × UInt64) :=
  numbers (.int64, 9223372036854775808) (.int64, 18446744073709551615) (.int64, 0)

theorem lowest_fetched : ((hostOne.fetchOperation dividing).run lowest).value.isSome = true := by
  decide

/-- Their quotient is none that C defines, and it is not refused. -/
theorem quotient_not_defined :
    ∃ operation, ((hostOne.fetchOperation dividing).run lowest).value = some operation ∧
      operation.IsInteger ∧ ¬ hostOne.StepDefined dividing lowest operation := by
  have hint : (Option.get _ lowest_fetched).IsInteger := by decide
  have hhazard : (Option.get _ lowest_fetched).Hazard hostOne.fl := by decide +kernel
  refine ⟨Option.get _ lowest_fetched, (Option.some_get _).symm, hint, ?_⟩
  intro hstep
  apply (Operation.refused_or_defined_iff hostOne.lib.typeCode hint).mp ?_ hhazard
  rcases hstep with ⟨hrefused, -⟩ | hdefined
  · exact .inl hrefused
  · exact .inr hdefined

/-! ## Values in a destination -/

namespace Host

variable {P F : Type} {h : Host P F} {ins : ProcInstruction} {s : P} {operation : Operation F}
variable {w : Write}

/-- A destination of an integer type reads the low bits of the exact result that
the type of the first operand has. -/
theorem stored_eq {source dest : IntegerType}
    (hfetch : ((h.fetchOperation ins).run s).value = some operation)
    (hw : ((h.arithmeticWrite ins).run s).value = some w)
    (hshift : operation.ShiftDefined h.fl)
    (hsource : operation.first.sourceType.integer = some source)
    (hdest : w.param.type.integer = some dest) :
    dest.ofBytes w.valuebuf = dest.wrap (operation.exact h.fl % 2 ^ source.width) := by
  rcases performed hfetch hw with ⟨r, result, node, hr, -, hprepared⟩
  rcases operands_parsed hfetch _ operation.first_mem with ⟨type, raw, hparse⟩
  rcases operation.low (parseValue_of h.fl hparse hsource).1.isInteger hshift hr
    with ⟨hsourceType, -, hlow⟩
  rcases hprepared.valuebuf with ⟨text, bytes, hbytes, hbuf⟩
  rw [← hsourceType] at hsource
  rw [operandToValuebuf_integer h.fl hsource text rfl, Option.some.injEq] at hbytes
  subst hbytes
  rw [hbuf, leBytes_length, ofBytes_valuebuf]
  · -- the operand and the exact result have the same low bits
    rw [emod_congr (ParamType.width_le hsource) (r.low.symm.trans hlow)]
  · have hwidth := ParamType.width_le hdest
    unfold IntegerType.width at hwidth
    unfold valuebufSize
    omega

/-- In the same type, the exact result is stored as the type has it. -/
theorem stored_same {t : IntegerType}
    (hfetch : ((h.fetchOperation ins).run s).value = some operation)
    (hw : ((h.arithmeticWrite ins).run s).value = some w)
    (hshift : operation.ShiftDefined h.fl)
    (hsource : operation.first.sourceType.integer = some t)
    (hdest : w.param.type.integer = some t) :
    t.ofBytes w.valuebuf = t.wrap (operation.exact h.fl) := by
  rw [stored_eq hfetch hw hshift hsource hdest, t.wrap_eq_iff]
  exact Int.emod_emod_of_dvd _ (Int.dvd_refl _)

end Host

/-- An operation of `++`, `--`, `idt`, `rmt`, `+`, `-`, `*`, `&`, `|` or `^`. -/
def Operation.IsModular {F : Type} : Operation F → Prop
  | unary op _ => op ∈ [.inc, .dec, .idt, .rmt]
  | binary op _ _ => op ∈ [.add, .sub, .mul, .and, .or, .xor]

instance {F : Type} : DecidablePred (Operation.IsModular (F := F)) := fun o =>
  match o with
  | .unary op _ => inferInstanceAs (Decidable (op ∈ _))
  | .binary op _ _ => inferInstanceAs (Decidable (op ∈ _))

theorem Operation.IsModular.shiftDefined {F : Type} {fl : FloatOps F} {o : Operation F}
    (ho : o.IsModular) : o.ShiftDefined fl := by
  cases o with
  | unary => trivial
  | binary op x y =>
      intro hshift
      cases op <;> simp_all [IsModular, BinaryOp.isShift]

namespace Host

variable {P F : Type} {h : Host P F} {ins : ProcInstruction} {s : P} {operation : Operation F}
variable {w : Write}

/-- The destination reads the result of 64 bits, converted to its type. -/
def StoresConverted (h : Host P F) (operation : Operation F) (w : Write) (dest : IntegerType) :
    Prop :=
  ∃ r, operation.perform h.fl h.lib.typeCode = some r ∧
    dest.ofBytes w.valuebuf = dest.wrap (r.toInt h.fl)

/-- A result is narrowed to the type of the first operand before the destination
reads it. It survives exactly when the exact result, modulo 2 to the width of the
destination, has no more bits than that type. -/
theorem stored_converted_iff {source dest : IntegerType}
    (hfetch : ((h.fetchOperation ins).run s).value = some operation)
    (hw : ((h.arithmeticWrite ins).run s).value = some w) (hop : operation.IsModular)
    (hsource : operation.first.sourceType.integer = some source)
    (hdest : w.param.type.integer = some dest) :
    h.StoresConverted operation w dest ↔
      operation.exact h.fl % 2 ^ dest.width < 2 ^ source.width := by
  rcases performed hfetch hw with ⟨r, result, node, hr, -, -⟩
  rcases operands_parsed hfetch _ operation.first_mem with ⟨type, raw, hparse⟩
  have hint := (parseValue_of h.fl hparse hsource).1.isInteger
  have hlow := (operation.low hint hop.shiftDefined hr).2.2
  -- in 64 bits the result has all the bits that a destination can have
  have hwrap : dest.wrap (r.toInt h.fl) = dest.wrap (operation.exact h.fl) :=
    dest.wrap_eq_iff.mpr (emod_congr (ParamType.width_le hdest) (r.low.symm.trans hlow))
  have hiff : dest.wrap (operation.exact h.fl % 2 ^ source.width) =
      dest.wrap (operation.exact h.fl) ↔
        operation.exact h.fl % 2 ^ dest.width < 2 ^ source.width :=
    reduce_emod_iff dest.signed (operation.exact h.fl)
  unfold StoresConverted
  rw [stored_eq hfetch hw hop.shiftDefined hsource hdest, ← hiff, ← hwrap, hr]
  constructor
  · rintro ⟨r', hr', hstored⟩
    cases hr'
    exact hstored
  · intro hstored
    exact ⟨r, rfl, hstored⟩

end Host

/-- A byte, and room for an integer of two bytes. -/
def byteAndWord (x : UInt64) : List (Param × UInt64) :=
  numbers (.uint8, x) (.uint8, 0) (.uint16, 0)

theorem three_fetched :
    ((hostOne.fetchOperation incrementing).run (byteAndWord 3)).value.isSome = true := by
  decide

theorem three_written :
    ((hostOne.arithmeticWrite incrementing).run (byteAndWord 3)).value.isSome = true := by
  decide

theorem stored_converted_three :
    ∃ operation w,
      ((hostOne.fetchOperation incrementing).run (byteAndWord 3)).value = some operation ∧
      ((hostOne.arithmeticWrite incrementing).run (byteAndWord 3)).value = some w ∧
      hostOne.StoresConverted operation w ⟨false, 2⟩ :=
  ⟨Option.get _ three_fetched, Option.get _ three_written, (Option.some_get _).symm,
    (Option.some_get _).symm,
    (Host.stored_converted_iff (Option.some_get _).symm (Option.some_get _).symm
      (by decide)
      (by decide : (Option.get _ three_fetched).first.sourceType.integer = some ⟨false, 1⟩)
      (by decide)).mpr (by decide)⟩

theorem highest_fetched :
    ((hostOne.fetchOperation incrementing).run (byteAndWord 255)).value.isSome = true := by
  decide

theorem highest_written :
    ((hostOne.arithmeticWrite incrementing).run (byteAndWord 255)).value.isSome = true := by
  decide

/-- 255 + 1 is stored as 0, although two bytes have room for it. -/
theorem highest_not_converted :
    ∃ operation w,
      ((hostOne.fetchOperation incrementing).run (byteAndWord 255)).value = some operation ∧
      ((hostOne.arithmeticWrite incrementing).run (byteAndWord 255)).value = some w ∧
      operation.IsModular ∧ operation.first.sourceType.integer = some ⟨false, 1⟩ ∧
      w.param.type.integer = some ⟨false, 2⟩ ∧
      ¬ hostOne.StoresConverted operation w ⟨false, 2⟩ := by
  refine ⟨Option.get _ highest_fetched, Option.get _ highest_written, (Option.some_get _).symm,
    (Option.some_get _).symm, by decide, by decide, by decide, ?_⟩
  rintro ⟨r, hr, hstored⟩
  have hresult : ((Option.get _ highest_fetched).perform hostOne.fl hostOne.lib.typeCode).map
      (Operand.toInt hostOne.fl) = some 256 := by
    decide
  rw [hr, Option.map_some, Option.some.injEq] at hresult
  rw [hresult] at hstored
  have hzero : (⟨false, 2⟩ : IntegerType).ofBytes (Option.get _ highest_written).valuebuf = 0 := by
    decide
  rw [hzero] at hstored
  exact absurd hstored (by decide)

/-! ## Unary operators -/

namespace Host

variable {P F : Type} {h : Host P F} {ins : ProcInstruction} {s : P}

/-- An operator that is accepted stores the exact result as the type has it; only
the negation of an unsigned operand is not accepted, and then nothing is written. -/
def UnopComputes (h : Host P F) (ins : ProcInstruction) (s : P) (op : UnaryOp) (x : Operand F)
    (t : IntegerType) (dest : Param) : Prop :=
  if op = .neg ∧ t.signed = false then
    ((h.procRuntimeArithmetic ins).run s).value = -1 ∧
      ∀ a ∈ ((h.procRuntimeArithmetic ins).run s).accesses, ¬ a.IsWrite
  else
    ∃ w, ((h.arithmeticWrite ins).run s).value = some w ∧ w.param = dest ∧
      t.ofBytes w.valuebuf = t.wrap (op.exact (x.toInt h.fl))

/-- The values of the integer classes, with one of which `!` compares the number
of a type. -/
def IsClassCode (typeCode : ParamType → Nat) (type : ParamType) : Prop :=
  typeCode type = OperandType.int.code ∨ typeCode type = OperandType.uint.code

theorem unopOperand_not_isSome {fl : FloatOps F} {typeCode : ParamType → Nat} {x : Operand F} :
    (unopOperand fl typeCode UnaryOp.not.code x).isSome = true ↔
      IsClassCode typeCode x.sourceType := by
  simp only [unopOperand, UnaryOp.ofCode_code, IsClassCode]
  split
  case isTrue hint => simp [hint]
  case isFalse hint =>
    split
    case isTrue huint => simp [huint]
    case isFalse huint => simp [hint, huint]

/-- The `switch` of `proc_runtime_unop` refuses to negate what is unsigned, and `!`
for all types but those. -/
theorem unopOperand_isSome (fl : FloatOps F) (typeCode : ParamType → Nat) (op : UnaryOp)
    {x : Operand F} {type : ParamType} {t : IntegerType} (hx : x.Of type t) :
    (unopOperand fl typeCode op.code x).isSome = true ↔
      ¬ (op = .neg ∧ t.signed = false) ∧ (op = .not → IsClassCode typeCode x.sourceType) := by
  have hclass : x.type = if t.signed then .int else .uint := hx.type
  cases op with
  | not => simp [unopOperand_not_isSome]
  | _ => cases hsigned : t.signed <;> simp [unopOperand, hclass, hsigned]

/-- Unary operators compute in the width of their operand and are accepted by its
class, but for `!`, which tests the number of the type. -/
theorem unop_computes_iff {op : UnaryOp} {x : Operand F} {t : IntegerType} {dest : Param}
    (hfetch : ((h.fetchOperation ins).run s).value = some (.unary op x))
    (hx : x.sourceType.integer = some t) (hdest : h.Destination ins s dest)
    (htype : dest.type = x.sourceType) :
    h.UnopComputes ins s op x t dest ↔ (op = .not → IsClassCode h.lib.typeCode x.sourceType) := by
  rcases operands_parsed hfetch x (by simp [Operation.operands]) with ⟨type, raw, hparse⟩
  have hof := (parseValue_of h.fl hparse hx).1
  have hsome := unopOperand_isSome h.fl h.lib.typeCode op hof
  unfold UnopComputes
  by_cases hneg : op = .neg ∧ t.signed = false
  · have hnone : (Operation.unary op x).perform h.fl h.lib.typeCode = none :=
      Option.not_isSome_iff_eq_none.mp fun hperform => (hsome.mp hperform).1 hneg
    rw [if_pos hneg, hneg.1]
    constructor
    · intro _ hnot
      cases hnot
    · intro _
      exact refused hfetch hnone
  · rw [if_neg hneg]
    constructor
    · rintro ⟨w, hw, -, -⟩
      rcases performed hfetch hw with ⟨r, -, -, hr, -, -⟩
      exact (hsome.mp (Option.isSome_of_eq_some hr)).2
    · intro hnot
      rcases Option.isSome_iff_exists.mp (hsome.mpr ⟨hneg, hnot⟩) with ⟨r, hr⟩
      have hsource : r.sourceType = x.sourceType :=
        (unopOperand_low h.fl op.ofCode_code hof.isInteger hr).1
      rcases written hfetch hr (hsource ▸ hx) hdest with ⟨w, hw, hparam⟩
      rw [← htype, ← hparam] at hx
      exact ⟨w, hw, hparam, stored_same hfetch hw trivial (by rw [← hx, hparam, htype]; rfl) hx⟩

end Host

/-- A signed byte, and room for its complement. -/
def signedByte : List (Param × UInt64) := numbers (.int8, 5) (.int8, 0) (.int8, 0)

/-- An operator with its operand has been fetched, from a type. -/
def Operation.isUnary {F : Type} (op : UnaryOp) (type : ParamType) : Operation F → Bool
  | unary op' x => op' = op && x.sourceType = type
  | binary .. => false

theorem exists_unary {F : Type} {o : Option (Operation F)} {op : UnaryOp} {type : ParamType}
    (h : o.any (Operation.isUnary op type) = true) :
    ∃ x, o = some (.unary op x) ∧ x.sourceType = type := by
  rcases (Option.any_eq_true _ _).mp h with ⟨o, rfl, ho⟩
  cases o with
  | unary op' x =>
      simp only [Operation.isUnary, Bool.and_eq_true, decide_eq_true_eq] at ho
      exact ⟨x, congrArg some (congrArg (Operation.unary · x) ho.1), ho.2⟩
  | binary => cases ho

/-- `m`, a signed byte. -/
def signedResult : Param := numberParam nameM .int8

theorem increment_computes :
    ∃ x, ((hostOne.fetchOperation incrementing).run signedByte).value = some (.unary .inc x) ∧
      hostOne.UnopComputes incrementing signedByte .inc x ⟨true, 1⟩ signedResult := by
  rcases exists_unary (by decide :
    ((hostOne.fetchOperation incrementing).run signedByte).value.any
      (Operation.isUnary .inc .int8) = true)
    with ⟨x, hfetch, hx⟩
  refine ⟨x, hfetch, (Host.unop_computes_iff hfetch (hx ▸ rfl) ?_ (hx ▸ rfl)).mpr ?_⟩
  · exact ⟨nameM, 0, rfl, by decide, rfl⟩
  · intro hnot
    cases hnot

/-- The complement of a signed byte is refused by a node that numbers its types. -/
theorem complement_refused :
    ∃ x, ((hostOne.fetchOperation complementing).run signedByte).value = some (.unary .not x) ∧
      x.sourceType.integer = some ⟨true, 1⟩ ∧ signedResult.type = x.sourceType ∧
      hostOne.Destination complementing signedByte signedResult ∧
      Function.Injective hostOne.lib.typeCode ∧
      ¬ hostOne.UnopComputes complementing signedByte .not x ⟨true, 1⟩ signedResult := by
  rcases exists_unary (by decide :
    ((hostOne.fetchOperation complementing).run signedByte).value.any
      (Operation.isUnary .not .int8) = true)
    with ⟨x, hfetch, hx⟩
  refine ⟨x, hfetch, hx ▸ rfl, hx ▸ rfl, ⟨nameM, 0, rfl, by decide, rfl⟩, ?_, ?_⟩
  · exact Function.LeftInverse.injective ParamType.ofNat_ctorIdx
  · rintro ⟨w, hw, -⟩
    have hnone : ((hostOne.arithmeticWrite complementing).run signedByte).value.isNone = true := by
      decide
    rw [hw] at hnone
    cases hnone

end CspProc
