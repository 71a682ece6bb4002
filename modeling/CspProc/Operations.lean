import CspProc.Footprint
import CspProc.Integers

/-! # Operations on integers

`proc_runtime_unop` and `proc_runtime_binop` fetch operands, perform an operation
on them and write its result (`Host.arithmetic_eq`). The operation is performed
in 64 bits. Its result has the low bits of the exact one (`Operation.low`),
which is the same operation on integers without bounds.

The C language does not define every operation on every value. `Operation.Defined`
is the list of what is checked here; the `switch`es refuse a zero divisor and
nothing else, so `refused_or_defined_iff` has conditions on the values.
-/

namespace CspProc

open TwosComplement

/-! ## Exact results -/

namespace UnaryOp

/-- The enumerator's value. -/
def code : UnaryOp → UInt32
  | inc => 0
  | dec => 1
  | not => 2
  | neg => 3
  | idt => 4
  | rmt => 5

@[simp] theorem ofCode_code (op : UnaryOp) : ofCode op.code = some op := by
  cases op <;> rfl

/-- The operator on integers without bounds. -/
def exact : UnaryOp → Int → Int
  | inc, x => x + 1
  | dec, x => x - 1
  | not, x => -1 - x
  | neg, x => -x
  | idt, x | rmt, x => x

end UnaryOp

namespace BinaryOp

/-- The enumerator's value. -/
def code : BinaryOp → UInt32
  | add => 0
  | sub => 1
  | mul => 2
  | div => 3
  | mod => 4
  | lsh => 5
  | rsh => 6
  | and => 7
  | or => 8
  | xor => 9

@[simp] theorem ofCode_code (op : BinaryOp) : ofCode op.code = some op := by
  cases op <;> rfl

/-- The operator on integers without bounds. A negative integer has ones above
its highest bit. -/
def exact : BinaryOp → Int → Int → Int
  | add, x, y => x + y
  | sub, x, y => x - y
  | mul, x, y => x * y
  | div, x, y => x.tdiv y
  | mod, x, y => x.tmod y
  | lsh, x, y => x * 2 ^ y.toNat
  | rsh, x, y => x >>> y.toNat
  | and, x, y => Int.land x y
  | or, x, y => Int.lor x y
  | xor, x, y => Int.xor x y

/-- A shift. -/
def isShift : BinaryOp → Bool
  | lsh | rsh => true
  | _ => false

end BinaryOp

/-! ## The switches -/

/-- The amount of a shift by less than 64 is taken as it is. -/
theorem smod_amount {b : Int64} (h0 : 0 ≤ b.toInt) (h64 : b.toInt < 64) :
    (b.toBitVec.smod 64).toNat = b.toInt.toNat := by
  have hint : (b.toBitVec.smod 64).toInt = b.toInt := by
    rw [BitVec.toInt_smod]
    show b.toInt.fmod 64 = b.toInt
    rw [Int.fmod_eq_emod_of_nonneg _ (by decide), Int.emod_eq_of_lt h0 h64]
  have hnat := BitVec.toInt_eq_toNat_cond (b.toBitVec.smod 64)
  rw [hint] at hnat
  split at hnat
  · omega
  · omega

namespace BinaryOp

/-- What a binary operator makes of two signed operands. -/
theorem onInt_low {op : BinaryOp} {a b r : Int64}
    (hshift : op.isShift = true → 0 ≤ b.toInt ∧ b.toInt < 64) (hr : op.onInt a b = some r) :
    Low r.toBitVec (op.exact a.toInt b.toInt) := by
  have ha : Low a.toBitVec a.toInt := Low.of_toInt a.toBitVec
  have hb : Low b.toBitVec b.toInt := Low.of_toInt b.toBitVec
  cases op with
  | add =>
      cases hr
      exact ha.add hb
  | sub =>
      cases hr
      exact ha.sub hb
  | mul =>
      cases hr
      exact ha.mul hb
  | div =>
      simp only [onInt] at hr
      split at hr
      · cases hr
      · cases hr
        -- only the lowest integer divided by -1 is out of range, and wraps
        refine (Low.of_toInt (a / b).toBitVec).congr ?_
        rw [Int64.toInt_toBitVec, Int64.toInt_div]
        exact Int.bmod_emod
  | mod =>
      simp only [onInt] at hr
      split at hr
      · cases hr
      · cases hr
        have hmod := Low.of_toInt (a % b).toBitVec
        rwa [Int64.toInt_toBitVec, Int64.toInt_mod] at hmod
  | lsh =>
      cases hr
      -- amounts in range are not reduced modulo 64
      rcases hshift rfl with ⟨h0, h64⟩
      rw [Int64.toBitVec_shiftLeft, BitVec.shiftLeft_eq', smod_amount h0 h64]
      exact ha.shiftLeft _
  | rsh =>
      cases hr
      rcases hshift rfl with ⟨h0, h64⟩
      have hint := Low.of_toInt (a >>> b).toBitVec
      rwa [Int64.toBitVec_shiftRight, BitVec.toInt_sshiftRight', smod_amount h0 h64] at hint
  | and =>
      cases hr
      exact ha.and hb
  | or =>
      cases hr
      exact ha.or hb
  | xor =>
      cases hr
      exact ha.xor hb

/-- What it makes of two unsigned ones. -/
theorem onUint_low {op : BinaryOp} {a b r : UInt64}
    (hshift : op.isShift = true → b.toNat < 64) (hr : op.onUint a b = some r) :
    Low r.toBitVec (op.exact a.toNat b.toNat) := by
  have ha : Low a.toBitVec a.toNat := Low.of_toNat a.toBitVec
  have hb : Low b.toBitVec b.toNat := Low.of_toNat b.toBitVec
  cases op with
  | add =>
      cases hr
      exact ha.add hb
  | sub =>
      cases hr
      exact ha.sub hb
  | mul =>
      cases hr
      exact ha.mul hb
  | div =>
      simp only [onUint] at hr
      split at hr
      · cases hr
      · cases hr
        exact Low.of_toNat (a / b).toBitVec
  | mod =>
      simp only [onUint] at hr
      split at hr
      · cases hr
      · cases hr
        exact Low.of_toNat (a % b).toBitVec
  | lsh =>
      cases hr
      have hbits : (a <<< b).toBitVec = a.toBitVec <<< b.toNat := by
        apply BitVec.eq_of_toNat_eq
        rw [BitVec.toNat_shiftLeft]
        show (a <<< b).toNat = _
        rw [UInt64.toNat_shiftLeft, Nat.mod_eq_of_lt (hshift rfl)]
        rfl
      rw [hbits]
      exact ha.shiftLeft b.toNat
  | rsh =>
      cases hr
      have hnat : (a >>> b).toNat = a.toNat >>> b.toNat := by
        rw [UInt64.toNat_shiftRight, Nat.mod_eq_of_lt (hshift rfl)]
      have hlow := Low.of_toNat (a >>> b).toBitVec
      rwa [UInt64.toNat_toBitVec, hnat] at hlow
  | and =>
      cases hr
      exact ha.and hb
  | or =>
      cases hr
      exact ha.or hb
  | xor =>
      cases hr
      exact ha.xor hb

end BinaryOp

section Switches

variable {F : Type} (fl : FloatOps F) {typeCode : ParamType → Nat}
variable {x y o r : Operand F}

/-- An operand of one of the two classes of integers. -/
def Operand.IsInteger (o : Operand F) : Prop := o.type = .int ∨ o.type = .uint

theorem Operand.Of.isInteger {type : ParamType} {t : IntegerType} (ho : o.Of type t) :
    o.IsInteger := by
  unfold Operand.IsInteger
  rw [ho.type]
  unfold IntegerType.operandType
  split
  · exact .inl rfl
  · exact .inr rfl

/-- What the `switch` of `proc_runtime_unop` makes of an integer. -/
theorem unopOperand_low {op : UInt32} {unop : UnaryOp} (hop : UnaryOp.ofCode op = some unop)
    (ho : o.IsInteger) (hr : unopOperand fl typeCode op o = some r) :
    r.sourceType = o.sourceType ∧ r.type = o.type ∧
      Low (r.u64 fl).toBitVec (unop.exact (o.toInt fl)) := by
  have hlow : Low (o.u64 fl).toBitVec (o.toInt fl) := o.low
  have hone : Low (1 : UInt64).toBitVec 1 := Low.of_toNat _
  unfold unopOperand at hr
  rw [hop] at hr
  cases unop with
  | inc =>
      rcases ho with ho | ho
      all_goals
        simp only [ho, Option.some.injEq] at hr
        subst hr
        exact ⟨rfl, rfl, hlow.add hone⟩
  | dec =>
      rcases ho with ho | ho
      all_goals
        simp only [ho, Option.some.injEq] at hr
        subst hr
        exact ⟨rfl, rfl, hlow.sub hone⟩
  | not =>
      -- the class does not matter here: both branches complement the union
      dsimp only at hr
      split at hr
      · cases hr
        exact ⟨rfl, rfl, hlow.not⟩
      · split at hr
        · cases hr
          exact ⟨rfl, rfl, hlow.not⟩
        · cases hr
  | neg =>
      rcases ho with ho | ho
      · simp only [ho, Option.some.injEq] at hr
        subst hr
        exact ⟨rfl, rfl, hlow.neg⟩
      · simp [ho] at hr
  | idt | rmt =>
      cases hr
      exact ⟨rfl, rfl, hlow⟩

/-- The `switch` of `proc_runtime_binop` combines integers of one class only. -/
theorem binopOperand_low {op : UInt32} {binop : BinaryOp} (hop : BinaryOp.ofCode op = some binop)
    (hx : x.IsInteger)
    (hshift : binop.isShift = true → 0 ≤ y.toInt fl ∧ y.toInt fl < 64)
    (hr : binopOperand fl op x y = some r) :
    r.sourceType = x.sourceType ∧ r.type = x.type ∧ y.type = x.type ∧
      Low (r.u64 fl).toBitVec (binop.exact (x.toInt fl) (y.toInt fl)) := by
  simp only [binopOperand, hop, Option.bind_eq_bind, Option.bind_some] at hr
  -- the class of the first operand chooses the `case`, which tests the second one
  rcases hx with hx | hx
  · cases hy : y.type with
    | int =>
        simp only [hx, hy, Option.bind_eq_some_iff] at hr
        rcases hr with ⟨v, hv, hr⟩
        cases hr
        rw [Operand.toInt_int hy] at hshift ⊢
        rw [Operand.toInt_int hx]
        exact ⟨rfl, rfl, hx.symm, BinaryOp.onInt_low hshift hv⟩
    | uint | float | string => simp [hx, hy] at hr
  · cases hy : y.type with
    | uint =>
        simp only [hx, hy, Option.bind_eq_some_iff] at hr
        rcases hr with ⟨v, hv, hr⟩
        cases hr
        rw [Operand.toInt_uint hy] at hshift ⊢
        rw [Operand.toInt_uint hx]
        refine ⟨rfl, rfl, hx.symm, BinaryOp.onUint_low (fun hs => ?_) hv⟩
        exact_mod_cast (hshift hs).2
    | int | float | string => simp [hx, hy] at hr

end Switches

/-! ## Operations -/

/-- An operator with the operands that have been fetched for it. -/
inductive Operation (F : Type) where
  | unary (op : UnaryOp) (x : Operand F)
  | binary (op : BinaryOp) (x y : Operand F)

namespace Operation

variable {F : Type} (fl : FloatOps F) {typeCode : ParamType → Nat}

def operands : Operation F → List (Operand F)
  | unary _ x => [x]
  | binary _ x y => [x, y]

/-- The operand that is overwritten with the result. -/
def first : Operation F → Operand F
  | unary _ x | binary _ x _ => x

/-- The operation as the handlers perform it, unless they refuse it. -/
def perform (typeCode : ParamType → Nat) : Operation F → Option (Operand F)
  | unary op x => unopOperand fl typeCode op.code x
  | binary op x y => binopOperand fl op.code x y

/-- Its result on integers without bounds. -/
def exact : Operation F → Int
  | unary op x => op.exact (x.toInt fl)
  | binary op x y => op.exact (x.toInt fl) (y.toInt fl)

/-- All operands are integers, of whatever class. -/
def IsInteger (o : Operation F) : Prop := ∀ x ∈ o.operands, x.IsInteger

theorem first_mem (o : Operation F) : o.first ∈ o.operands := by
  cases o with
  | unary op x => exact List.mem_singleton_self x
  | binary op x y => exact List.mem_cons_self

/-- A shift is by an amount that there is. -/
def ShiftDefined : Operation F → Prop
  | unary .. => True
  | binary op _ y => op.isShift = true → 0 ≤ y.toInt fl ∧ y.toInt fl < 64

/-- The values of `int64_t`. -/
def InInt64 (x : Int) : Prop := -2 ^ 63 ≤ x ∧ x < 2 ^ 63

instance : DecidablePred InInt64 := fun _ => inferInstanceAs (Decidable (_ ∧ _))

/-- What is checked of the values of the operands: the result of signed arithmetic is
representable, and so is the quotient where a remainder is taken; no divisor is 0; a
shift is by an amount that there is. Unsigned operations wrap around. Of `<<` on a
signed operand nothing else is asked, though C defined it for fewer values before C23. -/
def Defined : Operation F → Prop
  | unary op x =>
      match op with
      | .inc | .dec | .neg => x.type = .int → InInt64 (op.exact (x.toInt fl))
      | .not | .idt | .rmt => True
  | binary op x y =>
      match op with
      | .add | .sub | .mul => x.type = .int → InInt64 (op.exact (x.toInt fl) (y.toInt fl))
      | .div | .mod =>
          y.toInt fl ≠ 0 ∧ (x.type = .int → ¬ (x.toInt fl = -2 ^ 63 ∧ y.toInt fl = -1))
      | .lsh | .rsh => 0 ≤ y.toInt fl ∧ y.toInt fl < 64
      | .and | .or | .xor => True

/-- The operands have values on which the operation goes wrong. -/
def Hazard : Operation F → Prop
  | unary op x => x.type = .int ∧
      (op = .inc ∧ x.toInt fl = 2 ^ 63 - 1 ∨ (op = .dec ∨ op = .neg) ∧ x.toInt fl = -2 ^ 63)
  | binary op x y => x.type = y.type ∧
      (x.type = .int ∧ (op = .add ∨ op = .sub ∨ op = .mul) ∧
          ¬ InInt64 (op.exact (x.toInt fl) (y.toInt fl)) ∨
        x.type = .int ∧ (op = .div ∨ op = .mod) ∧ x.toInt fl = -2 ^ 63 ∧ y.toInt fl = -1 ∨
        (op = .lsh ∨ op = .rsh) ∧ ¬ (0 ≤ y.toInt fl ∧ y.toInt fl < 64))

instance (x : Operand F) : Decidable x.IsInteger :=
  inferInstanceAs (Decidable (x.type = .int ∨ x.type = .uint))

instance (o : Operation F) : Decidable o.IsInteger :=
  inferInstanceAs (Decidable (∀ x ∈ o.operands, x.IsInteger))

instance (o : Operation F) : Decidable (o.Hazard fl) :=
  match o with
  | unary .. => inferInstanceAs (Decidable (_ ∧ _))
  | binary .. => inferInstanceAs (Decidable (_ ∧ _))

variable {fl} {o : Operation F} {r : Operand F}

/-- The result has the type of the first operand and the low bits of the exact
result. -/
theorem low (ho : o.first.IsInteger) (hshift : o.ShiftDefined fl)
    (hr : o.perform fl typeCode = some r) :
    r.sourceType = o.first.sourceType ∧ r.type = o.first.type ∧
      Low (r.u64 fl).toBitVec (o.exact fl) := by
  cases o with
  | unary op x => exact unopOperand_low fl op.ofCode_code ho hr
  | binary op x y =>
      rcases binopOperand_low fl op.ofCode_code ho hshift hr
        with ⟨hsource, htype, -, hlow⟩
      exact ⟨hsource, htype, hlow⟩

end Operation

/-! ## Handlers -/

/-- A value is stored here or sent to a node. -/
def Access.IsWrite : Access → Prop
  | .set _ | .push .. => True
  | .download _ | .pull .. | .get _ | .exhausted .. | .stray => False

/-- A write that `proc_set_param` has come to. -/
structure Write where
  param : Param
  offset : Int
  valuebuf : List UInt8
  node : UInt16

/-- The result of a `unop` or `binop`, and the node that `proc_set_param` is
called with. -/
def ProcInstruction.target (ins : ProcInstruction) : Option (CStr × UInt16) :=
  match ins.instruction with
  | .unop _ op result => some (result, Host.resultNode op ins.node)
  | .binop _ _ _ result => some (result, ins.node)
  | _ => none

namespace Host

open Traced

variable {P F : Type} (h : Host P F)

/-- The handler of `unop` and `binop`. -/
def procRuntimeArithmetic (ins : ProcInstruction) : Traced Access P Int :=
  match ins.instruction with
  | .unop .. => h.procRuntimeUnop ins
  | .binop .. => h.procRuntimeBinop ins
  | _ => return -1

/-- The part of the handler before its `switch`. -/
def fetchOperation (ins : ProcInstruction) : Traced Access P (Option (Operation F)) :=
  match ins.instruction with
  | .unop param op _ => do
      match ← h.fetchOperandParamPair param (fetchNode op ins.node) with
      | none => return none
      | some (x, _) => return (UnaryOp.ofCode op).map fun op => .unary op x
  | .binop a op b _ => do
      match ← h.fetchOperandParamPair a ins.node with
      | none => return none
      | some (x, _) =>
          match ← h.fetchOperandParamPair b ins.node with
          | none => return none
          | some (y, _) => return (BinaryOp.ofCode op).map fun op => .binary op x y
  | _ => return none

/-- The part of `proc_set_param` before its write, for an operand. -/
def prepareWrite (name : CStr) (operand : Operand F) (node : UInt16) :
    Traced Access P (Option Write) := do
  match ← h.procFetchParam name node with
  | none => return none
  | some param =>
      if param.readonly then
        return none
      else
        match ← Traced.look (h.valueBytes param (some operand) none) with
        | none => return none
        | some bytes =>
            .report (decide (valuebufSize < bytes.length)) .stray
            return some ⟨param, h.scanOffset name,
              bytes ++ List.replicate (valuebufSize - bytes.length) 0, node⟩

/-- The part of the handler before its write. -/
def arithmeticWrite (ins : ProcInstruction) : Traced Access P (Option Write) := do
  match ← h.fetchOperation ins with
  | none => return none
  | some operation =>
      match operation.perform h.fl h.lib.typeCode, ins.target with
      | some operand, some (result, node) => h.prepareWrite result operand node
      | _, _ => return none

/-- The write. -/
def store (w : Write) : Traced Access P Int := h.storeValue w.param w.offset w.valuebuf w.node

variable {h}

theorem procSetParam_eq (name : CStr) (operand : Operand F) (node : UInt16) :
    h.procSetParam name (some operand) none node = (do
      match ← h.prepareWrite name operand node with
      | none => return -1
      | some w => h.store w) := by
  unfold procSetParam prepareWrite
  rw [if_neg (by simp), bind_assoc]
  apply bind_congr
  rintro (_ | param)
  · rfl
  · dsimp only
    split
    · rfl
    · rw [bind_assoc]
      apply bind_congr
      rintro (_ | bytes)
      · rfl
      · rw [bind_assoc]
        rfl

/-- The handler fetches operands, performs the operation and writes the result. -/
theorem arithmetic_eq (ins : ProcInstruction) :
    h.procRuntimeArithmetic ins = (do
      match ← h.arithmeticWrite ins with
      | none => return -1
      | some w => h.store w) := by
  unfold procRuntimeArithmetic arithmeticWrite fetchOperation
  cases hins : ins.instruction with
  | unop a op result =>
      simp only [procRuntimeUnop, hins, bind_assoc, ProcInstruction.target]
      apply bind_congr
      rintro (_ | ⟨x, param⟩)
      · rfl
      · cases hop : UnaryOp.ofCode op with
        | none => simp [unopOperand, hop]
        | some unop =>
            have hperform : (Operation.unary unop x).perform h.fl h.lib.typeCode =
                unopOperand h.fl h.lib.typeCode op x := by
              simp only [Operation.perform, unopOperand, UnaryOp.ofCode_code, hop]
            simp only [Option.map_some, pure_bind, hperform]
            cases unopOperand h.fl h.lib.typeCode op x with
            | none => rfl
            | some operand => exact procSetParam_eq result operand _
  | binop a op b result =>
      simp only [procRuntimeBinop, binopResult, hins, bind_assoc, ProcInstruction.target]
      apply bind_congr
      rintro (_ | ⟨x, paramA⟩)
      · rfl
      · simp only [bind_assoc]
        apply bind_congr
        rintro (_ | ⟨y, paramB⟩)
        · rfl
        · cases hop : BinaryOp.ofCode op with
          | none => simp [binopOperand, hop]
          | some binop =>
              have hperform : (Operation.binary binop x y).perform h.fl h.lib.typeCode =
                  binopOperand h.fl op x y := by
                simp only [Operation.perform, binopOperand, BinaryOp.ofCode_code, hop]
              simp only [Option.map_some, pure_bind, hperform]
              cases binopOperand h.fl op x y with
              | none => rfl
              | some operand => exact procSetParam_eq result operand _
  | _ => rfl

/-! ## Before the write -/

/-- Whoever owns a parameter. -/
def Anyone (_ : UInt16) (_ : Param) : Prop := True

theorem owns_anyone (node : UInt16) (param : Param) (_ : h.Owns node param) :
    Anyone node param := trivial

theorem sure_anyone (a : Access) : a.Sure Anyone := by
  cases a <;> trivial

theorem not_isWrite_of_looks {node : UInt16} {a : Access} (ha : a.Looks node) : ¬ a.IsWrite := by
  cases a with
  | set => exact ha.elim
  | push => exact ha.elim
  | _ => exact id

theorem procFetchParam_reads (name : CStr) (node : UInt16) (s : P) :
    Within (Access.Sure Anyone) (fun a => ¬ a.IsWrite) (fun _ _ => True)
      (h.procFetchParam name node) s :=
  ((procFetchParam_within owns_anyone name node s).weaken fun _ _ => not_isWrite_of_looks).mono
    fun _ _ _ => trivial

theorem parseParamToOperand_reads (param : Param) (offset : Int) (s : P) :
    Within (Access.Sure Anyone) (fun a => ¬ a.IsWrite)
      (fun r _ => ∀ x, r = some x → ∃ raw, parseValue h.fl param.type raw = some x)
      (h.parseParamToOperand param offset) s := by
  unfold parseParamToOperand
  refine within_ite (fun _ => within_pure (by simp)) fun _ => ?_
  exact within_bind (within_act fun _ => ⟨id, within_pure fun x hx => ⟨_, hx⟩⟩)

/-- An operand is fetched without a write, and as the type of its parameter says. -/
theorem fetchOperandParamPair_reads (name : CStr) (node : UInt16) (s : P) :
    Within (Access.Sure Anyone) (fun a => ¬ a.IsWrite)
      (fun r _ => ∀ x param, r = some (x, param) → ∃ raw, parseValue h.fl param.type raw = some x)
      (h.fetchOperandParamPair name node) s := by
  unfold fetchOperandParamPair
  refine within_seq (procFetchParam_reads name node s) ?_
  rintro (_ | param) s' -
  · exact within_pure (by simp)
  · refine within_seq (parseParamToOperand_reads param _ s') fun r _ hr => within_pure ?_
    intro x param' hx
    rcases Option.map_eq_some_iff.mp hx with ⟨y, hy, hpair⟩
    rw [← (Prod.mk.inj hpair).1, ← (Prod.mk.inj hpair).2]
    exact hr y hy

/-- The operands of an operation are fetched without a write, from parameters. -/
theorem fetchOperation_reads (ins : ProcInstruction) (s : P) :
    Within (Access.Sure Anyone) (fun a => ¬ a.IsWrite)
      (fun r _ => ∀ operation, r = some operation →
        ∀ x ∈ operation.operands, ∃ type raw, parseValue h.fl type raw = some x)
      (h.fetchOperation ins) s := by
  unfold fetchOperation
  cases ins.instruction with
  | unop a op result =>
      refine within_seq (fetchOperandParamPair_reads a _ s) ?_
      rintro (_ | ⟨x, param⟩) s' hx
      · exact within_pure (by simp)
      · refine within_pure ?_
        intro operation hop y hy
        rcases Option.map_eq_some_iff.mp hop with ⟨unop, -, rfl⟩
        rcases List.mem_singleton.mp hy with rfl
        exact ⟨_, hx y param rfl⟩
  | binop a op b result =>
      refine within_seq (fetchOperandParamPair_reads a _ s) ?_
      rintro (_ | ⟨x, paramA⟩) s' hx
      · exact within_pure (by simp)
      · refine within_seq (fetchOperandParamPair_reads b _ s') ?_
        rintro (_ | ⟨y, paramB⟩) s'' hy
        · exact within_pure (by simp)
        · refine within_pure ?_
          intro operation hop z hz
          rcases Option.map_eq_some_iff.mp hop with ⟨binop, -, rfl⟩
          simp only [Operation.operands, List.mem_cons, List.not_mem_nil, or_false] at hz
          rcases hz with rfl | rfl
          · exact ⟨_, hx z paramA rfl⟩
          · exact ⟨_, hy z paramB rfl⟩
  | _ => exact within_pure (by simp)

/-- What `proc_set_param` has made of an operand when it comes to its write. -/
structure Prepared (h : Host P F) (name : CStr) (operand : Operand F) (node : UInt16) (w : Write) :
    Prop where
  offset : w.offset = h.scanOffset name
  node : w.node = node
  writable : w.param.readonly = false
  valuebuf : ∃ text bytes, operandToValuebuf h.fl text operand = some bytes ∧
    w.valuebuf = bytes ++ List.replicate (valuebufSize - bytes.length) 0

theorem prepareWrite_reads (name : CStr) (operand : Operand F) (node : UInt16) (s : P) :
    Within (Access.Sure Anyone) (fun a => ¬ a.IsWrite)
      (fun r _ => ∀ w, r = some w → h.Prepared name operand node w)
      (h.prepareWrite name operand node) s := by
  unfold prepareWrite
  refine within_seq (procFetchParam_reads name node s) ?_
  rintro (_ | param) s' -
  · exact within_pure (by simp)
  · refine within_ite (fun _ => within_pure (by simp)) fun hro => ?_
    refine within_bind (within_look ?_)
    cases hbytes : h.valueBytes param (some operand) none s' with
    | none => exact within_pure (by simp)
    | some bytes =>
        refine within_bind (within_report id fun _ => within_pure ?_)
        intro w hw
        cases hw
        exact ⟨rfl, rfl, Bool.not_eq_true _ ▸ hro, h.lib.text s', bytes, hbytes, rfl⟩

variable {ins : ProcInstruction} {s : P} {operation : Operation F} {w : Write}

/-- What has been fetched is what parameters of some types hold. -/
theorem operands_parsed (hfetch : ((h.fetchOperation ins).run s).value = some operation) :
    ∀ x ∈ operation.operands, ∃ type raw, parseValue h.fl type raw = some x :=
  (fetchOperation_reads ins s fun a _ => sure_anyone a).2 operation hfetch

/-- An operation that is refused ends the handler, which has written nothing. -/
theorem refused (hfetch : ((h.fetchOperation ins).run s).value = some operation)
    (hrefused : operation.perform h.fl h.lib.typeCode = none) :
    ((h.procRuntimeArithmetic ins).run s).value = -1 ∧
      ∀ a ∈ ((h.procRuntimeArithmetic ins).run s).accesses, ¬ a.IsWrite := by
  have hwrite : (h.arithmeticWrite ins).run s =
      ⟨none, ((h.fetchOperation ins).run s).state, ((h.fetchOperation ins).run s).accesses⟩ := by
    unfold arithmeticWrite
    simp [run_bind, hfetch, hrefused]
  rw [arithmetic_eq, run_bind, hwrite]
  constructor
  · rfl
  · rw [run_pure, List.append_nil]
    exact (fetchOperation_reads ins s fun a _ => sure_anyone a).1

/-- An operation whose result is written has been performed. -/
theorem performed (hfetch : ((h.fetchOperation ins).run s).value = some operation)
    (hw : ((h.arithmeticWrite ins).run s).value = some w) :
    ∃ r result node, operation.perform h.fl h.lib.typeCode = some r ∧
      ins.target = some (result, node) ∧ h.Prepared result r node w := by
  unfold arithmeticWrite at hw
  rw [run_bind, hfetch] at hw
  cases hr : operation.perform h.fl h.lib.typeCode with
  | none => simp [hr] at hw
  | some r =>
      cases htarget : ins.target with
      | none => simp [hr, htarget] at hw
      | some target =>
          simp only [hr, htarget] at hw
          exact ⟨r, target.1, target.2, rfl, rfl,
            (prepareWrite_reads target.1 r target.2 _ fun a _ => sure_anyone a).2 w hw⟩

variable (h) in
/-- The parameter that the handler finds for its result, which it may write. -/
def Destination (ins : ProcInstruction) (s : P) (dest : Param) : Prop :=
  ∃ result node, ins.target = some (result, node) ∧
    ((h.procFetchParam result node).run ((h.fetchOperation ins).run s).state).value = some dest ∧
    dest.readonly = false

/-- An integer that has been computed is written. -/
theorem written {r : Operand F} {t : IntegerType} {dest : Param}
    (hfetch : ((h.fetchOperation ins).run s).value = some operation)
    (hr : operation.perform h.fl h.lib.typeCode = some r)
    (ht : r.sourceType.integer = some t) (hdest : h.Destination ins s dest) :
    ∃ w, ((h.arithmeticWrite ins).run s).value = some w ∧ w.param = dest := by
  rcases hdest with ⟨result, node, htarget, hfound, hwritable⟩
  have hbytes : ∀ s, h.valueBytes dest (some r) none s =
      some (leBytes t.size (r.toInt h.fl % 2 ^ t.width).toNat) := fun s =>
    operandToValuebuf_integer h.fl ht (h.lib.text s) rfl
  unfold arithmeticWrite prepareWrite
  simp only [run_bind, hfetch, hr, htarget, hfound, hwritable, look, hbytes]
  exact ⟨_, rfl, rfl⟩

end Host

end CspProc
