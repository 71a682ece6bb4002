import CspProc.Types
import Mathlib.Data.List.Basic

/-! # Operands

What the handlers of the instructions compute with: `operand_t`, its conversion
from and to the types of libparam, and the `switch`es of
`proc_runtime_instructions_common.c` over operators and operand types.

libparam is not part of the source. Of its `param_type_e` only the enumerators
are known here, not their numbers. The arithmetic of `double` and `float` is a
parameter too. Integers are those of the machine; where C leaves an operation
on them undefined (a signed overflow, a shift by 64 or more), the model wraps.
-/

namespace CspProc

/-! ## Types and operators -/

/-- `param_type_e`. -/
inductive ParamType where
  | uint8 | uint16 | uint32 | uint64
  | int8 | int16 | int32 | int64
  | xint8 | xint16 | xint32 | xint64
  | float | double | string | data | invalid
deriving DecidableEq, Repr

/-- `operand_type_t`. -/
inductive OperandType where
  | uint
  | int
  | float
  | string
deriving DecidableEq, Repr

/-- The enumerators' values. -/
def OperandType.code : OperandType → Nat
  | uint => 0
  | int => 1
  | float => 2
  | string => 3

/-- `comparison_op_t`. -/
inductive ComparisonOp where
  | eq | neq | lt | gt | le | ge
deriving DecidableEq, Repr

/-- `unary_op_t`. -/
inductive UnaryOp where
  | inc | dec | not | neg | idt | rmt
deriving DecidableEq, Repr

/-- `binary_op_t`. -/
inductive BinaryOp where
  | add | sub | mul | div | mod | lsh | rsh | and | or | xor
deriving DecidableEq, Repr

/-- The enumerator that the integer in an operator's enum object is the value of. -/
def ComparisonOp.ofCode (op : UInt32) : Option ComparisonOp :=
  [eq, neq, lt, gt, le, ge][op.toNat]?

def UnaryOp.ofCode (op : UInt32) : Option UnaryOp :=
  [inc, dec, not, neg, idt, rmt][op.toNat]?

def BinaryOp.ofCode (op : UInt32) : Option BinaryOp :=
  [add, sub, mul, div, mod, lsh, rsh, and, or, xor][op.toNat]?

/-! ## Floating-point numbers -/

/-- The `double`s of a platform: their operators in C, their representation, and
the conversion from and to `float`. -/
structure FloatOps (F : Type) where
  add : F → F → F
  sub : F → F → F
  mul : F → F → F
  div : F → F → F
  neg : F → F
  zero : F
  one : F
  /-- `PROC_FLOAT_EPSILON`. -/
  epsilon : F
  eq : F → F → Bool
  lt : F → F → Bool
  le : F → F → Bool
  bits : F → UInt64
  ofBits : UInt64 → F
  single : F → UInt32
  ofSingle : UInt32 → F

variable {F : Type} (fl : FloatOps F)

/-- `float_abs`. -/
def FloatOps.floatAbs (x : F) : F := if fl.lt x fl.zero then fl.neg x else x

/-! ## Operands -/

/-- `operand_val_t`, with the member that was written last. A string is the
address in `s`. -/
inductive OperandVal (F : Type) where
  | u64 (v : UInt64)
  | i64 (v : Int64)
  | d (v : F)
  | s (addr : UInt64)

namespace OperandVal

/-- The eight bytes of the union, read as `u64`. -/
def asU64 : OperandVal F → UInt64
  | u64 v => v
  | i64 v => v.toUInt64
  | d v => fl.bits v
  | s addr => addr

def asI64 (v : OperandVal F) : Int64 := (v.asU64 fl).toInt64

def asD : OperandVal F → F
  | d v => v
  | v => fl.ofBits (v.asU64 fl)

end OperandVal

/-- `operand_t`. -/
structure Operand (F : Type) where
  sourceType : ParamType
  type : OperandType
  value : OperandVal F

namespace Operand

variable (o : Operand F)

def u64 : UInt64 := o.value.asU64 fl

def i64 : Int64 := o.value.asI64 fl

def d : F := o.value.asD fl

def setU64 (v : UInt64) : Operand F := { o with value := .u64 v }

def setI64 (v : Int64) : Operand F := { o with value := .i64 v }

def setD (v : F) : Operand F := { o with value := .d v }

end Operand

/-- The `switch` of `parse_param_to_operand`, with the bytes that `param_get`
has stored in `value`. -/
def parseValue (sourceType : ParamType) (raw : UInt64) : Option (Operand F) :=
  match sourceType with
  | .xint8 | .uint8 => some ⟨sourceType, .uint, .u64 raw.toUInt8.toUInt64⟩
  | .int8 => some ⟨sourceType, .int, .i64 raw.toUInt8.toInt8.toInt64⟩
  | .xint16 | .uint16 => some ⟨sourceType, .uint, .u64 raw.toUInt16.toUInt64⟩
  | .int16 => some ⟨sourceType, .int, .i64 raw.toUInt16.toInt16.toInt64⟩
  | .xint32 | .uint32 => some ⟨sourceType, .uint, .u64 raw.toUInt32.toUInt64⟩
  | .int32 => some ⟨sourceType, .int, .i64 raw.toUInt32.toInt32.toInt64⟩
  | .xint64 | .uint64 => some ⟨sourceType, .uint, .u64 raw⟩
  | .int64 => some ⟨sourceType, .int, .i64 raw.toInt64⟩
  | .float => some ⟨sourceType, .float, .d (fl.ofSingle raw.toUInt32)⟩
  | .double => some ⟨sourceType, .float, .d (fl.ofBits raw)⟩
  | .string => some ⟨sourceType, .string, .s raw⟩
  | .data | .invalid => none

/-- The bytes that `operand_to_valuebuf` writes on a little-endian host; `text`
is the string that starts at an address. -/
def operandToValuebuf (text : UInt64 → CStr) (o : Operand F) : Option (List UInt8) :=
  match o.sourceType with
  | .uint8 | .xint8 => some (leBytes 1 (o.u64 fl).toUInt8.toNat)
  | .uint16 | .xint16 => some (leBytes 2 (o.u64 fl).toUInt16.toNat)
  | .uint32 | .xint32 => some (leBytes 4 (o.u64 fl).toUInt32.toNat)
  | .uint64 | .xint64 => some (leBytes 8 (o.u64 fl).toNat)
  | .int8 => some (leBytes 1 (o.i64 fl).toInt8.toUInt8.toNat)
  | .int16 => some (leBytes 2 (o.i64 fl).toInt16.toUInt16.toNat)
  | .int32 => some (leBytes 4 (o.i64 fl).toInt32.toUInt32.toNat)
  | .int64 => some (leBytes 8 (o.i64 fl).toUInt64.toNat)
  | .float => some (leBytes 4 (fl.single (o.d fl)).toNat)
  | .double => some (leBytes 8 (fl.bits (o.d fl)).toNat)
  | .string => some (text (o.u64 fl)).withNul
  | .data | .invalid => none

/-! ## Conditions -/

/-- The outcome of a comparison, by how its operands are ordered. -/
def ComparisonOp.holds : ComparisonOp → Ordering → Bool
  | eq, o => o = .eq
  | neq, o => o ≠ .eq
  | lt, o => o = .lt
  | gt, o => o = .gt
  | le, o => o ≠ .gt
  | ge, o => o ≠ .lt

/-- The outcome of a comparison of `double`s. -/
def ComparisonOp.holdsFloat (op : ComparisonOp) (a b : F) : Bool :=
  let near := fl.lt (fl.floatAbs (fl.sub a b)) fl.epsilon
  match op with
  | eq => near
  | neq => fl.le fl.epsilon (fl.floatAbs (fl.sub a b))
  | lt => fl.lt a b
  | gt => fl.lt b a
  | le => fl.lt a b || near
  | ge => fl.lt b a || near

/-- `strcmp`, by the sign of its result. -/
def strcmp (a b : CStr) : Ordering := compare a.bytes b.bytes

/-! ## Unary operators -/

/-- The `switch` of `proc_runtime_unop`; `typeCode` are the values of libparam's
types, with one of which `!` compares an operand type. -/
def unopOperand (typeCode : ParamType → Nat) (op : UInt32) (o : Operand F) :
    Option (Operand F) :=
  match UnaryOp.ofCode op with
  | some .inc =>
      match o.type with
      | .float => some (o.setD (fl.add (o.d fl) fl.one))
      | .int => some (o.setI64 (o.i64 fl + 1))
      | .uint => some (o.setU64 (o.u64 fl + 1))
      | .string => none
  | some .dec =>
      match o.type with
      | .float => some (o.setD (fl.sub (o.d fl) fl.one))
      | .int => some (o.setI64 (o.i64 fl - 1))
      | .uint => some (o.setU64 (o.u64 fl - 1))
      | .string => none
  | some .not =>
      if typeCode o.sourceType = OperandType.int.code then some (o.setI64 (~~~ o.i64 fl))
      else if typeCode o.sourceType = OperandType.uint.code then some (o.setU64 (~~~ o.u64 fl))
      else none
  | some .neg =>
      match o.type with
      | .float => some (o.setD (fl.neg (o.d fl)))
      | .int => some (o.setI64 (- o.i64 fl))
      | .uint | .string => none
  | some .idt | some .rmt => some o
  | none => none

/-! ## Binary operators -/

/-- The operators that are defined on `double`s. -/
def BinaryOp.onFloat (op : BinaryOp) (a b : F) : Option F :=
  match op with
  | add => some (fl.add a b)
  | sub => some (fl.sub a b)
  | mul => some (fl.mul a b)
  | div => if fl.eq b fl.zero then none else some (fl.div a b)
  | mod | lsh | rsh | and | or | xor => none

def BinaryOp.onInt (op : BinaryOp) (a b : Int64) : Option Int64 :=
  match op with
  | add => some (a + b)
  | sub => some (a - b)
  | mul => some (a * b)
  | div => if b = 0 then none else some (a / b)
  | mod => if b = 0 then none else some (a % b)
  | lsh => some (a <<< b)
  | rsh => some (a >>> b)
  | and => some (a &&& b)
  | or => some (a ||| b)
  | xor => some (a ^^^ b)

def BinaryOp.onUint (op : BinaryOp) (a b : UInt64) : Option UInt64 :=
  match op with
  | add => some (a + b)
  | sub => some (a - b)
  | mul => some (a * b)
  | div => if b = 0 then none else some (a / b)
  | mod => if b = 0 then none else some (a % b)
  | lsh => some (a <<< b)
  | rsh => some (a >>> b)
  | and => some (a &&& b)
  | or => some (a ||| b)
  | xor => some (a ^^^ b)

/-- The `switch` of `proc_runtime_binop`: the first operand with the result. -/
def binopOperand (op : UInt32) (a b : Operand F) : Option (Operand F) := do
  let op ← BinaryOp.ofCode op
  match a.type, b.type with
  | .float, .float => return a.setD (← op.onFloat fl (a.d fl) (b.d fl))
  | .int, .int => return a.setI64 (← op.onInt (a.i64 fl) (b.i64 fl))
  | .uint, .uint => return a.setU64 (← op.onUint (a.u64 fl) (b.u64 fl))
  | _, _ => none

end CspProc
