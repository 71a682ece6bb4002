import CspProc.Lib.TwosComplement
import CspProc.Params

/-! # Integers in parameters and operands

The twelve integer types of libparam differ in their width and in whether they
are signed (`ParamType.integer`). An operand of such a type stands for an integer
(`Operand.toInt`). This module says of which integer the `switch`es over types
are about:

* `parseValue_integer` — an operand is fetched with the value of its parameter;
* `operandToValuebuf_integer` — a value buffer gets the integer modulo 2 to the
  width of the operand's type, which need not be that of the destination;
* `ofBytes_valuebuf` — what a destination of any integer type then reads.
-/

namespace CspProc

open TwosComplement

/-! ## Integer types -/

/-- The number of bytes of an integer type, and whether it is signed. -/
structure IntegerType where
  signed : Bool
  size : Nat
deriving DecidableEq, Repr

/-- The integer types among the types of libparam. -/
def ParamType.integer : ParamType → Option IntegerType
  | uint8 | xint8 => some ⟨false, 1⟩
  | uint16 | xint16 => some ⟨false, 2⟩
  | uint32 | xint32 => some ⟨false, 4⟩
  | uint64 | xint64 => some ⟨false, 8⟩
  | int8 => some ⟨true, 1⟩
  | int16 => some ⟨true, 2⟩
  | int32 => some ⟨true, 4⟩
  | int64 => some ⟨true, 8⟩
  | float | double | string | data | invalid => none

namespace IntegerType

variable (t : IntegerType)

/-- The number of bits. -/
def width : Nat := 8 * t.size

/-- The class of the operands of the type. -/
def operandType : OperandType := if t.signed then .int else .uint

/-- An integer converted to the type. -/
def wrap (x : Int) : Int := reduce t.signed t.width x

/-- The integer that the type's leading bytes in a value buffer stand for. -/
def ofBytes (valuebuf : List UInt8) : Int := t.wrap (leValue (valuebuf.take t.size))

/-- The same for the bytes that `param_get` stores. -/
def ofRaw (raw : UInt64) : Int := t.wrap raw.toNat

theorem wrap_eq_iff {x y : Int} : t.wrap x = t.wrap y ↔ x % 2 ^ t.width = y % 2 ^ t.width :=
  reduce_eq_iff t.signed

@[simp] theorem wrap_emod (x : Int) : t.wrap x % 2 ^ t.width = x % 2 ^ t.width :=
  reduce_emod t.signed t.width x

@[simp] theorem wrap_wrap (x : Int) : t.wrap (t.wrap x) = t.wrap x :=
  reduce_idem t.signed t.width x

end IntegerType

/-- No integer type is wider than 64 bits. -/
theorem ParamType.width_le {type : ParamType} {t : IntegerType} (h : type.integer = some t) :
    t.width ≤ 64 := by
  unfold ParamType.integer at h
  cases type <;> cases h <;> decide

/-! ## Operands -/

variable {F : Type} (fl : FloatOps F)

namespace Operand

/-- The integer that an operand stands for. -/
def toInt (o : Operand F) : Int :=
  if o.type = .int then (o.i64 fl).toInt else (o.u64 fl).toNat

variable {fl} {o : Operand F}

theorem toInt_int (h : o.type = .int) : o.toInt fl = (o.i64 fl).toInt := if_pos h

theorem toInt_uint (h : o.type = .uint) : o.toInt fl = (o.u64 fl).toNat := by
  unfold toInt
  rw [h]
  rfl

/-- Both views of the union have the low bits of the integer. -/
theorem low (o : Operand F) : Low (o.u64 fl).toBitVec (o.toInt fl) := by
  unfold toInt
  split
  · exact Low.of_toInt (o.u64 fl).toBitVec
  · exact Low.of_toNat (o.u64 fl).toBitVec

@[simp] theorem toInt_u64 (type : ParamType) (v : UInt64) :
    toInt fl ⟨type, .uint, .u64 v⟩ = v.toNat := rfl

@[simp] theorem toInt_i64 (type : ParamType) (v : Int64) :
    toInt fl ⟨type, .int, .i64 v⟩ = v.toInt := rfl

/-- An operand of an integer type. -/
structure Of (type : ParamType) (t : IntegerType) (o : Operand F) : Prop where
  sourceType : o.sourceType = type
  type : o.type = t.operandType

end Operand

/-! ## Into operands and out of them -/

/-- An operand is fetched with the value of its parameter. -/
theorem parseValue_integer {type : ParamType} {t : IntegerType} (h : type.integer = some t)
    (raw : UInt64) :
    ∃ o : Operand F, parseValue fl type raw = some o ∧ o.Of type t ∧ o.toInt fl = t.ofRaw raw := by
  have h8 : raw.toUInt8.toBitVec.toNat = raw.toNat % 2 ^ 8 := raw.toNat_toUInt8
  have h16 : raw.toUInt16.toBitVec.toNat = raw.toNat % 2 ^ 16 := raw.toNat_toUInt16
  have h32 : raw.toUInt32.toBitVec.toNat = raw.toNat % 2 ^ 32 := raw.toNat_toUInt32
  have h64 : raw.toBitVec.toNat = raw.toNat % 2 ^ 64 := (Nat.mod_eq_of_lt raw.toNat_lt).symm
  unfold ParamType.integer at h
  cases type <;> cases h
  all_goals
    refine ⟨_, rfl, ⟨rfl, rfl⟩, ?_⟩
    simp only [IntegerType.ofRaw, IntegerType.wrap, IntegerType.width, Nat.reduceMul,
      Operand.toInt_u64, Operand.toInt_i64, Int8.toInt_toInt64, Int16.toInt_toInt64,
      Int32.toInt_toInt64, UInt8.toNat_toUInt64, UInt16.toNat_toUInt64, UInt32.toNat_toUInt64]
  case uint8 | xint8 => exact toNat_of_low h8
  case uint16 | xint16 => exact toNat_of_low h16
  case uint32 | xint32 => exact toNat_of_low h32
  case uint64 | xint64 => exact toNat_of_low h64
  case int8 => exact toInt_of_low h8
  case int16 => exact toInt_of_low h16
  case int32 => exact toInt_of_low h32
  case int64 => exact toInt_of_low h64

/-- Narrowing a signed number keeps the low bits. -/
theorem operandToValuebuf_integer {type : ParamType} {t : IntegerType}
    (h : type.integer = some t) (text : UInt64 → CStr) {o : Operand F} (ho : o.sourceType = type) :
    operandToValuebuf fl text o = some (leBytes t.size ((o.toInt fl % 2 ^ t.width).toNat)) := by
  have hmod : (o.toInt fl % 2 ^ t.width).toNat = (o.u64 fl).toNat % 2 ^ t.width := by
    rw [← emod_congr (ParamType.width_le h) o.low.toNat_emod_eq]
    show (((o.u64 fl).toNat : Int) % ((2 : Nat) : Int) ^ t.width).toNat = _
    rw [← Int.natCast_pow, ← Int.natCast_emod, Int.toNat_natCast]
  have hsigned : ∀ w, w ≤ 64 →
      ((o.u64 fl).toBitVec.signExtend w).toNat = (o.u64 fl).toNat % 2 ^ w := by
    intro w hw
    rw [BitVec.signExtend_eq_setWidth_of_le _ hw, BitVec.toNat_setWidth]
    rfl
  rw [hmod]
  unfold operandToValuebuf
  rw [ho]
  unfold ParamType.integer at h
  cases type <;> cases h
  all_goals simp only [IntegerType.width, Nat.reduceMul]
  case uint8 | xint8 => rw [UInt64.toNat_toUInt8]
  case uint16 | xint16 => rw [UInt64.toNat_toUInt16]
  case uint32 | xint32 => rw [UInt64.toNat_toUInt32]
  case uint64 | xint64 => rw [Nat.mod_eq_of_lt (o.u64 fl).toNat_lt]
  case int8 => exact congrArg _ (congrArg _ (hsigned 8 (by decide)))
  case int16 => exact congrArg _ (congrArg _ (hsigned 16 (by decide)))
  case int32 => exact congrArg _ (congrArg _ (hsigned 32 (by decide)))
  case int64 => exact congrArg _ (congrArg _ (Nat.mod_eq_of_lt (o.u64 fl).toNat_lt).symm)

/-- What has been fetched has the type of its parameter. -/
theorem parseValue_of {type : ParamType} {raw : UInt64} {o : Operand F}
    (h : parseValue fl type raw = some o) {t : IntegerType} (ht : o.sourceType.integer = some t) :
    o.Of o.sourceType t ∧ o.toInt fl = t.ofRaw raw := by
  have hsource : o.sourceType = type := by
    cases type <;> cases h <;> rfl
  rw [hsource] at ht
  rcases parseValue_integer fl ht raw with ⟨o', ho', hof, hint⟩
  rw [h] at ho'
  cases ho'
  rw [hsource]
  exact ⟨hof, hint⟩

theorem IntegerType.pow_width (t : IntegerType) : (256 : Int) ^ t.size = 2 ^ t.width := by
  unfold IntegerType.width
  rw [pow_mul]
  rfl

/-- A destination of an integer type reads the low bits of the number that have
been written, as many as the type of the operand has. -/
theorem ofBytes_valuebuf (t dest : IntegerType) {k : Nat} (hk : dest.size ≤ t.size + k) (x : Int) :
    dest.ofBytes (leBytes t.size (x % 2 ^ t.width).toNat ++ List.replicate k 0) =
      dest.wrap (x % 2 ^ t.width) := by
  have hnonneg : 0 ≤ x % 2 ^ t.width := Int.emod_nonneg _ (by positivity)
  unfold IntegerType.ofBytes
  rw [leValue_take_leBytes hk, dest.wrap_eq_iff]
  push_cast
  rw [Int.toNat_of_nonneg hnonneg, t.pow_width, dest.pow_width,
    Int.emod_emod_of_dvd _ (Int.dvd_refl _), Int.emod_emod_of_dvd _ (Int.dvd_refl _)]

end CspProc
