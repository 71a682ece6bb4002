import CspProc.Lib.Codec

/-! # Procedures and packets

The data model of `proc_types.h`: a procedure is a bounded list of
instructions, each with the node its operands live on. Strings are values
here (`CStr`); who owns their memory is not part of this layer.

What the array of a `proc_t` holds past `instruction_count` is never read, so
a procedure is the list of its first `instruction_count` instructions.
-/

namespace CspProc

/-- Build-time constants of a node: the data bytes of a CSP packet and the
size of a C `enum` under its ABI. `packet->length` is a `uint16_t`, and a
packet has room for the two header bytes. -/
structure Config where
  cspBufferSize : Nat
  sizeofEnum : Nat
  header_le : 2 ≤ cspBufferSize
  buffer_lt : cspBufferSize < 2 ^ 16
  enum_pos : 0 < sizeofEnum
  enum_le : sizeofEnum ≤ 4
deriving DecidableEq, Repr

/-- Packets of 256 data bytes and enums of the size of an `int`. -/
def Config.default : Config :=
  ⟨256, 4, by decide, by decide, by decide, by decide⟩

/-- `MAX_INSTRUCTIONS`. -/
def maxInstructions : Nat := 255

theorem one_le_maxInstructions : 1 ≤ maxInstructions := Nat.le_of_ble_eq_true rfl

/-- `MAX_PROC_SLOT`. -/
def maxProcSlot : Nat := 255

/-! ## Instructions -/

/-- The `type` and the `instruction` union of a `proc_instruction_t`. An
operator is the integer its enum object holds, in or out of the enumeration;
`unknown` is any type value past `PROC_NOOP`. -/
inductive Instruction where
  | block (paramA : CStr) (op : UInt32) (paramB : CStr)
  | ifelse (paramA : CStr) (op : UInt32) (paramB : CStr)
  | set (param value : CStr)
  | unop (param : CStr) (op : UInt32) (result : CStr)
  | binop (paramA : CStr) (op : UInt32) (paramB result : CStr)
  | call (procedureSlot : UInt8)
  | noop
  | unknown (type : UInt32) (h : 7 ≤ type.toNat)
deriving DecidableEq, Repr

namespace Instruction

/-- `proc_instruction_type_t`, as the number stored in `type`. -/
def type : Instruction → UInt32
  | block .. => 0
  | ifelse .. => 1
  | set .. => 2
  | unop .. => 3
  | binop .. => 4
  | call .. => 5
  | noop => 6
  | unknown t _ => t

/-- One of the seven instruction types. -/
def isKnown : Instruction → Bool
  | unknown .. => false
  | _ => true

def isIfelse : Instruction → Bool
  | ifelse .. => true
  | _ => false

def isNoop : Instruction → Bool
  | noop => true
  | _ => false

/-- The slot that an instruction calls. -/
def callSlot : Instruction → Option UInt8
  | .call procedureSlot => some procedureSlot
  | _ => none

theorem eq_call {i : Instruction} {s : UInt8} (h : i.callSlot = some s) : i = .call s := by
  cases i <;> simp_all [callSlot]

/-- The operator, where the instruction has one, is a value of an enum of
`n` bytes. -/
def OpFits (n : Nat) : Instruction → Prop
  | block _ op _ | ifelse _ op _ | unop _ op _ | binop _ op _ _ => op.toNat < 256 ^ n
  | _ => True

instance (n : Nat) : (ins : Instruction) → Decidable (ins.OpFits n)
  | block _ op _ | ifelse _ op _ | unop _ op _ | binop _ op _ _ =>
    inferInstanceAs (Decidable (op.toNat < 256 ^ n))
  | set .. | call .. | noop | unknown .. => inferInstanceAs (Decidable True)

end Instruction

/-- `proc_instruction_t`. -/
structure ProcInstruction where
  node : UInt16
  instruction : Instruction
deriving DecidableEq, Repr

/-- `proc_t`. -/
@[ext] structure Proc where
  instructions : List ProcInstruction
  length_le : instructions.length ≤ maxInstructions
deriving DecidableEq, Repr

namespace Proc

/-- `instruction_count`. -/
def instructionCount (p : Proc) : UInt8 := UInt8.ofNat p.instructions.length

/-- The 8-bit count never wraps. -/
@[simp] theorem instructionCount_toNat (p : Proc) :
    p.instructionCount.toNat = p.instructions.length := by
  have h := p.length_le
  simp only [maxInstructions] at h
  simp only [instructionCount, UInt8.toNat_ofNat']
  omega

/-- The procedure without instructions, as an empty slot holds it. -/
def empty : Proc := ⟨[], by simp⟩

/-- Every instruction has one of the seven types. -/
def Known (p : Proc) : Prop := ∀ ins ∈ p.instructions, ins.instruction.isKnown = true

instance (p : Proc) : Decidable p.Known :=
  inferInstanceAs (Decidable (∀ ins ∈ p.instructions, _))

/-- Every instruction has a known type and an operator its enum can hold. -/
def WellFormed (cfg : Config) (p : Proc) : Prop :=
  ∀ ins ∈ p.instructions,
    ins.instruction.isKnown = true ∧ ins.instruction.OpFits cfg.sizeofEnum

instance (cfg : Config) (p : Proc) : Decidable (p.WellFormed cfg) :=
  inferInstanceAs (Decidable (∀ ins ∈ p.instructions, _))

theorem WellFormed.known {cfg : Config} {p : Proc} (hp : p.WellFormed cfg) : p.Known :=
  fun ins hins => (hp ins hins).1

end Proc

/-! ## Machine integers -/

/-- The value of an integer once it is stored in a C `int`. -/
def cInt (n : Int) : Int := Int.bmod n (2 ^ 32)

/-- A number an `int` can hold is stored as it is. -/
theorem cInt_of_lt {n : Int} (h0 : 0 ≤ n) (h : n < 2 ^ 31) : cInt n = n := by
  unfold cInt
  rw [Int.bmod_eq_of_le (by omega) (by omega)]

/-- Storing twice is storing the exact sum once. -/
theorem cInt_add_cInt (a b : Int) : cInt (cInt a + b) = cInt (a + b) := by
  unfold cInt
  exact Int.bmod_add_bmod

/-! ## Packets -/

/-- `csp_packet_t`: the bytes of the buffer and how many of them count as
received or to be sent. -/
@[ext] structure Packet (cfg : Config) where
  length : Nat
  data : List UInt8
  length_le : length ≤ cfg.cspBufferSize
  data_length : data.length = cfg.cspBufferSize
deriving DecidableEq, Repr

namespace Packet

variable {cfg : Config}

/-- The packet in which `bytes` count, with `stale` and then zeros behind them. -/
def ofBytes (bytes stale : List UInt8) (h : bytes.length ≤ cfg.cspBufferSize) : Packet cfg where
  length := bytes.length
  data := (bytes ++ stale ++ List.replicate cfg.cspBufferSize 0).take cfg.cspBufferSize
  length_le := h
  data_length := by
    simp only [List.length_take, List.length_append, List.length_replicate]
    omega

/-- The bytes that count: `data[0 .. length - 1]`. -/
def received (p : Packet cfg) : List UInt8 := p.data.take p.length

@[simp] theorem received_length (p : Packet cfg) : p.received.length = p.length := by
  simp [received, p.data_length, p.length_le]

/-- The bytes it was built from are those that count. -/
theorem received_ofBytes (bytes stale : List UInt8) (h : bytes.length ≤ cfg.cspBufferSize) :
    (ofBytes bytes stale h : Packet cfg).received = bytes := by
  rw [received, ofBytes, List.take_take, Nat.min_eq_left h, List.append_assoc, List.take_left]

/-- `packet->data[i]`. -/
def byte (p : Packet cfg) (i : Nat) : UInt8 := p.data.getD i 0

/-- A byte that counts is the byte at its offset. -/
theorem byte_of_received {p : Packet cfg} {i : Nat} {b : UInt8} (h : p.received[i]? = some b) :
    p.byte i = b := by
  have hi : i < p.length := by
    rcases List.getElem?_eq_some_iff.mp h with ⟨hlt, -⟩
    simpa using hlt
  rw [received, List.getElem?_take_of_lt hi] at h
  rw [byte, List.getD_eq_getElem?_getD, h]
  rfl

/-- What stands in the bytes that count stands in the data. -/
theorem prefix_of_received {p : Packet cfg} {off : Nat} {bs : List UInt8}
    (h : bs <+: p.received.drop off) : bs <+: p.data.drop off := by
  rw [received, List.drop_take] at h
  exact h.trans (List.take_prefix _ _)

/-- `packet->data[i] = b`. -/
def setByte (p : Packet cfg) (i : Nat) (b : UInt8) : Packet cfg :=
  { p with
    data := p.data.set i b
    data_length := by simp [p.data_length] }

/-- `packet->length = n`. -/
def setLength (p : Packet cfg) (n : Nat) (h : n ≤ cfg.cspBufferSize) : Packet cfg :=
  { p with length := n, length_le := h }

@[simp] theorem setByte_length (p : Packet cfg) (i : Nat) (b : UInt8) :
    (p.setByte i b).length = p.length := rfl

@[simp] theorem setByte_data (p : Packet cfg) (i : Nat) (b : UInt8) :
    (p.setByte i b).data = p.data.set i b := rfl

@[simp] theorem setLength_length (p : Packet cfg) (n : Nat) (h : n ≤ cfg.cspBufferSize) :
    (p.setLength n h).length = n := rfl

@[simp] theorem setLength_data (p : Packet cfg) (n : Nat) (h : n ≤ cfg.cspBufferSize) :
    (p.setLength n h).data = p.data := rfl

end Packet

end CspProc
