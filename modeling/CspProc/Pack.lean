import CspProc.Types

/-! # Packing and unpacking procedures

`proc_pack.c`: the size, write and read passes over a procedure, each with its
own `switch` over the instruction types. A result `none` stands for a memory
access outside the packet buffer (or a signed overflow), where the C program
has no defined behaviour.

The decoder's strings are the ones `proc_strdup` copies; every allocation is
taken to succeed at this layer.
-/

namespace CspProc

variable (cfg : Config)

/-! ## `calc_proc_size` -/

/-- `total_size += n`, with `total_size` an `int`. -/
def addSize (total : Int) (n : Nat) : Int := cInt (total + n)

/-- One iteration of the loop of `calc_proc_size`; `none` is its `default:`. -/
def addInstructionSize (total : Int) (ins : ProcInstruction) : Option Int :=
  let total := addSize total 2
  let total := addSize total 1
  match ins.instruction with
  | .block paramA _ paramB | .ifelse paramA _ paramB =>
      let total := addSize total cfg.sizeofEnum
      let total := addSize total (paramA.strlen + 1)
      some (addSize total (paramB.strlen + 1))
  | .set param value =>
      let total := addSize total (param.strlen + 1)
      some (addSize total (value.strlen + 1))
  | .unop param _ result =>
      let total := addSize total cfg.sizeofEnum
      let total := addSize total (param.strlen + 1)
      some (addSize total (result.strlen + 1))
  | .binop paramA _ paramB result =>
      let total := addSize total cfg.sizeofEnum
      let total := addSize total (paramA.strlen + 1)
      let total := addSize total (paramB.strlen + 1)
      some (addSize total (result.strlen + 1))
  | .call _ => some (addSize total 1)
  | .noop => some total
  | .unknown .. => none

/-- `calc_proc_size`. -/
def calcProcSize (procedure : Proc) : Int :=
  match procedure.instructions.foldlM (addInstructionSize cfg) (addSize 0 1) with
  | some total => total
  | none => -1

/-! ## `pack_proc_into_csp_packet` -/

/-- The encoder's position: the packet's data and `offset`. -/
structure PackState where
  data : List UInt8
  offset : Nat
deriving DecidableEq, Repr

/-- `memcpy(packet->data + offset, bs, n); offset += n`. -/
def PackState.put (s : PackState) (bs : List UInt8) : Option PackState :=
  (ByteBuf.write s.data s.offset bs).map fun data => ⟨data, s.offset + bs.length⟩

/-- One iteration of the encoder's loop, with the value it returns: `0` to go
on, `-1` from `default:`. -/
def packInstruction (s : PackState) (ins : ProcInstruction) : Option (Int × PackState) := do
  let s ← s.put (leBytes 2 ins.node.toNat)
  let s ← s.put [ins.instruction.type.toUInt8]
  match ins.instruction with
  | .block paramA op paramB | .ifelse paramA op paramB =>
      let s ← s.put paramA.withNul
      let s ← s.put (leBytes cfg.sizeofEnum op.toNat)
      let s ← s.put paramB.withNul
      return (0, s)
  | .set param value =>
      let s ← s.put param.withNul
      let s ← s.put value.withNul
      return (0, s)
  | .unop param op result =>
      let s ← s.put param.withNul
      let s ← s.put (leBytes cfg.sizeofEnum op.toNat)
      let s ← s.put result.withNul
      return (0, s)
  | .binop paramA op paramB result =>
      let s ← s.put paramA.withNul
      let s ← s.put (leBytes cfg.sizeofEnum op.toNat)
      let s ← s.put paramB.withNul
      let s ← s.put result.withNul
      return (0, s)
  | .call procedureSlot =>
      let s ← s.put [procedureSlot]
      return (0, s)
  | .noop => return (0, s)
  | .unknown .. => return (-1, s)

/-- The encoder's loop over the instructions. -/
def packInstructions : PackState → List ProcInstruction → Option (Int × PackState)
  | s, [] => some (0, s)
  | s, ins :: rest => do
      let (ret, s) ← packInstruction cfg s ins
      if ret = 0 then packInstructions s rest else return (ret, s)

/-- `packet->data` after the encoder's writes, which keep its size. -/
def Packet.withData {cfg : Config} (p : Packet cfg) (data : List UInt8) : Option (Packet cfg) :=
  if h : data.length = cfg.cspBufferSize then some { p with data := data, data_length := h }
  else none

/-- `pack_proc_into_csp_packet`: the return value and the packet. -/
def packProcIntoCspPacket (procedure : Proc) (packet : Packet cfg) :
    Option (Int × Packet cfg) := do
  let totalSize := calcProcSize cfg procedure
  -- `total_size + 2` is an `int`
  if 2 ^ 31 ≤ totalSize + 2 then none
  if (cfg.cspBufferSize : Int) < totalSize + 2 then return (-1, packet)
  let s ← PackState.put ⟨packet.data, 2⟩ [procedure.instructionCount]
  let (ret, s) ← packInstructions cfg s procedure.instructions
  let packet ← packet.withData s.data
  if ret = 0 then
    if h : (totalSize + 2).toNat ≤ cfg.cspBufferSize then
      return (0, packet.setLength (totalSize + 2).toNat h)
    else none
  else return (ret, packet)

/-! ## `unpack_proc_from_csp_packet` -/

/-- `memcpy(&x, packet->data + offset, n); offset += n` for a number `x`. -/
def takeUInt (data : List UInt8) (offset n : Nat) : Option (Nat × Nat) :=
  (ByteBuf.read data offset n).map fun bs => (leValue bs, offset + n)

/-- `s = proc_strdup(packet->data + offset); offset += strlen(...) + 1`. -/
def takeStr (data : List UInt8) (offset : Nat) : Option (CStr × Nat) :=
  (ByteBuf.strAt data offset).map fun s => (s, offset + (s.strlen + 1))

/-- An operator read into an enum object. -/
def takeOp (data : List UInt8) (offset : Nat) : Option (UInt32 × Nat) :=
  (takeUInt data offset cfg.sizeofEnum).map fun r => (UInt32.ofNat r.1, r.2)

/-- One iteration of the decoder's loop: the instruction it stored and the new
offset. An unknown type byte stores the node and the type only. -/
def unpackInstruction (data : List UInt8) (offset : Nat) : Option (ProcInstruction × Nat) := do
  let (node, offset) ← takeUInt data offset 2
  let node := UInt16.ofNat node
  let (type, offset) ← takeUInt data offset 1
  match type with
  | 0 =>
      let (paramA, offset) ← takeStr data offset
      let (op, offset) ← takeOp cfg data offset
      let (paramB, offset) ← takeStr data offset
      return (⟨node, .block paramA op paramB⟩, offset)
  | 1 =>
      let (paramA, offset) ← takeStr data offset
      let (op, offset) ← takeOp cfg data offset
      let (paramB, offset) ← takeStr data offset
      return (⟨node, .ifelse paramA op paramB⟩, offset)
  | 2 =>
      let (param, offset) ← takeStr data offset
      let (value, offset) ← takeStr data offset
      return (⟨node, .set param value⟩, offset)
  | 3 =>
      let (param, offset) ← takeStr data offset
      let (op, offset) ← takeOp cfg data offset
      let (result, offset) ← takeStr data offset
      return (⟨node, .unop param op result⟩, offset)
  | 4 =>
      let (paramA, offset) ← takeStr data offset
      let (op, offset) ← takeOp cfg data offset
      let (paramB, offset) ← takeStr data offset
      let (result, offset) ← takeStr data offset
      return (⟨node, .binop paramA op paramB result⟩, offset)
  | 5 =>
      let (procedureSlot, offset) ← takeUInt data offset 1
      return (⟨node, .call (UInt8.ofNat procedureSlot)⟩, offset)
  | 6 => return (⟨node, .noop⟩, offset)
  | t =>
      if h : 7 ≤ (UInt32.ofNat t).toNat then
        return (⟨node, .unknown (UInt32.ofNat t) h⟩, offset)
      else none

/-- The decoder's loop for the `n` instructions that are left: the return
value, the instructions stored and the offset it stopped at. -/
def unpackInstructions (data : List UInt8) :
    (n offset : Nat) → Option (Int × List ProcInstruction × Nat)
  | 0, offset => some (0, [], offset)
  | n + 1, offset => do
      let (ins, offset) ← unpackInstruction cfg data offset
      if ins.instruction.isKnown then
        let (ret, rest, offset) ← unpackInstructions data n offset
        return (ret, ins :: rest, offset)
      else return (-1, [ins], offset)

/-- What a call of the decoder leaves behind: its return value, the
instructions it stored in the procedure and the offset it stopped at. Each
read takes the bytes from the old offset up to the new one, so exactly the
packet bytes `2 .. offset - 1` have been used. -/
structure Unpacked where
  ret : Int
  procedure : Proc
  offset : Nat
deriving DecidableEq, Repr

/-- `unpack_proc_from_csp_packet` on the data bytes of a packet. -/
def unpackData (data : List UInt8) : Option Unpacked := do
  let (count, offset) ← takeUInt data 2 1
  let (ret, instructions, offset) ← unpackInstructions cfg data count offset
  -- a store past `instructions[MAX_INSTRUCTIONS - 1]` would be undefined
  if h : instructions.length ≤ maxInstructions then
    return ⟨ret, ⟨instructions, h⟩, offset⟩
  else none

/-- `unpack_proc_from_csp_packet`. It does not look at `packet->length`. -/
def unpackProcFromCspPacket (packet : Packet cfg) : Option Unpacked :=
  unpackData cfg packet.data

end CspProc
