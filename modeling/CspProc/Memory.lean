import CspProc.Lib.Heap
import CspProc.Server

/-! # The procedure server in memory

`proc_server.c`, `proc_store_dynamic.c` and the memory side of `proc_pack.c`
again, with a heap: strings are pointers, temporary objects are blocks, and
each call of the allocator may fail. What is done with the packet is a list of
operations, as the handlers perform them.

A result `none` stands for behaviour that is not defined: a null pointer or a
block that is not live is read or freed, an instruction is read that has not
been written, or the packet's buffer is left.
-/

namespace CspProc

variable {cfg : Config}

/-! ## Procedures in memory -/

/-- What a block of the server's heap holds. -/
inductive Block where
  | string (s : CStr)
  | procedure
  | slots
  | store
deriving DecidableEq, Repr

/-- The `type` and the `instruction` union of a `proc_instruction_t`, with the
pointers to its strings. -/
inductive StoredInstruction where
  | block (paramA : Ptr) (op : UInt32) (paramB : Ptr)
  | ifelse (paramA : Ptr) (op : UInt32) (paramB : Ptr)
  | set (param value : Ptr)
  | unop (param : Ptr) (op : UInt32) (result : Ptr)
  | binop (paramA : Ptr) (op : UInt32) (paramB result : Ptr)
  | call (procedureSlot : UInt8)
  | noop
  | unknown (type : UInt32) (h : 7 ≤ type.toNat)
deriving Repr

/-- `proc_instruction_t`. -/
structure StoredProcInstruction where
  node : UInt16
  instruction : StoredInstruction
deriving Repr

/-- `proc_t`: the instructions that have been written, and the count. -/
structure StoredProc where
  instructions : List StoredProcInstruction
  instructionCount : UInt8
deriving Repr

/-- The strings of an instruction, in the order in which the decoder copies them. -/
def Instruction.strings : Instruction → List CStr
  | .block paramA _ paramB | .ifelse paramA _ paramB => [paramA, paramB]
  | .set param value => [param, value]
  | .unop param _ result => [param, result]
  | .binop paramA _ paramB result => [paramA, paramB, result]
  | .call _ | .noop | .unknown .. => []

/-- The pointers of an instruction, in the order in which
`proc_free_instruction` frees them. -/
def StoredInstruction.pointers : StoredInstruction → List Ptr
  | .block paramA _ paramB | .ifelse paramA _ paramB => [paramA, paramB]
  | .set param value => [param, value]
  | .unop param _ result => [param, result]
  | .binop paramA _ paramB result => [paramA, paramB, result]
  | .call _ | .noop | .unknown .. => []

namespace StoredProc

/-- The procedure of an empty slot. -/
def empty : StoredProc := ⟨[], 0⟩

/-- The pointers of the instructions. -/
def pointers (p : StoredProc) : List Ptr := p.instructions.flatMap (·.instruction.pointers)

/-- The blocks that the instructions refer to. -/
def references (p : StoredProc) : List Nat := p.pointers.reduceOption

/-- The instructions that the count tells of have been written, and no others. -/
def Written (p : StoredProc) : Prop := p.instructions.length = p.instructionCount.toNat

instance (p : StoredProc) : Decidable p.Written := inferInstanceAs (Decidable (_ = _))

end StoredProc

/-! ## The heap of the server -/

/-- `proc_strdup`. -/
def procStrdup (alloc : Nat → Bool) (heap : Heap Block) (s : CStr) : Ptr × Heap Block :=
  heap.alloc alloc (.string s)

/-- The string behind a pointer. -/
def loadString (heap : Heap Block) (p : Ptr) : Option CStr :=
  match heap.load p with
  | some (.string s) => some s
  | _ => none

/-- The decoded instruction as it is stored, its strings copied. -/
def storeInstruction (alloc : Nat → Bool) (heap : Heap Block) :
    Instruction → StoredInstruction × Heap Block
  | .block paramA op paramB =>
      let (paramA, heap) := procStrdup alloc heap paramA
      let (paramB, heap) := procStrdup alloc heap paramB
      (.block paramA op paramB, heap)
  | .ifelse paramA op paramB =>
      let (paramA, heap) := procStrdup alloc heap paramA
      let (paramB, heap) := procStrdup alloc heap paramB
      (.ifelse paramA op paramB, heap)
  | .set param value =>
      let (param, heap) := procStrdup alloc heap param
      let (value, heap) := procStrdup alloc heap value
      (.set param value, heap)
  | .unop param op result =>
      let (param, heap) := procStrdup alloc heap param
      let (result, heap) := procStrdup alloc heap result
      (.unop param op result, heap)
  | .binop paramA op paramB result =>
      let (paramA, heap) := procStrdup alloc heap paramA
      let (paramB, heap) := procStrdup alloc heap paramB
      let (result, heap) := procStrdup alloc heap result
      (.binop paramA op paramB result, heap)
  | .call procedureSlot => (.call procedureSlot, heap)
  | .noop => (.noop, heap)
  | .unknown type h => (.unknown type h, heap)

/-- The decoder's instructions as it stores them. -/
def storeInstructions (alloc : Nat → Bool) (heap : Heap Block) :
    List ProcInstruction → List StoredProcInstruction × Heap Block
  | [] => ([], heap)
  | ins :: rest =>
      let (instruction, heap) := storeInstruction alloc heap ins.instruction
      let (rest, heap) := storeInstructions alloc heap rest
      (⟨ins.node, instruction⟩ :: rest, heap)

/-- The instruction with its strings read. -/
def StoredInstruction.load (heap : Heap Block) : StoredInstruction → Option Instruction
  | .block paramA op paramB => do
      return .block (← loadString heap paramA) op (← loadString heap paramB)
  | .ifelse paramA op paramB => do
      return .ifelse (← loadString heap paramA) op (← loadString heap paramB)
  | .set param value => do
      return .set (← loadString heap param) (← loadString heap value)
  | .unop param op result => do
      return .unop (← loadString heap param) op (← loadString heap result)
  | .binop paramA op paramB result => do
      return .binop (← loadString heap paramA) op (← loadString heap paramB)
        (← loadString heap result)
  | .call procedureSlot => some (.call procedureSlot)
  | .noop => some .noop
  | .unknown type h => some (.unknown type h)

def StoredProcInstruction.load (heap : Heap Block) (ins : StoredProcInstruction) :
    Option ProcInstruction :=
  (ins.instruction.load heap).map fun instruction => ⟨ins.node, instruction⟩

/-- The procedure with its strings read, as the encoder reads all of them. -/
def StoredProc.load (heap : Heap Block) (p : StoredProc) : Option Proc := do
  let instructions ← p.instructions.mapM (·.load heap)
  if h : instructions.length ≤ maxInstructions then
    if p.Written then return ⟨instructions, h⟩ else none
  else none

/-- The loop over the instructions that calls `proc_free_instruction`. -/
def freeInstructions (heap : Heap Block) (p : StoredProc) : Option (Heap Block) :=
  if p.instructions.length < p.instructionCount.toNat then none
  else
    heap.freeAll
      ((p.instructions.take p.instructionCount.toNat).flatMap (·.instruction.pointers))

/-- `free_proc` of the procedure in a block. -/
def freeProc (heap : Heap Block) (block : Ptr) (p : StoredProc) : Option (Heap Block) := do
  let heap ← freeInstructions heap p
  heap.free block

/-- `unpack_proc_from_csp_packet`. The decoder reads the packet and copies
strings in turn, which is the same as reading it first. -/
def unpackStored (alloc : Nat → Bool) (heap : Heap Block) (packet : Packet cfg) :
    Option (Int × StoredProc × Heap Block) :=
  (unpackProcFromCspPacket cfg packet).map fun u =>
    let (instructions, heap) := storeInstructions alloc heap u.procedure.instructions
    (u.ret, ⟨instructions, packet.byte 2⟩, heap)

/-! ## The store -/

/-- The server's memory: its heap, the procedures in the array `proc_store`, and
the block of that array. -/
structure Memory where
  heap : Heap Block
  procStore : UInt8 → StoredProc
  storeArray : Nat

namespace Memory

/-- After `proc_store_init`. -/
def init : Memory where
  heap := (Heap.empty.alloc (fun _ => true) .store).2
  procStore _ := .empty
  storeArray := 0

/-- `proc_store[slot].instruction_count > 0`. -/
def occupied (m : Memory) (slot : UInt8) : Bool := 0 < (m.procStore slot).instructionCount

/-- `_delete_proc`, called with the mutex held. -/
def deleteProcLocked (m : Memory) (slot : UInt8) : Option Memory :=
  (freeInstructions m.heap (m.procStore slot)).map fun heap =>
    { m with heap := heap, procStore := Function.update m.procStore slot .empty }

/-- `delete_proc`. -/
def deleteProc (mutexOk : Bool) (m : Memory) (slot : UInt8) : Option (Int × Memory) :=
  if mutexOk then (m.deleteProcLocked slot).map fun m => (0, m)
  else some (Store.procMutexErr, m)

/-- `set_proc`, with the struct copied and its strings shared. -/
def setProc (mutexOk : Bool) (m : Memory) (proc : StoredProc) (slot : UInt8) (overwrite : Bool) :
    Option (Int × Memory) :=
  if mutexOk then
    if m.occupied slot = false then
      (m.deleteProcLocked slot).map fun m =>
        (slot.toNat, { m with procStore := Function.update m.procStore slot proc })
    else if overwrite then
      (m.deleteProcLocked slot).map fun m =>
        (slot.toNat, { m with procStore := Function.update m.procStore slot proc })
    else some (-1, m)
  else some (Store.procMutexErr, m)

/-- What `get_proc` returns. -/
inductive Fetched where
  | null
  | mutexErr
  | found (proc : StoredProc)
deriving Repr

/-- `get_proc`. -/
def getProc (mutexOk : Bool) (m : Memory) (slot : UInt8) : Fetched :=
  if mutexOk then
    if m.occupied slot = false then .null else .found (m.procStore slot)
  else .mutexErr

/-- The slots that `get_proc_slots` writes to its list. -/
def slotList (m : Memory) : List UInt8 :=
  ((List.range (maxProcSlot + 1)).map UInt8.ofNat).filter m.occupied

/-- `get_proc_slots`: the list's block and its slots. Without memory the -1 at the
end of the list is written through a null pointer; without the mutex the list is
lost, and null is returned. -/
def getProcSlots (alloc : Nat → Bool) (mutexOk : Bool) (m : Memory) :
    Option (Ptr × List UInt8 × Memory) :=
  let (slots, heap) := m.heap.alloc alloc .slots
  if mutexOk = false then some (none, [], { m with heap := heap })
  else if slots.isSome = true then some (slots, m.slotList, { m with heap := heap })
  else none

end Memory

/-! ## Handlers -/

/-- What the code outside this repository answers while one request is served:
each call of the allocator by its number, the mutex, and the runtime, whose
call may not return. -/
structure MemoryEnv where
  alloc : Nat → Bool
  mutexTake : Bool
  runtimeRun : Option (UInt8 → Option Int)

/-- What is done with a packet: `csp_sendto_reply` of its bytes, or
`csp_buffer_free`. -/
inductive PacketOp where
  | sendtoReply (bytes : List UInt8)
  | bufferFree
deriving DecidableEq, Repr

/-- The memory after a request, and what has been done with its packet. -/
structure MemoryServed where
  memory : Memory
  packetOps : List PacketOp

/-- The packet is sent as the reply, and that is all. -/
def sendReply (m : Memory) (packet : Packet cfg) : MemoryServed :=
  ⟨m, [.sendtoReply packet.received]⟩

namespace Memory

/-- `proc_serve_del_request`. -/
def procServeDelRequest (env : MemoryEnv) (m : Memory) (packet : Packet cfg) :
    Option MemoryServed := do
  let slot := packet.byte 1
  let (_, m) ← m.deleteProc env.mutexTake slot
  return sendReply m (packet.shortReply .delResponse false)

/-- `proc_serve_pull_request`. -/
def procServePullRequest (env : MemoryEnv) (m : Memory) (packet : Packet cfg) :
    Option MemoryServed :=
  let slot := packet.byte 1
  match m.getProc env.mutexTake slot with
  | .null => some (sendReply m (packet.shortReply .pullResponse true))
  -- the error number is not NULL, and is dereferenced
  | .mutexErr => none
  | .found procedure => do
      let procedure ← procedure.load m.heap
      let (ret, packet) ← packProcIntoCspPacket cfg procedure packet
      if ret < 0 then return sendReply m (packet.shortReply .pullResponse true)
      else return sendReply m (packet.setHeader .pullResponse false)

/-- `proc_serve_push_request`. -/
def procServePushRequest (env : MemoryEnv) (m : Memory) (packet : Packet cfg) :
    Option MemoryServed :=
  let (procedure, heap) := m.heap.alloc env.alloc .procedure
  if procedure.isNone = true then
    -- the error reply is prepared and never sent
    some ⟨{ m with heap := heap }, []⟩
  else do
    let (ret, proc, heap) ← unpackStored env.alloc heap packet
    if ret < 0 then
      let heap ← freeProc heap procedure proc
      return sendReply { m with heap := heap } (packet.shortReply .pushResponse true)
    else
      let (ret, m) ← { m with heap := heap }.setProc env.mutexTake proc (packet.byte 1) false
      if ret < 0 then
        let heap ← freeProc m.heap procedure proc
        return sendReply { m with heap := heap } (packet.shortReply .pushResponse true)
      else return sendReply m (packet.shortReply .pushResponse false)

/-- `proc_serve_slots_request`. The list is read without a check for null. -/
def procServeSlotsRequest (env : MemoryEnv) (m : Memory) (packet : Packet cfg) :
    Option MemoryServed := do
  let (slots, list, m) ← m.getProcSlots env.alloc env.mutexTake
  let _ ← m.heap.load slots
  let packet ← putSlots list 1 (packet.shortReply .slotsResponse false)
  let heap ← m.heap.free slots
  return sendReply { m with heap := heap } packet

/-- `proc_serve_run_request`. -/
def procServeRunRequest (env : MemoryEnv) (m : Memory) (packet : Packet cfg) :
    Option MemoryServed :=
  let slot := packet.byte 1
  match env.runtimeRun with
  | none => some (sendReply m (packet.shortReply .runResponse true))
  | some procRuntimeRun => do
      let ret ← procRuntimeRun slot
      if ret ≠ 0 then return sendReply m (packet.shortReply .runResponse true)
      else return sendReply m (packet.shortReply .runResponse false)

/-- `proc_serve`. -/
def procServe (env : MemoryEnv) (m : Memory) (packet : Packet cfg) : Option MemoryServed :=
  match packet.type with
  | some .delRequest => m.procServeDelRequest env packet
  | some .pullRequest => m.procServePullRequest env packet
  | some .pushRequest => m.procServePushRequest env packet
  | some .slotsRequest => m.procServeSlotsRequest env packet
  | some .runRequest => m.procServeRunRequest env packet
  | _ => some ⟨m, [.bufferFree]⟩

end Memory

end CspProc
