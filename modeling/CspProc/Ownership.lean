import CspProc.Lib.System
import CspProc.Memory
import CspProc.RoundTrip

/-! # Who owns the server's blocks

The live blocks of the server are the array of the store, the strings that its
procedures refer to, and what has been lost: `Memory.Accounted` lists them. A
temporary object counts as lost for as long as it lives; each operation says
what it adds to the list and what it takes off.

`heap_conserved_iff` says which requests lose something for good.
-/

namespace CspProc

variable {cfg : Config}

/-! ## Stored instructions -/

section Stored

variable (alloc : Nat → Bool) (heap : Heap Block)

/-- The strings of an instruction are copied one after the other. -/
theorem storeInstruction_eq (ins : Instruction) :
    (storeInstruction alloc heap ins).1.pointers =
        (heap.allocAll alloc (ins.strings.map .string)).1 ∧
      (storeInstruction alloc heap ins).2 =
        (heap.allocAll alloc (ins.strings.map .string)).2 := by
  cases ins <;> exact ⟨rfl, rfl⟩

/-- The strings of instructions are copied one after the other. -/
theorem storeInstructions_eq (instructions : List ProcInstruction) :
    (storeInstructions alloc heap instructions).1.flatMap (·.instruction.pointers) =
        (heap.allocAll alloc
          ((instructions.flatMap (·.instruction.strings)).map .string)).1 ∧
      (storeInstructions alloc heap instructions).2 =
        (heap.allocAll alloc
          ((instructions.flatMap (·.instruction.strings)).map .string)).2 := by
  induction instructions generalizing heap with
  | nil => exact ⟨rfl, rfl⟩
  | cons ins rest ih =>
      rcases storeInstruction_eq alloc heap ins.instruction with ⟨hpointers, hheap⟩
      rcases ih (storeInstruction alloc heap ins.instruction).2 with ⟨hrest, hlast⟩
      simp only [storeInstructions, List.flatMap_cons, List.map_append, Heap.allocAll_append]
      rw [hpointers, hrest, hlast, hheap]
      exact ⟨rfl, rfl⟩

theorem length_storeInstructions (instructions : List ProcInstruction) :
    (storeInstructions alloc heap instructions).1.length = instructions.length := by
  induction instructions generalizing heap with
  | nil => rfl
  | cons ins rest ih => exact congrArg (· + 1) (ih _)

end Stored

/-- The decoder goes by the count in the packet. -/
theorem stops_unpack {packet : Packet cfg} {u : Unpacked}
    (h : unpackProcFromCspPacket cfg packet = some u) :
    Wire.Stops (packet.byte 2).toNat u.ret u.procedure.instructions := by
  rcases (Wire.unpackData_iff cfg packet.data u).mp h with ⟨count, hs, -, ⟨rest, hpre⟩, -⟩
  have hbyte : packet.byte 2 = count := by
    have hget := congrArg (·[0]?) hpre
    simp only [List.cons_append, List.getElem?_cons_zero, List.getElem?_drop] at hget
    rw [Packet.byte, List.getD_eq_getElem?_getD, ← hget]
    rfl
  rwa [hbyte]

/-- Where the decoder returns 0, it has stored as many instructions as the count
says. -/
theorem length_of_unpack {packet : Packet cfg} {u : Unpacked}
    (h : unpackProcFromCspPacket cfg packet = some u) (hret : u.ret = 0) :
    u.procedure.instructions.length = (packet.byte 2).toNat := by
  have hstops := stops_unpack h
  generalize u.procedure.instructions = l at hstops ⊢
  generalize u.ret = ret at hstops hret
  cases hstops with
  | all hlen => exact hlen
  | unknown => cases hret

/-- The instructions of a procedure are freed. -/
theorem freeInstructions_spec {heap : Heap Block} {p : StoredProc} {l : List Nat}
    (hw : p.Written) (hh : heap.Holds (p.references ++ l)) :
    ∃ heap', freeInstructions heap p = some heap' ∧ heap'.Holds l ∧
      ∀ b ∈ l, heap'.blocks b = heap.blocks b := by
  have hlt : ¬ p.instructions.length < p.instructionCount.toNat := by
    rw [hw]
    exact Nat.lt_irrefl _
  rw [freeInstructions, if_neg hlt, ← hw, List.take_length]
  exact hh.freeAll

/-! ## Accounts -/

namespace Memory

variable {m : Memory} {leaked : List Nat}

/-- All slots, in order. -/
def allSlots : List UInt8 := (List.range (maxProcSlot + 1)).map UInt8.ofNat

/-- The strings of the procedures in the store, slot by slot. -/
def references (m : Memory) : List Nat := allSlots.flatMap fun slot => (m.procStore slot).references

/-- The strings of the procedures in the other slots. -/
def others (m : Memory) (slot : UInt8) : List Nat :=
  (allSlots.erase slot).flatMap fun slot => (m.procStore slot).references

/-- The live blocks are the array of the store, the strings of its procedures and
what has been lost, each once. -/
structure Accounted (m : Memory) (leaked : List Nat) : Prop where
  holds : m.heap.Holds (leaked ++ m.storeArray :: m.references)
  written : ∀ slot, (m.procStore slot).Written

/-- The live blocks are the array of the store and the strings of its
procedures, each once. -/
def Exact (m : Memory) : Prop := m.Accounted []

theorem references_perm (m : Memory) (slot : UInt8) :
    m.references.Perm ((m.procStore slot).references ++ m.others slot) :=
  (List.perm_cons_erase (Store.mem_allSlots slot)).flatMap_right _

/-- A slot is none of the others. -/
theorem others_update (m : Memory) (heap : Heap Block) (slot : UInt8) (p : StoredProc) :
    others { m with heap := heap, procStore := Function.update m.procStore slot p } slot =
      m.others slot := by
  refine List.flatMap_congr fun s hs => ?_
  have hnodup : allSlots.Nodup := Store.pairwise_allSlots.imp fun h => (UInt8.ne_of_lt h)
  have hne : s ≠ slot := (hnodup.mem_erase_iff.mp hs).1
  show (Function.update m.procStore slot p s).references = _
  rw [Function.update_of_ne hne]

/-- The strings of one slot come before everything else. -/
theorem strings_first (leaked strings others : List Nat) (b : Nat) :
    (leaked ++ b :: (strings ++ others)).Perm (strings ++ (leaked ++ b :: others)) := by
  have hcomm := List.perm_append_comm_assoc (leaked ++ [b]) strings others
  rwa [List.append_assoc, List.append_assoc] at hcomm

theorem init_exact : init.Exact where
  holds := by
    have hrefs : init.references = [] := List.flatMap_eq_nil_iff.mpr fun _ _ => rfl
    rw [hrefs]
    exact Heap.holds_empty.alloc (fun _ => true) Block.store
  written _ := rfl

namespace Accounted

/-- New blocks are lost until somebody has them. -/
theorem alloc (h : m.Accounted leaked) (ok : Nat → Bool) (v : Block) :
    { m with heap := (m.heap.alloc ok v).2 }.Accounted
      ((m.heap.alloc ok v).1.toList ++ leaked) := by
  constructor
  · rw [List.append_assoc]
    exact h.holds.alloc ok v
  · exact h.written

theorem allocAll (h : m.Accounted leaked) (ok : Nat → Bool) (vs : List Block) :
    { m with heap := (m.heap.allocAll ok vs).2 }.Accounted
      ((m.heap.allocAll ok vs).1.reduceOption ++ leaked) := by
  constructor
  · rw [List.append_assoc]
    exact h.holds.allocAll ok vs
  · exact h.written

/-- A block that was lost is freed. -/
theorem free {p : Ptr} (h : m.Accounted (p.toList ++ leaked)) :
    ∃ heap, m.heap.free p = some heap ∧ { m with heap := heap }.Accounted leaked ∧
      ∀ b ∈ m.references, heap.blocks b = m.heap.blocks b := by
  have hholds := h.holds
  rw [List.append_assoc] at hholds
  rcases hholds.free with ⟨heap, hfree, hh, hkept⟩
  refine ⟨heap, hfree, ⟨hh, h.written⟩, fun b hb => hkept b ?_⟩
  exact List.mem_append_right _ (List.mem_cons_of_mem _ hb)

/-- A temporary procedure is freed. -/
theorem freeProc {p : StoredProc} {block : Ptr}
    (h : m.Accounted (p.references ++ (block.toList ++ leaked))) (hw : p.Written) :
    ∃ heap, freeProc m.heap block p = some heap ∧ { m with heap := heap }.Accounted leaked ∧
      ∀ b ∈ m.references, heap.blocks b = m.heap.blocks b := by
  have hholds := h.holds
  rw [List.append_assoc] at hholds
  rcases freeInstructions_spec hw hholds with ⟨heap, hfree, hh, hkept⟩
  have hstrings : { m with heap := heap }.Accounted (block.toList ++ leaked) := ⟨hh, h.written⟩
  rcases hstrings.free with ⟨heap', hfree', haccounted, hkept'⟩
  refine ⟨heap', ?_, haccounted, fun b hb => ?_⟩
  · rw [CspProc.freeProc, hfree]
    exact hfree'
  · rw [hkept' b hb]
    exact hkept b (List.mem_append_right _ (List.mem_cons_of_mem _ hb))

/-- The slot's strings can be counted first. -/
theorem holds_slot (h : m.Accounted leaked) (slot : UInt8) :
    m.heap.Holds ((m.procStore slot).references ++ (leaked ++ m.storeArray :: m.others slot)) := by
  have hrefs := ((m.references_perm slot).cons m.storeArray).append_left leaked
  exact h.holds.perm (hrefs.trans (strings_first ..))

/-- A slot gets a procedure whose strings were lost. -/
theorem setSlot (h : m.Accounted leaked) {heap : Heap Block} {slot : UInt8} {p : StoredProc}
    {leaked' : List Nat}
    (hh : heap.Holds (p.references ++ (leaked' ++ m.storeArray :: m.others slot)))
    (hw : p.Written) :
    { m with heap := heap, procStore := Function.update m.procStore slot p }.Accounted leaked' := by
  constructor
  · have hrefs : references
        { m with heap := heap, procStore := Function.update m.procStore slot p } |>.Perm
          ((Function.update m.procStore slot p slot).references ++ others
            { m with heap := heap, procStore := Function.update m.procStore slot p } slot) :=
      references_perm _ slot
    rw [others_update, Function.update_self] at hrefs
    refine hh.perm ((strings_first ..).symm.trans ?_)
    exact ((hrefs.symm.cons m.storeArray).append_left leaked')
  · intro s
    show (Function.update m.procStore slot p s).Written
    by_cases heq : s = slot
    · rw [heq, Function.update_self]
      exact hw
    · rw [Function.update_of_ne heq]
      exact h.written s

/-- A slot is emptied, and its strings are freed. -/
theorem deleteProcLocked (h : m.Accounted leaked) (slot : UInt8) :
    ∃ heap, m.deleteProcLocked slot =
        some { m with heap := heap, procStore := Function.update m.procStore slot .empty } ∧
      { m with heap := heap, procStore := Function.update m.procStore slot .empty }.Accounted
        leaked ∧
      ∀ b ∈ m.others slot, heap.blocks b = m.heap.blocks b := by
  rcases freeInstructions_spec (h.written slot) (h.holds_slot slot) with ⟨heap, hfree, hh, hkept⟩
  refine ⟨heap, ?_, h.setSlot hh rfl, fun b hb => ?_⟩
  · rw [Memory.deleteProcLocked, hfree]
    rfl
  · exact hkept b (List.mem_append_right _ (List.mem_cons_of_mem _ hb))

/-- An empty slot has no strings. -/
theorem pointers_of_empty (h : m.Accounted leaked) {slot : UInt8}
    (hocc : m.occupied slot = false) :
    (m.procStore slot).instructionCount = 0 ∧ (m.procStore slot).pointers = [] := by
  have hcount : (m.procStore slot).instructionCount = 0 := by
    simpa [occupied, UInt8.pos_iff_ne_zero] using hocc
  have hlen := h.written slot
  rw [StoredProc.Written, hcount] at hlen
  refine ⟨hcount, ?_⟩
  rw [StoredProc.pointers, List.length_eq_zero_iff.mp hlen]
  rfl

/-- In an empty slot a procedure is stored, and there is nothing to free. -/
theorem setProc_empty (h : m.Accounted leaked) {slot : UInt8} (hocc : m.occupied slot = false)
    (proc : StoredProc) :
    m.setProc true proc slot false =
      some ((slot.toNat : Int), { m with procStore := Function.update m.procStore slot proc }) := by
  have hcount := (h.pointers_of_empty hocc).1
  have hdelete : m.deleteProcLocked slot =
      some { m with procStore := Function.update m.procStore slot .empty } := by
    simp [Memory.deleteProcLocked, freeInstructions, hcount, Heap.freeAll]
  simp [setProc, hocc, hdelete]

/-- The strings of the stored procedure are the store's from then on. -/
theorem setSlot_empty {p : StoredProc} (h : m.Accounted (p.references ++ leaked)) {slot : UInt8}
    (hocc : m.occupied slot = false) (hw : p.Written) :
    { m with procStore := Function.update m.procStore slot p }.Accounted leaked := by
  have hholds := h.holds_slot slot
  rw [StoredProc.references, (h.pointers_of_empty hocc).2, List.append_assoc] at hholds
  exact h.setSlot hholds hw

end Accounted

/-! ## Requests -/

theorem setProc_refused {slot : UInt8} (hocc : m.occupied slot = true) (proc : StoredProc) :
    m.setProc true proc slot false = some (-1, m) := by
  simp [setProc, hocc]

/-- The strings of a temporary procedure are lost until somebody has them. -/
theorem Accounted.store (h : m.Accounted leaked) (alloc : Nat → Bool)
    (instructions : List ProcInstruction) (count : UInt8) :
    { m with heap := (storeInstructions alloc m.heap instructions).2 }.Accounted
      (StoredProc.references ⟨(storeInstructions alloc m.heap instructions).1, count⟩ ++
        leaked) := by
  rcases storeInstructions_eq alloc m.heap instructions with ⟨hpointers, hheap⟩
  rw [hheap, StoredProc.references, StoredProc.pointers, hpointers]
  exact h.allocAll ..

/-- The heap of a push after the decoder. -/
def pushHeap (env : MemoryEnv) (m : Memory) (u : Unpacked) : Heap Block :=
  (storeInstructions env.alloc (m.heap.alloc env.alloc .procedure).2 u.procedure.instructions).2

/-- The temporary procedure of a push after the decoder. -/
def pushProc (env : MemoryEnv) (m : Memory) (packet : Packet cfg) (u : Unpacked) : StoredProc :=
  ⟨(storeInstructions env.alloc (m.heap.alloc env.alloc .procedure).2
    u.procedure.instructions).1, packet.byte 2⟩

/-- The blocks that the store refers to keep their contents. -/
def Keeps (m : Memory) (heap : Heap Block) : Prop :=
  ∀ b ∈ m.references, heap.blocks b = m.heap.blocks b

/-- The exits of `proc_serve_push_request`, with what has been lost when it comes
to them. -/
inductive PushExit (env : MemoryEnv) (m : Memory) (packet : Packet cfg) (leaked : List Nat) :
    Option MemoryServed → Prop where
  /-- There is no memory for the temporary procedure. -/
  | noMemory (hok : env.alloc m.heap.calls = false) {heap : Heap Block}
      (haccounted : { m with heap := heap }.Accounted leaked) (hkept : m.Keeps heap) :
      PushExit env m packet leaked (some ⟨{ m with heap := heap }, []⟩)
  /-- The decoder leaves the packet. -/
  | outside (hok : env.alloc m.heap.calls = true)
      (hu : unpackProcFromCspPacket cfg packet = none) : PushExit env m packet leaked none
  /-- An instruction of unknown type, with others behind it that are not written. -/
  | unwritten (hok : env.alloc m.heap.calls = true) {u : Unpacked}
      (hu : unpackProcFromCspPacket cfg packet = some u) (hret : u.ret ≠ 0)
      (hlt : u.procedure.instructions.length < (packet.byte 2).toNat) :
      PushExit env m packet leaked none
  /-- An instruction of unknown type at the end. -/
  | unknown (hok : env.alloc m.heap.calls = true) {u : Unpacked}
      (hu : unpackProcFromCspPacket cfg packet = some u) (hret : u.ret ≠ 0)
      (hlen : u.procedure.instructions.length = (packet.byte 2).toNat) {heap : Heap Block}
      (haccounted : { m with heap := heap }.Accounted leaked) (hkept : m.Keeps heap) :
      PushExit env m packet leaked
        (some (sendReply { m with heap := heap } (packet.shortReply .pushResponse true)))
  /-- The slot is occupied. -/
  | occupied (hok : env.alloc m.heap.calls = true) {u : Unpacked}
      (hu : unpackProcFromCspPacket cfg packet = some u) (hret : u.ret = 0)
      (hmutex : env.mutexTake = true) (hocc : m.occupied (packet.byte 1) = true)
      {heap : Heap Block} (haccounted : { m with heap := heap }.Accounted leaked)
      (hkept : m.Keeps heap) :
      PushExit env m packet leaked
        (some (sendReply { m with heap := heap } (packet.shortReply .pushResponse true)))
  /-- The mutex is not taken, which passes for success. -/
  | unlocked (hok : env.alloc m.heap.calls = true) {u : Unpacked}
      (hu : unpackProcFromCspPacket cfg packet = some u) (hret : u.ret = 0)
      (hmutex : env.mutexTake = false) {lost : List Nat} (hlost : lost ≠ [])
      (haccounted : { m with heap := pushHeap env m u }.Accounted (lost ++ leaked))
      (hkept : m.Keeps (pushHeap env m u)) :
      PushExit env m packet leaked
        (some (sendReply { m with heap := pushHeap env m u }
          (packet.shortReply .pushResponse false)))
  /-- The procedure is stored. -/
  | stored (hok : env.alloc m.heap.calls = true) {u : Unpacked}
      (hu : unpackProcFromCspPacket cfg packet = some u) (hret : u.ret = 0)
      (hmutex : env.mutexTake = true) (hocc : m.occupied (packet.byte 1) = false)
      (haccounted : { m with
        heap := pushHeap env m u
        procStore := Function.update m.procStore (packet.byte 1)
          (pushProc env m packet u) }.Accounted (m.heap.calls :: leaked))
      (hkept : m.Keeps (pushHeap env m u)) :
      PushExit env m packet leaked
        (some (sendReply { m with
          heap := pushHeap env m u
          procStore := Function.update m.procStore (packet.byte 1) (pushProc env m packet u) }
          (packet.shortReply .pushResponse false)))

/-- An allocation for the push keeps what the store refers to. -/
theorem Accounted.keeps_alloc (h : m.Accounted leaked) (ok : Nat → Bool) (v : Block) :
    m.Keeps (m.heap.alloc ok v).2 := by
  intro b hb
  have hlive : (m.heap.blocks b).isSome = true :=
    (h.holds.live b).mpr (List.mem_append_right _ (List.mem_cons_of_mem _ hb))
  rcases Option.isSome_iff_exists.mp hlive with ⟨w, hw⟩
  rw [hw, Heap.blocks_alloc ok v hw]

theorem Accounted.keeps_pushHeap (h : m.Accounted leaked) (env : MemoryEnv) (u : Unpacked) :
    m.Keeps (pushHeap env m u) := by
  intro b hb
  have hlive : (m.heap.blocks b).isSome = true :=
    (h.holds.live b).mpr (List.mem_append_right _ (List.mem_cons_of_mem _ hb))
  rcases Option.isSome_iff_exists.mp hlive with ⟨w, hw⟩
  rw [hw, pushHeap, (storeInstructions_eq ..).2]
  exact Heap.blocks_allocAll _ _ (Heap.blocks_alloc _ _ hw)

/-- With memory for the temporary procedure, the push goes to the decoder. -/
theorem procServePushRequest_eq {env : MemoryEnv} (hok : env.alloc m.heap.calls = true)
    (packet : Packet cfg) :
    m.procServePushRequest env packet =
      (unpackProcFromCspPacket cfg packet).bind fun u =>
        if u.ret < 0 then
          (freeProc (pushHeap env m u) (some m.heap.calls) (pushProc env m packet u)).bind
            fun heap =>
              some (sendReply { m with heap := heap } (packet.shortReply .pushResponse true))
        else
          ({ m with heap := pushHeap env m u }.setProc env.mutexTake (pushProc env m packet u)
              (packet.byte 1) false).bind fun r =>
            if r.1 < 0 then
              (freeProc r.2.heap (some m.heap.calls) (pushProc env m packet u)).bind fun heap =>
                some (sendReply { r.2 with heap := heap } (packet.shortReply .pushResponse true))
            else some (sendReply r.2 (packet.shortReply .pushResponse false)) := by
  have hblock := m.heap.alloc_fst_of_ok hok Block.procedure
  unfold procServePushRequest unpackStored pushHeap pushProc
  generalize m.heap.alloc env.alloc Block.procedure = result at hblock
  rcases result with ⟨block, heap⟩
  cases hblock
  cases unpackProcFromCspPacket cfg packet with
  | none => rfl
  | some u => rfl

/-- After the decoder the push has its temporary procedure and the decoded strings. -/
theorem Accounted.pushed (h : m.Accounted leaked) {env : MemoryEnv}
    (hok : env.alloc m.heap.calls = true) (packet : Packet cfg) (u : Unpacked) :
    { m with heap := pushHeap env m u }.Accounted
      ((pushProc env m packet u).references ++ ((some m.heap.calls).toList ++ leaked)) := by
  have hnew := h.alloc env.alloc Block.procedure
  rw [m.heap.alloc_fst_of_ok hok] at hnew
  exact hnew.store env.alloc u.procedure.instructions (packet.byte 2)

/-- Freeing the temporary procedure gives back what the push has taken. -/
theorem Accounted.freePushed (h : m.Accounted leaked) {env : MemoryEnv}
    (hok : env.alloc m.heap.calls = true) {packet : Packet cfg} {u : Unpacked}
    (hw : (pushProc env m packet u).Written) :
    ∃ heap, CspProc.freeProc (pushHeap env m u) (some m.heap.calls) (pushProc env m packet u) =
        some heap ∧ { m with heap := heap }.Accounted leaked ∧ m.Keeps heap := by
  rcases (h.pushed hok packet u).freeProc hw with ⟨heap, hfree, haccounted, hkept⟩
  exact ⟨heap, hfree, haccounted, fun b hb => (hkept b hb).trans (h.keeps_pushHeap env u b hb)⟩

/-- Instructions that were never written cannot be freed. -/
theorem freePushed_unwritten {env : MemoryEnv} {packet : Packet cfg} {u : Unpacked}
    (hlt : (pushProc env m packet u).instructions.length < (packet.byte 2).toNat) (block : Ptr) :
    CspProc.freeProc (pushHeap env m u) block (pushProc env m packet u) = none := by
  have hunwritten : freeInstructions (pushHeap env m u) (pushProc env m packet u) = none :=
    if_pos hlt
  rw [CspProc.freeProc, hunwritten]
  rfl

/-- The exits of a push whose procedure has been decoded. -/
theorem Accounted.pushExit_decoded (h : m.Accounted leaked) {env : MemoryEnv}
    (hok : env.alloc m.heap.calls = true) {packet : Packet cfg} {u : Unpacked}
    (hu : unpackProcFromCspPacket cfg packet = some u) (hret : u.ret = 0) :
    PushExit env m packet leaked (m.procServePushRequest env packet) := by
  have hw : (pushProc env m packet u).Written :=
    (length_storeInstructions ..).trans (length_of_unpack hu hret)
  have hkept := h.keeps_pushHeap env u
  have htemp := h.pushed hok packet u
  rw [procServePushRequest_eq hok, hu, Option.bind_some, if_neg (by omega)]
  cases hmutex : env.mutexTake with
  | false =>
      rw [← List.append_assoc] at htemp
      exact .unlocked hok hu hret hmutex (by simp) htemp hkept
  | true =>
      cases hocc : m.occupied (packet.byte 1) with
      | true =>
          have hocc' : { m with heap := pushHeap env m u }.occupied (packet.byte 1) = true := hocc
          rcases h.freePushed hok hw with ⟨heap, hfree, haccounted, hkept'⟩
          rw [setProc_refused hocc', Option.bind_some, if_pos (by simp), hfree, Option.bind_some]
          exact .occupied hok hu hret hmutex hocc haccounted hkept'
      | false =>
          rw [htemp.setProc_empty hocc, Option.bind_some, if_neg (by simp)]
          exact .stored hok hu hret hmutex hocc (htemp.setSlot_empty hocc hw) hkept

/-- The exits of a push that the decoder has given up. -/
theorem Accounted.pushExit_refused (h : m.Accounted leaked) {env : MemoryEnv}
    (hok : env.alloc m.heap.calls = true) {packet : Packet cfg} {u : Unpacked}
    (hu : unpackProcFromCspPacket cfg packet = some u) (hret : u.ret < 0) :
    PushExit env m packet leaked (m.procServePushRequest env packet) := by
  have hne : u.ret ≠ 0 := by omega
  have hlen : (pushProc env m packet u).instructions.length =
      u.procedure.instructions.length := length_storeInstructions ..
  have hle : u.procedure.instructions.length ≤ (packet.byte 2).toNat := (stops_unpack hu).length_le
  rw [procServePushRequest_eq hok, hu, Option.bind_some, if_pos hret]
  by_cases hlt : u.procedure.instructions.length < (packet.byte 2).toNat
  · rw [freePushed_unwritten (by rw [hlen]; exact hlt), Option.bind_none]
    exact .unwritten hok hu hne hlt
  · have heq := Nat.le_antisymm hle (Nat.le_of_not_lt hlt)
    rcases h.freePushed hok (hlen.trans heq) with ⟨heap, hfree, haccounted, hkept⟩
    rw [hfree, Option.bind_some]
    exact .unknown hok hu hne heq haccounted hkept

/-- Every push comes to one of its exits. -/
theorem Accounted.pushExit (h : m.Accounted leaked) (env : MemoryEnv) (packet : Packet cfg) :
    PushExit env m packet leaked (m.procServePushRequest env packet) := by
  cases hok : env.alloc m.heap.calls with
  | false =>
      have hnew := h.alloc env.alloc Block.procedure
      have hblock := m.heap.alloc_fst_of_failed hok Block.procedure
      have hexit : m.procServePushRequest env packet =
          some ⟨{ m with heap := (m.heap.alloc env.alloc Block.procedure).2 }, []⟩ := by
        simp [procServePushRequest, hblock]
      rw [hblock] at hnew
      rw [hexit]
      exact .noMemory hok hnew (h.keeps_alloc env.alloc Block.procedure)
  | true =>
      cases hu : unpackProcFromCspPacket cfg packet with
      | none =>
          rw [procServePushRequest_eq hok, hu]
          exact .outside hok hu
      | some u =>
          rcases unpackData_ret hu with hret | hret
          · exact h.pushExit_decoded hok hu hret
          · exact h.pushExit_refused hok hu (by omega)

/-! ## The other requests -/

/-- A list of the slots is allocated and freed again, or the request has no
result. -/
theorem Accounted.slotsExit (h : m.Accounted leaked) (env : MemoryEnv) (packet : Packet cfg) :
    (m.procServeSlotsRequest env packet = none ∧
      (env.alloc m.heap.calls = false ∨ env.mutexTake = false ∨
        putSlots m.slotList 1 (packet.shortReply .slotsResponse false) = none)) ∨
    ∃ heap reply, m.procServeSlotsRequest env packet =
        some (sendReply { m with heap := heap } reply) ∧
      env.alloc m.heap.calls = true ∧ env.mutexTake = true ∧
      putSlots m.slotList 1 (packet.shortReply .slotsResponse false) = some reply ∧
      { m with heap := heap }.Accounted leaked ∧ m.Keeps heap := by
  cases hok : env.alloc m.heap.calls with
  | false =>
      -- the list is written through NULL, or read through it without the mutex
      refine .inl ⟨?_, .inl rfl⟩
      cases hmutex : env.mutexTake <;>
        simp [procServeSlotsRequest, getProcSlots, Heap.alloc, hok, hmutex, Heap.load]
  | true =>
      cases hmutex : env.mutexTake with
      | false =>
          refine .inl ⟨?_, .inr (.inl rfl)⟩
          simp [procServeSlotsRequest, getProcSlots, Heap.alloc, hok, hmutex, Heap.load]
      | true =>
          -- the list is one block, allocated and freed in the handler
          have hnew := h.alloc env.alloc Block.slots
          have hload := m.heap.load_alloc env.alloc Block.slots
          have hkept := h.keeps_alloc env.alloc Block.slots
          have hblock := m.heap.alloc_fst_of_ok hok Block.slots
          generalize halloc : m.heap.alloc env.alloc Block.slots = result at *
          rcases result with ⟨block, heap⟩
          cases hblock
          rcases hnew.free with ⟨heap', hfree, haccounted, hkept'⟩
          have hserve : m.procServeSlotsRequest env packet =
              (putSlots m.slotList 1 (packet.shortReply .slotsResponse false)).map fun reply =>
                sendReply { m with heap := heap' } reply := by
            rcases hload with hnull | hload
            · cases hnull
            · dsimp only at hload hfree
              simp only [procServeSlotsRequest, getProcSlots, halloc, hmutex, hload, hfree,
                Bool.true_eq_false, if_false, Option.isSome_some, if_true, Option.bind_eq_bind,
                Option.bind_some]
              cases putSlots m.slotList 1 (packet.shortReply .slotsResponse false) <;> rfl
          rw [hserve]
          cases hput : putSlots m.slotList 1 (packet.shortReply .slotsResponse false) with
          | none => exact .inl ⟨rfl, .inr (.inr rfl)⟩
          | some reply =>
              refine .inr ⟨heap', reply, rfl, rfl, rfl, rfl, haccounted, fun b hb => ?_⟩
              exact (hkept' b hb).trans (hkept b hb)

/-- A delete empties the slot, or nothing without the mutex. -/
theorem Accounted.delExit (h : m.Accounted leaked) (env : MemoryEnv) (packet : Packet cfg) :
    ∃ m', m.procServeDelRequest env packet =
        some (sendReply m' (packet.shortReply .delResponse false)) ∧
      m'.Accounted leaked ∧ (m' = m ∨ ∃ heap,
        m' = { m with
          heap := heap
          procStore := Function.update m.procStore (packet.byte 1) .empty } ∧
        ∀ b ∈ m.others (packet.byte 1), heap.blocks b = m.heap.blocks b) := by
  cases hmutex : env.mutexTake with
  | false =>
      refine ⟨m, ?_, h, .inl rfl⟩
      simp [procServeDelRequest, deleteProc, hmutex]
  | true =>
      rcases h.deleteProcLocked (packet.byte 1) with ⟨heap, hdelete, haccounted, hkept⟩
      refine ⟨_, ?_, haccounted, .inr ⟨heap, rfl, hkept⟩⟩
      simp [procServeDelRequest, deleteProc, hmutex, hdelete]

theorem procServePullRequest_memory {env : MemoryEnv} {packet : Packet cfg} {r : MemoryServed}
    (h : m.procServePullRequest env packet = some r) : r.memory = m := by
  simp only [procServePullRequest] at h
  split at h
  · cases h
    rfl
  · cases h
  · simp only [Option.bind_eq_bind, Option.bind_eq_some_iff, Prod.exists] at h
    rcases h with ⟨_, -, ret, packet', -, h⟩
    split at h <;> cases h <;> rfl

theorem procServeRunRequest_memory {env : MemoryEnv} {packet : Packet cfg} {r : MemoryServed}
    (h : m.procServeRunRequest env packet = some r) : r.memory = m := by
  simp only [procServeRunRequest] at h
  split at h
  · cases h
    rfl
  · simp only [Option.bind_eq_bind, Option.bind_eq_some_iff] at h
    rcases h with ⟨ret, -, h⟩
    split at h <;> cases h <;> rfl

/-! ## Conservation -/

/-- The request is a push that leaves its temporary procedure behind: it is
decoded, and either stored in an empty slot or, without the mutex, taken for
stored. -/
def leaves (env : MemoryEnv) (m : Memory) (packet : Packet cfg) : Bool :=
  packet.type = some .pushRequest && env.alloc m.heap.calls &&
    (unpackProcFromCspPacket cfg packet).any (fun u => u.ret = 0) &&
      !(env.mutexTake && m.occupied (packet.byte 1))

/-- A request loses something exactly when it leaves a temporary procedure
behind. -/
theorem Accounted.procServe (h : m.Accounted leaked) {env : MemoryEnv} {packet : Packet cfg}
    {r : MemoryServed} (hserve : m.procServe env packet = some r) :
    ∃ lost, r.memory.Accounted (lost ++ leaked) ∧ (lost = [] ↔ leaves env m packet = false) := by
  unfold Memory.procServe at hserve
  split at hserve
  case h_1 htype =>
    rcases h.delExit env packet with ⟨m', hexit, haccounted, -⟩
    cases hserve.symm.trans hexit
    exact ⟨[], haccounted, iff_of_true rfl (by simp [leaves, htype])⟩
  case h_2 htype =>
    rw [procServePullRequest_memory hserve]
    exact ⟨[], h, iff_of_true rfl (by simp [leaves, htype])⟩
  case h_3 htype =>
    have hexit := h.pushExit env packet
    rw [hserve] at hexit
    cases hexit with
    | noMemory hok haccounted =>
        exact ⟨[], haccounted, iff_of_true rfl (by simp [leaves, hok])⟩
    | unknown hok hu hret hlen haccounted =>
        exact ⟨[], haccounted, iff_of_true rfl (by simp [leaves, hu, hret])⟩
    | occupied hok hu hret hmutex hocc haccounted =>
        exact ⟨[], haccounted, iff_of_true rfl (by simp [leaves, hmutex, hocc])⟩
    | unlocked hok hu hret hmutex hlost haccounted =>
        exact ⟨_, haccounted, iff_of_false hlost (by simp [leaves, htype, hok, hu, hret, hmutex])⟩
    | stored hok hu hret hmutex hocc haccounted =>
        refine ⟨[m.heap.calls], haccounted, iff_of_false (by simp) ?_⟩
        simp [leaves, htype, hok, hu, hret, hocc]
  case h_4 htype =>
    rcases h.slotsExit env packet with ⟨hnone, -⟩ | ⟨heap, reply, hexit, -, -, -, haccounted, -⟩
    · rw [hnone] at hserve
      cases hserve
    · cases hserve.symm.trans hexit
      exact ⟨[], haccounted, iff_of_true rfl (by simp [leaves, htype])⟩
  case h_5 htype =>
    rw [procServeRunRequest_memory hserve]
    exact ⟨[], h, iff_of_true rfl (by simp [leaves, htype])⟩
  case h_6 hpush _ _ =>
    cases hserve
    have hne : packet.type ≠ some .pushRequest := hpush
    exact ⟨[], h, iff_of_true rfl (by simp [leaves, hne])⟩

/-- One request is served. -/
def next (m : Memory) (request : MemoryEnv × Packet cfg) : Option Memory :=
  (m.procServe request.1 request.2).map MemoryServed.memory

/-- Nothing has been lost exactly when the list of what has been lost is empty. -/
theorem Accounted.exact_iff (h : m.Accounted leaked) : m.Exact ↔ leaked = [] := by
  constructor
  · intro hexact
    have hlen := (h.holds.unique hexact.holds).length_eq
    simp only [List.length_append, List.length_cons, List.length_nil] at hlen
    exact List.length_eq_zero_iff.mp (by omega)
  · rintro rfl
    exact h

/-- What is lost stays lost: the heap is exact at the end exactly when no request
on the way has left its temporary procedure behind. -/
theorem heap_conserved_iff {m₀ m : Memory} (h₀ : m₀.Exact)
    {requests : List (MemoryEnv × Packet cfg)}
    (h : Reaches next (fun _ _ => True) m₀ requests m) :
    m.Exact ↔
      Reaches next (fun m request => leaves request.1 m request.2 = false) m₀ requests m := by
  have hinv : ∃ leaked, m.Accounted leaked ∧ (leaked = [] ↔
      Reaches next (fun m request => leaves request.1 m request.2 = false) m₀ requests m) := by
    refine h.ledger (P := Accounted) h₀ ?_
    intro m leaked request m' haccounted hnext
    rcases Option.map_eq_some_iff.mp hnext with ⟨r, hserve, rfl⟩
    exact haccounted.procServe hserve
  rcases hinv with ⟨leaked, haccounted, hiff⟩
  rw [haccounted.exact_iff, hiff]

/-- Everything works, and there is no runtime. -/
def workingEnv : MemoryEnv := ⟨fun _ => true, true, none⟩

/-- Sets the parameter d to the value of e. -/
def setInstruction : ProcInstruction := ⟨0, .set (.ofBytes [100] rfl) (.ofBytes [101] rfl)⟩

/-- The memory in which slot 9 has one instruction, with two strings. -/
def oneProcMemory : Memory where
  heap := (storeInstructions workingEnv.alloc init.heap [setInstruction]).2
  procStore := Function.update init.procStore 9
    ⟨(storeInstructions workingEnv.alloc init.heap [setInstruction]).1, 1⟩
  storeArray := init.storeArray

theorem oneProcMemory_exact : oneProcMemory.Exact :=
  (init_exact.store workingEnv.alloc [setInstruction] 1).setSlot_empty rfl rfl

/-- A push to slot 9, which is occupied, a delete of the slot, a list of the slots
and a pull of the slot. -/
def balancedRequests : List (MemoryEnv × Packet .default) :=
  [(workingEnv, .ofBytes [0x74, 9, 1, 0, 0, 2, 100, 0, 101, 0] [] (by decide)),
    (workingEnv, .ofBytes [0x70, 9] [] (by decide)), (workingEnv, .ofBytes [0x76] [] (by decide)),
    (workingEnv, .ofBytes [0x72, 9] [] (by decide))]

theorem heap_conserved_iff_balancedRequests : ∃ m,
    Reaches next (fun _ _ => True) oneProcMemory balancedRequests m ∧ m.Exact := by
  have htaken : (balancedRequests.foldlM
      (guarded next fun m request => leaves request.1 m request.2 = false)
      oneProcMemory).isSome = true := by
    decide +kernel
  have hkept := Reaches.of_foldlM (Option.some_get htaken).symm
  have hreaches : Reaches next (fun _ _ => True) oneProcMemory balancedRequests _ :=
    hkept.mono fun _ _ _ => trivial
  exact ⟨_, hreaches, (heap_conserved_iff oneProcMemory_exact hreaches).mpr hkept⟩

/-- A push of one `noop` to slot 9, which is empty. -/
def noopPush : Packet .default := .ofBytes [0x74, 9, 1, 0, 0, 6] [] (by decide)

theorem noopPush_not_conserved : ∃ m,
    Reaches next (fun _ _ => True) init [(workingEnv, noopPush)] m ∧ ¬ m.Exact := by
  have hlost : ([(workingEnv, noopPush)].foldlM (guarded next fun _ _ => True) init).any
      (fun m => (m.heap.blocks 1).isSome ∧ 1 ∉ m.storeArray :: m.references) = true := by
    decide +kernel
  rw [Option.any_eq_true] at hlost
  rcases hlost with ⟨m, hm, hblock⟩
  rcases of_decide_eq_true hblock with ⟨hlive, hnot⟩
  exact ⟨m, .of_foldlM hm, fun hexact => hnot ((hexact.holds.live 1).mp hlive)⟩

end Memory

end CspProc
