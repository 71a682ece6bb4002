import CspProc.Ownership
import CspProc.Replies

/-! # What becomes of a request's packet

Every packet that comes in is to go out as one reply, or to be freed, once. In
memory that depends on the strings of the store too: a string that could not
be copied is a null pointer, which the encoder reads.

`Memory.Sound` says what the server relies on, and is kept by every request
(`Sound.procServe`). `disposedOnce_iff` says for any sound memory when a
request's packet is disposed of exactly once.
-/

/-! ## Traversals that may fail -/

/-- A traversal succeeds when it does at every element. -/
theorem List.isSome_mapM_iff {α β : Type} {f : α → Option β} {xs : List α} :
    (xs.mapM f).isSome = true ↔ ∀ x ∈ xs, (f x).isSome = true := by
  induction xs with
  | nil => simp
  | cons x xs ih =>
      rw [List.mapM_cons, List.forall_mem_cons, ← ih]
      cases f x with
      | none => simp
      | some y => cases xs.mapM f <;> simp

theorem List.mapM_mono {α β : Type} {f g : α → Option β} {xs : List α} {ys : List β}
    (hfg : ∀ x ∈ xs, ∀ y, f x = some y → g x = some y) (h : xs.mapM f = some ys) :
    xs.mapM g = some ys := by
  induction xs generalizing ys with
  | nil => exact h
  | cons x xs ih =>
      simp only [List.mapM_cons, Option.bind_eq_bind, Option.bind_eq_some_iff] at h ⊢
      rcases h with ⟨y, hy, zs, hzs, hys⟩
      rcases List.forall_mem_cons.mp hfg with ⟨hx, hrest⟩
      exact ⟨y, hx y hy, zs, ih hrest hzs, hys⟩

theorem List.length_of_mapM {α β : Type} {f : α → Option β} {xs : List α} {ys : List β}
    (h : xs.mapM f = some ys) : ys.length = xs.length := by
  induction xs generalizing ys with
  | nil =>
      cases h
      rfl
  | cons x xs ih =>
      simp only [List.mapM_cons, Option.bind_eq_bind, Option.bind_eq_some_iff] at h
      rcases h with ⟨y, -, zs, hzs, hys⟩
      cases hys
      exact congrArg (· + 1) (ih hzs)

namespace CspProc

variable {cfg : Config}

/-! ## Reading strings -/

section Load

variable {heap heap' : Heap Block}

theorem loadString_eq_some {p : Ptr} {s : CStr} :
    loadString heap p = some s ↔ heap.load p = some (.string s) := by
  unfold loadString
  constructor
  · intro h
    split at h
    · cases h
      assumption
    · cases h
  · intro h
    rw [h]

/-- The instruction with the given strings. -/
def StoredInstruction.withStrings : StoredInstruction → List CStr → Option Instruction
  | .block _ op _, [paramA, paramB] => some (.block paramA op paramB)
  | .ifelse _ op _, [paramA, paramB] => some (.ifelse paramA op paramB)
  | .set _ _, [param, value] => some (.set param value)
  | .unop _ op _, [param, result] => some (.unop param op result)
  | .binop _ op _ _, [paramA, paramB, result] => some (.binop paramA op paramB result)
  | .call procedureSlot, [] => some (.call procedureSlot)
  | .noop, [] => some .noop
  | .unknown type h, [] => some (.unknown type h)
  | _, _ => none

namespace StoredInstruction

variable {ins : StoredInstruction} {i : Instruction}

/-- An instruction is read by way of its strings. -/
theorem load_eq (heap : Heap Block) (ins : StoredInstruction) :
    ins.load heap = (ins.pointers.mapM (loadString heap)).bind ins.withStrings := by
  cases ins
  all_goals
    simp only [load, pointers, List.mapM_cons, List.mapM_nil, Option.bind_eq_bind, Option.pure_def,
      Option.bind_assoc, Option.bind_some]
    rfl

/-- As many strings as there are pointers make an instruction. -/
theorem isSome_withStrings {strings : List CStr} (hlen : strings.length = ins.pointers.length) :
    (ins.withStrings strings).isSome = true := by
  match ins, strings with
  | .block .., [_, _] | .ifelse .., [_, _] | .set .., [_, _] | .unop .., [_, _]
  | .binop .., [_, _, _] | .call _, [] | .noop, [] | .unknown .., [] => rfl

theorem isSome_load_iff :
    (ins.load heap).isSome = true ↔ ∀ p ∈ ins.pointers, (loadString heap p).isSome = true := by
  rw [load_eq, ← List.isSome_mapM_iff]
  cases hstrings : ins.pointers.mapM (loadString heap) with
  | none => rfl
  | some strings => exact iff_of_true (isSome_withStrings (List.length_of_mapM hstrings)) rfl

/-- Where the blocks are kept, so is the instruction. -/
theorem load_mono
    (hkept : ∀ b, some b ∈ ins.pointers → ∀ v, heap.blocks b = some v → heap'.blocks b = some v)
    (h : ins.load heap = some i) : ins.load heap' = some i := by
  rw [load_eq] at h ⊢
  rcases Option.bind_eq_some_iff.mp h with ⟨strings, hstrings, hi⟩
  have hmono : ins.pointers.mapM (loadString heap') = some strings := by
    refine List.mapM_mono (fun p hp s hs => ?_) hstrings
    rw [loadString_eq_some] at hs ⊢
    rcases Option.bind_eq_some_iff.mp hs with ⟨b, rfl, hblock⟩
    exact hkept b hp _ hblock
  rw [hmono]
  exact hi

end StoredInstruction

/-- The decoder's copy of an instruction, as long as no string is missing. -/
theorem load_storeInstruction (alloc : Nat → Bool) (heap : Heap Block) (ins : Instruction)
    (hnull : none ∉ (storeInstruction alloc heap ins).1.pointers) :
    (storeInstruction alloc heap ins).1.load (storeInstruction alloc heap ins).2 = some ins := by
  have hshape : (storeInstruction alloc heap ins).1.withStrings ins.strings = some ins := by
    cases ins <;> rfl
  rcases storeInstruction_eq alloc heap ins with ⟨hpointers, hheap⟩
  have hloads := heap.load_allocAll alloc (ins.strings.map .string)
  rw [← hpointers, ← hheap, List.forall₂_map_right_iff] at hloads
  rw [StoredInstruction.load_eq]
  generalize storeInstruction alloc heap ins = result at hnull hshape hloads
  have hstrings : result.1.pointers.mapM (loadString result.2) = some ins.strings := by
    generalize result.1.pointers = ps at hnull hloads
    generalize ins.strings = strings at hloads
    clear hshape
    induction hloads with
    | nil => rfl
    | @cons p s ps strings hload _ ih =>
        rcases not_or.mp (fun h => hnull (List.mem_cons.mpr h)) with ⟨hp, hps⟩
        rcases hload with hnone | hload
        · exact absurd hnone.symm hp
        · simp [List.mapM_cons, loadString_eq_some.mpr hload, ih hps]
  rw [hstrings]
  exact hshape

/-- The decoder's copies of instructions, as long as no string is missing. -/
theorem load_storeInstructions (alloc : Nat → Bool) (heap : Heap Block)
    (instructions : List ProcInstruction)
    (hnull : none ∉ (storeInstructions alloc heap instructions).1.flatMap
      (·.instruction.pointers)) :
    (storeInstructions alloc heap instructions).1.mapM
      (·.load (storeInstructions alloc heap instructions).2) = some instructions := by
  induction instructions generalizing heap with
  | nil => rfl
  | cons ins rest ih =>
      simp only [storeInstructions, List.flatMap_cons, List.mem_append, not_or] at hnull ⊢
      rcases hnull with ⟨hhead, htail⟩
      have hins := load_storeInstruction alloc heap ins.instruction hhead
      -- the copies behind it leave the instruction alone
      have hkept : (storeInstruction alloc heap ins.instruction).1.load
          (storeInstructions alloc (storeInstruction alloc heap ins.instruction).2 rest).2 =
            some ins.instruction := by
        refine StoredInstruction.load_mono (fun b _ v hv => ?_) hins
        rw [(storeInstructions_eq alloc _ rest).2]
        exact Heap.blocks_allocAll alloc _ hv
      have hfirst : StoredProcInstruction.load
          (storeInstructions alloc (storeInstruction alloc heap ins.instruction).2 rest).2
          ⟨ins.node, (storeInstruction alloc heap ins.instruction).1⟩ = some ins := by
        rw [StoredProcInstruction.load, hkept]
        rfl
      rw [List.mapM_cons, hfirst, ih _ htail]
      rfl

namespace StoredProc

variable {p : StoredProc} {proc : Proc}

theorem load_eq_some_iff :
    p.load heap = some proc ↔
      p.Written ∧ p.instructions.mapM (·.load heap) = some proc.instructions := by
  unfold load
  constructor
  · intro h
    rcases Option.bind_eq_some_iff.mp h with ⟨instructions, hmap, h⟩
    split at h
    · split at h
      · cases h
        exact ⟨‹_›, hmap⟩
      · cases h
    · cases h
  · rintro ⟨hw, hmap⟩
    simp [hmap, hw, proc.length_le]

/-- A procedure can be read when all of its strings can. -/
theorem isSome_load_iff (hw : p.Written) :
    (p.load heap).isSome = true ↔ ∀ ptr ∈ p.pointers, (loadString heap ptr).isSome = true := by
  have hinstructions : (p.instructions.mapM (StoredProcInstruction.load heap)).isSome = true ↔
      ∀ ptr ∈ p.pointers, (loadString heap ptr).isSome = true := by
    simp only [List.isSome_mapM_iff, StoredProcInstruction.load, Option.isSome_map,
      StoredInstruction.isSome_load_iff, pointers, List.mem_flatMap]
    constructor
    · rintro h ptr ⟨ins, hins, hptr⟩
      exact h ins hins ptr hptr
    · intro h ins hins ptr hptr
      exact h ptr ⟨ins, hins, hptr⟩
  rw [← hinstructions]
  constructor
  · intro h
    rcases Option.isSome_iff_exists.mp h with ⟨proc, hload⟩
    rw [(load_eq_some_iff.mp hload).2]
    rfl
  · intro h
    rcases Option.isSome_iff_exists.mp h with ⟨instructions, hmap⟩
    have hlen : instructions.length ≤ maxInstructions := by
      have hlt := p.instructionCount.toNat_lt
      rw [List.length_of_mapM hmap, hw]
      exact Nat.le_of_lt_succ hlt
    have hload : p.load heap = some ⟨instructions, hlen⟩ := load_eq_some_iff.mpr ⟨hw, hmap⟩
    rw [hload]
    rfl

theorem load_mono
    (hkept : ∀ b ∈ p.references, ∀ v, heap.blocks b = some v → heap'.blocks b = some v)
    (h : p.load heap = some proc) : p.load heap' = some proc := by
  rw [load_eq_some_iff] at h ⊢
  refine ⟨h.1, List.mapM_mono (fun ins hins i hi => ?_) h.2⟩
  rcases Option.map_eq_some_iff.mp hi with ⟨instruction, hload, rfl⟩
  have hload' := StoredInstruction.load_mono (fun b hb v hv => by
    refine hkept b ?_ v hv
    rw [references, List.reduceOption_mem_iff]
    exact List.mem_flatMap.mpr ⟨ins, hins, hb⟩) hload
  rw [StoredProcInstruction.load, hload']
  rfl

end StoredProc

end Load

/-! ## Sound memory -/

/-- The encoder stays within its `int`s and the packet. -/
def Packable (cfg : Config) (proc : Proc) : Prop :=
  proc.Known ∧ SizeJudged cfg (Wire.procBytes cfg proc).length

/-- What a packet held can be packed again. -/
theorem packable_of_unpack {packet : Packet cfg} {u : Unpacked}
    (h : unpackProcFromCspPacket cfg packet = some u) (hret : u.ret = 0) :
    Packable cfg u.procedure := by
  rcases u with ⟨ret, proc, offset⟩
  obtain rfl : ret = 0 := hret
  rcases (unpackData_zero_iff packet.data proc offset).mp h with ⟨hwf, hpre, -⟩
  have hlen := hpre.length_le
  have hbuf := cfg.buffer_lt
  rw [List.length_drop, packet.data_length] at hlen
  have hsize : (Wire.procBytes cfg proc).length < 2 ^ 31 - 2 := by omega
  exact ⟨hwf.known, .inl hsize⟩

/-- The encoder is defined on what it can deal with. -/
theorem Packable.pack {proc : Proc} (h : Packable cfg proc) (packet : Packet cfg) :
    (∃ packet', packProcIntoCspPacket cfg proc packet = some (-1, packet')) ∨
    ∃ hfit, packProcIntoCspPacket cfg proc packet = some (0, packet.encoded proc hfit) := by
  by_cases hfit : 2 + (Wire.procBytes cfg proc).length ≤ cfg.cspBufferSize
  · exact .inr ⟨hfit, pack_of_fits h.1 packet hfit⟩
  · left
    rw [pack_of_large h.1 packet (Nat.lt_of_not_le hfit), if_pos h.2]
    exact ⟨packet, rfl⟩

/-- The strings of a procedure are strings, and the encoder can deal with it. -/
structure Readable (cfg : Config) (heap : Heap Block) (p : StoredProc) : Prop where
  strings : ∀ b ∈ p.references, ∃ s, heap.blocks b = some (.string s)
  packable : ∀ proc, p.load heap = some proc → Packable cfg proc

namespace Readable

variable {heap heap' : Heap Block} {p : StoredProc}

theorem empty (heap : Heap Block) : Readable cfg heap .empty where
  strings _ hb := nomatch hb
  packable proc h := by
    have hnone := (StoredProc.load_eq_some_iff.mp h).2
    have hnil : proc.instructions = [] := (Option.some.inj hnone).symm
    refine ⟨?_, .inl ?_⟩
    · rw [Proc.Known, hnil]
      exact List.forall_mem_nil _
    · rw [Wire.procBytes, hnil]
      show 1 < 2 ^ 31 - 2
      decide

/-- Where the strings are kept, so is all of it. -/
theorem congr (h : Readable cfg heap p)
    (hkept : ∀ b ∈ p.references, heap'.blocks b = heap.blocks b) : Readable cfg heap' p where
  strings b hb := by
    rw [hkept b hb]
    exact h.strings b hb
  packable proc hload := by
    refine h.packable proc (StoredProc.load_mono (fun b hb v hv => ?_) hload)
    rw [← hkept b hb]
    exact hv

/-- A string can be read when its pointer is not null. -/
theorem isSome_load_iff (h : Readable cfg heap p) (hw : p.Written) :
    (p.load heap).isSome = true ↔ none ∉ p.pointers := by
  rw [StoredProc.isSome_load_iff hw]
  constructor
  · intro hsome hnull
    cases hsome none hnull
  · intro hnull ptr hptr
    cases ptr with
    | none => exact absurd hptr hnull
    | some b =>
        have hb : b ∈ p.references := by
          rw [StoredProc.references, List.reduceOption_mem_iff]
          exact hptr
        rcases h.strings b hb with ⟨s, hs⟩
        have hload : loadString heap (some b) = some s := loadString_eq_some.mpr hs
        rw [hload]
        rfl

end Readable

namespace Memory

variable {m : Memory} {leaked : List Nat}

/-- The live blocks are accounted for, and the procedures of the store can be
read and packed, as far as their strings could be copied. -/
structure Sound (cfg : Config) (m : Memory) : Prop where
  accounted : ∃ leaked, m.Accounted leaked
  readable : ∀ slot, Readable cfg m.heap (m.procStore slot)

theorem init_sound : init.Sound cfg := ⟨⟨[], init_exact⟩, fun _ => .empty _⟩

/-- The temporary procedure of a push. -/
theorem readable_pushProc {env : MemoryEnv} {packet : Packet cfg} {u : Unpacked}
    (hu : unpackProcFromCspPacket cfg packet = some u) (hret : u.ret = 0) :
    Readable cfg (pushHeap env m u) (pushProc env m packet u) where
  strings b hb := by
    rcases storeInstructions_eq env.alloc (m.heap.alloc env.alloc .procedure).2
      u.procedure.instructions with ⟨hpointers, hheap⟩
    rw [StoredProc.references, List.reduceOption_mem_iff, StoredProc.pointers, pushProc,
      hpointers] at hb
    rcases Heap.exists_of_mem_allocAll _ _ hb with ⟨v, hv, hblock⟩
    rcases List.mem_map.mp hv with ⟨s, -, rfl⟩
    rw [pushHeap, hheap]
    exact ⟨s, hblock⟩
  packable proc hload := by
    rcases StoredProc.load_eq_some_iff.mp hload with ⟨hw, hmap⟩
    have hnull : none ∉ (pushProc env m packet u).pointers := by
      intro hmem
      have hsome : ((pushProc env m packet u).load (pushHeap env m u)).isSome = true := by
        rw [hload]
        rfl
      cases (StoredProc.isSome_load_iff hw).mp hsome none hmem
    have hcopied := load_storeInstructions env.alloc (m.heap.alloc env.alloc .procedure).2
      u.procedure.instructions hnull
    obtain rfl : u.procedure = proc := Proc.ext (Option.some.inj (hcopied.symm.trans hmap))
    exact packable_of_unpack hu hret

theorem mem_references {b : Nat} {slot : UInt8} (hb : b ∈ (m.procStore slot).references) :
    b ∈ m.references :=
  List.mem_flatMap.mpr ⟨slot, Store.mem_allSlots slot, hb⟩

theorem mem_others {b : Nat} {slot s : UInt8} (hne : s ≠ slot)
    (hb : b ∈ (m.procStore s).references) : b ∈ m.others slot := by
  refine List.mem_flatMap.mpr ⟨s, ?_, hb⟩
  exact (List.mem_erase_of_ne hne).mpr (Store.mem_allSlots s)

namespace Sound

/-- The store keeps its procedures and their strings. -/
theorem keep (h : m.Sound cfg) {heap : Heap Block} {leaked : List Nat}
    (haccounted : { m with heap := heap }.Accounted leaked) (hkept : m.Keeps heap) :
    { m with heap := heap }.Sound cfg where
  accounted := ⟨leaked, haccounted⟩
  readable slot := (h.readable slot).congr fun b hb => hkept b (mem_references hb)

/-- One slot gets a procedure that can be read, and the others keep theirs. -/
theorem setSlot (h : m.Sound cfg) {heap : Heap Block} {slot : UInt8} {p : StoredProc}
    {leaked : List Nat}
    (haccounted : { m with
      heap := heap
      procStore := Function.update m.procStore slot p }.Accounted leaked)
    (hp : Readable cfg heap p) (hkept : ∀ b ∈ m.others slot, heap.blocks b = m.heap.blocks b) :
    { m with heap := heap, procStore := Function.update m.procStore slot p }.Sound cfg where
  accounted := ⟨leaked, haccounted⟩
  readable s := by
    show Readable cfg heap (Function.update m.procStore slot p s)
    by_cases heq : s = slot
    · rw [heq, Function.update_self]
      exact hp
    · rw [Function.update_of_ne heq]
      exact (h.readable s).congr fun b hb => hkept b (mem_others heq hb)

/-- Every request keeps the memory sound. -/
theorem procServe (h : m.Sound cfg) {env : MemoryEnv} {packet : Packet cfg} {r : MemoryServed}
    (hserve : m.procServe env packet = some r) : r.memory.Sound cfg := by
  rcases h.accounted with ⟨leaked, haccounted⟩
  unfold Memory.procServe at hserve
  split at hserve
  case h_1 =>
    rcases haccounted.delExit env packet with ⟨m', hexit, haccounted', hm'⟩
    cases hserve.symm.trans hexit
    rcases hm' with rfl | ⟨heap, rfl, hkept⟩
    · exact h
    · exact h.setSlot haccounted' (.empty heap) hkept
  case h_2 =>
    rw [procServePullRequest_memory hserve]
    exact h
  case h_3 =>
    have hexit := haccounted.pushExit env packet
    rw [hserve] at hexit
    cases hexit with
    | noMemory _ haccounted' hkept => exact h.keep haccounted' hkept
    | unknown _ _ _ _ haccounted' hkept => exact h.keep haccounted' hkept
    | occupied _ _ _ _ _ haccounted' hkept => exact h.keep haccounted' hkept
    | unlocked _ _ _ _ _ haccounted' hkept => exact h.keep haccounted' hkept
    | stored _ hu hret _ _ haccounted' hkept =>
        refine h.setSlot haccounted' (readable_pushProc hu hret) fun b hb => hkept b ?_
        rcases List.mem_flatMap.mp hb with ⟨s, -, hs⟩
        exact mem_references hs
  case h_4 =>
    rcases haccounted.slotsExit env packet with
      ⟨hnone, -⟩ | ⟨heap, reply, hexit, -, -, -, haccounted', hkept⟩
    · rw [hnone] at hserve
      cases hserve
    · cases hserve.symm.trans hexit
      exact h.keep haccounted' hkept
  case h_5 =>
    rw [procServeRunRequest_memory hserve]
    exact h
  case h_6 =>
    cases hserve
    exact h

/-- So does every sequence of requests. -/
theorem reaches {m₀ : Memory} (h₀ : m₀.Sound cfg)
    {requests : List (MemoryEnv × Packet cfg)}
    (h : Reaches next (fun _ _ => True) m₀ requests m) : m.Sound cfg := by
  refine h.invariant (P := fun _ m => m.Sound cfg) h₀ ?_
  intro requests m request m' hm _ hnext
  rcases Option.map_eq_some_iff.mp hnext with ⟨r, hserve, rfl⟩
  exact hm.procServe hserve

end Sound

/-! ## Exactly once -/

/-- The packet has been sent once, as a reply with the type that follows that of
the request and the flag for the end, or, if its type is not that of a request,
freed once; and nothing else has been done with it. -/
def DisposedOnce (packet : Packet cfg) (packetOps : List PacketOp) : Prop :=
  match packet.type with
  | some .delRequest | some .pullRequest | some .pushRequest | some .slotsRequest
  | some .runRequest =>
      ∃ header rest, packetOps = [.sendtoReply (header :: rest)] ∧
        header &&& procTypeMask = (packet.byte 0 &&& procTypeMask) + 1 ∧
        header &&& procFlagEnd = procFlagEnd
  | _ => packetOps = [.bufferFree]

/-- The requests whose packet is disposed of once: a pull when the mutex is taken
and no string of the slot is missing; a push when there is memory for the
temporary procedure, the payload stays within the packet, and no instruction
stands behind one of unknown type; a list of the slots when there is memory for
it, the mutex is taken and the slots fit into the reply; and a run that returns. -/
def disposes (env : MemoryEnv) (m : Memory) (packet : Packet cfg) : Bool :=
  match packet.type with
  | some .pullRequest => env.mutexTake && !(m.procStore (packet.byte 1)).pointers.contains none
  | some .pushRequest =>
      env.alloc m.heap.calls && (unpackProcFromCspPacket cfg packet).any fun u =>
        u.ret = 0 ∨ u.procedure.instructions.length = (packet.byte 2).toNat
  | some .slotsRequest =>
      env.alloc m.heap.calls && env.mutexTake && 1 + m.slotList.length ≤ cfg.cspBufferSize
  | some .runRequest => env.runtimeRun.all fun procRuntimeRun =>
      (procRuntimeRun (packet.byte 1)).isSome
  | _ => true

/-- One reply of the type has been sent, and nothing else. -/
def Answers (type : PacketType) (packetOps : List PacketOp) : Prop :=
  ∃ header rest, packetOps = [.sendtoReply (header :: rest)] ∧
    header &&& procTypeMask = type.code ∧ header &&& procFlagEnd = procFlagEnd

theorem replyHeader_answers (type : PacketType) (error : Bool) :
    replyHeader type error &&& procTypeMask = type.code ∧
      replyHeader type error &&& procFlagEnd = procFlagEnd := by
  cases type <;> cases error <;> decide

theorem answers_of_received {packet : Packet cfg} {type : PacketType} {error : Bool}
    {rest : List UInt8} (h : packet.received = replyHeader type error :: rest) (m : Memory) :
    Answers type (sendReply m packet).packetOps := by
  rw [sendReply, h]
  exact ⟨_, _, rfl, replyHeader_answers type error⟩

theorem answers_shortReply (m : Memory) (packet : Packet cfg) (type : PacketType) (error : Bool) :
    Answers type (sendReply m (packet.shortReply type error)).packetOps :=
  answers_of_received (received_shortReply packet type error) m

/-- A procedure that can be packed is answered, with its bytes or with the error. -/
theorem packed_answers {proc : Proc} (hpackable : Packable cfg proc) (packet : Packet cfg)
    (m : Memory) :
    ∃ r, (packProcIntoCspPacket cfg proc packet).bind (fun r =>
        if r.1 < 0 then some (sendReply m (r.2.shortReply .pullResponse true))
        else some (sendReply m (r.2.setHeader .pullResponse false))) = some r ∧
      Answers .pullResponse r.packetOps := by
  rcases hpackable.pack packet with ⟨packet', hpack⟩ | ⟨hfit, hpack⟩
  · refine ⟨_, ?_, answers_shortReply m packet' .pullResponse true⟩
    simp [hpack]
  · refine ⟨_, ?_, answers_of_received
      (received_setHeader_encoded packet proc hfit .pullResponse false) m⟩
    simp [hpack]

theorem pull_answers_iff (h : m.Sound cfg) (env : MemoryEnv) (packet : Packet cfg) :
    (∃ r, m.procServePullRequest env packet = some r ∧ Answers .pullResponse r.packetOps) ↔
      (env.mutexTake && !(m.procStore (packet.byte 1)).pointers.contains none) = true := by
  rcases h.accounted with ⟨leaked, haccounted⟩
  cases hmutex : env.mutexTake with
  | false =>
      have hnone : m.procServePullRequest env packet = none := by
        simp [procServePullRequest, getProc, hmutex]
      simp [hnone]
  | true =>
      cases hocc : m.occupied (packet.byte 1) with
      | false =>
          have hserve : m.procServePullRequest env packet =
              some (sendReply m (packet.shortReply .pullResponse true)) := by
            simp [procServePullRequest, getProc, hmutex, hocc]
          refine iff_of_true ⟨_, hserve, answers_shortReply ..⟩ ?_
          simp [(haccounted.pointers_of_empty hocc).2]
      | true =>
          have hserve : m.procServePullRequest env packet =
              ((m.procStore (packet.byte 1)).load m.heap).bind fun procedure =>
                (packProcIntoCspPacket cfg procedure packet).bind fun r =>
                  if r.1 < 0 then
                    some (sendReply m (r.2.shortReply .pullResponse true))
                  else some (sendReply m (r.2.setHeader .pullResponse false)) := by
            simp only [procServePullRequest, getProc, hmutex, hocc]
            rfl
          have hsome := (h.readable (packet.byte 1)).isSome_load_iff (haccounted.written _)
          rw [hserve]
          cases hload : (m.procStore (packet.byte 1)).load m.heap with
          | none =>
              rw [hload] at hsome
              have hnull : none ∈ (m.procStore (packet.byte 1)).pointers := by
                by_contra hnot
                cases hsome.mpr hnot
              simp [hnull]
          | some proc =>
              rw [hload] at hsome
              have hnull : none ∉ (m.procStore (packet.byte 1)).pointers := hsome.mp rfl
              refine iff_of_true ?_ (by simp [hnull])
              exact packed_answers ((h.readable _).packable proc hload) packet m

theorem push_answers_iff (h : m.Sound cfg) (env : MemoryEnv) (packet : Packet cfg) :
    (∃ r, m.procServePushRequest env packet = some r ∧ Answers .pushResponse r.packetOps) ↔
      (env.alloc m.heap.calls && (unpackProcFromCspPacket cfg packet).any fun u =>
        u.ret = 0 ∨ u.procedure.instructions.length = (packet.byte 2).toNat) = true := by
  rcases h.accounted with ⟨leaked, haccounted⟩
  have hexit := haccounted.pushExit env packet
  generalize m.procServePushRequest env packet = exit at hexit
  cases hexit with
  | noMemory hok =>
      refine iff_of_false ?_ (by simp [hok])
      rintro ⟨_, hr, header, rest, hops, -⟩
      cases hr
      cases hops
  | outside hok hu => simp [hu]
  | unwritten hok hu hret hlt =>
      have hne := Nat.ne_of_lt hlt
      simp [hu, hret, hne]
  | unknown hok hu hret hlen =>
      exact iff_of_true ⟨_, rfl, answers_shortReply ..⟩ (by simp [hok, hu, hlen])
  | occupied hok hu hret =>
      exact iff_of_true ⟨_, rfl, answers_shortReply ..⟩ (by simp [hok, hu, hret])
  | unlocked hok hu hret =>
      exact iff_of_true ⟨_, rfl, answers_shortReply ..⟩ (by simp [hok, hu, hret])
  | stored hok hu hret =>
      exact iff_of_true ⟨_, rfl, answers_shortReply ..⟩ (by simp [hok, hu, hret])

theorem slots_answers_iff (h : m.Sound cfg) (env : MemoryEnv) (packet : Packet cfg) :
    (∃ r, m.procServeSlotsRequest env packet = some r ∧ Answers .slotsResponse r.packetOps) ↔
      (env.alloc m.heap.calls && env.mutexTake &&
        1 + m.slotList.length ≤ cfg.cspBufferSize) = true := by
  rcases h.accounted with ⟨leaked, haccounted⟩
  have hput := putSlots_eq m.slotList (packet.shortReply .slotsResponse false)
  have hone : (packet.shortReply .slotsResponse false).length = 1 := rfl
  rw [hone, received_shortReply] at hput
  rcases haccounted.slotsExit env packet with
    ⟨hnone, hwhy⟩ | ⟨heap, reply, hserve, hok, hmutex, hreply, -, -⟩
  · refine iff_of_false (by simp [hnone]) ?_
    rcases hwhy with hok | hmutex | hput'
    · simp [hok]
    · simp [hmutex]
    · rw [hput'] at hput
      split at hput
      · cases hput
      · simp [*]
  · rw [hreply] at hput
    split at hput
    case isTrue hle =>
      have hreceived : reply.received = [replyHeader .slotsResponse false] ++ m.slotList :=
        Option.some.inj hput
      exact iff_of_true ⟨_, hserve, answers_of_received hreceived _⟩ (by simp [hok, hmutex, hle])
    case isFalse => cases hput

theorem run_answers_iff (env : MemoryEnv) (packet : Packet cfg) :
    (∃ r, m.procServeRunRequest env packet = some r ∧ Answers .runResponse r.packetOps) ↔
      (env.runtimeRun.all fun procRuntimeRun =>
        (procRuntimeRun (packet.byte 1)).isSome) = true := by
  cases hruntime : env.runtimeRun with
  | none =>
      have hserve : m.procServeRunRequest env packet =
          some (sendReply m (packet.shortReply .runResponse true)) := by
        simp [procServeRunRequest, hruntime]
      exact iff_of_true ⟨_, hserve, answers_shortReply ..⟩ rfl
  | some procRuntimeRun =>
      cases hret : procRuntimeRun (packet.byte 1) with
      | none => simp [procServeRunRequest, hruntime, hret]
      | some ret =>
          have hserve : m.procServeRunRequest env packet =
              some (sendReply m (packet.shortReply .runResponse (ret ≠ 0))) := by
            by_cases hzero : ret = 0 <;> simp [procServeRunRequest, hruntime, hret, hzero]
          exact iff_of_true ⟨_, hserve, answers_shortReply ..⟩ (by simp [hret])

/-- The type nibble of a packet. -/
theorem type_eq_some {packet : Packet cfg} {type : PacketType} (h : packet.type = some type) :
    packet.byte 0 &&& procTypeMask = type.code := by
  rw [Packet.type, PacketType.ofCode] at h
  apply UInt8.toNat_inj.mp
  split at h
  case h_11 => cases h
  all_goals
    cases h
    assumption

/-- The reply to a request has the type that follows it. -/
theorem answers_iff {packet : Packet cfg} {request : PacketType}
    (h : packet.type = some request) (response : PacketType)
    (hnext : request.code + 1 = response.code) {packetOps : List PacketOp} :
    (∃ header rest, packetOps = [.sendtoReply (header :: rest)] ∧
      header &&& procTypeMask = (packet.byte 0 &&& procTypeMask) + 1 ∧
      header &&& procFlagEnd = procFlagEnd) ↔ Answers response packetOps := by
  rw [type_eq_some h, hnext]
  rfl

/-- A request's packet is disposed of exactly once in the cases of `disposes`,
and in no other. -/
theorem disposedOnce_iff (h : m.Sound cfg) (env : MemoryEnv) (packet : Packet cfg) :
    (∃ r, m.procServe env packet = some r ∧ DisposedOnce packet r.packetOps) ↔
      disposes env m packet = true := by
  unfold Memory.procServe DisposedOnce disposes
  cases htype : packet.type with
  | none => exact iff_of_true ⟨_, rfl, rfl⟩ rfl
  | some type =>
      cases type with
      | delRequest =>
          dsimp only
          simp only [answers_iff htype .delResponse rfl]
          rcases h.accounted with ⟨leaked, haccounted⟩
          rcases haccounted.delExit env packet with ⟨m', hserve, -, -⟩
          exact iff_of_true ⟨_, hserve, answers_shortReply ..⟩ trivial
      | pullRequest =>
          dsimp only
          simp only [answers_iff htype .pullResponse rfl]
          exact pull_answers_iff h env packet
      | pushRequest =>
          dsimp only
          simp only [answers_iff htype .pushResponse rfl]
          exact push_answers_iff h env packet
      | slotsRequest =>
          dsimp only
          simp only [answers_iff htype .slotsResponse rfl]
          exact slots_answers_iff h env packet
      | runRequest =>
          dsimp only
          simp only [answers_iff htype .runResponse rfl]
          exact run_answers_iff env packet
      | delResponse | pullResponse | pushResponse | slotsResponse | runResponse =>
          exact iff_of_true ⟨_, rfl, rfl⟩ rfl

theorem disposedOnce_iff_noopPush : ∃ r, init.procServe workingEnv noopPush = some r ∧
    DisposedOnce noopPush r.packetOps :=
  (disposedOnce_iff init_sound workingEnv noopPush).mpr (by decide +kernel)

/-- There is no memory, and no runtime. -/
def exhaustedEnv : MemoryEnv := ⟨fun _ => false, true, none⟩

/-- Without memory the reply to a push is prepared, and its packet is neither sent
nor freed. -/
theorem noopPush_not_disposed : ∃ r, init.procServe exhaustedEnv noopPush = some r ∧
    r.packetOps = [] ∧ ¬ DisposedOnce noopPush r.packetOps := by
  have hserve : (init.procServe exhaustedEnv noopPush).any (fun r => r.packetOps = []) = true := by
    decide +kernel
  have htype : noopPush.type = some .pushRequest := by decide +kernel
  rw [Option.any_eq_true] at hserve
  rcases hserve with ⟨r, hr, hops⟩
  have hnil : r.packetOps = [] := of_decide_eq_true hops
  refine ⟨r, hr, hnil, ?_⟩
  rw [hnil, DisposedOnce, htype]
  rintro ⟨header, rest, hsent, -⟩
  cases hsent

end Memory

end CspProc
