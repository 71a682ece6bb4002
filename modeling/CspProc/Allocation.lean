import CspProc.Disposal

/-! # Failed allocations

What becomes of a procedure when `proc_strdup` fails for one of its strings. The
decoder and `deepcopy_proc` store what `proc_strdup` returns without a look at
it, and return 0 all the same.

* `unpackStored_whole_iff`, `deepcopyStored_whole_iff` — the procedure is the one
  that was encoded, or the original, exactly when every allocation succeeds;
* `Running.undamaged_of_reaches` — no procedure without a string is stored, executed
  or encoded, over runs whose allocations of strings succeed.
-/

namespace Heap

variable {β : Type}

/-- The next `n` calls of the allocator succeed. -/
def Succeeds (h : Heap β) (ok : Nat → Bool) (n : Nat) : Prop := ∀ i < n, ok (h.calls + i) = true

instance (h : Heap β) (ok : Nat → Bool) (n : Nat) : Decidable (h.Succeeds ok n) :=
  inferInstanceAs (Decidable (∀ i < n, ok (h.calls + i) = true))

theorem calls_alloc (h : Heap β) (ok : Nat → Bool) (v : β) :
    (h.alloc ok v).2.calls = h.calls + 1 := by
  unfold alloc
  split
  · rfl
  · rfl

/-- No pointer is null exactly when all the calls succeed. -/
theorem none_not_mem_allocAll_iff (ok : Nat → Bool) (vs : List β) (h : Heap β) :
    none ∉ (h.allocAll ok vs).1 ↔ h.Succeeds ok vs.length := by
  induction vs generalizing h with
  | nil => exact iff_of_true List.not_mem_nil nofun
  | cons v vs ih =>
      have hhead : ¬ none = (h.alloc ok v).1 ↔ ok h.calls = true := by
        cases hok : ok h.calls with
        | false => simp [h.alloc_fst_of_failed hok v]
        | true => simp [h.alloc_fst_of_ok hok v]
      show none ∉ (h.alloc ok v).1 :: ((h.alloc ok v).2.allocAll ok vs).1 ↔ _
      rw [List.mem_cons, not_or, hhead, ih, Succeeds, calls_alloc]
      constructor
      · rintro ⟨hfirst, hrest⟩ i hi
        cases i with
        | zero => exact hfirst
        | succ i =>
            have hlt : i < vs.length := by simpa using hi
            have hnext := hrest i hlt
            rwa [Nat.add_assoc, Nat.add_comm 1 i] at hnext
      · intro hall
        refine ⟨hall 0 (Nat.succ_pos _), ?_⟩
        intro i hi
        have hnext := hall (i + 1) (by simpa using hi)
        rwa [Nat.add_assoc, Nat.add_comm 1 i]

end Heap

namespace CspProc

variable {cfg : Config}

/-! ## Copies in memory -/

/-- `proc_strdup` of a string in memory. -/
def strdupStored (alloc : Nat → Bool) (heap : Heap Block) (p : Ptr) : Option (Ptr × Heap Block) :=
  (loadString heap p).map fun s => procStrdup alloc heap s

/-- `proc_copy_instruction` in memory: the return value and the copy. -/
def procCopyInstructionStored (alloc : Nat → Bool) (heap : Heap Block) :
    StoredInstruction → Option (Int × StoredInstruction × Heap Block)
  | .block paramA op paramB => do
      let (paramA, heap) ← strdupStored alloc heap paramA
      let (paramB, heap) ← strdupStored alloc heap paramB
      return (0, .block paramA op paramB, heap)
  | .ifelse paramA op paramB => do
      let (paramA, heap) ← strdupStored alloc heap paramA
      let (paramB, heap) ← strdupStored alloc heap paramB
      return (0, .ifelse paramA op paramB, heap)
  | .set param value => do
      let (param, heap) ← strdupStored alloc heap param
      let (value, heap) ← strdupStored alloc heap value
      return (0, .set param value, heap)
  | .unop param op result => do
      let (param, heap) ← strdupStored alloc heap param
      let (result, heap) ← strdupStored alloc heap result
      return (0, .unop param op result, heap)
  | .binop paramA op paramB result => do
      let (paramA, heap) ← strdupStored alloc heap paramA
      let (paramB, heap) ← strdupStored alloc heap paramB
      let (result, heap) ← strdupStored alloc heap result
      return (0, .binop paramA op paramB result, heap)
  | .call procedureSlot => some (0, .call procedureSlot, heap)
  | .noop => some (0, .noop, heap)
  | .unknown type h => some (-1, .unknown type h, heap)

/-- The loop of `deepcopy_proc`: whether all instructions were copied, and the
copies. -/
def copyInstructionsStored (alloc : Nat → Bool) (heap : Heap Block) :
    List StoredProcInstruction → Option (Bool × List StoredProcInstruction × Heap Block)
  | [] => some (true, [], heap)
  | ins :: rest => do
      let (ret, copy, heap) ← procCopyInstructionStored alloc heap ins.instruction
      if ret ≠ 0 then return (false, [⟨ins.node, copy⟩], heap)
      else
        let (copied, copies, heap) ← copyInstructionsStored alloc heap rest
        return (copied, ⟨ins.node, copy⟩ :: copies, heap)

/-- `deepcopy_proc` in memory. -/
def deepcopyStored (alloc : Nat → Bool) (heap : Heap Block) (original : StoredProc) :
    Option (Int × StoredProc × Heap Block) :=
  if original.instructions.length < original.instructionCount.toNat then none
  else do
    let (copied, copies, heap) ← copyInstructionsStored alloc heap
      (original.instructions.take original.instructionCount.toNat)
    return (if copied then 0 else -1, ⟨copies, original.instructionCount⟩, heap)

/-- A string that is there is copied, and stays. -/
theorem strdupStored_eq {alloc : Nat → Bool} {heap : Heap Block} {p : Ptr} {s : CStr}
    (h : loadString heap p = some s) :
    strdupStored alloc heap p = some (heap.alloc alloc (.string s)) := by
  rw [strdupStored, h]
  rfl

theorem loadString_alloc {heap : Heap Block} {p : Ptr} {s : CStr} (alloc : Nat → Bool) (v : Block)
    (h : loadString heap p = some s) : loadString (heap.alloc alloc v).2 p = some s := by
  rw [loadString_eq_some] at h ⊢
  rcases Option.bind_eq_some_iff.mp h with ⟨b, rfl, hb⟩
  exact Heap.blocks_alloc alloc v hb

/-- An instruction whose strings are there is copied like a decoded one. -/
theorem procCopyInstructionStored_eq (alloc : Nat → Bool) {heap : Heap Block}
    {ins : StoredInstruction} {i : Instruction} (h : ins.load heap = some i)
    (hknown : i.isKnown = true) :
    procCopyInstructionStored alloc heap ins =
      some (0, (storeInstruction alloc heap i).1, (storeInstruction alloc heap i).2) := by
  cases ins with
  | block paramA op paramB | ifelse paramA op paramB | set paramA paramB
  | unop paramA op paramB =>
      simp only [StoredInstruction.load, Option.bind_eq_bind, Option.bind_eq_some_iff, pure,
        Option.some.injEq] at h
      rcases h with ⟨a, ha, b, hb, rfl⟩
      -- the second string is read after the first one has been copied
      have hb' := loadString_alloc alloc (.string a) hb
      simp [procCopyInstructionStored, strdupStored_eq ha, strdupStored_eq hb', storeInstruction,
        procStrdup]
  | binop paramA op paramB result =>
      simp only [StoredInstruction.load, Option.bind_eq_bind, Option.bind_eq_some_iff, pure,
        Option.some.injEq] at h
      rcases h with ⟨a, ha, b, hb, r, hr, rfl⟩
      have hb' := loadString_alloc alloc (.string a) hb
      have hr' := loadString_alloc alloc (.string b) (loadString_alloc alloc (.string a) hr)
      simp [procCopyInstructionStored, strdupStored_eq ha, strdupStored_eq hb',
        strdupStored_eq hr', storeInstruction, procStrdup]
  | call procedureSlot =>
      rw [← Option.some.inj h]
      rfl
  | noop =>
      rw [← Option.some.inj h]
      rfl
  | unknown type htype =>
      rw [← Option.some.inj h] at hknown
      cases hknown

/-- Copies leave the instructions that are read later as they are. -/
theorem load_storeInstruction_of_load (alloc : Nat → Bool) {heap : Heap Block} (i : Instruction)
    {instructions : List StoredProcInstruction} {is : List ProcInstruction}
    (h : instructions.mapM (·.load heap) = some is) :
    instructions.mapM (·.load (storeInstruction alloc heap i).2) = some is := by
  refine List.mapM_mono (fun ins _ j hj => ?_) h
  rcases Option.map_eq_some_iff.mp hj with ⟨instruction, hload, rfl⟩
  have hkept : ins.instruction.load (storeInstruction alloc heap i).2 = some instruction := by
    refine StoredInstruction.load_mono (fun b _ v hv => ?_) hload
    rw [(storeInstruction_eq alloc heap i).2]
    exact Heap.blocks_allocAll alloc _ hv
  rw [StoredProcInstruction.load, hkept]
  rfl

/-- Instructions whose strings are there are copied like decoded ones. -/
theorem copyInstructionsStored_eq (alloc : Nat → Bool) {heap : Heap Block}
    {instructions : List StoredProcInstruction} {is : List ProcInstruction}
    (h : instructions.mapM (·.load heap) = some is)
    (hknown : ∀ i ∈ is, i.instruction.isKnown = true) :
    copyInstructionsStored alloc heap instructions =
      some (true, (storeInstructions alloc heap is).1, (storeInstructions alloc heap is).2) := by
  induction instructions generalizing heap is with
  | nil =>
      rw [← Option.some.inj h]
      rfl
  | cons ins rest ih =>
      simp only [List.mapM_cons, Option.bind_eq_bind, Option.bind_eq_some_iff, pure,
        Option.some.injEq] at h
      rcases h with ⟨i, hi, rest', hrest, rfl⟩
      rcases Option.map_eq_some_iff.mp hi with ⟨instruction, hload, rfl⟩
      have hcopy := procCopyInstructionStored_eq alloc hload (hknown _ List.mem_cons_self)
      have hcopies := ih (load_storeInstruction_of_load alloc instruction hrest)
        fun j hj => hknown j (List.mem_cons_of_mem _ hj)
      simp [copyInstructionsStored, hcopy, hcopies, storeInstructions]

/-- A procedure whose strings are there is copied like a decoded one. -/
theorem deepcopyStored_eq (alloc : Nat → Bool) {heap : Heap Block} {original : StoredProc}
    {proc : Proc} (h : original.load heap = some proc) (hknown : proc.Known) :
    deepcopyStored alloc heap original =
      some (0, ⟨(storeInstructions alloc heap proc.instructions).1, original.instructionCount⟩,
        (storeInstructions alloc heap proc.instructions).2) := by
  rcases StoredProc.load_eq_some_iff.mp h with ⟨hw, hload⟩
  have hlt : ¬ original.instructions.length < original.instructionCount.toNat := by
    rw [hw]
    exact Nat.lt_irrefl _
  have hcopies := copyInstructionsStored_eq alloc hload hknown
  rw [deepcopyStored, if_neg hlt, ← hw, List.take_length, hcopies]
  rfl

/-! ## Whole procedures -/

/-- The strings of a procedure, in the order in which they are copied. -/
def Proc.strings (proc : Proc) : List CStr := proc.instructions.flatMap (·.instruction.strings)

/-- Every string is there. -/
def StoredProc.Whole (p : StoredProc) : Prop := none ∉ p.pointers

/-- The copies have all of their strings exactly when every allocation succeeds. -/
theorem whole_storeInstructions_iff (alloc : Nat → Bool) (heap : Heap Block) (proc : Proc)
    (count : UInt8) :
    StoredProc.Whole ⟨(storeInstructions alloc heap proc.instructions).1, count⟩ ↔
      heap.Succeeds alloc proc.strings.length := by
  rw [StoredProc.Whole, StoredProc.pointers, (storeInstructions_eq alloc heap proc.instructions).1,
    Heap.none_not_mem_allocAll_iff, List.length_map]
  rfl

/-- And then they are what was copied. -/
theorem load_storeInstructions_iff (alloc : Nat → Bool) (heap : Heap Block) {proc : Proc}
    {count : UInt8} (hcount : proc.instructions.length = count.toNat) :
    StoredProc.load (storeInstructions alloc heap proc.instructions).2
        ⟨(storeInstructions alloc heap proc.instructions).1, count⟩ = some proc ↔
      heap.Succeeds alloc proc.strings.length := by
  have hw : StoredProc.Written ⟨(storeInstructions alloc heap proc.instructions).1, count⟩ :=
    (length_storeInstructions ..).trans hcount
  rw [← whole_storeInstructions_iff alloc heap proc count]
  constructor
  · intro hload hnull
    have hsome : (StoredProc.load (storeInstructions alloc heap proc.instructions).2
        ⟨(storeInstructions alloc heap proc.instructions).1, count⟩).isSome = true := by
      rw [hload]
      rfl
    cases (StoredProc.isSome_load_iff hw).mp hsome none hnull
  · intro hwhole
    exact StoredProc.load_eq_some_iff.mpr ⟨hw, load_storeInstructions alloc heap _ hwhole⟩

/-- A result that is a failure, or the procedure as it was. -/
def FailedOrWhole (proc : Proc) (result : Option (Int × StoredProc × Heap Block)) : Prop :=
  ∃ ret p heap, result = some (ret, p, heap) ∧ (ret = -1 ∨ ret = 0 ∧ p.load heap = some proc)

/-- A result that is no failure must be the procedure. -/
theorem failedOrWhole_zero {proc : Proc} {p : StoredProc} {heap : Heap Block} :
    FailedOrWhole proc (some (0, p, heap)) ↔ p.load heap = some proc := by
  constructor
  · rintro ⟨ret, p', heap', h, hor⟩
    simp only [Option.some.injEq, Prod.mk.injEq] at h
    rcases h with ⟨rfl, rfl, rfl⟩
    rcases hor with hfailed | ⟨-, hload⟩
    · cases hfailed
    · exact hload
  · intro hload
    exact ⟨0, p, heap, rfl, .inr ⟨rfl, hload⟩⟩

/-- A payload is decoded as a whole exactly when every string can be copied. -/
theorem unpackStored_whole_iff (alloc : Nat → Bool) (heap : Heap Block) {packet : Packet cfg}
    {u : Unpacked} (hu : unpackProcFromCspPacket cfg packet = some u) (hret : u.ret = 0) :
    FailedOrWhole u.procedure (unpackStored alloc heap packet) ↔
      heap.Succeeds alloc u.procedure.strings.length := by
  have hresult : unpackStored alloc heap packet = some (0,
      ⟨(storeInstructions alloc heap u.procedure.instructions).1, packet.byte 2⟩,
      (storeInstructions alloc heap u.procedure.instructions).2) := by
    rw [unpackStored, hu, ← hret]
    rfl
  rw [← load_storeInstructions_iff alloc heap (length_of_unpack hu hret), hresult,
    failedOrWhole_zero]

/-- A procedure is copied as a whole exactly when every string can be copied. -/
theorem deepcopyStored_whole_iff (alloc : Nat → Bool) {heap : Heap Block} {original : StoredProc}
    {proc : Proc} (h : original.load heap = some proc) (hknown : proc.Known) :
    FailedOrWhole proc (deepcopyStored alloc heap original) ↔
      heap.Succeeds alloc proc.strings.length := by
  rcases StoredProc.load_eq_some_iff.mp h with ⟨hw, hmap⟩
  have hcount : proc.instructions.length = original.instructionCount.toNat :=
    (List.length_of_mapM hmap).trans hw
  rw [← load_storeInstructions_iff alloc heap hcount, deepcopyStored_eq alloc h hknown,
    failedOrWhole_zero]

/-! ## Runs -/

/-- The memory of the server, and the procedures that tasks execute, with the
blocks that they lie in. -/
structure Running where
  memory : Memory
  detached : List (Nat × StoredProc)

/-- What the code outside this repository answers while a procedure is started:
the calls of the allocator, the mutex, whether `MAX_PROC_CONCURRENT` is not
reached, and whether a task is created. -/
structure StartEnv where
  alloc : Nat → Bool
  mutexTake : Bool
  roomLeft : Bool
  taskCreated : Bool

namespace Running

def init : Running := ⟨.init, []⟩

/-- The heap is another one. -/
def withHeap (st : Running) (heap : Heap Block) : Running :=
  { st with memory := { st.memory with heap := heap } }

/-- `proc_runtime_run`, without its list of tasks. -/
def procRuntimeRun (env : StartEnv) (st : Running) (slot : UInt8) : Option (Int × Running) :=
  if env.roomLeft = false then some (-1, st)
  else
    match st.memory.getProc env.mutexTake slot with
    | .null => some (-1, st)
    -- the error number is not NULL, and is dereferenced
    | .mutexErr => none
    | .found stored =>
        if stored.instructionCount = 0 then some (-1, st)
        else
          match st.memory.heap.alloc env.alloc .procedure with
          -- `deepcopy_proc` refuses a copy that is NULL
          | (none, heap) => some (-1, st.withHeap heap)
          | (some block, heap) => do
              let (ret, copy, heap) ← deepcopyStored env.alloc heap stored
              if ret ≠ 0 then return (-1, st.withHeap heap)
              else if env.taskCreated = false then
                let heap ← freeProc heap (some block) copy
                return (-1, st.withHeap heap)
              else return (0, { st.withHeap heap with detached := (block, copy) :: st.detached })

/-- A task is done: `free_proc(proc)`. -/
def finish (st : Running) (i : Nat) : Option Running :=
  match st.detached[i]? with
  | none => none
  | some (block, p) => (freeProc st.memory.heap (some block) p).map fun heap =>
      { st.withHeap heap with detached := st.detached.eraseIdx i }

/-- What happens next: a request, the start of a procedure, or the end of one. -/
inductive Event (cfg : Config) where
  | request (env : MemoryEnv) (packet : Packet cfg)
  | start (env : StartEnv) (slot : UInt8)
  | finish (i : Nat)

def next (st : Running) : Event cfg → Option Running
  | .request env packet =>
      (st.memory.procServe env packet).map fun r => { st with memory := r.memory }
  | .start env slot => (st.procRuntimeRun env slot).map Prod.snd
  | .finish i => st.finish i

/-- The procedure that is copied and kept in an event, if there is one, with the
answers of the allocator: a push that is stored, or a start that comes to a task. -/
def keeps (st : Running) : Event cfg → Option (Proc × (Nat → Bool))
  | .request env packet =>
      if packet.type = some .pushRequest ∧ env.alloc st.memory.heap.calls = true ∧
          env.mutexTake = true ∧ st.memory.occupied (packet.byte 1) = false then
        match unpackProcFromCspPacket cfg packet with
        | some u => if u.ret = 0 then some (u.procedure, env.alloc) else none
        | none => none
      else none
  | .start env slot =>
      if env.roomLeft = true ∧ env.alloc st.memory.heap.calls = true ∧ env.taskCreated = true then
        match st.memory.getProc env.mutexTake slot with
        | .found stored => (stored.load st.memory.heap).map fun proc => (proc, env.alloc)
        | _ => none
      else none
  | .finish _ => none

/-- Where a copy is kept, the allocations of its strings succeed. They come after
that of the procedure itself. -/
def StringsCopied (st : Running) (event : Event cfg) : Prop :=
  ∀ proc alloc, st.keeps event = some (proc, alloc) →
    (st.memory.heap.alloc alloc .procedure).2.Succeeds alloc proc.strings.length

/-- No procedure without a string is stored, executed or encoded. -/
structure Undamaged (cfg : Config) (st : Running) : Prop where
  stored : ∀ slot, (st.memory.procStore slot).Whole
  executed : ∀ d ∈ st.detached, d.2.Whole
  encoded : ∀ (env : MemoryEnv) (packet : Packet cfg), env.mutexTake = true →
    (st.memory.procServePullRequest env packet).isSome = true

/-- The blocks of the procedures that are executed. -/
def owned (st : Running) : List Nat := st.detached.flatMap fun d => d.2.references ++ [d.1]

/-- The invariant: the memory is sound, what tasks execute is accounted for, and
every string is there. -/
structure Inv (cfg : Config) (st : Running) : Prop where
  sound : st.memory.Sound cfg
  accounted : ∃ lost, st.memory.Accounted (st.owned ++ lost)
  stored : ∀ slot, (st.memory.procStore slot).Whole
  executed : ∀ d ∈ st.detached, d.2.Whole ∧ d.2.Written

theorem init_inv : init.Inv cfg where
  sound := Memory.init_sound
  accounted := ⟨[], Memory.init_exact⟩
  stored := fun _ => List.not_mem_nil
  executed := nofun

/-- The encoder reads stored procedures that have all of their strings. -/
theorem Inv.undamaged {st : Running} (h : st.Inv cfg) : st.Undamaged cfg where
  stored := h.stored
  executed := fun d hd => (h.executed d hd).1
  encoded := by
    intro env packet hmutex
    rcases h.accounted with ⟨lost, haccounted⟩
    unfold Memory.procServePullRequest Memory.getProc
    dsimp only
    rw [if_pos hmutex]
    by_cases hocc : st.memory.occupied (packet.byte 1) = false
    · rw [if_pos hocc]
      rfl
    · rw [if_neg hocc]
      dsimp only
      have hsome := ((h.sound.readable (packet.byte 1)).isSome_load_iff
        (haccounted.written (packet.byte 1))).mpr (h.stored (packet.byte 1))
      rcases Option.isSome_iff_exists.mp hsome with ⟨proc, hload⟩
      have hpackable := (h.sound.readable (packet.byte 1)).packable proc hload
      rw [hload]
      rcases hpackable.pack packet with ⟨packet', hpack⟩ | ⟨hfit, hpack⟩
      · simp [hpack]
      · simp [hpack]

end Running

/-! ## Requests -/

namespace Memory

variable {m : Memory} {leaked : List Nat}

theorem Accounted.perm (h : m.Accounted leaked) {leaked' : List Nat} (hp : leaked.Perm leaked') :
    m.Accounted leaked' where
  holds := h.holds.perm (hp.append_right _)
  written := h.written

/-- What a request does to the store: nothing, a slot is emptied, or an empty slot
gets the procedure of a push. -/
theorem Accounted.procStore_of_procServe (h : m.Accounted leaked) {env : MemoryEnv}
    {packet : Packet cfg} {r : MemoryServed} (hserve : m.procServe env packet = some r) :
    r.memory.procStore = m.procStore ∨
      (∃ slot, r.memory.procStore = Function.update m.procStore slot .empty) ∨
      ∃ u, packet.type = some .pushRequest ∧ env.alloc m.heap.calls = true ∧
        env.mutexTake = true ∧ m.occupied (packet.byte 1) = false ∧
        unpackProcFromCspPacket cfg packet = some u ∧ u.ret = 0 ∧
        r.memory.procStore =
          Function.update m.procStore (packet.byte 1) (pushProc env m packet u) := by
  unfold Memory.procServe at hserve
  -- only DEL and PUSH write to the store
  split at hserve
  case h_1 =>
    rcases h.delExit env packet with ⟨m', hexit, -, hm'⟩
    cases hserve.symm.trans hexit
    rcases hm' with rfl | ⟨heap, rfl, -⟩
    · exact .inl rfl
    · exact .inr (.inl ⟨packet.byte 1, rfl⟩)
  case h_2 =>
    rw [procServePullRequest_memory hserve]
    exact .inl rfl
  case h_3 htype =>
    have hexit := h.pushExit env packet
    rw [hserve] at hexit
    cases hexit with
    | noMemory => exact .inl rfl
    | unknown => exact .inl rfl
    | occupied => exact .inl rfl
    | unlocked => exact .inl rfl
    | stored hok hu hret hmutex hocc =>
        exact .inr (.inr ⟨_, htype, hok, hmutex, hocc, hu, hret, rfl⟩)
  case h_4 =>
    rcases h.slotsExit env packet with ⟨hnone, -⟩ | ⟨heap, reply, hexit, -⟩
    · rw [hnone] at hserve
      cases hserve
    · cases hserve.symm.trans hexit
      exact .inl rfl
  case h_5 =>
    rw [procServeRunRequest_memory hserve]
    exact .inl rfl
  case h_6 =>
    cases hserve
    exact .inl rfl

end Memory

namespace Running

variable {st : Running}

/-- Another heap that keeps what the store refers to. -/
theorem Inv.withHeap (h : st.Inv cfg) {heap : Heap Block} {lost : List Nat}
    (haccounted : { st.memory with heap := heap }.Accounted (st.owned ++ lost))
    (hkept : st.memory.Keeps heap) : (st.withHeap heap).Inv cfg where
  sound := h.sound.keep haccounted hkept
  accounted := ⟨lost, haccounted⟩
  stored := h.stored
  executed := h.executed

/-- A request keeps the invariant. -/
theorem Inv.request (h : st.Inv cfg) {env : MemoryEnv} {packet : Packet cfg}
    (hcopied : st.StringsCopied (.request env packet)) {r : MemoryServed}
    (hserve : st.memory.procServe env packet = some r) :
    ({ st with memory := r.memory } : Running).Inv cfg := by
  rcases h.accounted with ⟨lost, haccounted⟩
  constructor
  · exact h.sound.procServe hserve
  · rcases haccounted.procServe hserve with ⟨lost', haccounted', -⟩
    refine ⟨lost' ++ lost, haccounted'.perm ?_⟩
    exact List.perm_append_comm_assoc lost' st.owned lost
  · intro slot
    show (r.memory.procStore slot).Whole
    rcases haccounted.procStore_of_procServe hserve with
      hsame | ⟨emptied, hemptied⟩ | ⟨u, htype, hok, hmutex, hocc, hu, hret, hstored⟩
    · rw [hsame]
      exact h.stored slot
    · rw [hemptied]
      by_cases heq : slot = emptied
      · rw [heq, Function.update_self]
        exact List.not_mem_nil
      · rw [Function.update_of_ne heq]
        exact h.stored slot
    · -- a push: the strings of its procedure have been copied
      have hkeeps : st.keeps (.request env packet) = some (u.procedure, env.alloc) := by
        simp [keeps, htype, hok, hmutex, hocc, hu, hret]
      rw [hstored]
      by_cases heq : slot = packet.byte 1
      · rw [heq, Function.update_self]
        exact (whole_storeInstructions_iff _ _ u.procedure _).mpr (hcopied _ _ hkeeps)
      · rw [Function.update_of_ne heq]
        exact h.stored slot
  · exact h.executed

/-- A procedure of the store can be read, and is one that the decoder knows. -/
theorem Inv.load (h : st.Inv cfg) (slot : UInt8) :
    ∃ proc, (st.memory.procStore slot).load st.memory.heap = some proc ∧ proc.Known := by
  rcases h.accounted with ⟨lost, haccounted⟩
  have hsome := ((h.sound.readable slot).isSome_load_iff (haccounted.written slot)).mpr
    (h.stored slot)
  rcases Option.isSome_iff_exists.mp hsome with ⟨proc, hload⟩
  exact ⟨proc, hload, ((h.sound.readable slot).packable proc hload).1⟩

/-- The heap of a start after the copy. -/
def startHeap (alloc : Nat → Bool) (m : Memory) (proc : Proc) : Heap Block :=
  (storeInstructions alloc (m.heap.alloc alloc .procedure).2 proc.instructions).2

/-- The copy. -/
def startProc (alloc : Nat → Bool) (m : Memory) (proc : Proc) (count : UInt8) : StoredProc :=
  ⟨(storeInstructions alloc (m.heap.alloc alloc .procedure).2 proc.instructions).1, count⟩

/-- A procedure of the store is copied; its copy is accounted for, and the store
keeps what it refers to. -/
theorem Inv.copied (h : st.Inv cfg) {slot : UInt8} {proc : Proc}
    (hload : (st.memory.procStore slot).load st.memory.heap = some proc) (hknown : proc.Known)
    {alloc : Nat → Bool} (hok : alloc st.memory.heap.calls = true) :
    deepcopyStored alloc (st.memory.heap.alloc alloc .procedure).2 (st.memory.procStore slot) =
        some (0, startProc alloc st.memory proc (st.memory.procStore slot).instructionCount,
          startHeap alloc st.memory proc) ∧
      (startProc alloc st.memory proc (st.memory.procStore slot).instructionCount).Written ∧
      (∃ lost, { st.memory with heap := startHeap alloc st.memory proc }.Accounted
        ((startProc alloc st.memory proc
          (st.memory.procStore slot).instructionCount).references ++
            ((some st.memory.heap.calls).toList ++ (st.owned ++ lost)))) ∧
      st.memory.Keeps (startHeap alloc st.memory proc) := by
  rcases h.accounted with ⟨lost, haccounted⟩
  have hkept : ∀ b v, st.memory.heap.blocks b = some v →
      (st.memory.heap.alloc alloc .procedure).2.blocks b = some v :=
    fun _ _ hb => Heap.blocks_alloc alloc _ hb
  have hload' := StoredProc.load_mono (fun b _ v hv => hkept b v hv) hload
  refine ⟨deepcopyStored_eq alloc hload' hknown, ?_, ⟨lost, ?_⟩, ?_⟩
  · rcases StoredProc.load_eq_some_iff.mp hload with ⟨hw, hmap⟩
    exact (length_storeInstructions ..).trans ((List.length_of_mapM hmap).trans hw)
  · have hnew := haccounted.alloc alloc Block.procedure
    rw [st.memory.heap.alloc_fst_of_ok hok] at hnew
    exact hnew.store alloc proc.instructions (st.memory.procStore slot).instructionCount
  · intro b hb
    have hlive : (st.memory.heap.blocks b).isSome = true :=
      (haccounted.holds.live b).mpr (List.mem_append_right _ (List.mem_cons_of_mem _ hb))
    rcases Option.isSome_iff_exists.mp hlive with ⟨v, hv⟩
    rw [hv, startHeap, (storeInstructions_eq ..).2]
    exact Heap.blocks_allocAll _ _ (hkept b v hv)

/-- The start of a procedure keeps the invariant. -/
theorem Inv.start (h : st.Inv cfg) {env : StartEnv} {slot : UInt8}
    (hcopied : st.StringsCopied (.start env slot : Event cfg)) {ret : Int} {st' : Running}
    (hrun : st.procRuntimeRun env slot = some (ret, st')) : st'.Inv cfg := by
  rcases h.accounted with ⟨lost, haccounted⟩
  unfold procRuntimeRun at hrun
  split at hrun
  · cases hrun
    exact h
  · rename_i hroom
    split at hrun
    · cases hrun
      exact h
    · cases hrun
    · rename_i stored hget
      have hstored : stored = st.memory.procStore slot := by
        unfold Memory.getProc at hget
        split at hget
        · split at hget
          · cases hget
          · exact (Memory.Fetched.found.inj hget).symm
        · cases hget
      rw [hstored] at hrun
      split at hrun
      · cases hrun
        exact h
      · cases hok : env.alloc st.memory.heap.calls with
        | false =>
            -- there is no memory for the copy
            have hblock := st.memory.heap.alloc_fst_of_failed hok Block.procedure
            have hnew := haccounted.alloc env.alloc Block.procedure
            have hkept := haccounted.keeps_alloc env.alloc Block.procedure
            generalize st.memory.heap.alloc env.alloc Block.procedure = result at *
            rcases result with ⟨block, heap⟩
            cases hblock
            cases hrun
            exact h.withHeap hnew hkept
        | true =>
            rcases h.load slot with ⟨proc, hload, hknown⟩
            rcases h.copied hload hknown hok with ⟨hcopy, hw, ⟨lost', haccounted'⟩, hkept⟩
            have halloc : st.memory.heap.alloc env.alloc Block.procedure =
                (some st.memory.heap.calls, (st.memory.heap.alloc env.alloc .procedure).2) :=
              Prod.ext (st.memory.heap.alloc_fst_of_ok hok _) rfl
            rw [halloc] at hrun
            simp only [hcopy, Option.bind_eq_bind, Option.bind_some, ne_eq, not_true_eq_false,
              if_false] at hrun
            split at hrun
            · -- no task is created, and the copy is freed
              rcases haccounted'.freeProc hw with ⟨heap, hfree, hfreed, hkept'⟩
              rw [hfree] at hrun
              cases hrun
              exact h.withHeap hfreed fun b hb => (hkept' b hb).trans (hkept b hb)
            · rename_i hcreated
              have hkeeps : st.keeps (.start env slot : Event cfg) = some (proc, env.alloc) := by
                rw [hstored] at hget
                simp [keeps, hroom, hok, hcreated, hget, hload]
              have hwhole := (whole_storeInstructions_iff env.alloc _ proc
                (st.memory.procStore slot).instructionCount).mpr (hcopied _ _ hkeeps)
              cases hrun
              constructor
              · exact h.sound.keep haccounted' hkept
              · refine ⟨lost', haccounted'.perm (.of_eq ?_)⟩
                simp [owned]
              · exact h.stored
              · intro d hd
                rcases List.mem_cons.mp hd with rfl | hold
                · exact ⟨hwhole, hw⟩
                · exact h.executed d hold

/-- The end of a task keeps the invariant. -/
theorem Inv.finish (h : st.Inv cfg) {i : Nat} {st' : Running} (hend : st.finish i = some st') :
    st'.Inv cfg := by
  rcases h.accounted with ⟨lost, haccounted⟩
  unfold Running.finish at hend
  split at hend
  · cases hend
  · rename_i block p hget
    rcases List.getElem?_eq_some_iff.mp hget with ⟨hi, hp⟩
    have hperm : st.owned.Perm (p.references ++ ((some block).toList ++
        owned { st with detached := st.detached.eraseIdx i })) := by
      have hfirst := (List.getElem_cons_eraseIdx_perm hi).symm
      rw [hp] at hfirst
      have hflat := hfirst.flatMap_right fun d => d.2.references ++ [d.1]
      rw [List.flatMap_cons, List.append_assoc] at hflat
      exact hflat
    have hwritten : p.Written := (h.executed (block, p) (List.mem_of_getElem? hget)).2
    have haccounted' := haccounted.perm (hperm.append_right lost)
    rw [List.append_assoc, List.append_assoc] at haccounted'
    rcases haccounted'.freeProc hwritten with ⟨heap, hfree, hfreed, hkept⟩
    rw [hfree] at hend
    cases hend
    constructor
    · exact h.sound.keep hfreed hkept
    · exact ⟨lost, hfreed⟩
    · exact h.stored
    · intro d hd
      exact h.executed d (List.mem_of_mem_eraseIdx hd)

/-- Every event keeps the invariant, as long as the strings of what it keeps are
copied. -/
theorem Inv.next (h : st.Inv cfg) {event : Event cfg} (hcopied : st.StringsCopied event)
    {st' : Running} (hnext : st.next event = some st') : st'.Inv cfg := by
  cases event with
  | request env packet =>
      rcases Option.map_eq_some_iff.mp hnext with ⟨r, hserve, rfl⟩
      exact h.request hcopied hserve
  | start env slot =>
      rcases Option.map_eq_some_iff.mp hnext with ⟨⟨ret, st''⟩, hrun, rfl⟩
      exact h.start hcopied hrun
  | finish i => exact h.finish hnext

/-- No procedure is damaged in a run whose copies are whole. -/
theorem undamaged_of_reaches {events : List (Event cfg)}
    (h : Reaches next StringsCopied init events st) : st.Undamaged cfg := by
  have hinv : st.Inv cfg := by
    refine h.invariant (P := fun _ st => st.Inv cfg) init_inv ?_
    intro events st event st' hst hcopied hnext
    exact hst.next hcopied hnext
  exact hinv.undamaged

end Running

/-- A procedure that is decoded or copied is refused or whole exactly when the
allocations of its strings succeed; and where they do, no procedure without a
string is ever stored, executed or encoded. -/
theorem allocation_failures_iff (cfg : Config) :
    (∀ (alloc : Nat → Bool) (heap : Heap Block) (packet : Packet cfg) (u : Unpacked),
      unpackProcFromCspPacket cfg packet = some u → u.ret = 0 →
      (FailedOrWhole u.procedure (unpackStored alloc heap packet) ↔
        heap.Succeeds alloc u.procedure.strings.length)) ∧
    (∀ (alloc : Nat → Bool) (heap : Heap Block) (original : StoredProc) (proc : Proc),
      original.load heap = some proc → proc.Known →
      (FailedOrWhole proc (deepcopyStored alloc heap original) ↔
        heap.Succeeds alloc proc.strings.length)) ∧
    ∀ (events : List (Running.Event cfg)) (st : Running),
      Reaches Running.next Running.StringsCopied Running.init events st → st.Undamaged cfg := by
  refine ⟨?_, ?_, ?_⟩
  · intro alloc heap packet u hu hret
    exact unpackStored_whole_iff alloc heap hu hret
  · intro alloc heap original proc hload hknown
    exact deepcopyStored_whole_iff alloc hload hknown
  · intro events st h
    exact Running.undamaged_of_reaches h

/-- `proc set d e`. -/
def setProc : Proc := ⟨[Memory.setInstruction], by decide⟩

/-- A push of it to slot 8. -/
def setPush : Packet .default := .ofBytes [0x74, 8, 1, 0, 0, 2, 100, 0, 101, 0] [] (by decide)

/-- Its strings in memory. -/
def setStored : List StoredProcInstruction × Heap Block :=
  storeInstructions (fun _ => true) .empty setProc.instructions

/-- Only one call of the allocator fails. -/
def failingAt (call : Nat) : Nat → Bool := fun n => n ≠ call

/-- When the second string cannot be copied, the decoder and `deepcopy_proc`
return 0 with a procedure that lacks it, and a push stores such a procedure. -/
theorem lost_string_stored :
    (∃ u, unpackProcFromCspPacket .default setPush = some u ∧ u.ret = 0 ∧
      ¬ FailedOrWhole u.procedure (unpackStored (failingAt 1) .empty setPush)) ∧
    (StoredProc.load setStored.2 ⟨setStored.1, 1⟩ = some setProc ∧
      ¬ FailedOrWhole setProc (deepcopyStored (failingAt 3) setStored.2 ⟨setStored.1, 1⟩)) ∧
    ∃ st, Reaches Running.next (fun _ _ => True) Running.init
        [.request ⟨failingAt 3, true, none⟩ setPush] st ∧ ¬ st.Undamaged .default := by
  have hdecoded : (unpackStored (failingAt 1) .empty setPush).any
      (fun r => r.1 = 0 ∧ (r.2.1.load r.2.2).isNone = true) = true := by
    decide +kernel
  have hcopied : (deepcopyStored (failingAt 3) setStored.2 ⟨setStored.1, 1⟩).any
      (fun r => r.1 = 0 ∧ (r.2.1.load r.2.2).isNone = true) = true := by
    decide +kernel
  have hstored : (Running.next Running.init
      (.request ⟨failingAt 3, true, none⟩ setPush)).any
        (fun st => (st.memory.procStore 8).pointers.contains none) = true := by
    decide +kernel
  -- a result of 0 with a procedure that cannot be read is neither a failure nor whole
  have hnot : ∀ (proc : Proc) (result : Option (Int × StoredProc × Heap Block)), result.any
      (fun r => r.1 = 0 ∧ (r.2.1.load r.2.2).isNone = true) = true →
        ¬ FailedOrWhole proc result := by
    rintro proc result hany ⟨ret, p, heap, rfl, hfailed | ⟨-, hload⟩⟩
    · simp [hfailed] at hany
    · simp [hload] at hany
  refine ⟨?_, ⟨by decide +kernel, hnot _ _ hcopied⟩, ?_⟩
  · have hunpacked : (unpackProcFromCspPacket .default setPush).any (fun u => u.ret = 0) =
        true := by
      decide +kernel
    rw [Option.any_eq_true] at hunpacked
    rcases hunpacked with ⟨u, hu, hret⟩
    exact ⟨u, hu, of_decide_eq_true hret, hnot _ _ hdecoded⟩
  · rw [Option.any_eq_true] at hstored
    rcases hstored with ⟨st, hst, hnull⟩
    refine ⟨st, .snoc .start trivial hst, ?_⟩
    intro hundamaged
    exact hundamaged.stored 8 (List.contains_iff_mem.mp hnull)

end CspProc
