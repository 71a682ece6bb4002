import CspProc.Allocation
import CspProc.Numbers

/-! # Editing on the heap

The editing commands again, with the strings of the current procedure as blocks
of a heap. Every allocation succeeds. A result `none` stands for behaviour that
is not defined: a block that is not live is read or freed, or the array is left.

* `Inv.run` — on the heap the commands do to the list of instructions what they
  do without one, and what is said of the strings that they lose;
* `editing_conserves_iff` — the live strings are those of the current procedure
  exactly as long as no command loses one, as an argument does that is refused
  behind a copied string, and as `proc pop` does.
-/

namespace CspProc

/-! ## Instructions that are loaded -/

/-- The instructions behind their strings, if all of these are there. -/
def LoadsTo (heap : Heap Block) (instructions : List StoredProcInstruction)
    (is : List ProcInstruction) : Prop :=
  instructions.map (·.load heap) = is.map some

/-- The strings that instructions refer to. -/
def stringsOf (instructions : List StoredProcInstruction) : List Nat :=
  (instructions.flatMap (·.instruction.pointers)).reduceOption

theorem stringsOf_append (instructions more : List StoredProcInstruction) :
    stringsOf (instructions ++ more) = stringsOf instructions ++ stringsOf more := by
  rw [stringsOf, List.flatMap_append, List.reduceOption_append]
  rfl

theorem stringsOf_singleton (ins : StoredProcInstruction) :
    stringsOf [ins] = ins.instruction.pointers.reduceOption := by
  rw [stringsOf, List.flatMap_singleton]

section LoadsTo

variable {heap heap' : Heap Block} {instructions : List StoredProcInstruction}
variable {is : List ProcInstruction}

theorem loadsTo_of_mapM (h : instructions.mapM (·.load heap) = some is) :
    LoadsTo heap instructions is := by
  induction instructions generalizing is with
  | nil =>
      rw [← Option.some.inj h]
      rfl
  | cons ins rest ih =>
      simp only [List.mapM_cons, Option.bind_eq_bind, Option.bind_eq_some_iff, pure,
        Option.some.injEq] at h
      rcases h with ⟨i, hi, is', hrest, rfl⟩
      exact List.cons_eq_cons.mpr ⟨hi, ih hrest⟩

theorem LoadsTo.length_eq (h : LoadsTo heap instructions is) : instructions.length = is.length := by
  have hlen := congrArg List.length h
  rwa [List.length_map, List.length_map] at hlen

theorem LoadsTo.append {more : List StoredProcInstruction} {js : List ProcInstruction}
    (h : LoadsTo heap instructions is) (hmore : LoadsTo heap more js) :
    LoadsTo heap (instructions ++ more) (is ++ js) := by
  unfold LoadsTo at h hmore ⊢
  rw [List.map_append, List.map_append, h, hmore]

theorem LoadsTo.take (h : LoadsTo heap instructions is) (n : Nat) :
    LoadsTo heap (instructions.take n) (is.take n) := by
  unfold LoadsTo at h ⊢
  rw [List.map_take, List.map_take, h]

theorem LoadsTo.drop (h : LoadsTo heap instructions is) (n : Nat) :
    LoadsTo heap (instructions.drop n) (is.drop n) := by
  unfold LoadsTo at h ⊢
  rw [List.map_drop, List.map_drop, h]

theorem LoadsTo.exists_load (h : LoadsTo heap instructions is) {ins : StoredProcInstruction}
    (hins : ins ∈ instructions) : ∃ i, ins.instruction.load heap = some i := by
  have hmem : ins.load heap ∈ is.map some := by
    rw [← h]
    exact List.mem_map_of_mem hins
  rcases List.mem_map.mp hmem with ⟨j, -, hj⟩
  rcases Option.map_eq_some_iff.mp hj.symm with ⟨i, hi, -⟩
  exact ⟨i, hi⟩

/-- Every pointer is to a string. -/
theorem LoadsTo.exists_string (h : LoadsTo heap instructions is) {p : Ptr}
    (hp : p ∈ instructions.flatMap (·.instruction.pointers)) :
    ∃ b s, p = some b ∧ heap.blocks b = some (.string s) := by
  rcases List.mem_flatMap.mp hp with ⟨ins, hins, hp⟩
  rcases h.exists_load hins with ⟨i, hi⟩
  have hsome : (ins.instruction.load heap).isSome = true := by
    rw [hi]
    rfl
  have hstring := StoredInstruction.isSome_load_iff.mp hsome p hp
  rcases Option.isSome_iff_exists.mp hstring with ⟨s, hs⟩
  rcases Option.bind_eq_some_iff.mp (loadString_eq_some.mp hs) with ⟨b, hb, hblock⟩
  exact ⟨b, s, hb, hblock⟩

theorem LoadsTo.string (h : LoadsTo heap instructions is) {b : Nat}
    (hb : b ∈ stringsOf instructions) : ∃ s, heap.blocks b = some (.string s) := by
  rcases h.exists_string (List.reduceOption_mem_iff.mp hb) with ⟨b', s, heq, hs⟩
  rw [Option.some.inj heq]
  exact ⟨s, hs⟩

/-- Without a pointer there is no string, and the other way around. -/
theorem LoadsTo.stringsOf_eq_nil (h : LoadsTo heap instructions is) :
    stringsOf instructions = [] ↔ instructions.flatMap (·.instruction.pointers) = [] := by
  constructor
  · intro hnil
    rw [List.eq_nil_iff_forall_not_mem]
    intro p hp
    rcases h.exists_string hp with ⟨b, s, rfl, -⟩
    have hb : b ∈ stringsOf instructions := List.reduceOption_mem_iff.mpr hp
    rw [hnil] at hb
    cases hb
  · intro hnil
    rw [stringsOf, hnil]
    rfl

/-- Where the strings are kept, so are the instructions. -/
theorem LoadsTo.mono (h : LoadsTo heap instructions is)
    (hkept : ∀ b ∈ stringsOf instructions, ∀ v, heap.blocks b = some v →
      heap'.blocks b = some v) :
    LoadsTo heap' instructions is := by
  unfold LoadsTo
  rw [← h]
  apply List.map_congr_left
  intro ins hins
  rcases h.exists_load hins with ⟨i, hi⟩
  have hi' : ins.instruction.load heap' = some i := by
    refine StoredInstruction.load_mono (fun b hb v hv => hkept b ?_ v hv) hi
    exact List.reduceOption_mem_iff.mpr (List.mem_flatMap.mpr ⟨ins, hins, hb⟩)
  rw [StoredProcInstruction.load, StoredProcInstruction.load, hi, hi']

end LoadsTo

/-! ## Strings of arguments -/

/-- `proc_strdup` where memory does not run out. -/
def always : Nat → Bool := fun _ => true

section Copies

variable {heap : Heap Block}

theorem holds_storeInstructions {l : List Nat} (hh : heap.Holds l) (is : List ProcInstruction) :
    (storeInstructions always heap is).2.Holds
      (stringsOf (storeInstructions always heap is).1 ++ l) := by
  rcases storeInstructions_eq always heap is with ⟨hpointers, hheap⟩
  rw [hheap, stringsOf, hpointers]
  exact hh.allocAll ..

/-- Copying changes no block that is live. -/
theorem blocks_storeInstructions (is : List ProcInstruction) {b : Nat} {v : Block}
    (hb : heap.blocks b = some v) : (storeInstructions always heap is).2.blocks b = some v := by
  rw [(storeInstructions_eq always heap is).2]
  exact Heap.blocks_allocAll _ _ hb

theorem loadsTo_storeInstructions (is : List ProcInstruction) :
    LoadsTo (storeInstructions always heap is).2 (storeInstructions always heap is).1 is := by
  refine loadsTo_of_mapM (load_storeInstructions always heap is ?_)
  rw [(storeInstructions_eq always heap is).1]
  exact Heap.none_not_mem_allocAll (fun _ => rfl) _ heap

/-- A stored instruction is copied like a list of one. -/
theorem storeInstructions_cons (i : ProcInstruction) (is : List ProcInstruction) :
    storeInstructions always heap (i :: is) =
      (⟨i.node, (storeInstruction always heap i.instruction).1⟩ ::
        (storeInstructions always (storeInstruction always heap i.instruction).2 is).1,
      (storeInstructions always (storeInstruction always heap i.instruction).2 is).2) := rfl

end Copies

/-- What reads arguments and copies strings, and may return in the middle. -/
abbrev Reading (α : Type) : Type := OptionT (StateM (Heap Block)) α

/-- `if (++argi >= slash->argc) return SLASH_EINVAL`. -/
def required (arg : Option CStr) : Reading CStr := OptionT.mk (pure arg)

/-- `proc_strdup(slash->argv[argi])` of a required argument. -/
def strdupArg (arg : Option CStr) : Reading Ptr := do
  let s ← required arg
  OptionT.lift fun heap => heap.alloc always (.string s)

/-- The operator that a required argument is. -/
def operatorArg (n : Nat) (parse : CStr → UInt32) (arg : Option CStr) : Reading UInt32 := do
  let s ← required arg
  OptionT.mk (pure (checkedOp n (parse s)))

/-! ## The current procedure in memory -/

/-- A `proc_t` in memory, in its block: the array of instructions, of which the
first `instruction_count` are in use. -/
structure StoredBuffer (maxInstructions : Nat) where
  block : Nat
  instructions : List StoredProcInstruction
  instructionCount : UInt8
  length_eq : instructions.length = maxInstructions

namespace StoredBuffer

variable {n : Nat}

/-- The instructions in use. -/
def inUse (p : StoredBuffer n) : List StoredProcInstruction :=
  p.instructions.take p.instructionCount.toNat

/-- The strings that the instructions in use refer to. -/
def strings (p : StoredBuffer n) : List Nat := stringsOf p.inUse

/-- `instructions[instruction_count] = ins; instruction_count++`. -/
def append (p : StoredBuffer n) (ins : StoredProcInstruction) : StoredBuffer n where
  block := p.block
  instructions := p.instructions.set p.instructionCount.toNat ins
  instructionCount := p.instructionCount + 1
  length_eq := by rw [List.length_set, p.length_eq]

end StoredBuffer

namespace Editor

variable (ed : Editor)

/-- The heap, and `current_procedure`. -/
structure EditMemory where
  heap : Heap Block
  current : Option (StoredBuffer ed.maxInstructions)

/-- The arguments of `proc block` and `proc ifelse`. -/
def readConditionStored (argv : List CStr) (make : Ptr → UInt32 → Ptr → StoredInstruction)
    (argi : Nat) : Reading StoredProcInstruction := do
  let paramA ← strdupArg argv[argi + 1]?
  let op ← operatorArg ed.sizeofEnum (parseComparisonOpEnum ed.sizeofEnum) argv[argi + 2]?
  let paramB ← strdupArg argv[argi + 3]?
  return ⟨ed.nodeArg argv (argi + 4), make paramA op paramB⟩

/-- The arguments of `proc set`. -/
def readSetStored (argv : List CStr) (argi : Nat) : Reading StoredProcInstruction := do
  let param ← strdupArg argv[argi + 1]?
  let value ← strdupArg argv[argi + 2]?
  return ⟨ed.nodeArg argv (argi + 3), .set param value⟩

/-- The arguments of `proc unop`. -/
def readUnopStored (argv : List CStr) (argi : Nat) : Reading StoredProcInstruction := do
  let param ← strdupArg argv[argi + 1]?
  let op ← operatorArg ed.sizeofEnum (parseUnaryOpEnum ed.sizeofEnum) argv[argi + 2]?
  let result ← strdupArg argv[argi + 3]?
  return ⟨ed.nodeArg argv (argi + 4), .unop param op result⟩

/-- The arguments of `proc binop`. -/
def readBinopStored (argv : List CStr) (argi : Nat) : Reading StoredProcInstruction := do
  let paramA ← strdupArg argv[argi + 1]?
  let op ← operatorArg ed.sizeofEnum (parseBinaryOpEnum ed.sizeofEnum) argv[argi + 2]?
  let paramB ← strdupArg argv[argi + 3]?
  let result ← strdupArg argv[argi + 4]?
  return ⟨ed.nodeArg argv (argi + 5), .binop paramA op paramB result⟩

/-- The arguments of `proc call`. -/
def readCallStored (argv : List CStr) (argi : Nat) : Reading StoredProcInstruction := do
  let procedureSlot ← required argv[argi + 1]?
  return ⟨ed.nodeArg argv (argi + 2), .call (UInt8.ofInt (atoi procedureSlot))⟩

/-- `proc noop` reads no argument. -/
def readNoopStored (_argi : Nat) : Reading StoredProcInstruction := return ⟨0, .noop⟩

variable {ed}

/-- The heap is another one. -/
def EditMemory.withHeap (st : ed.EditMemory) (heap : Heap Block) : ed.EditMemory :=
  { st with heap := heap }

/-- The strings that the instructions of the current procedure refer to. -/
def EditMemory.strings (st : ed.EditMemory) : List Nat :=
  match st.current with
  | none => []
  | some p => p.strings

/-- The blocks of the current procedure. -/
def EditMemory.owned (st : ed.EditMemory) : List Nat :=
  match st.current with
  | none => []
  | some p => p.block :: p.strings

variable (ed)

/-- What the commands that append an instruction have in common. -/
def addInstructionStored (argv : List CStr) (read : Nat → Reading StoredProcInstruction)
    (st : ed.EditMemory) : SlashResult × ed.EditMemory :=
  match st.current with
  | none => (.einval, st)
  | some p =>
      if ed.maxInstructions ≤ p.instructionCount.toNat then (.einval, st)
      else if ed.optparseParse argv.tail < 0 then (.einval, st)
      else
        match read (ed.argi argv) st.heap with
        -- what has been copied so far is not freed
        | (none, heap) => (.einval, st.withHeap heap)
        | (some ins, heap) => (.success, ⟨heap, some (p.append ins)⟩)

/-- `proc_block`. -/
def procBlockStored (argv : List CStr) (st : ed.EditMemory) : SlashResult × ed.EditMemory :=
  ed.addInstructionStored argv (ed.readConditionStored argv .block) st

/-- `proc_ifelse`. -/
def procIfelseStored (argv : List CStr) (st : ed.EditMemory) : SlashResult × ed.EditMemory :=
  ed.addInstructionStored argv (ed.readConditionStored argv .ifelse) st

/-- `proc_noop`. -/
def procNoopStored (argv : List CStr) (st : ed.EditMemory) : SlashResult × ed.EditMemory :=
  ed.addInstructionStored argv readNoopStored st

/-- `proc_set`. -/
def procSetStored (argv : List CStr) (st : ed.EditMemory) : SlashResult × ed.EditMemory :=
  ed.addInstructionStored argv (ed.readSetStored argv) st

/-- `proc_unop`. -/
def procUnopStored (argv : List CStr) (st : ed.EditMemory) : SlashResult × ed.EditMemory :=
  ed.addInstructionStored argv (ed.readUnopStored argv) st

/-- `proc_binop`. -/
def procBinopStored (argv : List CStr) (st : ed.EditMemory) : SlashResult × ed.EditMemory :=
  ed.addInstructionStored argv (ed.readBinopStored argv) st

/-- `proc_call`. -/
def procCallStored (argv : List CStr) (st : ed.EditMemory) : SlashResult × ed.EditMemory :=
  ed.addInstructionStored argv (ed.readCallStored argv) st

/-- `proc_new`, with the instructions that the allocated memory holds. -/
def procNewStored (memory : { l : List StoredProcInstruction // l.length = ed.maxInstructions })
    (st : ed.EditMemory) : Option (SlashResult × ed.EditMemory) := do
  let heap ← match st.current with
    | none => some st.heap
    | some p => freeProc st.heap (some p.block) ⟨p.instructions, p.instructionCount⟩
  match heap.alloc always .procedure with
  | (none, _) => none
  | (some block, heap) => return (.success, ⟨heap, some ⟨block, memory.1, 0, memory.2⟩⟩)

/-- The loop of `proc_pop`, as `shiftLeft`. -/
def shiftLeftStored : (n i : Nat) → List StoredProcInstruction → Heap Block →
    Option (Bool × List StoredProcInstruction × Heap Block)
  | 0, _, l, heap => some (true, l, heap)
  | n + 1, i, l, heap =>
      match l[i + 1]? with
      | none => none
      | some ins => do
          -- the original keeps its strings, until the next copy is written over it
          let (ret, copy, heap) ← procCopyInstructionStored always heap ins.instruction
          if ret ≠ 0 then return (false, l.set i ⟨ins.node, copy⟩, heap)
          else shiftLeftStored n (i + 1) (l.set i ⟨ins.node, copy⟩) heap

theorem shiftLeftStored_length {n i : Nat} {l l' : List StoredProcInstruction}
    {heap heap' : Heap Block} {b : Bool}
    (h : shiftLeftStored n i l heap = some (b, l', heap')) : l'.length = l.length := by
  induction n generalizing i l heap with
  | zero =>
      simp only [shiftLeftStored, Option.some.injEq, Prod.mk.injEq] at h
      rw [h.2.1]
  | succ n ih =>
      unfold shiftLeftStored at h
      split at h
      · cases h
      · rcases Option.bind_eq_some_iff.mp h with ⟨⟨ret, copy, heap''⟩, -, h⟩
        dsimp only at h
        split at h
        · simp only [pure, Option.some.injEq, Prod.mk.injEq] at h
          rw [← h.2.1, List.length_set]
        · rw [ih h, List.length_set]

/-- The end of `proc_pop`. -/
def removeAtStored (st : ed.EditMemory) (p : StoredBuffer ed.maxInstructions) (step : UInt8) :
    Option (SlashResult × ed.EditMemory) :=
  let last : Int := p.instructionCount.toNat - 1
  if (step.toNat : Int) = last then
    -- the instruction stays in the array, and its strings on the heap
    some (.success, { st with current := some { p with
      instructionCount := p.instructionCount - 1 } })
  else if (step.toNat : Int) < last then
    match p.instructions[step.toNat]? with
    | none => none
    | some ins => do
        let heap ← st.heap.freeAll ins.instruction.pointers
        match h : shiftLeftStored (p.instructionCount.toNat - 1 - step.toNat) step.toNat
            p.instructions heap with
        | none => none
        | some (copied, instructions, heap) =>
            let p' : StoredBuffer ed.maxInstructions :=
              { p with
                instructions := instructions
                length_eq := (shiftLeftStored_length h).trans p.length_eq }
            if copied then
              return (.success, ⟨heap, some { p' with
                instructionCount := p.instructionCount - 1 }⟩)
            else return (.einval, ⟨heap, some p'⟩)
  else some (.einval, st)

/-- The index that `proc_pop` comes to, unless an option is refused. -/
def popIndex (argv : List CStr) (option : Option UInt8) (instructionCount : UInt8) :
    Option UInt8 :=
  if ed.optparseParse argv.tail < 0 then none
  else
    match argv[ed.argi argv + 1]? with
    | some s => some (UInt8.ofInt (atoi s))
    | none => some (option.getD (instructionCount - 1))

/-- `proc_pop`. -/
def procPopStored (argv : List CStr) (option : Option UInt8) (st : ed.EditMemory) :
    Option (SlashResult × ed.EditMemory) :=
  match st.current with
  | none => some (.einval, st)
  | some p =>
      match ed.popIndex argv option p.instructionCount with
      | none => some (.einval, st)
      | some step => ed.removeAtStored st p step

/-- A command line, what the memory holds that `proc new` allocates, and the index
that an option of `proc pop` leaves in `step`. -/
structure StoredInput extends ed.EditInput where
  memory : { l : List StoredProcInstruction // l.length = ed.maxInstructions }
  stepOption : Option UInt8

/-- One command. -/
def runStored (input : ed.StoredInput) (st : ed.EditMemory) :
    Option (SlashResult × ed.EditMemory) :=
  match input.command with
  | .new _ => ed.procNewStored input.memory st
  | .block => some (ed.procBlockStored input.argv st)
  | .ifelse => some (ed.procIfelseStored input.argv st)
  | .noop => some (ed.procNoopStored input.argv st)
  | .set => some (ed.procSetStored input.argv st)
  | .unop => some (ed.procUnopStored input.argv st)
  | .binop => some (ed.procBinopStored input.argv st)
  | .call => some (ed.procCallStored input.argv st)
  | .pop => ed.procPopStored input.argv input.stepOption st

/-- The memory after a command. -/
def nextStored (st : ed.EditMemory) (input : ed.StoredInput) : Option ed.EditMemory :=
  (ed.runStored input st).map Prod.snd

/-- Before the first command. -/
def startStored : ed.EditMemory := ⟨.empty, none⟩

end Editor

/-! ## Reading arguments -/

section Reading

variable {α β : Type} {m : Reading α} {heap heap' : Heap Block}

theorem reading_bind_none {f : α → Reading β} (h : m heap = (none, heap')) :
    (m >>= f) heap = (none, heap') := by
  simp only [bind, OptionT.bind, OptionT.mk, StateT.bind, h]
  rfl

theorem reading_bind_some {f : α → Reading β} {a : α} (h : m heap = (some a, heap')) :
    (m >>= f) heap = f a heap' := by
  simp only [bind, OptionT.bind, OptionT.mk, StateT.bind, h]

theorem strdupArg_bind (arg : Option CStr) (f : Ptr → Reading β) :
    (strdupArg arg >>= f) heap =
      match arg with
      | none => (none, heap)
      | some s => f (heap.alloc always (.string s)).1 (heap.alloc always (.string s)).2 := by
  cases arg with
  | none => exact reading_bind_none rfl
  | some s => exact reading_bind_some rfl

theorem reading_pure (result : Option α) :
    (OptionT.mk (pure result) : Reading α) heap = (result, heap) := rfl

theorem required_bind (arg : Option CStr) (f : CStr → Reading β) :
    (required arg >>= f) heap =
      match arg with
      | none => (none, heap)
      | some s => f s heap := by
  cases arg with
  | none => exact reading_bind_none rfl
  | some s => exact reading_bind_some rfl

theorem operatorArg_run (heap : Heap Block) (n : Nat) (parse : CStr → UInt32) (s : CStr) :
    operatorArg n parse (some s) heap = (checkedOp n (parse s), heap) :=
  (required_bind (some s) _).trans (reading_pure _)

theorem operatorArg_bind (n : Nat) (parse : CStr → UInt32) (arg : Option CStr)
    (f : UInt32 → Reading β) :
    (operatorArg n parse arg >>= f) heap =
      match arg.bind fun s => checkedOp n (parse s) with
      | none => (none, heap)
      | some op => f op heap := by
  cases arg with
  | none => exact reading_bind_none rfl
  | some s =>
      have hrun := operatorArg_run heap n parse s
      rw [Option.bind_some]
      generalize checkedOp n (parse s) = result at *
      cases result with
      | none => exact reading_bind_none hrun
      | some op => exact reading_bind_some hrun

end Reading

/-- What reading an instruction comes to on the heap: its strings are copied, or
those that come before what is refused; these are none exactly when the first
of them is missing. -/
inductive ReadsAs (heap : Heap Block) (first : Option CStr) :
    Option ProcInstruction → Option StoredProcInstruction × Heap Block → Prop where
  | read (ins : ProcInstruction) :
      ReadsAs heap first (some ins) (some ⟨ins.node, (storeInstruction always heap
        ins.instruction).1⟩, (storeInstruction always heap ins.instruction).2)
  | refused (strings : List CStr) (h : strings = [] ↔ first = none) :
      ReadsAs heap first none (none, (heap.allocAll always (strings.map .string)).2)

/-- The commands whose instructions have strings. -/
def EditCommand.hasStrings {n : Nat} : EditCommand n → Bool
  | .block | .ifelse | .set | .unop | .binop => true
  | _ => false

namespace Editor

variable (ed : Editor)

/-- What a command that appends reads on the heap. -/
def readStored (c : EditCommand ed.maxInstructions) (argv : List CStr) :
    Nat → Reading StoredProcInstruction :=
  match c with
  | .block => ed.readConditionStored argv .block
  | .ifelse => ed.readConditionStored argv .ifelse
  | .noop => readNoopStored
  | .set => ed.readSetStored argv
  | .unop => ed.readUnopStored argv
  | .binop => ed.readBinopStored argv
  | .call => ed.readCallStored argv
  | .new _ | .pop => fun _ => OptionT.mk (pure none)

/-- The argument that is copied first. -/
def firstString (c : EditCommand ed.maxInstructions) (argv : List CStr) : Option CStr :=
  if c.hasStrings = true then argv[ed.argi argv + 1]? else none

variable {ed}

/-- Two strings are copied, with an operator read in between. -/
theorem readsAs_operands {node : UInt16} {make : CStr → UInt32 → CStr → Instruction}
    {makeStored : Ptr → UInt32 → Ptr → StoredInstruction} (heap : Heap Block)
    (hmake : ∀ a op b, storeInstruction always heap (make a op b) =
      (makeStored (heap.alloc always (.string a)).1 op
        ((heap.alloc always (.string a)).2.alloc always (.string b)).1,
        ((heap.alloc always (.string a)).2.alloc always (.string b)).2))
    (n : Nat) (parse : CStr → UInt32) (first operator second : Option CStr) :
    ReadsAs heap first
      (do
        let a ← first
        let op ← checkedOp n (parse (← operator))
        let b ← second
        return ⟨node, make a op b⟩)
      ((do
        let a ← strdupArg first
        let op ← operatorArg n parse operator
        let b ← strdupArg second
        return ⟨node, makeStored a op b⟩ : Reading StoredProcInstruction) heap) := by
  simp only [strdupArg_bind, operatorArg_bind, Option.bind_eq_bind, ← Option.bind_assoc]
  generalize (operator.bind fun s => checkedOp n (parse s)) = op
  -- a string is copied when it is read, before what comes behind it can be refused
  cases first with
  | none => exact .refused [] (by simp)
  | some a =>
      cases op with
      | none => exact .refused [a] (by simp)
      | some op =>
          cases second with
          | none => exact .refused [a] (by simp)
          | some b =>
              have hread : ReadsAs heap (some a) (some ⟨node, make a op b⟩) _ := .read _
              rw [hmake] at hread
              exact hread

theorem readSetStored_spec (argv : List CStr) (i : Nat) (heap : Heap Block) :
    ReadsAs heap argv[i + 1]? (ed.readSet argv i) (ed.readSetStored argv i heap) := by
  unfold readSet readSetStored
  simp only [strdupArg_bind]
  cases argv[i + 1]? with
  | none => exact .refused [] (by simp)
  | some param =>
      cases argv[i + 2]? with
      | none => exact .refused [param] (by simp)
      | some value => exact .read _

theorem readBinopStored_spec (argv : List CStr) (i : Nat) (heap : Heap Block) :
    ReadsAs heap argv[i + 1]? (ed.readBinop argv i) (ed.readBinopStored argv i heap) := by
  unfold readBinop readBinopStored
  simp only [strdupArg_bind, operatorArg_bind, Option.bind_eq_bind, ← Option.bind_assoc]
  generalize (argv[i + 2]?.bind fun s =>
    checkedOp ed.sizeofEnum (parseBinaryOpEnum ed.sizeofEnum s)) = op
  cases argv[i + 1]? with
  | none => exact .refused [] (by simp)
  | some paramA =>
      cases op with
      | none => exact .refused [paramA] (by simp)
      | some op =>
          cases argv[i + 3]? with
          | none => exact .refused [paramA] (by simp)
          | some paramB =>
              cases argv[i + 4]? with
              | none => exact .refused [paramA, paramB] (by simp)
              | some result => exact .read _

theorem readCallStored_spec (argv : List CStr) (i : Nat) (heap : Heap Block) :
    ReadsAs heap none (ed.readCall argv i) (ed.readCallStored argv i heap) := by
  unfold readCall readCallStored
  simp only [required_bind]
  cases argv[i + 1]? with
  | none => exact .refused [] (by simp)
  | some procedureSlot => exact .read _

/-- Every command reads its instruction as it does without a heap. -/
theorem readStored_spec {c : EditCommand ed.maxInstructions} (hc : c.appends = true)
    (argv : List CStr) (heap : Heap Block) :
    ReadsAs heap (ed.firstString c argv) (ed.read c argv (ed.argi argv))
      (ed.readStored c argv (ed.argi argv) heap) := by
  cases c with
  | new | pop => cases hc
  | block => exact readsAs_operands heap (fun _ _ _ => rfl) ..
  | ifelse => exact readsAs_operands heap (fun _ _ _ => rfl) ..
  | noop => exact .read _
  | set => exact readSetStored_spec ..
  | unop => exact readsAs_operands heap (fun _ _ _ => rfl) ..
  | binop => exact readBinopStored_spec ..
  | call => exact readCallStored_spec ..

/-- The commands that append an instruction read it first. -/
theorem runStored_of_appends {input : ed.StoredInput} (hc : input.command.appends = true)
    (st : ed.EditMemory) :
    ed.runStored input st =
      some (ed.addInstructionStored input.argv (ed.readStored input.command input.argv) st) := by
  rcases input with ⟨⟨c, argv⟩, memory, option⟩
  cases c with
  | new | pop => cases hc
  | block | ifelse | noop | set | unop | binop | call => rfl

/-! ## Removing an instruction -/

/-- The loop copies the instructions behind position `i` to the left, as far as
it goes. -/
theorem shiftLeftStored_eq {n i : Nat} {l : List StoredProcInstruction} {heap : Heap Block}
    {is : List ProcInstruction} (hlt : i + n < l.length)
    (hloads : LoadsTo heap ((l.drop (i + 1)).take n) is)
    (hknown : ∀ j ∈ is, j.instruction.isKnown = true) :
    shiftLeftStored n i l heap =
      some (true, l.take i ++ (storeInstructions always heap is).1 ++ l.drop (i + n),
        (storeInstructions always heap is).2) := by
  induction n generalizing i l heap is with
  | zero =>
      have hnil : is = [] := List.length_eq_zero_iff.mp hloads.length_eq.symm
      rw [hnil]
      simp [shiftLeftStored, storeInstructions]
  | succ n ih =>
      have hget : l[i + 1]? = some l[i + 1] := List.getElem?_eq_getElem (by omega)
      have hdrop : (l.drop (i + 1)).take (n + 1) = l[i + 1] :: (l.drop (i + 2)).take n := by
        rw [List.drop_eq_getElem_cons (by omega), List.take_succ_cons]
      rw [hdrop] at hloads
      cases is with
      | nil => cases hloads
      | cons j js =>
          rcases List.cons.inj hloads with ⟨hj, hjs⟩
          rcases Option.map_eq_some_iff.mp hj with ⟨instruction, hload, rfl⟩
          have hcopy := procCopyInstructionStored_eq always hload
            (hknown _ List.mem_cons_self)
          -- the copy leaves alone what is read behind it
          have hrest : LoadsTo (storeInstruction always heap instruction).2
              (((l.set i ⟨l[i + 1].node, (storeInstruction always heap instruction).1⟩).drop
                (i + 1 + 1)).take n) js := by
            rw [List.drop_set_of_lt (by omega)]
            refine LoadsTo.mono hjs ?_
            intro b _ v hv
            exact blocks_storeInstructions [⟨l[i + 1].node, instruction⟩] hv
          have hshift := ih (by rw [List.length_set]; omega) hrest
            fun k hk => hknown k (List.mem_cons_of_mem _ hk)
          rw [shiftLeftStored, hget, storeInstructions_cons]
          simp only [hcopy, Option.bind_eq_bind, Option.bind_some, ne_eq, not_true_eq_false,
            if_false, hshift]
          rw [written_in_front _ (by omega)]

end Editor

/-! ## Procedures in memory -/

namespace StoredBuffer

variable {n : Nat} {p : StoredBuffer n} {heap heap' : Heap Block} {is : List ProcInstruction}

/-- The procedure lies in its block, and the instructions in use are those of the
list, with known types. -/
structure Shows (p : StoredBuffer n) (heap : Heap Block) (is : List ProcInstruction) : Prop where
  block : heap.blocks p.block = some .procedure
  count_le : p.instructionCount.toNat ≤ n
  loads : LoadsTo heap p.inUse is
  known : ∀ i ∈ is, i.instruction.isKnown = true

/-- The instructions whose strings nothing refers to any more when the one at an
index has been removed: this one, if it is the latest, and those behind it. -/
def lost (p : StoredBuffer n) (step : UInt8) : List StoredProcInstruction :=
  p.inUse.drop
    (if step.toNat + 1 = p.instructionCount.toNat then step.toNat else step.toNat + 1)

/-- Writing behind the last instruction appends. -/
theorem inUse_append (ins : StoredProcInstruction) (hn : n ≤ 255)
    (hlt : p.instructionCount.toNat < n) :
    (p.append ins).inUse = p.inUse ++ [ins] ∧
      (p.append ins).instructionCount.toNat = p.instructionCount.toNat + 1 := by
  have hcount : (p.instructionCount + 1).toNat = p.instructionCount.toNat + 1 :=
    toNat_succ (by omega)
  refine ⟨?_, hcount⟩
  simp only [inUse, append, hcount]
  exact take_written ins (by rwa [p.length_eq])

theorem Shows.length_eq (h : p.Shows heap is) : is.length = p.instructionCount.toNat := by
  rw [← h.loads.length_eq, inUse, List.length_take, p.length_eq, Nat.min_eq_left h.count_le]

/-- What is kept of the heap is the block and the strings. -/
theorem Shows.mono (h : p.Shows heap is)
    (hkept : ∀ b ∈ p.block :: p.strings, ∀ v, heap.blocks b = some v → heap'.blocks b = some v) :
    p.Shows heap' is where
  block := hkept p.block List.mem_cons_self _ h.block
  count_le := h.count_le
  loads := h.loads.mono fun b hb => hkept b (List.mem_cons_of_mem _ hb)
  known := h.known

/-- A copied instruction is appended. -/
theorem Shows.append (h : p.Shows heap is) (hn : n ≤ 255) (hlt : p.instructionCount.toNat < n)
    {i : ProcInstruction} (hi : i.instruction.isKnown = true) :
    (p.append ⟨i.node, (storeInstruction always heap i.instruction).1⟩).Shows
      (storeInstruction always heap i.instruction).2 (is ++ [i]) := by
  rcases inUse_append (p := p) ⟨i.node, (storeInstruction always heap i.instruction).1⟩ hn hlt with
    ⟨hlist, hcount⟩
  constructor
  · exact blocks_storeInstructions [i] h.block
  · rw [hcount]
    exact hlt
  · rw [hlist]
    refine LoadsTo.append ?_ (loadsTo_storeInstructions [i])
    exact h.loads.mono fun b _ v hv => blocks_storeInstructions [i] hv
  · intro j hj
    rcases List.mem_append.mp hj with hold | hnew
    · exact h.known j hold
    · rw [List.mem_singleton.mp hnew]
      exact hi

end StoredBuffer

namespace Editor

variable {ed : Editor}

/-! ## What is lost -/

/-- A command that appends has room and copies a string, and then an argument is
missing or refused. -/
def losesCopies (ed : Editor) (c : EditCommand ed.maxInstructions) (argv : List CStr)
    (p : StoredBuffer ed.maxInstructions) : Bool :=
  p.instructionCount.toNat < ed.maxInstructions && 0 ≤ ed.optparseParse argv.tail &&
    (ed.firstString c argv).isSome && (ed.read c argv (ed.argi argv)).isNone

/-- `proc pop` removes the latest instruction and that has a string, or it removes
another one and one behind it has a string. -/
def losesRemoved (ed : Editor) (argv : List CStr) (option : Option UInt8)
    (p : StoredBuffer ed.maxInstructions) : Bool :=
  (ed.popIndex argv option p.instructionCount).any fun step =>
    (p.lost step).any fun ins => !ins.instruction.pointers.isEmpty

/-- The command loses a string. -/
def EditMemory.loses (st : ed.EditMemory) (input : ed.StoredInput) : Bool :=
  st.current.any fun p =>
    match input.command with
    | .new _ => false
    | .pop => ed.losesRemoved input.argv input.stepOption p
    | c => ed.losesCopies c input.argv p

/-! ## Invariant -/

/-- The current procedure is the list. -/
inductive EditMemory.Shows : ed.EditMemory → Option (List ProcInstruction) → Prop where
  | none (heap : Heap Block) : Shows ⟨heap, none⟩ none
  | some {heap : Heap Block} {p : StoredBuffer ed.maxInstructions} {is : List ProcInstruction}
      (h : p.Shows heap is) : Shows ⟨heap, some p⟩ (some is)

/-- The live blocks are those of the current procedure, and strings that have been
lost, each once. -/
structure EditMemory.Inv (st : ed.EditMemory) (list : Option (List ProcInstruction))
    (leaked : List Nat) : Prop where
  holds : st.heap.Holds (leaked ++ st.owned)
  strings : ∀ b ∈ leaked, ∃ s, st.heap.blocks b = some (.string s)
  shows : st.Shows list

/-- What has been lost leads the list of the live blocks. -/
theorem lost_first (leaked lost strings : List Nat) (block : Nat) :
    (lost ++ (leaked ++ block :: strings)).Perm (leaked ++ block :: (strings ++ lost)) := by
  refine List.perm_append_comm.trans (.of_eq ?_)
  rw [List.append_assoc, List.cons_append]

namespace EditMemory

variable {st : ed.EditMemory} {list : Option (List ProcInstruction)} {leaked : List Nat}
variable {p : StoredBuffer ed.maxInstructions}

/-- The list of a current procedure. -/
theorem Inv.exists_list (h : st.Inv list leaked) (hp : st.current = some p) :
    ∃ is, list = some is ∧ p.Shows st.heap is ∧
      st.heap.Holds (leaked ++ p.block :: p.strings) := by
  rcases st with ⟨heap, current⟩
  cases hp
  cases h.shows with
  | some hshows => exact ⟨_, rfl, hshows, h.holds⟩

/-- A copied instruction belongs to the procedure that it is appended to. -/
theorem Inv.append (h : st.Inv list leaked) (hp : st.current = some p)
    (hlt : p.instructionCount.toNat < ed.maxInstructions) {i : ProcInstruction}
    (hi : i.instruction.isKnown = true) :
    ∃ is, list = some is ∧
      Inv ⟨(storeInstruction always st.heap i.instruction).2,
        some (p.append ⟨i.node, (storeInstruction always st.heap i.instruction).1⟩)⟩
          (some (is ++ [i])) leaked := by
  rcases h.exists_list hp with ⟨is, hlist, hshows, hholds⟩
  refine ⟨is, hlist, ?_⟩
  constructor
  · have hcopied := holds_storeInstructions hholds [i]
    have hinUse := (StoredBuffer.inUse_append (p := p)
      ⟨i.node, (storeInstruction always st.heap i.instruction).1⟩ ed.max_le hlt).1
    refine hcopied.perm ((lost_first ..).trans (.of_eq ?_))
    show _ = leaked ++ p.block :: stringsOf (p.append _).inUse
    rw [hinUse, stringsOf_append]
    rfl
  · intro b hb
    rcases h.strings b hb with ⟨s, hs⟩
    exact ⟨s, blocks_storeInstructions [i] hs⟩
  · exact .some (hshows.append ed.max_le hlt hi)

/-- Copies that nothing refers to are lost. -/
theorem Inv.lose (h : st.Inv list leaked) (strings : List CStr) :
    (st.withHeap (st.heap.allocAll always (strings.map .string)).2).Inv list
      ((st.heap.allocAll always (strings.map .string)).1.reduceOption ++ leaked) := by
  have hkept : ∀ b v, st.heap.blocks b = some v →
      (st.heap.allocAll always (strings.map .string)).2.blocks b = some v :=
    fun _ _ hb => Heap.blocks_allocAll _ _ hb
  constructor
  · rw [List.append_assoc]
    exact h.holds.allocAll ..
  · intro b hb
    rcases List.mem_append.mp hb with hnew | hold
    · rcases Heap.exists_of_mem_allocAll _ _ (List.reduceOption_mem_iff.mp hnew) with
        ⟨v, hv, hblock⟩
      rcases List.mem_map.mp hv with ⟨s, -, rfl⟩
      exact ⟨s, hblock⟩
    · rcases h.strings b hold with ⟨s, hs⟩
      exact ⟨s, hkept b _ hs⟩
  · rcases st with ⟨heap, current⟩
    cases h.shows with
    | none => exact .none _
    | some hshows => exact .some (hshows.mono fun b _ v hb => hkept b v hb)

/-- None are, when nothing is copied. -/
theorem reduceOption_allocAll_eq_nil (heap : Heap Block) (strings : List CStr) :
    (heap.allocAll always (strings.map .string)).1.reduceOption = [] ↔ strings = [] := by
  cases strings with
  | nil => exact iff_of_true rfl rfl
  | cons s rest =>
      refine iff_of_false ?_ (List.cons_ne_nil _ _)
      rw [List.map_cons, Heap.allocAll]
      dsimp only
      rw [heap.alloc_fst_of_ok rfl, List.reduceOption_cons_of_some]
      exact List.cons_ne_nil _ _

/-! ## Commands that append -/

/-- A command that appends either appends what it reads, or refuses, and then loses
the strings that it has copied before. -/
theorem Inv.addInstruction (h : st.Inv list leaked) {c : EditCommand ed.maxInstructions}
    (hc : c.appends = true) (argv : List CStr) :
    ∃ ret st' list' lost, ed.addInstructionStored argv (ed.readStored c argv) st = (ret, st') ∧
      Edits c ret list list' ∧ st'.Inv list' (lost ++ leaked) ∧
      (lost = [] ↔ st.current.any (ed.losesCopies c argv) = false) := by
  have hnew : ∀ memory, c ≠ .new memory := by
    intro memory heq
    rw [heq] at hc
    cases hc
  have hpop : c ≠ .pop := by
    intro heq
    rw [heq] at hc
    cases hc
  unfold addInstructionStored losesCopies
  cases hp : st.current with
  | none => exact ⟨.einval, st, list, [], rfl, .refused c list, h, iff_of_true rfl rfl⟩
  | some p =>
      dsimp only
      -- neither a full procedure nor bad options come to the copies of the strings
      by_cases hfull : ed.maxInstructions ≤ p.instructionCount.toNat
      · rw [if_pos hfull]
        refine ⟨.einval, st, list, [], rfl, .refused c list, h, iff_of_true rfl ?_⟩
        simp [hfull]
      · rw [if_neg hfull]
        by_cases hparsed : ed.optparseParse argv.tail < 0
        · rw [if_pos hparsed]
          refine ⟨.einval, st, list, [], rfl, .refused c list, h, iff_of_true rfl ?_⟩
          simp [hparsed]
        · rw [if_neg hparsed]
          have hread := readStored_spec hc argv st.heap
          generalize hins : ed.read c argv (ed.argi argv) = read at hread
          generalize ed.readStored c argv (ed.argi argv) st.heap = result at hread
          cases hread with
          | read ins =>
              rcases h.append hp (not_le.mp hfull) (known_of_read hins) with ⟨is, hlist, happended⟩
              rw [hlist]
              refine ⟨.success, _, _, [], rfl, .appended hnew hpop is ins, happended,
                iff_of_true rfl ?_⟩
              simp
          | refused strings hstrings =>
              -- the copies that were made before the refusal stay allocated
              refine ⟨.einval, _, list, _, rfl, .refused c list, h.lose strings, ?_⟩
              rw [reduceOption_allocAll_eq_nil, hstrings]
              simp [not_le.mp hfull, not_lt.mp hparsed]

/-! ## `proc new` -/

/-- The current procedure is freed. -/
theorem freeProc_current {heap : Heap Block} {is : List ProcInstruction}
    (hp : p.Shows heap is) (hholds : heap.Holds (leaked ++ p.block :: p.strings)) :
    ∃ heap', freeProc heap (some p.block) ⟨p.instructions, p.instructionCount⟩ = some heap' ∧
      heap'.Holds leaked ∧ ∀ b ∈ leaked, heap'.blocks b = heap.blocks b := by
  have hcount : ¬ p.instructions.length < p.instructionCount.toNat := by
    rw [p.length_eq]
    exact not_lt.mpr hp.count_le
  -- the strings are freed first, and then the block
  have hstrings : heap.Holds (p.strings ++ ((some p.block).toList ++ leaked)) := by
    refine hholds.perm (List.perm_append_comm.trans (.trans ?_ List.perm_middle.symm))
    exact (List.Perm.refl _)
  rcases hstrings.freeAll with ⟨heap', hfree, hholds', hkept⟩
  rcases hholds'.free with ⟨heap'', hfree', hholds'', hkept'⟩
  refine ⟨heap'', ?_, hholds'', ?_⟩
  · have hinstructions :
        freeInstructions heap ⟨p.instructions, p.instructionCount⟩ = some heap' := by
      rw [freeInstructions, if_neg hcount]
      exact hfree
    rw [freeProc, hinstructions]
    exact hfree'
  · intro b hb
    rw [hkept' b hb, hkept b (List.mem_append_right _ hb)]

/-- The new procedure is empty, and its block is a new one. -/
theorem inv_new {heap : Heap Block} (hholds : heap.Holds leaked)
    (hstrings : ∀ b ∈ leaked, ∃ s, heap.blocks b = some (.string s))
    (memory : { l : List StoredProcInstruction // l.length = ed.maxInstructions }) :
    Inv ⟨(heap.alloc always .procedure).2, some ⟨heap.calls, memory.1, 0, memory.2⟩⟩
      (some []) leaked := by
  constructor
  · exact (hholds.alloc always .procedure).perm List.perm_append_comm
  · intro b hb
    rcases hstrings b hb with ⟨s, hs⟩
    exact ⟨s, Heap.blocks_alloc _ _ hs⟩
  · refine .some ⟨?_, Nat.zero_le _, rfl, nofun⟩
    exact Function.update_self ..

theorem Inv.procNew (h : st.Inv list leaked)
    (memory : { l : List StoredProcInstruction // l.length = ed.maxInstructions }) :
    ∃ st', ed.procNewStored memory st = some (.success, st') ∧ st'.Inv (some []) leaked := by
  rcases st with ⟨heap, current⟩
  cases h.shows with
  | none =>
      have hholds := h.holds
      rw [owned, List.append_nil] at hholds
      exact ⟨_, rfl, inv_new hholds h.strings memory⟩
  | some hshows =>
      rcases freeProc_current hshows h.holds with ⟨heap', hfree, hholds, hkept⟩
      refine ⟨_, ?_, inv_new hholds ?_ memory⟩
      · unfold procNewStored
        dsimp only
        rw [hfree]
        rfl
      · intro b hb
        rw [hkept b hb]
        exact h.strings b hb

/-! ## `proc pop` -/

/-- Nothing is lost when the instructions that are lost have no strings. -/
theorem stringsOf_lost_eq_nil {heap : Heap Block} {is : List ProcInstruction}
    (hp : p.Shows heap is) (step : UInt8) :
    stringsOf (p.lost step) = [] ↔
      ((p.lost step).any fun ins => !ins.instruction.pointers.isEmpty) = false := by
  have hloads : ∃ js, LoadsTo heap (p.lost step) js := ⟨_, hp.loads.drop _⟩
  rcases hloads with ⟨js, hjs⟩
  rw [hjs.stringsOf_eq_nil, List.flatMap_eq_nil_iff, List.any_eq_false]
  simp

/-- The latest instruction is removed by the count alone. -/
theorem Inv.removeLast (h : st.Inv list leaked) (hp : st.current = some p) {step : UInt8}
    (hstep : step.toNat + 1 = p.instructionCount.toNat) :
    ∃ is, list = some is ∧
      Inv { st with current := some { p with instructionCount := p.instructionCount - 1 } }
        (some (is.eraseIdx step.toNat)) (stringsOf (p.lost step) ++ leaked) := by
  rcases h.exists_list hp with ⟨is, hlist, hshows, hholds⟩
  refine ⟨is, hlist, ?_⟩
  have hlen := hshows.length_eq
  have hcount : (p.instructionCount - 1).toNat = step.toNat := by
    rw [toNat_pred (by omega)]
    omega
  have hlost : p.lost step = p.inUse.drop step.toNat := by rw [StoredBuffer.lost, if_pos hstep]
  have hkept : StoredBuffer.inUse { p with instructionCount := p.instructionCount - 1 } =
      p.inUse.take step.toNat := by
    rw [StoredBuffer.inUse, StoredBuffer.inUse, hcount, List.take_take, Nat.min_eq_left (by omega)]
  have herased : is.eraseIdx step.toNat = is.take step.toNat := by
    rw [List.eraseIdx_eq_take_drop_succ, List.drop_of_length_le (by omega), List.append_nil]
  have hstrings : p.strings = stringsOf (p.inUse.take step.toNat) ++ stringsOf (p.lost step) := by
    rw [hlost, ← stringsOf_append, List.take_append_drop]
    rfl
  constructor
  · rw [hstrings] at hholds
    rw [List.append_assoc]
    refine hholds.perm ((lost_first ..).symm.trans (.of_eq ?_))
    show _ = _ ++ (leaked ++ p.block :: stringsOf (StoredBuffer.inUse { p with
      instructionCount := p.instructionCount - 1 }))
    rw [hkept]
  · intro b hb
    rcases List.mem_append.mp hb with hnew | hold
    · have hold : b ∈ p.strings := by
        rw [hstrings]
        exact List.mem_append_right _ hnew
      exact hshows.loads.string hold
    · exact h.strings b hold
  · refine .some ⟨hshows.block, ?_, ?_, ?_⟩
    · rw [hcount]
      have hle := hshows.count_le
      omega
    · rw [hkept, herased]
      exact hshows.loads.take _
    · intro i hi
      exact hshows.known i (List.mem_of_mem_eraseIdx hi)

/-- The instruction is freed, and the strings of the others stay. -/
theorem freeAt {heap : Heap Block} {is : List ProcInstruction} (hp : p.Shows heap is)
    (hholds : heap.Holds (leaked ++ p.block :: p.strings)) {step : UInt8}
    (hstep : step.toNat + 1 < p.instructionCount.toNat) :
    ∃ ins heap', p.instructions[step.toNat]? = some ins ∧
      heap.freeAll ins.instruction.pointers = some heap' ∧
      heap'.Holds (leaked ++ p.block ::
        (stringsOf (p.inUse.take step.toNat) ++ stringsOf (p.lost step))) ∧
      ∀ b ∈ leaked ++ p.block :: (stringsOf (p.inUse.take step.toNat) ++ stringsOf (p.lost step)),
        heap'.blocks b = heap.blocks b := by
  have hle := hp.count_le
  have hlen : p.inUse.length = p.instructionCount.toNat := by
    rw [hp.loads.length_eq, hp.length_eq]
  have hlt : step.toNat < p.inUse.length := by omega
  have hget : p.instructions[step.toNat]? = some p.inUse[step.toNat] := by
    rw [← List.getElem?_eq_getElem hlt, StoredBuffer.inUse, List.getElem?_take_of_lt (by omega)]
  have hlost : p.lost step = p.inUse.drop (step.toNat + 1) := by
    rw [StoredBuffer.lost, if_neg (by omega)]
  -- the strings of the instruction stand between those that are kept and those that are lost
  have hsplit : p.inUse =
      p.inUse.take step.toNat ++ ([p.inUse[step.toNat]] ++ p.lost step) := by
    rw [hlost, List.singleton_append, ← List.drop_eq_getElem_cons, List.take_append_drop]
  have hstrings : p.strings = stringsOf (p.inUse.take step.toNat) ++
      (p.inUse[step.toNat].instruction.pointers.reduceOption ++ stringsOf (p.lost step)) := by
    have happend := congrArg stringsOf hsplit
    rw [stringsOf_append, stringsOf_append, stringsOf_singleton] at happend
    exact happend
  rw [hstrings] at hholds
  have hfirst : heap.Holds (p.inUse[step.toNat].instruction.pointers.reduceOption ++
      (leaked ++ p.block :: (stringsOf (p.inUse.take step.toNat) ++ stringsOf (p.lost step)))) := by
    refine hholds.perm (List.perm_iff_count.mpr fun b => ?_)
    simp only [List.count_append, List.count_cons]
    omega
  rcases hfirst.freeAll with ⟨heap', hfree, hholds', hkept⟩
  exact ⟨_, heap', hget, hfree, hholds', hkept⟩

/-- The procedure behind the shift: the instructions before the index, and copies of
those behind it. -/
theorem inv_shifted {heap : Heap Block} {before behind : List StoredProcInstruction}
    {is js : List ProcInstruction}
    (hholds : heap.Holds (leaked ++ p.block :: (stringsOf before ++ stringsOf behind)))
    (hstrings : ∀ b ∈ leaked, ∃ s, heap.blocks b = some (.string s))
    (hblock : heap.blocks p.block = some .procedure)
    (hbefore : LoadsTo heap before is) (hbehind : LoadsTo heap behind js)
    (hknown : ∀ i ∈ is ++ js, i.instruction.isKnown = true)
    {p' : StoredBuffer ed.maxInstructions} (hp' : p'.block = p.block)
    (hcount : p'.instructionCount.toNat ≤ ed.maxInstructions)
    (hinUse : p'.inUse = before ++ (storeInstructions always heap js).1) :
    Inv ⟨(storeInstructions always heap js).2, some p'⟩ (some (is ++ js))
      (stringsOf behind ++ leaked) := by
  constructor
  · show (storeInstructions always heap js).2.Holds
      ((stringsOf behind ++ leaked) ++ p'.block :: stringsOf p'.inUse)
    rw [hp', hinUse, stringsOf_append]
    refine (holds_storeInstructions hholds js).perm (List.perm_iff_count.mpr fun b => ?_)
    simp only [List.count_append, List.count_cons]
    omega
  · intro b hb
    rcases List.mem_append.mp hb with hlost | hold
    · rcases hbehind.string hlost with ⟨s, hs⟩
      exact ⟨s, blocks_storeInstructions js hs⟩
    · rcases hstrings b hold with ⟨s, hs⟩
      exact ⟨s, blocks_storeInstructions js hs⟩
  · refine .some ⟨?_, hcount, ?_, hknown⟩
    · rw [hp']
      exact blocks_storeInstructions js hblock
    · rw [hinUse]
      refine LoadsTo.append ?_ (loadsTo_storeInstructions js)
      exact hbefore.mono fun b _ v hv => blocks_storeInstructions js hv

/-- What is kept of the heap are the instructions before the index, and those behind
it. -/
theorem loads_around {heap heap' : Heap Block} {is : List ProcInstruction}
    (hp : p.Shows heap is) {step : UInt8}
    (hkept : ∀ b ∈ stringsOf (p.inUse.take step.toNat) ++
      stringsOf (p.inUse.drop (step.toNat + 1)), heap'.blocks b = heap.blocks b) :
    LoadsTo heap' (p.inUse.take step.toNat) (is.take step.toNat) ∧
      LoadsTo heap' (p.inUse.drop (step.toNat + 1)) (is.drop (step.toNat + 1)) := by
  constructor
  · refine (hp.loads.take _).mono ?_
    intro b hb v hv
    rw [hkept b (List.mem_append_left _ hb), hv]
  · refine (hp.loads.drop _).mono ?_
    intro b hb v hv
    rw [hkept b (List.mem_append_right _ hb), hv]

/-- The instructions in use behind the shift. -/
theorem take_shiftedStored {heap : Heap Block} {is : List ProcInstruction}
    (hp : p.Shows heap is) {step : UInt8} (hstep : step.toNat + 1 < p.instructionCount.toNat)
    {copies : List StoredProcInstruction}
    (hcopies : copies.length = p.instructionCount.toNat - 1 - step.toNat) :
    (p.instructions.take step.toNat ++ copies ++
        p.instructions.drop (p.instructionCount.toNat - 1)).take (p.instructionCount.toNat - 1) =
      p.inUse.take step.toNat ++ copies := by
  have hle := hp.count_le
  have hlen := p.length_eq
  have htake : p.inUse.take step.toNat = p.instructions.take step.toNat := by
    rw [StoredBuffer.inUse, List.take_take, Nat.min_eq_left (by omega)]
  rw [htake]
  apply List.take_left'
  rw [List.length_append, List.length_take, hcopies]
  omega

/-- An earlier instruction is freed, and those behind it are copied to the left. -/
theorem Inv.removeEarlier (h : st.Inv list leaked) (hp : st.current = some p) {step : UInt8}
    (hstep : step.toNat + 1 < p.instructionCount.toNat) :
    ∃ is st', list = some is ∧ ed.removeAtStored st p step = some (.success, st') ∧
      st'.Inv (some (is.eraseIdx step.toNat)) (stringsOf (p.lost step) ++ leaked) := by
  rcases h.exists_list hp with ⟨is, hlist, hshows, hholds⟩
  rcases freeAt hshows hholds hstep with ⟨ins, heap, hget, hfree, hholds', hkept⟩
  have hle := hshows.count_le
  have hlen := p.length_eq
  have hcount : (p.instructionCount - 1).toNat = p.instructionCount.toNat - 1 :=
    toNat_pred (by omega)
  have hlost : p.lost step = p.inUse.drop (step.toNat + 1) := by
    rw [StoredBuffer.lost, if_neg (by omega)]
  rw [hlost] at hholds' hkept ⊢
  rcases loads_around hshows fun b hb =>
    hkept b (List.mem_append_right _ (List.mem_cons_of_mem _ hb)) with ⟨hbefore, hbehind⟩
  have hknown : ∀ j ∈ is.drop (step.toNat + 1), j.instruction.isKnown = true :=
    fun j hj => hshows.known j (List.mem_of_mem_drop hj)
  -- the instructions behind the index are those that the loop copies
  have hcopied : p.inUse.drop (step.toNat + 1) =
      (p.instructions.drop (step.toNat + 1)).take (p.instructionCount.toNat - 1 - step.toNat) := by
    rw [StoredBuffer.inUse, List.drop_take, Nat.sub_sub, Nat.add_comm step.toNat 1]
  have hshift := shiftLeftStored_eq (by omega) (hcopied ▸ hbehind) hknown
  have hend : step.toNat + (p.instructionCount.toNat - 1 - step.toNat) =
      p.instructionCount.toNat - 1 := by
    omega
  rw [hend] at hshift
  refine ⟨is, ?_⟩
  unfold removeAtStored
  dsimp only
  rw [if_neg (by omega), if_pos (by omega), hget]
  dsimp only
  rw [hfree, Option.bind_eq_bind, Option.bind_some]
  split
  · rename_i hnone
    rw [hshift] at hnone
    cases hnone
  · rename_i copied instructions heap' hsome
    rw [hshift] at hsome
    cases hsome
    refine ⟨_, hlist, rfl, ?_⟩
    rw [List.eraseIdx_eq_take_drop_succ]
    refine inv_shifted hholds' ?_ ?_ hbefore hbehind ?_ rfl ?_ ?_
    · intro b hb
      rw [hkept b (List.mem_append_left _ hb)]
      exact h.strings b hb
    · rw [hkept p.block (List.mem_append_right _ List.mem_cons_self)]
      exact hshows.block
    · intro i hi
      rw [← List.eraseIdx_eq_take_drop_succ] at hi
      exact hshows.known i (List.mem_of_mem_eraseIdx hi)
    · show (p.instructionCount - 1).toNat ≤ ed.maxInstructions
      omega
    · show List.take (p.instructionCount - 1).toNat _ = _
      rw [hcount]
      refine take_shiftedStored hshows hstep ?_
      rw [(loadsTo_storeInstructions _).length_eq, List.length_drop, hshows.length_eq]
      omega

/-- Removing an instruction erases it from the list, or is refused. -/
theorem Inv.removeAt (h : st.Inv list leaked) (hp : st.current = some p) (step : UInt8) :
    ∃ ret st' list' lost, ed.removeAtStored st p step = some (ret, st') ∧
      Edits (.pop : EditCommand ed.maxInstructions) ret list list' ∧
      st'.Inv list' (lost ++ leaked) ∧
      (lost = [] ↔ ((p.lost step).any fun ins => !ins.instruction.pointers.isEmpty) = false) := by
  rcases h.exists_list hp with ⟨is, hlist, hshows, -⟩
  have hlen := hshows.length_eq
  have hnil := stringsOf_lost_eq_nil hshows step
  rcases Nat.lt_trichotomy (step.toNat + 1) p.instructionCount.toNat with hlt | heq | hgt
  · rcases h.removeEarlier hp hlt with ⟨is', st', hlist', hrun, hinv⟩
    cases hlist.symm.trans hlist'
    rw [hlist]
    exact ⟨.success, st', _, _, hrun, .removed is step.toNat (by omega), hinv, hnil⟩
  · rcases h.removeLast hp heq with ⟨is', hlist', hinv⟩
    cases hlist.symm.trans hlist'
    rw [hlist]
    refine ⟨.success, _, _, _, ?_, .removed is step.toNat (by omega), hinv, hnil⟩
    unfold removeAtStored
    dsimp only
    rw [if_pos (by omega)]
  · refine ⟨.einval, st, list, [], ?_, .refused _ _, h, iff_of_true rfl ?_⟩
    · unfold removeAtStored
      dsimp only
      rw [if_neg (by omega), if_neg (by omega)]
    · -- there are no instructions behind the index
      have hlength : p.inUse.length = is.length := hshows.loads.length_eq
      have hlost : p.lost step = [] := by
        rw [StoredBuffer.lost, if_neg (by omega), List.drop_of_length_le (by omega)]
      rw [hlost]
      rfl

theorem Inv.procPop (h : st.Inv list leaked) (argv : List CStr) (option : Option UInt8) :
    ∃ ret st' list' lost, ed.procPopStored argv option st = some (ret, st') ∧
      Edits (.pop : EditCommand ed.maxInstructions) ret list list' ∧
      st'.Inv list' (lost ++ leaked) ∧
      (lost = [] ↔ st.current.any (ed.losesRemoved argv option) = false) := by
  unfold procPopStored losesRemoved
  cases hp : st.current with
  | none => exact ⟨.einval, st, list, [], rfl, .refused _ _, h, iff_of_true rfl rfl⟩
  | some p =>
      dsimp only
      rw [Option.any_some]
      cases hstep : ed.popIndex argv option p.instructionCount with
      | none => exact ⟨.einval, st, list, [], rfl, .refused _ _, h, iff_of_true rfl rfl⟩
      | some step => exact h.removeAt hp step

/-! ## Sequences of commands -/

/-- Every command has a result and does to the list what it reports; what it loses
is no longer referred to. -/
theorem Inv.run (h : st.Inv list leaked) (input : ed.StoredInput) :
    ∃ ret st' list' lost, ed.runStored input st = some (ret, st') ∧
      Edits input.command ret list list' ∧ st'.Inv list' (lost ++ leaked) ∧
      (lost = [] ↔ st.loses input = false) := by
  unfold loses
  by_cases hc : input.command.appends = true
  · rcases h.addInstruction hc input.argv with ⟨ret, st', list', lost, hrun, hedits, hinv, hiff⟩
    refine ⟨ret, st', list', lost, ?_, hedits, hinv, ?_⟩
    · rw [runStored_of_appends hc, hrun]
    · rcases input with ⟨⟨c, argv⟩, memory, option⟩
      cases c with
      | new | pop => cases hc
      | block | ifelse | noop | set | unop | binop | call => exact hiff
  · rcases input with ⟨⟨c, argv⟩, memory, option⟩
    cases c with
    | block | ifelse | noop | set | unop | binop | call => exact absurd rfl hc
    | new fresh =>
        rcases h.procNew memory with ⟨st', hrun, hinv⟩
        refine ⟨.success, st', some [], [], hrun, .created fresh list, hinv, iff_of_true rfl ?_⟩
        cases st.current with
        | none => rfl
        | some p => rfl
    | pop => exact h.procPop argv option

/-- The live strings are those that the current procedure refers to, each once. -/
structure StringsOwned (st : ed.EditMemory) : Prop where
  nodup : st.strings.Nodup
  live : ∀ b, (∃ s, st.heap.blocks b = some (.string s)) ↔ b ∈ st.strings

theorem inv_start : (ed.startStored).Inv none [] where
  holds := Heap.holds_empty
  strings := nofun
  shows := .none _

/-- The live strings are those of the current procedure when nothing has been lost. -/
theorem Inv.stringsOwned_iff (h : st.Inv list leaked) : st.StringsOwned ↔ leaked = [] := by
  have hnodup := h.holds.nodup
  have hstrings : ∀ b ∈ st.strings, b ∈ st.owned ∧ ∃ s, st.heap.blocks b = some (.string s) := by
    rcases st with ⟨heap, current⟩
    cases h.shows with
    | none => nofun
    | some hshows =>
        intro b hb
        exact ⟨List.mem_cons_of_mem _ hb, hshows.loads.string hb⟩
  constructor
  · intro howned
    rw [List.eq_nil_iff_forall_not_mem]
    intro b hb
    -- what is lost is a live string, and not one of the procedure
    have hmem := (howned.live b).mp (h.strings b hb)
    exact (List.nodup_append.mp hnodup).2.2 b hb b (hstrings b hmem).1 rfl
  · intro hnil
    have hholds := h.holds
    rw [hnil, List.nil_append] at hholds
    have hlive : ∀ b s, st.heap.blocks b = some (.string s) → b ∈ st.owned := by
      intro b s hs
      rw [← hholds.live b, hs]
      rfl
    rcases st with ⟨heap, current⟩
    cases h.shows with
    | none =>
        refine ⟨List.nodup_nil, fun b => ⟨?_, nofun⟩⟩
        rintro ⟨s, hs⟩
        exact hlive b s hs
    | some hshows =>
        refine ⟨(List.nodup_cons.mp hholds.nodup).2, fun b => ⟨?_, fun hb => (hstrings b hb).2⟩⟩
        rintro ⟨s, hs⟩
        rcases List.mem_cons.mp (hlive b s hs) with heq | hb
        · rw [heq, hshows.block] at hs
          cases hs
        · exact hb

/-- What is lost stays lost. -/
theorem inv_of_reaches {inputs : List ed.StoredInput}
    (h : Reaches ed.nextStored (fun _ _ => True) ed.startStored inputs st) :
    ∃ leaked, (∃ list, st.Inv list leaked) ∧ (leaked = [] ↔
      Reaches ed.nextStored (fun st input => st.loses input = false) ed.startStored inputs st) := by
  refine h.ledger (P := fun st leaked => ∃ list, st.Inv list leaked) ⟨none, inv_start⟩ ?_
  rintro st leaked input st' ⟨list, hinv⟩ hnext
  rcases Option.map_eq_some_iff.mp hnext with ⟨⟨ret, st''⟩, hrun, rfl⟩
  rcases hinv.run input with ⟨ret', st', list', lost, hrun', -, hinv', hlost⟩
  cases hrun.symm.trans hrun'
  exact ⟨lost, ⟨list', hinv'⟩, hlost⟩

end EditMemory

/-- No command frees a string that is not live; and the live strings are those of
the current procedure, each once, as long as no command loses one: no argument is
missing or refused behind a copied string, and `proc pop` finds no string in the
latest instruction, when that is removed, or behind the one that is. -/
theorem editing_conserves_iff {inputs : List ed.StoredInput} {st : ed.EditMemory}
    (h : Reaches ed.nextStored (fun _ _ => True) ed.startStored inputs st) :
    (∀ input, (ed.runStored input st).isSome = true) ∧
      (st.StringsOwned ↔
        Reaches ed.nextStored (fun st input => st.loses input = false) ed.startStored inputs
          st) := by
  rcases EditMemory.inv_of_reaches h with ⟨leaked, ⟨list, hinv⟩, hiff⟩
  constructor
  · intro input
    rcases hinv.run input with ⟨ret, st', list', lost, hrun, -⟩
    rw [hrun]
    rfl
  · rw [hinv.stringsOwned_iff, hiff]

/-- What the memory of a new procedure may hold. -/
def freshStored : { l : List StoredProcInstruction // l.length = wide.maxInstructions } :=
  ⟨List.replicate 3 ⟨7, .noop⟩, rfl⟩

/-- A command and its arguments. -/
def storedInput (c : EditCommand wide.maxInstructions) (argv : List CStr) : wide.StoredInput :=
  ⟨⟨c, .nil :: argv⟩, freshStored, none⟩

def letterF : CStr := .ofBytes [102] rfl

def letterG : CStr := .ofBytes [103] rfl

/-- `proc new`, `proc set f g`, `proc noop`, `proc block` and `proc pop`. -/
def keptInputs : List wide.StoredInput :=
  [storedInput (.new freshMemory) [], storedInput .set [letterF, letterG], storedInput .noop [],
    storedInput .block [], storedInput .pop []]

/-- The block without arguments is refused before it copies one, and the latest
instruction has no string. -/
theorem editing_conserves_keptInputs : ∃ st,
    Reaches wide.nextStored (fun _ _ => True) wide.startStored keptInputs st ∧
      (∀ input, (wide.runStored input st).isSome = true) ∧ st.StringsOwned := by
  have htaken : (keptInputs.foldlM
      (guarded wide.nextStored fun st input => st.loses input = false)
      wide.startStored).isSome = true := by
    decide +kernel
  have hkept := Reaches.of_foldlM (Option.some_get htaken).symm
  have hreaches : Reaches wide.nextStored (fun _ _ => True) wide.startStored keptInputs _ :=
    hkept.mono fun _ _ _ => trivial
  have hconserves := editing_conserves_iff hreaches
  exact ⟨_, hreaches, hconserves.1, hconserves.2.mpr hkept⟩

/-- A live string that nothing refers to. -/
theorem not_owned_of_live {inputs : List wide.StoredInput}
    (hlost : (inputs.foldlM (guarded wide.nextStored fun _ _ => True) wide.startStored).any
      (fun st => (loadString st.heap (some 1)).isSome ∧ 1 ∉ st.strings) = true) :
    ∃ st, Reaches wide.nextStored (fun _ _ => True) wide.startStored inputs st ∧
      ¬ st.StringsOwned := by
  rw [Option.any_eq_true] at hlost
  rcases hlost with ⟨st, hst, hblock⟩
  rcases of_decide_eq_true hblock with ⟨hlive, hnot⟩
  rcases Option.isSome_iff_exists.mp hlive with ⟨s, hs⟩
  refine ⟨st, .of_foldlM hst, ?_⟩
  intro howned
  exact hnot ((howned.live 1).mp ⟨s, loadString_eq_some.mp hs⟩)

/-- `proc new`, `proc set f g` and `proc pop`. -/
def latestPopped : List wide.StoredInput :=
  [storedInput (.new freshMemory) [], storedInput .set [letterF, letterG], storedInput .pop []]

/-- `proc new`, `proc noop`, `proc set f g` and `proc pop 00`. -/
def earlierPopped : List wide.StoredInput :=
  [storedInput (.new freshMemory) [], storedInput .noop [], storedInput .set [letterF, letterG],
    storedInput .pop [.ofBytes [48, 48] rfl]]

/-- `proc new` and `proc block f g g`, whose operator is none. -/
def blockRefused : List wide.StoredInput :=
  [storedInput (.new freshMemory) [],
    storedInput .block [letterF, letterG, letterG]]

/-- Afterwards the string f is live, and nothing refers to it. -/
theorem first_string_lost :
    (∃ st, Reaches wide.nextStored (fun _ _ => True) wide.startStored latestPopped st ∧
      ¬ st.StringsOwned) ∧
    (∃ st, Reaches wide.nextStored (fun _ _ => True) wide.startStored earlierPopped st ∧
      ¬ st.StringsOwned) ∧
    ∃ st, Reaches wide.nextStored (fun _ _ => True) wide.startStored blockRefused st ∧
      ¬ st.StringsOwned := by
  refine ⟨not_owned_of_live ?_, not_owned_of_live ?_, not_owned_of_live ?_⟩
  · decide +kernel
  · decide +kernel
  · decide +kernel

end Editor

end CspProc
