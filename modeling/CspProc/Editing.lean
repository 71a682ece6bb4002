import CspProc.Types
import CspProc.Lib.System

/-! # Editing the current procedure

The commands of `slash_csp_proc.c` that edit `current_procedure`: `proc new`,
the seven commands that append an instruction, and `proc pop`. The array of
instructions, the 8-bit count and the positional arguments are explicit; every
allocation succeeds, and strings are values.

* `addInstruction_spec`, `procPop_spec`, `procNew_spec` — what each kind of
  command does to the list of instructions;
* `editing_bounded` — the list stays bounded and well formed over sequences of
  commands, as long as no invalid operator gets past a narrow enum.
-/

namespace CspProc

/-! ## Operators -/

/-- `comparison_op_str`: ==, !=, <, >, <=, >=. -/
def comparisonOpStr : List (List UInt8) := [[61, 61], [33, 61], [60], [62], [60, 61], [62, 61]]

/-- `unary_op_str`: ++, --, !, -, idt, rmt. -/
def unaryOpStr : List (List UInt8) :=
  [[43, 43], [45, 45], [33], [45], [105, 100, 116], [114, 109, 116]]

/-- `binary_op_str`: +, -, *, /, %, <<, >>, &, |, ^. -/
def binaryOpStr : List (List UInt8) :=
  [[43], [45], [42], [47], [37], [60, 60], [62, 62], [38], [124], [94]]

/-- The value of an enum object of `n` bytes after a number has been stored in
it. None of the enumerators is negative, and the object is unsigned. -/
def storedEnum (n : Nat) (v : Int) : UInt32 := UInt32.ofNat (v % 256 ^ n).toNat

/-- The comparisons of `parse_comparison_op_enum` and its siblings, one after
the other: the enumerator of the operator, or -1, returned as an enum of `n`
bytes. -/
def parseOpEnum (n : Nat) (ops : List (List UInt8)) (str : CStr) : UInt32 :=
  match ops.findIdx? fun op => op = str.bytes with
  | some i => storedEnum n i
  | none => storedEnum n (-1)

def parseComparisonOpEnum (n : Nat) (str : CStr) : UInt32 := parseOpEnum n comparisonOpStr str

def parseUnaryOpEnum (n : Nat) (str : CStr) : UInt32 := parseOpEnum n unaryOpStr str

def parseBinaryOpEnum (n : Nat) (str : CStr) : UInt32 := parseOpEnum n binaryOpStr str

/-- `int _parsed_op = ...; if (_parsed_op == -1)`: the operator that goes into
the instruction, unless it is refused. -/
def checkedOp (n : Nat) (parsed : UInt32) : Option UInt32 :=
  let parsedOp := cInt parsed.toNat
  if parsedOp = -1 then none else some (storedEnum n parsedOp)

/-! ## Numbers -/

/-- `isspace`. -/
def isSpace (b : UInt8) : Bool := b = 32 || (9 ≤ b && b ≤ 13)

/-- The number that a row of digits stands for. -/
def digitsValue (bs : List UInt8) : Nat :=
  (bs.takeWhile fun b => 48 ≤ b && b ≤ 57).foldl (fun v b => 10 * v + (b.toNat - 48)) 0

/-- `atoi`. A number that an `int` cannot hold, for which the C library
promises nothing, is reduced. -/
def atoi (s : CStr) : Int :=
  match s.bytes.dropWhile isSpace with
  | 45 :: bs => cInt (-(digitsValue bs : Int))
  | 43 :: bs => cInt (digitsValue bs)
  | bs => cInt (digitsValue bs)

/-! ## The current procedure -/

/-- A `proc_t` in memory: the array of instructions, of which the first
`instruction_count` are in use. -/
structure EditBuffer (maxInstructions : Nat) where
  instructions : List ProcInstruction
  instructionCount : UInt8
  length_eq : instructions.length = maxInstructions
deriving DecidableEq

namespace EditBuffer

variable {n : Nat}

/-- The instructions in use. -/
def list (p : EditBuffer n) : List ProcInstruction :=
  p.instructions.take p.instructionCount.toNat

theorem length_list (p : EditBuffer n) : p.list.length = min p.instructionCount.toNat n := by
  rw [list, List.length_take, p.length_eq]

/-- `instructions[instruction_count] = ins; instruction_count++`. -/
def append (p : EditBuffer n) (ins : ProcInstruction) : EditBuffer n where
  instructions := p.instructions.set p.instructionCount.toNat ins
  instructionCount := p.instructionCount + 1
  length_eq := by rw [List.length_set, p.length_eq]

end EditBuffer

/-- What the commands depend on: `MAX_INSTRUCTIONS`, the size of an enum, the
default node, and `optparse_parse`, which says how many arguments it took for
options, or returns a negative number. Arguments are positional, so no option
sets a variable. -/
structure Editor where
  maxInstructions : Nat
  max_le : maxInstructions ≤ 255
  sizeofEnum : Nat
  enum_pos : 0 < sizeofEnum
  enum_le : sizeofEnum ≤ 4
  slashDflNode : UInt32
  optparseParse : List CStr → Int

/-- The return values of slash commands that occur. -/
inductive SlashResult where
  | success
  | einval
deriving DecidableEq, Repr

namespace Editor

variable (ed : Editor)

/-- `current_procedure`, `NULL` or allocated. -/
abbrev Current : Type := Option (EditBuffer ed.maxInstructions)

/-- `instruction_can_be_added`. -/
def instructionCanBeAdded (current : ed.Current) : Bool :=
  match current with
  | none => false
  | some p => !decide (ed.maxInstructions ≤ p.instructionCount.toNat)

/-- The end of the commands that append an instruction; the array has no place
behind its last one. -/
def appendInstruction (current : ed.Current) (ins : ProcInstruction) : Option ed.Current :=
  match current with
  | none => none
  | some p =>
      if p.instructionCount.toNat < ed.maxInstructions then some (some (p.append ins)) else none

/-- What the commands that append an instruction have in common. `read` reads
the positional arguments from the one at `argi + 1` on; all its failures return
`SLASH_EINVAL`. -/
def addInstruction (argv : List CStr) (read : Nat → Option ProcInstruction) (current : ed.Current) :
    Option (SlashResult × ed.Current) :=
  if ed.instructionCanBeAdded current = false then some (.einval, current)
  else
    let argi := ed.optparseParse argv.tail
    if argi < 0 then some (.einval, current)
    else
      match read argi.toNat with
      | none => some (.einval, current)
      | some ins => (ed.appendInstruction current ins).map fun current => (.success, current)

/-- `if (++argi < slash->argc) node = atoi(slash->argv[argi])`, and its
truncation to the node of the instruction. -/
def nodeArg (argv : List CStr) (argi : Nat) : UInt16 :=
  match argv[argi]? with
  | some s => (UInt32.ofInt (atoi s)).toUInt16
  | none => ed.slashDflNode.toUInt16

/-- The arguments of `proc block` and `proc ifelse`. -/
def readCondition (argv : List CStr) (make : CStr → UInt32 → CStr → Instruction) (argi : Nat) :
    Option ProcInstruction := do
  let paramA ← argv[argi + 1]?
  let op ← checkedOp ed.sizeofEnum (parseComparisonOpEnum ed.sizeofEnum (← argv[argi + 2]?))
  let paramB ← argv[argi + 3]?
  return ⟨ed.nodeArg argv (argi + 4), make paramA op paramB⟩

/-- The arguments of `proc set`. -/
def readSet (argv : List CStr) (argi : Nat) : Option ProcInstruction := do
  let param ← argv[argi + 1]?
  let value ← argv[argi + 2]?
  return ⟨ed.nodeArg argv (argi + 3), .set param value⟩

/-- The arguments of `proc unop`. -/
def readUnop (argv : List CStr) (argi : Nat) : Option ProcInstruction := do
  let param ← argv[argi + 1]?
  let op ← checkedOp ed.sizeofEnum (parseUnaryOpEnum ed.sizeofEnum (← argv[argi + 2]?))
  let result ← argv[argi + 3]?
  return ⟨ed.nodeArg argv (argi + 4), .unop param op result⟩

/-- The arguments of `proc binop`. -/
def readBinop (argv : List CStr) (argi : Nat) : Option ProcInstruction := do
  let paramA ← argv[argi + 1]?
  let op ← checkedOp ed.sizeofEnum (parseBinaryOpEnum ed.sizeofEnum (← argv[argi + 2]?))
  let paramB ← argv[argi + 3]?
  let result ← argv[argi + 4]?
  return ⟨ed.nodeArg argv (argi + 5), .binop paramA op paramB result⟩

/-- The arguments of `proc call`. -/
def readCall (argv : List CStr) (argi : Nat) : Option ProcInstruction := do
  let procedureSlot ← argv[argi + 1]?
  return ⟨ed.nodeArg argv (argi + 2), .call (UInt8.ofInt (atoi procedureSlot))⟩

/-- `proc noop` reads no argument. -/
def readNoop (_argi : Nat) : Option ProcInstruction := some ⟨0, .noop⟩

/-- `proc_block`. -/
def procBlock (argv : List CStr) (current : ed.Current) : Option (SlashResult × ed.Current) :=
  ed.addInstruction argv (ed.readCondition argv .block) current

/-- `proc_ifelse`. -/
def procIfelse (argv : List CStr) (current : ed.Current) : Option (SlashResult × ed.Current) :=
  ed.addInstruction argv (ed.readCondition argv .ifelse) current

/-- `proc_noop`. -/
def procNoop (argv : List CStr) (current : ed.Current) : Option (SlashResult × ed.Current) :=
  ed.addInstruction argv readNoop current

/-- `proc_set`. -/
def procSet (argv : List CStr) (current : ed.Current) : Option (SlashResult × ed.Current) :=
  ed.addInstruction argv (ed.readSet argv) current

/-- `proc_unop`. -/
def procUnop (argv : List CStr) (current : ed.Current) : Option (SlashResult × ed.Current) :=
  ed.addInstruction argv (ed.readUnop argv) current

/-- `proc_binop`. -/
def procBinop (argv : List CStr) (current : ed.Current) : Option (SlashResult × ed.Current) :=
  ed.addInstruction argv (ed.readBinop argv) current

/-- `proc_call`. -/
def procCall (argv : List CStr) (current : ed.Current) : Option (SlashResult × ed.Current) :=
  ed.addInstruction argv (ed.readCall argv) current

/-- `proc_new`, with what the allocated memory holds. -/
def procNew (memory : EditBuffer ed.maxInstructions) (_current : ed.Current) :
    Option (SlashResult × ed.Current) :=
  some (.success, some { memory with instructionCount := 0 })

/-! ## `proc pop` -/

/-- `proc_copy_instruction`: the return value and what the copy then holds. -/
def procCopyInstruction (ins : ProcInstruction) : Int × ProcInstruction :=
  match ins.instruction with
  | .unknown .. => (-1, ins)
  | _ => (0, ins)

/-- The loop of `proc_pop` from index `i` on for `n` more iterations, each of
which copies an instruction one position to the left; whether all were copied,
and the array. -/
def shiftLeft : (n i : Nat) → List ProcInstruction → Option (Bool × List ProcInstruction)
  | 0, _, l => some (true, l)
  | n + 1, i, l =>
      match l[i + 1]? with
      | none => none
      | some ins =>
          let (ret, copy) := procCopyInstruction ins
          if ret ≠ 0 then some (false, l.set i copy) else shiftLeft n (i + 1) (l.set i copy)

theorem shiftLeft_length {n i : Nat} {l l' : List ProcInstruction} {b : Bool}
    (h : shiftLeft n i l = some (b, l')) : l'.length = l.length := by
  induction n generalizing i l with
  | zero =>
      simp only [shiftLeft, Option.some.injEq, Prod.mk.injEq] at h
      rw [h.2]
  | succ n ih =>
      unfold shiftLeft at h
      split at h
      · cases h
      · dsimp only at h
        split at h
        · simp only [Option.some.injEq, Prod.mk.injEq] at h
          rw [← h.2, List.length_set]
        · rw [ih h, List.length_set]

/-- The end of `proc_pop`, with the index as the `uint8_t` it is. -/
def removeAt (p : EditBuffer ed.maxInstructions) (step : UInt8) :
    Option (SlashResult × ed.Current) :=
  let last : Int := p.instructionCount.toNat - 1
  if (step.toNat : Int) = last then
    some (.success, some { p with instructionCount := p.instructionCount - 1 })
  else if (step.toNat : Int) < last then
    match h : shiftLeft (p.instructionCount.toNat - 1 - step.toNat) step.toNat p.instructions with
    | none => none
    | some (copied, instructions) =>
        let p' : EditBuffer ed.maxInstructions :=
          { p with
            instructions := instructions
            length_eq := (shiftLeft_length h).trans p.length_eq }
        if copied then
          some (.success, some { p' with instructionCount := p.instructionCount - 1 })
        else some (.einval, some p')
  else some (.einval, some p)

/-- `proc_pop`. -/
def procPop (argv : List CStr) (current : ed.Current) : Option (SlashResult × ed.Current) :=
  match current with
  | none => some (.einval, none)
  | some p =>
      let argi := ed.optparseParse argv.tail
      if argi < 0 then some (.einval, some p)
      else
        match argv[argi.toNat + 1]? with
        | some s => ed.removeAt p (UInt8.ofInt (atoi s))
        | none => ed.removeAt p (p.instructionCount - 1)

end Editor

/-! ## Commands -/

/-- The editing commands; `new` comes with what the allocated memory holds. -/
inductive EditCommand (n : Nat) where
  | new (memory : EditBuffer n)
  | block
  | ifelse
  | noop
  | set
  | unop
  | binop
  | call
  | pop

/-- The operators that a command takes as its second argument. -/
def EditCommand.operators {n : Nat} : EditCommand n → Option (List (List UInt8))
  | .block | .ifelse => some comparisonOpStr
  | .unop => some unaryOpStr
  | .binop => some binaryOpStr
  | _ => none

namespace Editor

variable (ed : Editor)

/-- A command line: the command and all its arguments, the first of which is
the name of the command. -/
structure EditInput where
  command : EditCommand ed.maxInstructions
  argv : List CStr

/-- One command. -/
def run (input : ed.EditInput) (current : ed.Current) : Option (SlashResult × ed.Current) :=
  match input.command with
  | .new memory => ed.procNew memory current
  | .block => ed.procBlock input.argv current
  | .ifelse => ed.procIfelse input.argv current
  | .noop => ed.procNoop input.argv current
  | .set => ed.procSet input.argv current
  | .unop => ed.procUnop input.argv current
  | .binop => ed.procBinop input.argv current
  | .call => ed.procCall input.argv current
  | .pop => ed.procPop input.argv current

/-- The current procedure after a command. -/
def next (current : ed.Current) (input : ed.EditInput) : Option ed.Current :=
  (ed.run input current).map Prod.snd

end Editor

/-! ## What the commands promise -/

/-- An operator is one of its enumeration's. -/
def Instruction.OpInEnum : Instruction → Prop
  | .block _ op _ | .ifelse _ op _ => op.toNat < comparisonOpStr.length
  | .unop _ op _ => op.toNat < unaryOpStr.length
  | .binop _ op _ _ => op.toNat < binaryOpStr.length
  | _ => True

instance : (ins : Instruction) → Decidable ins.OpInEnum
  | .block _ op _ | .ifelse _ op _ | .unop _ op _ | .binop _ op _ _ => Nat.decLt op.toNat _
  | .set .. | .call .. | .noop | .unknown .. => inferInstanceAs (Decidable True)

/-- The instruction has a known type, and its operator is in its enumeration. -/
def ProcInstruction.Valid (ins : ProcInstruction) : Prop :=
  ins.instruction.isKnown = true ∧ ins.instruction.OpInEnum

/-- The count is that of the instructions in use, which are no more than there
is room for, and each is valid. -/
structure EditBuffer.Ok {n : Nat} (p : EditBuffer n) : Prop where
  count : p.list.length = p.instructionCount.toNat
  bounded : p.list.length ≤ n
  valid : ∀ ins ∈ p.list, ins.Valid

/-- What a command may do to the list of instructions, by its return value. -/
inductive Edits {n : Nat} : EditCommand n → SlashResult → Option (List ProcInstruction) →
    Option (List ProcInstruction) → Prop where
  | created (memory : EditBuffer n) (before : Option (List ProcInstruction)) :
      Edits (.new memory) .success before (some [])
  | appended {c : EditCommand n} (hnew : ∀ memory, c ≠ .new memory) (hpop : c ≠ .pop)
      (l : List ProcInstruction) (ins : ProcInstruction) :
      Edits c .success (some l) (some (l ++ [ins]))
  | removed (l : List ProcInstruction) (i : Nat) (hi : i < l.length) :
      Edits .pop .success (some l) (some (l.eraseIdx i))
  | refused (c : EditCommand n) (l : Option (List ProcInstruction)) : Edits c .einval l l

/-! ## Operators that are accepted -/

theorem storedEnum_toNat {n i : Nat} (hn : 0 < n) (hi : i < 256) :
    (storedEnum n i).toNat = i := by
  have hpow : 256 ^ 1 ≤ 256 ^ n := Nat.pow_le_pow_right (by omega) hn
  have hmod : ((i : Int) % 256 ^ n).toNat = i := by
    rw [Int.emod_eq_of_lt (by omega) (by exact_mod_cast (by omega : i < 256 ^ n))]
    rfl
  rw [storedEnum, hmod, UInt32.toNat_ofNat']
  omega

/-- An enum of the size of an `int` gives -1 back. -/
theorem checkedOp_four_none : checkedOp 4 (storedEnum 4 (-1)) = none := by decide +kernel

/-- What `checkedOp` lets through is an operator of the enumeration, when -1
keeps its value in an enum, or the argument was an operator. -/
theorem checkedOp_lt {n : Nat} (hn : 0 < n) {ops : List (List UInt8)} (hops : ops.length < 256)
    {str : CStr} {op : UInt32} (hchecked : n = 4 ∨ ops.contains str.bytes = true)
    (h : checkedOp n (parseOpEnum n ops str) = some op) : op.toNat < ops.length := by
  unfold parseOpEnum at h
  split at h
  · rename_i i hfind
    have hi : i < ops.length := (List.findIdx?_eq_some_iff_findIdx_eq.mp hfind).1
    have hint : cInt (storedEnum n i).toNat = i := by
      rw [storedEnum_toNat hn (by omega)]
      exact cInt_of_lt (by omega) (by omega)
    rw [checkedOp, hint] at h
    split at h
    · cases h
    · have hop := Option.some.inj h
      rw [← hop, storedEnum_toNat hn (by omega)]
      exact hi
  · -- the argument is no operator, and -1 is recognised
    rename_i hfind
    rcases hchecked with rfl | hmem
    · rw [checkedOp_four_none] at h
      cases h
    · have hnone := List.findIdx?_eq_none_iff.mp hfind str.bytes (by simpa using hmem)
      simp at hnone

/-! ## Counts and arrays -/

/-- One more in an 8-bit count that is not full. -/
theorem toNat_succ {c : UInt8} (hlt : c.toNat < 255) : (c + 1).toNat = c.toNat + 1 := by
  rw [UInt8.toNat_add, UInt8.toNat_one]
  omega

/-- One less in the 8-bit count of a list that is not empty. -/
theorem toNat_pred {c : UInt8} (hpos : 0 < c.toNat) : (c - 1).toNat = c.toNat - 1 := by
  have hone : (1 : UInt8) ≤ c := by
    rw [UInt8.le_iff_toNat_le, UInt8.toNat_one]
    exact hpos
  rw [UInt8.toNat_sub_of_le _ _ hone, UInt8.toNat_one]

section Arrays

variable {α : Type} {l : List α} {i : Nat} (x : α)

/-- Writing behind the first `i` entries appends to them. -/
theorem take_written (hi : i < l.length) : (l.set i x).take (i + 1) = l.take i ++ [x] := by
  rw [List.take_add_one, List.take_set_of_le (Nat.le_refl _), List.getElem?_set_self hi]
  rfl

/-- An entry is written in front of those that the rest of a loop has written. -/
theorem written_in_front (hi : i < l.length) (written : List α) (n : Nat) :
    (l.set i x).take (i + 1) ++ written ++ (l.set i x).drop (i + 1 + n) =
      l.take i ++ x :: written ++ l.drop (i + (n + 1)) := by
  rw [take_written x hi, List.drop_set_of_lt (by omega), List.append_assoc (l.take i),
    List.singleton_append, Nat.add_assoc i 1 n, Nat.add_comm 1 n]

end Arrays

/-! ## Commands that append -/

namespace EditBuffer

variable {n : Nat} {p : EditBuffer n}

theorem Ok.count_le (h : p.Ok) : p.instructionCount.toNat ≤ n := h.count ▸ h.bounded

/-- A list is ok when its count is within the array. -/
theorem ok_of_count_le (hle : p.instructionCount.toNat ≤ n) (hvalid : ∀ ins ∈ p.list, ins.Valid) :
    p.Ok where
  count := by rw [p.length_list, Nat.min_eq_left hle]
  bounded := by rw [p.length_list]; exact Nat.min_le_right _ _
  valid := hvalid

/-- Writing behind the last instruction appends. -/
theorem list_append (ins : ProcInstruction) (hn : n ≤ 255) (hlt : p.instructionCount.toNat < n) :
    (p.append ins).list = p.list ++ [ins] ∧
      (p.append ins).instructionCount.toNat = p.instructionCount.toNat + 1 := by
  have hcount : (p.instructionCount + 1).toNat = p.instructionCount.toNat + 1 :=
    toNat_succ (by omega)
  refine ⟨?_, hcount⟩
  simp only [list, append, hcount]
  exact take_written ins (by rwa [p.length_eq])

/-- Erasing an instruction keeps the others, and the list stays ok. -/
theorem Ok.erased {p' : EditBuffer n} (hp : p.Ok) {i : Nat} (hi : i < p.list.length)
    (herased : p'.list = p.list.eraseIdx i) (hle : p'.instructionCount.toNat ≤ n) :
    Edits (.pop : EditCommand n) .success (some p.list) ((some p').map EditBuffer.list) ∧
      ∀ q ∈ some p', q.Ok := by
  constructor
  · rw [Option.map_some, herased]
    exact .removed p.list i hi
  · intro q hq
    obtain rfl := Option.some.inj hq
    refine ok_of_count_le hle ?_
    intro ins hins
    rw [herased] at hins
    exact hp.valid ins (List.mem_of_mem_eraseIdx hins)

end EditBuffer

namespace Editor

variable (ed : Editor)

theorem instructionCanBeAdded_eq_true {current : ed.Current} :
    ed.instructionCanBeAdded current = true ↔
      ∃ p, current = some p ∧ p.instructionCount.toNat < ed.maxInstructions := by
  cases current with
  | none => simp [instructionCanBeAdded]
  | some p => simp [instructionCanBeAdded]

/-- A command that appends either appends one valid instruction, or refuses and
changes nothing; the count does not wrap. -/
theorem addInstruction_spec {argv : List CStr} {read : Nat → Option ProcInstruction}
    {current : ed.Current} (hcurrent : ∀ p ∈ current, p.Ok)
    (hread : ∀ ins, read (ed.optparseParse argv.tail).toNat = some ins → ins.Valid)
    {c : EditCommand ed.maxInstructions} (hnew : ∀ memory, c ≠ .new memory) (hpop : c ≠ .pop) :
    ∃ ret current', ed.addInstruction argv read current = some (ret, current') ∧
      Edits c ret (current.map EditBuffer.list) (current'.map EditBuffer.list) ∧
      ∀ p ∈ current', p.Ok := by
  unfold addInstruction
  by_cases hadd : ed.instructionCanBeAdded current = false
  · exact ⟨.einval, current, by rw [if_pos hadd], .refused c _, hcurrent⟩
  · rw [if_neg hadd]
    rcases ed.instructionCanBeAdded_eq_true.mp (by simpa using hadd) with ⟨p, rfl, hlt⟩
    dsimp only
    split
    · exact ⟨.einval, some p, rfl, .refused c _, hcurrent⟩
    · cases hins : read (ed.optparseParse argv.tail).toNat with
      | none => exact ⟨.einval, some p, rfl, .refused c _, hcurrent⟩
      | some ins =>
          have hvalid : ins.Valid := hread ins hins
          rcases p.list_append ins ed.max_le hlt with ⟨hlist, hcount⟩
          refine ⟨.success, some (p.append ins), by simp only [appendInstruction, if_pos hlt]; rfl,
            ?_, ?_⟩
          · rw [Option.map_some, Option.map_some, hlist]
            exact .appended hnew hpop p.list ins
          · -- the new instruction is as valid as those in front of it
            intro p' hp'
            obtain rfl := Option.some.inj hp'
            refine EditBuffer.ok_of_count_le (by rw [hcount]; exact hlt) ?_
            rw [hlist]
            intro ins' hins'
            rcases List.mem_append.mp hins' with hold | hnew
            · exact (hcurrent p rfl).valid ins' hold
            · rw [List.mem_singleton.mp hnew]
              exact hvalid

/-! ## Removing an instruction -/

theorem procCopyInstruction_of_known {ins : ProcInstruction}
    (h : ins.instruction.isKnown = true) : procCopyInstruction ins = (0, ins) := by
  rcases ins with ⟨node, body⟩
  cases body with
  | unknown => cases h
  | _ => rfl

/-- Shifting moves the instructions behind position `i` one to the left, as far
as the loop goes. -/
theorem shiftLeft_eq {n i : Nat} {l : List ProcInstruction} (hlt : i + n < l.length)
    (hknown : ∀ ins ∈ l.take (i + n + 1), ins.instruction.isKnown = true) :
    shiftLeft n i l = some (true, l.take i ++ (l.drop (i + 1)).take n ++ l.drop (i + n)) := by
  induction n generalizing i l with
  | zero => simp [shiftLeft]
  | succ n ih =>
      have hget : l[i + 1]? = some l[i + 1] := List.getElem?_eq_getElem (by omega)
      have hcopied : procCopyInstruction l[i + 1] = (0, l[i + 1]) := by
        refine procCopyInstruction_of_known (hknown _ ?_)
        rw [List.mem_take_iff_getElem]
        exact ⟨i + 1, by omega, rfl⟩
      have hrest : ∀ ins ∈ (l.set i l[i + 1]).take (i + 1 + n + 1),
          ins.instruction.isKnown = true := by
        intro ins hins
        rw [List.take_set] at hins
        rcases List.mem_or_eq_of_mem_set hins with hold | rfl
        · exact hknown ins (by rwa [show i + (n + 1) + 1 = i + 1 + n + 1 by omega])
        · refine hknown _ ?_
          rw [List.mem_take_iff_getElem]
          exact ⟨i + 1, by omega, rfl⟩
      have hshift := ih (i := i + 1) (l := l.set i l[i + 1]) (by rw [List.length_set]; omega) hrest
      rw [shiftLeft, hget]
      simp only [hcopied, ne_eq, not_true_eq_false, if_false, hshift]
      rw [written_in_front _ (by omega), List.drop_set_of_lt (by omega),
        List.drop_eq_getElem_cons (i := i + 1) (by omega), List.take_succ_cons]

/-- Counting one less removes the latest instruction. -/
theorem list_without_last {n : Nat} {p : EditBuffer n} (hle : p.instructionCount.toNat ≤ n)
    {i : Nat} (hi : p.instructionCount.toNat = i + 1) :
    ({ p with instructionCount := p.instructionCount - 1 } : EditBuffer n).list =
      p.list.eraseIdx i := by
  have hlen := p.length_eq
  simp only [EditBuffer.list, toNat_pred (c := p.instructionCount) (by omega)]
  rw [List.eraseIdx_eq_take_drop_succ, List.take_take,
    List.drop_of_length_le (by rw [List.length_take]; omega), List.append_nil]
  congr 1
  omega

/-- Counting one less after the shift removes the instruction at its start. -/
theorem take_shifted {l : List ProcInstruction} {i n : Nat} (hlt : i + n < l.length) :
    (l.take i ++ (l.drop (i + 1)).take n ++ l.drop (i + n)).take (i + n) =
      (l.take (i + n + 1)).eraseIdx i := by
  have hfront : (l.take i ++ (l.drop (i + 1)).take n).length = i + n := by
    rw [List.length_append, List.length_take, List.length_take, List.length_drop]
    omega
  rw [List.take_left' hfront, List.eraseIdx_eq_take_drop_succ, List.take_take, List.drop_take,
    Nat.min_eq_left (by omega)]
  congr 2
  omega

/-- An instruction in use is erased from the list. -/
theorem removeAt_erases {p : EditBuffer ed.maxInstructions}
    (hle : p.instructionCount.toNat ≤ ed.maxInstructions)
    (hknown : ∀ ins ∈ p.list, ins.instruction.isKnown = true) {step : UInt8}
    (hin : step.toNat < p.instructionCount.toNat) :
    ∃ p', ed.removeAt p step = some (.success, some p') ∧
      p'.list = p.list.eraseIdx step.toNat ∧ p'.instructionCount = p.instructionCount - 1 := by
  have hlen := p.length_eq
  have hdec := toNat_pred (c := p.instructionCount) (by omega)
  unfold removeAt
  dsimp only
  split
  · -- the latest instruction
    exact ⟨_, rfl, list_without_last hle (i := step.toNat) (by omega), rfl⟩
  · -- an earlier one: those behind it move to the left
    rename_i hlast
    obtain ⟨n, hn⟩ : ∃ n, p.instructionCount.toNat = step.toNat + n + 1 :=
      ⟨p.instructionCount.toNat - 1 - step.toNat, by omega⟩
    have hshift : shiftLeft (p.instructionCount.toNat - 1 - step.toNat) step.toNat
        p.instructions = some (true, p.instructions.take step.toNat ++
          (p.instructions.drop (step.toNat + 1)).take n ++
          p.instructions.drop (step.toNat + n)) := by
      rw [show p.instructionCount.toNat - 1 - step.toNat = n by omega]
      refine shiftLeft_eq (by omega) ?_
      intro ins hins
      exact hknown ins (by rwa [EditBuffer.list, hn])
    rw [if_pos (by omega)]
    split
    · rename_i hnone
      rw [hshift] at hnone
      cases hnone
    · rename_i copied instructions hsome
      rw [hshift] at hsome
      rcases Prod.mk.inj (Option.some.inj hsome) with ⟨rfl, rfl⟩
      refine ⟨_, rfl, ?_, rfl⟩
      simp only [EditBuffer.list, hdec]
      rw [show p.instructionCount.toNat - 1 = step.toNat + n by omega, hn]
      exact take_shifted (by omega)

/-- Any other index is refused. -/
theorem removeAt_refused {p : EditBuffer ed.maxInstructions} {step : UInt8}
    (hout : p.instructionCount.toNat ≤ step.toNat) :
    ed.removeAt p step = some (.einval, some p) := by
  unfold removeAt
  dsimp only
  rw [if_neg (by omega), if_neg (by omega)]

/-- Removing an instruction erases it from the list, when the index is one of
an instruction in use, and is refused otherwise. -/
theorem removeAt_spec {p : EditBuffer ed.maxInstructions} (hp : p.Ok) (step : UInt8) :
    ∃ ret current', ed.removeAt p step = some (ret, current') ∧
      Edits (.pop : EditCommand ed.maxInstructions) ret (some p.list)
        (current'.map EditBuffer.list) ∧
      ∀ p' ∈ current', p'.Ok := by
  have hle := hp.count_le
  have hcount := hp.count
  by_cases hin : step.toNat < p.instructionCount.toNat
  · have hdec := toNat_pred (c := p.instructionCount) (by omega)
    rcases ed.removeAt_erases hle (fun ins hins => (hp.valid ins hins).1) hin with
      ⟨p', hrun, hlist, hpred⟩
    exact ⟨.success, some p', hrun, hp.erased (by omega) hlist (by rw [hpred]; omega)⟩
  · refine ⟨.einval, some p, ed.removeAt_refused (not_lt.mp hin), .refused _ _, ?_⟩
    intro p' hp'
    obtain rfl := Option.some.inj hp'
    exact hp

/-- `proc pop` removes one instruction or refuses. -/
theorem procPop_spec (argv : List CStr) {current : ed.Current} (hcurrent : ∀ p ∈ current, p.Ok) :
    ∃ ret current', ed.procPop argv current = some (ret, current') ∧
      Edits (.pop : EditCommand ed.maxInstructions) ret (current.map EditBuffer.list)
        (current'.map EditBuffer.list) ∧
      ∀ p' ∈ current', p'.Ok := by
  cases current with
  | none => exact ⟨.einval, none, rfl, .refused _ _, hcurrent⟩
  | some p =>
      unfold procPop
      dsimp only
      split
      · exact ⟨.einval, some p, rfl, .refused _ _, hcurrent⟩
      · split
        · exact ed.removeAt_spec (hcurrent p rfl) _
        · exact ed.removeAt_spec (hcurrent p rfl) _

/-- `proc new` starts with the empty list. -/
theorem procNew_spec (memory : EditBuffer ed.maxInstructions) (current : ed.Current) :
    ∃ ret current', ed.procNew memory current = some (ret, current') ∧
      Edits (.new memory) ret (current.map EditBuffer.list) (current'.map EditBuffer.list) ∧
      ∀ p' ∈ current', p'.Ok := by
  refine ⟨.success, some { memory with instructionCount := 0 }, rfl, .created memory _, ?_⟩
  intro p' hp'
  obtain rfl := Option.some.inj hp'
  exact EditBuffer.ok_of_count_le (Nat.zero_le _) nofun

/-! ## Sequences of commands -/

/-- An invalid operator is recognised as such: enums have the size of an `int`,
or the command's operator argument, if there is one, is an operator. -/
def operatorRecognised (input : ed.EditInput) : Bool :=
  ed.sizeofEnum = 4 ||
    match input.command.operators with
    | none => true
    | some ops =>
        (input.argv[(ed.optparseParse input.argv.tail).toNat + 2]?).all fun s => ops.contains s.bytes

variable {ed} in
theorem operator_lt {input : ed.EditInput} (hrec : ed.operatorRecognised input = true)
    {ops : List (List UInt8)} (hops : input.command.operators = some ops)
    (hlen : ops.length < 256) {s : CStr} {op : UInt32}
    (harg : input.argv[(ed.optparseParse input.argv.tail).toNat + 2]? = some s)
    (hop : checkedOp ed.sizeofEnum (parseOpEnum ed.sizeofEnum ops s) = some op) :
    op.toNat < ops.length := by
  refine checkedOp_lt ed.enum_pos hlen ?_ hop
  simpa [operatorRecognised, hops, harg] using hrec

section Valid

variable {ed} {input : ed.EditInput} {ins : ProcInstruction}

/-- With a recognised operator the condition that is read is valid. -/
theorem readCondition_valid (hrec : ed.operatorRecognised input = true)
    (hops : input.command.operators = some comparisonOpStr)
    {make : CStr → UInt32 → CStr → Instruction}
    (hmake : ∀ paramA op paramB, op.toNat < comparisonOpStr.length →
      ProcInstruction.Valid ⟨ed.nodeArg input.argv ((ed.optparseParse input.argv.tail).toNat + 4),
        make paramA op paramB⟩)
    (hins : ed.readCondition input.argv make (ed.optparseParse input.argv.tail).toNat = some ins) :
    ins.Valid := by
  simp only [readCondition, Option.bind_eq_bind, Option.bind_eq_some_iff, pure,
    Option.some.injEq] at hins
  rcases hins with ⟨paramA, -, s, hs, op, hop, paramB, -, rfl⟩
  exact hmake paramA op paramB (operator_lt hrec hops (by decide) hs hop)

theorem readUnop_valid (hrec : ed.operatorRecognised input = true)
    (hops : input.command.operators = some unaryOpStr)
    (hins : ed.readUnop input.argv (ed.optparseParse input.argv.tail).toNat = some ins) :
    ins.Valid := by
  simp only [readUnop, Option.bind_eq_bind, Option.bind_eq_some_iff, pure,
    Option.some.injEq] at hins
  rcases hins with ⟨param, -, s, hs, op, hop, result, -, rfl⟩
  exact ⟨rfl, operator_lt hrec hops (by decide) hs hop⟩

theorem readBinop_valid (hrec : ed.operatorRecognised input = true)
    (hops : input.command.operators = some binaryOpStr)
    (hins : ed.readBinop input.argv (ed.optparseParse input.argv.tail).toNat = some ins) :
    ins.Valid := by
  simp only [readBinop, Option.bind_eq_bind, Option.bind_eq_some_iff, pure,
    Option.some.injEq] at hins
  rcases hins with ⟨paramA, -, s, hs, op, hop, paramB, -, result, -, rfl⟩
  exact ⟨rfl, operator_lt hrec hops (by decide) hs hop⟩

theorem readSet_valid {argv : List CStr} {argi : Nat} (hins : ed.readSet argv argi = some ins) :
    ins.Valid := by
  simp only [readSet, Option.bind_eq_bind, Option.bind_eq_some_iff, pure,
    Option.some.injEq] at hins
  rcases hins with ⟨param, -, value, -, rfl⟩
  exact ⟨rfl, trivial⟩

theorem readCall_valid {argv : List CStr} {argi : Nat} (hins : ed.readCall argv argi = some ins) :
    ins.Valid := by
  simp only [readCall, Option.bind_eq_bind, Option.bind_eq_some_iff, pure,
    Option.some.injEq] at hins
  rcases hins with ⟨procedureSlot, -, rfl⟩
  exact ⟨rfl, trivial⟩

theorem readNoop_valid {argi : Nat} (hins : readNoop argi = some ins) : ins.Valid := by
  obtain rfl := Option.some.inj hins
  exact ⟨rfl, trivial⟩

end Valid

/-- Every command keeps the list ok and does to it what it reports. -/
theorem run_spec {input : ed.EditInput} {current : ed.Current} (hcurrent : ∀ p ∈ current, p.Ok)
    (hrec : ed.operatorRecognised input = true) :
    ∃ ret current', ed.run input current = some (ret, current') ∧
      Edits input.command ret (current.map EditBuffer.list) (current'.map EditBuffer.list) ∧
      ∀ p ∈ current', p.Ok := by
  rcases input with ⟨command, argv⟩
  cases command with
  | new memory => exact ed.procNew_spec memory current
  | pop => exact ed.procPop_spec argv hcurrent
  | block =>
      refine ed.addInstruction_spec (c := .block) hcurrent ?_ (by simp) (by simp)
      intro ins hins
      refine readCondition_valid hrec rfl ?_ hins
      exact fun _ _ _ hop => ⟨rfl, hop⟩
  | ifelse =>
      refine ed.addInstruction_spec (c := .ifelse) hcurrent ?_ (by simp) (by simp)
      intro ins hins
      refine readCondition_valid hrec rfl ?_ hins
      exact fun _ _ _ hop => ⟨rfl, hop⟩
  | noop =>
      have hread : ∀ ins, readNoop (ed.optparseParse argv.tail).toNat = some ins → ins.Valid :=
        fun _ hins => readNoop_valid hins
      obtain ⟨ret, current', hrun, hedits⟩ :=
        ed.addInstruction_spec (c := .noop) hcurrent hread (by simp) (by simp)
      exact ⟨ret, current', hrun, hedits⟩
  | set =>
      refine ed.addInstruction_spec (c := .set) hcurrent ?_ (by simp) (by simp)
      intro ins hins
      exact readSet_valid hins
  | unop =>
      refine ed.addInstruction_spec (c := .unop) hcurrent ?_ (by simp) (by simp)
      intro ins hins
      exact readUnop_valid hrec rfl hins
  | binop =>
      refine ed.addInstruction_spec (c := .binop) hcurrent ?_ (by simp) (by simp)
      intro ins hins
      exact readBinop_valid hrec rfl hins
  | call =>
      refine ed.addInstruction_spec (c := .call) hcurrent ?_ (by simp) (by simp)
      intro ins hins
      exact readCall_valid hins

/-- What holds of the current procedure between two commands: the list is ok,
and the next command does to it what it reports, and keeps it ok. -/
structure Bounded (current : ed.Current) : Prop where
  ok : ∀ p ∈ current, p.Ok
  edits : ∀ input, ed.operatorRecognised input = true →
    ∃ ret current', ed.run input current = some (ret, current') ∧
      Edits input.command ret (current.map EditBuffer.list) (current'.map EditBuffer.list) ∧
      ∀ p ∈ current', p.Ok

/-- The list of instructions is bounded and valid after every sequence of
commands whose operators are recognised. -/
theorem editing_bounded {inputs : List ed.EditInput} {current : ed.Current}
    (h : Reaches ed.next (fun _ input => ed.operatorRecognised input = true) none inputs current) :
    ed.Bounded current := by
  have hok : ∀ p ∈ current, p.Ok := by
    refine h.invariant (P := fun _ current => ∀ p ∈ current, p.Ok) nofun ?_
    intro inputs current input current' hcurrent hrec hnext
    rcases ed.run_spec hcurrent hrec with ⟨ret, current'', hrun, -, hok⟩
    rw [next, hrun] at hnext
    obtain rfl := Option.some.inj hnext
    exact hok
  exact ⟨hok, fun input hrec => ed.run_spec hok hrec⟩

/-- Room for three instructions, in a node's memory where an enum has `n` bytes;
no argument is taken for an option. -/
def small (n : Nat) (h0 : 0 < n) (h4 : n ≤ 4) : Editor :=
  ⟨3, Nat.le_of_ble_eq_true rfl, n, h0, h4, 0, fun _ => 0⟩

/-- What allocated memory may hold. -/
def freshMemory : EditBuffer 3 := ⟨List.replicate 3 ⟨7, .noop⟩, 42, rfl⟩

/-- The arguments x1 and y1, with an operator in between. -/
def conditionArgs (op : CStr) : List CStr :=
  [.nil, .ofBytes [120, 49] rfl, op, .ofBytes [121, 49] rfl]

theorem intBytes_pos : 0 < 4 := Nat.succ_pos 3

theorem intBytes_le : 4 ≤ 4 := Nat.le_refl 4

/-- An editor with enums of the size of an `int`. -/
def wide : Editor := small 4 intBytes_pos intBytes_le

/-- Two conditions, an operator that is none, and the first instruction removed
again. -/
def wideInputs : List wide.EditInput :=
  [⟨.new freshMemory, []⟩, ⟨.block, conditionArgs (.ofBytes [60, 61] rfl)⟩,
    ⟨.ifelse, conditionArgs (.ofBytes [33, 61] rfl)⟩, ⟨.block, conditionArgs .nil⟩,
    ⟨.pop, [.nil, .ofBytes [48] rfl]⟩]

theorem wideInputs_taken :
    (wideInputs.foldlM (guarded wide.next fun _ input => wide.operatorRecognised input = true)
      none).isSome = true := by
  decide +kernel

theorem editing_bounded_wideInputs : ∃ current,
    Reaches wide.next (fun _ input => wide.operatorRecognised input = true) none wideInputs
      current ∧ wide.Bounded current :=
  ⟨_, .of_foldlM (Option.some_get wideInputs_taken).symm,
    wide.editing_bounded (.of_foldlM (Option.some_get wideInputs_taken).symm)⟩

/-- An editor with enums of one byte. -/
def narrow : Editor := small 1 Nat.one_pos (Nat.le_of_ble_eq_true rfl)

/-- `proc block x1 =! y1`. -/
def narrowInputs : List narrow.EditInput :=
  [⟨.new freshMemory, []⟩, ⟨.block, conditionArgs (.ofBytes [61, 33] rfl)⟩]

/-- The block that has been appended. -/
def invalidBlock : ProcInstruction :=
  ⟨0, .block (.ofBytes [120, 49] rfl) 255 (.ofBytes [121, 49] rfl)⟩

def narrowBuffer : EditBuffer 3 := ⟨[invalidBlock, ⟨7, .noop⟩, ⟨7, .noop⟩], 1, rfl⟩

/-- The invalid operator is appended as number 255. -/
theorem narrow_appends_invalid :
    Reaches narrow.next (fun _ _ => True) none narrowInputs (some narrowBuffer) ∧
      ¬ narrow.Bounded (some narrowBuffer) := by
  refine ⟨.of_foldlM (by decide +kernel), ?_⟩
  intro h
  have hvalid := (h.ok narrowBuffer rfl).valid invalidBlock (List.mem_cons_self ..)
  exact absurd hvalid.2 (by decide)

end Editor

end CspProc
