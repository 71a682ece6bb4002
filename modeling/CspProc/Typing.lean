import CspProc.Listing
import CspProc.Numbers
import CspProc.References

/-! # Typing a procedure in again

What `proc list` shows of a procedure can be typed in: `proc new`, and for every
line the command that appends such an instruction, with the operands and the
operator as they are shown, and the slot and the node in decimal.

* `checkedOp_parseOpEnum` — the operators of the three tables are read back;
* `decimalOf_decimal` — and so are the numbers;
* `listing_retyped` — the commands all succeed, and the procedure they make is the
  one that has been listed, but for the nodes of its noops.
-/

namespace CspProc

/-! ## Numbers that are printed -/

theorem isDigit_of_mem_decimalBytes {n : Nat} {b : UInt8} (hb : b ∈ decimalBytes n) :
    isDigit b = true := by
  rw [isDigit, Bool.and_eq_true, decide_eq_true_iff, decide_eq_true_iff, UInt8.le_iff_toNat_le,
    UInt8.le_iff_toNat_le]
  exact digit_of_mem_decimalBytes hb

theorem decimalBytes_nulFree (n : Nat) : 0 ∉ decimalBytes n :=
  fun hmem => absurd (isDigit_of_mem_decimalBytes hmem) (by decide)

/-- The argument that a number is typed as. -/
def decimal (n : Nat) : CStr := ⟨decimalBytes n, decimalBytes_nulFree n⟩

/-- A number is read back as it was printed. -/
theorem decimalOf_decimal (n : Nat) : decimalOf (decimal n) = some (n : Int) := by
  have hall : (decimalBytes n).all isDigit = true :=
    List.all_eq_true.mpr fun _ hb => isDigit_of_mem_decimalBytes hb
  have hdigits : (decimalBytes n).takeWhile (fun b => 48 ≤ b && b ≤ 57) = decimalBytes n :=
    List.takeWhile_eq_self_iff.mpr (List.all_eq_true.mp hall)
  have hvalue : digitsValue (decimalBytes n) = n := by
    rw [digitsValue, hdigits, foldl_decimalBytes]
  have hnumber : digitsNumber (decimalBytes n) = some n := by
    rw [digitsNumber, if_pos ⟨decimalBytes_ne_nil n, hall⟩, hvalue]
  unfold decimalOf
  split
  case h_1 bs hbytes =>
    -- a number has no sign
    change decimalBytes n = 45 :: bs at hbytes
    exact absurd (isDigit_of_mem_decimalBytes (hbytes ▸ List.mem_cons_self)) (by decide)
  case h_2 bs hbytes =>
    change decimalBytes n = 43 :: bs at hbytes
    exact absurd (isDigit_of_mem_decimalBytes (hbytes ▸ List.mem_cons_self)) (by decide)
  case h_3 => exact congrArg (Option.map Int.ofNat) hnumber

/-- A number is no option. -/
theorem decimalBytes_head_ne (n : Nat) : (decimal n).bytes.head? ≠ some 45 := by
  intro hhead
  exact absurd (isDigit_of_mem_decimalBytes (List.mem_of_head? hhead)) (by decide)

theorem atoi_decimal {n : Nat} (h : n < 2 ^ 31) : atoi (decimal n) = n :=
  atoi_of_decimal (decimalOf_decimal n) (by omega) (by omega)

/-! ## Operators that are printed -/

/-- The operator at an index of a table is parsed to this index, whatever the size of
an enum. -/
theorem checkedOp_parseOpEnum {n i : Nat} (hn : 0 < n) {ops : List (List UInt8)}
    (hnodup : ops.Nodup) (hlen : ops.length < 256) {str : CStr} (h : ops[i]? = some str.bytes) :
    checkedOp n (parseOpEnum n ops str) = some (UInt32.ofNat i) := by
  rcases List.getElem?_eq_some_iff.mp h with ⟨hi, hstr⟩
  have hfind : ops.findIdx? (fun op => op = str.bytes) = some i := by
    rw [List.findIdx?_eq_some_iff_getElem]
    refine ⟨hi, by simp [hstr], ?_⟩
    intro j hj
    rw [← hstr, decide_eq_true_iff, hnodup.getElem_inj_iff]
    exact Nat.ne_of_lt hj
  have hint : cInt (storedEnum n i).toNat = i := by
    rw [storedEnum_toNat hn (by omega)]
    exact cInt_of_lt (by omega) (by omega)
  rw [parseOpEnum, hfind]
  dsimp only
  rw [checkedOp, hint, if_neg (by omega)]
  refine congrArg some (UInt32.toNat_inj.mp ?_)
  rw [storedEnum_toNat hn (by omega), UInt32.toNat_ofNat']
  omega

/-- An operator as an argument. -/
def shownOperator (op : List UInt8) : Option CStr :=
  if h : op.contains 0 = false then some (.ofBytes op h) else none

/-- The tables of operators. -/
def operatorTables : List (List (List UInt8)) := [comparisonOpStr, unaryOpStr, binaryOpStr]

/-- The operators of a table can be typed, and are told apart. -/
theorem operatorTables_ok : ∀ ops ∈ operatorTables,
    ops.Nodup ∧ ops.length < 256 ∧ ∀ op ∈ ops, op.contains 0 = false := by
  decide

theorem comparisonOpStr_mem : comparisonOpStr ∈ operatorTables := List.mem_cons_self

theorem unaryOpStr_mem : unaryOpStr ∈ operatorTables :=
  List.mem_cons_of_mem _ List.mem_cons_self

theorem binaryOpStr_mem : binaryOpStr ∈ operatorTables :=
  List.mem_cons_of_mem _ (List.mem_cons_of_mem _ List.mem_cons_self)

/-- What is shown for an operator is read as the operator. -/
theorem operator_retyped {n : Nat} (hn : 0 < n) {ops : List (List UInt8)}
    (hops : ops ∈ operatorTables) {op : UInt32} {str : List UInt8}
    (h : ops[op.toNat]? = some str) :
    ∃ s, shownOperator str = some s ∧ checkedOp n (parseOpEnum n ops s) = some op := by
  rcases operatorTables_ok ops hops with ⟨hnodup, hlen, hnul⟩
  have harg : shownOperator str = some (.ofBytes str (hnul str (List.mem_of_getElem? h))) :=
    dif_pos _
  refine ⟨_, harg, ?_⟩
  rw [checkedOp_parseOpEnum hn hnodup hlen h, UInt32.ofNat_toNat]

/-! ## Commands for lines -/

namespace Editor

variable (ed : Editor)

/-- The command that is typed for a line of a listing. -/
def lineInput (name : CStr) : ListLine → Option ed.EditInput
  | .block node paramA op paramB => (shownOperator op).map fun op =>
      ⟨.block, [name, paramA, op, paramB, decimal node.toNat]⟩
  | .ifelse node paramA op paramB => (shownOperator op).map fun op =>
      ⟨.ifelse, [name, paramA, op, paramB, decimal node.toNat]⟩
  | .noop => some ⟨.noop, [name]⟩
  | .set node param value => some ⟨.set, [name, param, value, decimal node.toNat]⟩
  | .unop node result op param => (shownOperator op).map fun op =>
      ⟨.unop, [name, param, op, result, decimal node.toNat]⟩
  | .binop node result paramA op paramB => (shownOperator op).map fun op =>
      ⟨.binop, [name, paramA, op, paramB, result, decimal node.toNat]⟩
  | .call node procedureSlot => some
      ⟨.call, [name, decimal procedureSlot.toNat, decimal node.toNat]⟩
  | .unknown _ => none

/-- `optparse_parse` takes nothing for options in front of an argument that does not
begin with a `-`, or of the end of the arguments. -/
def Positional : Prop :=
  ∀ args : List CStr, (∀ s ∈ args.head?, s.bytes.head? ≠ some 45) → ed.optparseParse args = 0

/-- The command returns `SLASH_SUCCESS`. -/
def Succeeds (current : ed.Current) (input : ed.EditInput) : Prop :=
  (ed.run input current).map Prod.fst = some .success

end Editor

/-- The operand that is typed first. -/
def Instruction.firstOperand : Instruction → Option CStr
  | .block paramA _ _ | .ifelse paramA _ _ | .binop paramA _ _ _ => some paramA
  | .set param _ | .unop param _ _ => some param
  | _ => none

/-- The instruction is of a known type, and its first operand does not look like an
option. -/
def ProcInstruction.Typable (ins : ProcInstruction) : Prop :=
  ins.instruction.isKnown = true ∧
    ∀ s ∈ ins.instruction.firstOperand, s.bytes.head? ≠ some 45

/-- The instruction as it is typed in: the node of a `noop` is neither shown nor asked
for. -/
def ProcInstruction.typed (ins : ProcInstruction) : ProcInstruction :=
  if ins.instruction.isNoop = true then ⟨0, .noop⟩ else ins

namespace Editor

variable {ed : Editor}

theorem Positional.argi_eq (hpos : ed.Positional) (name : CStr) {args : List CStr}
    (h : ∀ s ∈ args.head?, s.bytes.head? ≠ some 45) :
    0 ≤ ed.optparseParse (name :: args).tail ∧ ed.argi (name :: args) = 0 := by
  have hzero : ed.optparseParse (name :: args).tail = 0 := hpos args h
  exact ⟨hzero.ge, by rw [argi, hzero]; rfl⟩

/-- A node that is typed in decimal. -/
theorem nodeArg_decimal {argv : List CStr} {i : Nat} {node : UInt16}
    (h : argv[i]? = some (decimal node.toNat)) : ed.nodeArg argv i = node := by
  have hlt := node.toNat_lt
  rw [nodeArg, h]
  dsimp only
  rw [atoi_decimal (by omega), ← UInt16.toNat_inj]
  have hnat := toNat_ofInt_uint16 (node.toNat : Int)
  omega

theorem slot_decimal (slot : UInt8) : UInt8.ofInt (atoi (decimal slot.toNat)) = slot := by
  have hlt := slot.toNat_lt
  rw [atoi_decimal (by omega), ← UInt8.toNat_inj, ofInt_uint8_of_fits (by omega) (by omega)]
  rfl

section Read

variable {argv : List CStr} {argi : Nat} {node : UInt16} {paramA str paramB result : CStr}
variable {op : UInt32}

theorem readCondition_eq (make : CStr → UInt32 → CStr → Instruction)
    (hparamA : argv[argi + 1]? = some paramA) (hstr : argv[argi + 2]? = some str)
    (hop : checkedOp ed.sizeofEnum (parseComparisonOpEnum ed.sizeofEnum str) = some op)
    (hparamB : argv[argi + 3]? = some paramB)
    (hnode : argv[argi + 4]? = some (decimal node.toNat)) :
    ed.readCondition argv make argi = some ⟨node, make paramA op paramB⟩ := by
  simp only [readCondition, Option.bind_eq_bind, Option.bind_eq_some_iff, pure,
    Option.some.injEq, nodeArg_decimal hnode]
  exact ⟨paramA, hparamA, str, hstr, op, hop, paramB, hparamB, rfl⟩

theorem readUnop_eq (hparam : argv[argi + 1]? = some paramA)
    (hstr : argv[argi + 2]? = some str)
    (hop : checkedOp ed.sizeofEnum (parseUnaryOpEnum ed.sizeofEnum str) = some op)
    (hresult : argv[argi + 3]? = some result)
    (hnode : argv[argi + 4]? = some (decimal node.toNat)) :
    ed.readUnop argv argi = some ⟨node, .unop paramA op result⟩ := by
  simp only [readUnop, Option.bind_eq_bind, Option.bind_eq_some_iff, pure, Option.some.injEq,
    nodeArg_decimal hnode]
  exact ⟨paramA, hparam, str, hstr, op, hop, result, hresult, rfl⟩

theorem readBinop_eq (hparamA : argv[argi + 1]? = some paramA)
    (hstr : argv[argi + 2]? = some str)
    (hop : checkedOp ed.sizeofEnum (parseBinaryOpEnum ed.sizeofEnum str) = some op)
    (hparamB : argv[argi + 3]? = some paramB) (hresult : argv[argi + 4]? = some result)
    (hnode : argv[argi + 5]? = some (decimal node.toNat)) :
    ed.readBinop argv argi = some ⟨node, .binop paramA op paramB result⟩ := by
  simp only [readBinop, Option.bind_eq_bind, Option.bind_eq_some_iff, pure, Option.some.injEq,
    nodeArg_decimal hnode]
  exact ⟨paramA, hparamA, str, hstr, op, hop, paramB, hparamB, result, hresult, rfl⟩

end Read

variable (ed) in
/-- The command for a line reads the instruction that the line shows. -/
theorem read_of_line (name : CStr) {ins : ProcInstruction} (htypable : ins.Typable)
    {line : ListLine} (hline : listLine ins = some line) :
    ∃ c args, ed.lineInput name line = some ⟨c, name :: args⟩ ∧ c.appends = true ∧
      (∀ s ∈ args.head?, s.bytes.head? ≠ some 45) ∧
      ed.read c (name :: args) 0 = some ins.typed := by
  rcases ins with ⟨node, instruction⟩
  cases instruction with
  | unknown => exact absurd htypable.1 Bool.false_ne_true
  | block paramA op paramB =>
      rcases Option.map_eq_some_iff.mp hline with ⟨str, hstr, rfl⟩
      rcases operator_retyped ed.enum_pos comparisonOpStr_mem hstr with ⟨s, hs, hop⟩
      refine ⟨.block, [paramA, s, paramB, decimal node.toNat], ?_, rfl, htypable.2, ?_⟩
      · rw [lineInput, hs, Option.map_some]
      · exact readCondition_eq .block rfl rfl hop rfl rfl
  | ifelse paramA op paramB =>
      rcases Option.map_eq_some_iff.mp hline with ⟨str, hstr, rfl⟩
      rcases operator_retyped ed.enum_pos comparisonOpStr_mem hstr with ⟨s, hs, hop⟩
      refine ⟨.ifelse, [paramA, s, paramB, decimal node.toNat], ?_, rfl, htypable.2, ?_⟩
      · rw [lineInput, hs, Option.map_some]
      · exact readCondition_eq .ifelse rfl rfl hop rfl rfl
  | unop param op result =>
      rcases Option.map_eq_some_iff.mp hline with ⟨str, hstr, rfl⟩
      rcases operator_retyped ed.enum_pos unaryOpStr_mem hstr with ⟨s, hs, hop⟩
      refine ⟨.unop, [param, s, result, decimal node.toNat], ?_, rfl, htypable.2, ?_⟩
      · rw [lineInput, hs, Option.map_some]
      · exact readUnop_eq rfl rfl hop rfl rfl
  | binop paramA op paramB result =>
      rcases Option.map_eq_some_iff.mp hline with ⟨str, hstr, rfl⟩
      rcases operator_retyped ed.enum_pos binaryOpStr_mem hstr with ⟨s, hs, hop⟩
      refine ⟨.binop, [paramA, s, paramB, result, decimal node.toNat], ?_, rfl, htypable.2, ?_⟩
      · rw [lineInput, hs, Option.map_some]
      · exact readBinop_eq rfl rfl hop rfl rfl rfl
  | set param value =>
      obtain rfl := Option.some.inj hline
      refine ⟨.set, [param, value, decimal node.toNat], rfl, rfl, htypable.2, ?_⟩
      simp only [read, readSet, Option.bind_eq_bind, Option.bind_eq_some_iff, pure,
        Option.some.injEq]
      exact ⟨param, rfl, value, rfl, congrArg (ProcInstruction.mk · _) (nodeArg_decimal rfl)⟩
  | call procedureSlot =>
      obtain rfl := Option.some.inj hline
      refine ⟨.call, [decimal procedureSlot.toNat, decimal node.toNat], rfl, rfl, ?_, ?_⟩
      · -- a number is no option
        intro s hs
        rw [← Option.some.inj hs]
        exact decimalBytes_head_ne _
      · simp only [read, readCall, Option.bind_eq_bind, Option.bind_eq_some_iff, pure,
          Option.some.injEq]
        refine ⟨_, rfl, ?_⟩
        rw [slot_decimal, nodeArg_decimal rfl]
        rfl
  | noop =>
      obtain rfl := Option.some.inj hline
      refine ⟨.noop, [], rfl, rfl, ?_, rfl⟩
      intro s hs
      cases hs

/-- The command for a line appends the instruction that the line shows. -/
theorem run_line (hpos : ed.Positional) (name : CStr) {ins : ProcInstruction}
    (htypable : ins.Typable) {line : ListLine} (hline : listLine ins = some line)
    {p : EditBuffer ed.maxInstructions} (hroom : p.instructionCount.toNat < ed.maxInstructions) :
    ∃ input, ed.lineInput name line = some input ∧
      ed.run input (some p) = some (.success, some (p.append ins.typed)) := by
  rcases read_of_line ed name htypable hline with ⟨c, args, hinput, hc, hhead, hread⟩
  rcases hpos.argi_eq name hhead with ⟨hparsed, hargi⟩
  refine ⟨_, hinput, ?_⟩
  rw [run_of_appends hc]
  exact addInstruction_of_read hroom hparsed (hargi ▸ hread)

/-- The commands for the lines of a list of instructions append these, one by one. -/
theorem run_lines (hpos : ed.Positional) (name : CStr) {l : List ProcInstruction}
    (htypable : ∀ ins ∈ l, ins.Typable) {lines : List ListLine}
    (hlines : l.mapM listLine = some lines) {p : EditBuffer ed.maxInstructions}
    (hroom : p.instructionCount.toNat + l.length ≤ ed.maxInstructions) :
    ∃ inputs p', lines.mapM (ed.lineInput name) = some inputs ∧
      Reaches ed.next ed.Succeeds (some p) inputs (some p') ∧
      p'.list = p.list ++ l.map ProcInstruction.typed := by
  induction l generalizing p lines with
  | nil =>
      obtain rfl := Option.some.inj hlines
      exact ⟨[], p, rfl, .start, (List.append_nil _).symm⟩
  | cons ins l ih =>
      rw [List.forall_mem_cons] at htypable
      rw [List.length_cons] at hroom
      simp only [List.mapM_cons, Option.bind_eq_bind, Option.bind_eq_some_iff, pure,
        Option.some.injEq] at hlines
      rcases hlines with ⟨line, hline, lines, hlines, rfl⟩
      rcases run_line hpos name htypable.1 hline (p := p) (by omega) with ⟨input, hinput, hrun⟩
      rcases p.list_append ins.typed ed.max_le (by omega) with ⟨hlist, hcount⟩
      rcases ih htypable.2 hlines (p := p.append ins.typed) (by rw [hcount]; omega) with
        ⟨inputs, p', hinputs, hreach, hlist'⟩
      refine ⟨input :: inputs, p', ?_, .cons hreach ?_ ?_, ?_⟩
      · simp [List.mapM_cons, hinput, hinputs]
      · rw [Succeeds, hrun]
        rfl
      · rw [next, hrun]
        rfl
      · rw [hlist', hlist, List.map_cons, List.append_assoc, List.singleton_append]

end Editor

/-! ## Listings that are typed in -/

/-- The current procedure, as `proc list` and `proc push` read it. -/
def EditBuffer.proc {n : Nat} (p : EditBuffer n) (hn : n ≤ maxInstructions) : Proc where
  instructions := p.list
  length_le := by
    rw [p.length_list]
    exact (Nat.min_le_right _ _).trans hn

/-- The node of a `noop` is not shown. -/
theorem listLine_typed (ins : ProcInstruction) : listLine ins.typed = listLine ins := by
  unfold ProcInstruction.typed
  split
  · rename_i hnoop
    rcases ins with ⟨node, instruction⟩
    cases instruction with
    | noop => rfl
    | block | ifelse | set | unop | binop | call | unknown => exact absurd hnoop Bool.false_ne_true
  · rfl

/-- What is listed can be typed in again: `proc new` and the commands for the lines all
succeed, whatever procedure was the current one, and make a procedure with the same
instructions, but for the nodes of noops, and with the same listing. -/
theorem listing_retyped {ed : Editor} (hpos : ed.Positional) (name : CStr) {p : Proc}
    (hmax : p.instructions.length ≤ ed.maxInstructions)
    (htypable : ∀ ins ∈ p.instructions, ins.Typable) {lines : List ListLine}
    (hlist : procList p = some lines) (memory : EditBuffer ed.maxInstructions)
    (current : ed.Current) :
    ∃ inputs p', lines.mapM (ed.lineInput name) = some inputs ∧
      Reaches ed.next ed.Succeeds current (⟨.new memory, [name]⟩ :: inputs) (some p') ∧
      p'.list = p.instructions.map ProcInstruction.typed ∧
      procList (p'.proc ed.max_le) = some lines := by
  let created : EditBuffer ed.maxInstructions := { memory with instructionCount := 0 }
  have hroom : created.instructionCount.toNat + p.instructions.length ≤ ed.maxInstructions := by
    rw [show created.instructionCount.toNat = 0 from rfl, Nat.zero_add]
    exact hmax
  rcases Editor.run_lines hpos name htypable hlist hroom with ⟨inputs, p', hinputs, hreach, hlist'⟩
  have hempty : created.list = [] := List.take_zero
  rw [hempty, List.nil_append] at hlist'
  refine ⟨inputs, p', hinputs, .cons hreach rfl rfl, hlist', ?_⟩
  change p'.list.mapM listLine = some lines
  rw [hlist', List.mapM_map]
  simp only [Function.comp_def, listLine_typed]
  exact hlist

namespace Editor

/-- A condition, a clause, and a `noop` with a node. -/
def threeLines : Proc where
  instructions :=
    [⟨300, .ifelse (.ofBytes [116, 49] rfl) 5 (.ofBytes [116, 50] rfl)⟩,
      ⟨0, .call 17⟩, ⟨7, .noop⟩]
  length_le := Nat.le_of_ble_eq_true rfl

theorem wide_positional : wide.Positional := fun _ _ => rfl

theorem threeLines_typable : ∀ ins ∈ threeLines.instructions, ins.Typable := by
  intro ins hins
  rcases List.mem_cons.mp hins with rfl | hins
  · exact ⟨rfl, by decide⟩
  · rcases List.mem_cons.mp hins with rfl | hins
    · exact ⟨rfl, nofun⟩
    · rw [List.mem_singleton.mp hins]
      exact ⟨rfl, nofun⟩

theorem threeLines_listed : (procList threeLines).isSome = true :=
  (isSome_procList_iff threeLines).mpr (by decide)

theorem threeLines_length : threeLines.instructions.length ≤ wide.maxInstructions :=
  Nat.le_refl 3

theorem listing_retyped_threeLines : ∃ lines inputs p', procList threeLines = some lines ∧
    lines.mapM (wide.lineInput .nil) = some inputs ∧
    Reaches wide.next wide.Succeeds none (⟨.new freshMemory, [.nil]⟩ :: inputs) (some p') ∧
    p'.list = threeLines.instructions.map ProcInstruction.typed ∧
    procList (p'.proc wide.max_le) = some lines :=
  ⟨_, (listing_retyped wide_positional .nil threeLines_length threeLines_typable
    (Option.some_get threeLines_listed).symm freshMemory none).imp fun _ h =>
      h.imp fun _ h => ⟨(Option.some_get threeLines_listed).symm, h⟩⟩

end Editor

end CspProc
