import CspProc.Arithmetic
import CspProc.Lib.Tolerance
import CspProc.Structured
import Mathlib.Tactic.NormNum

/-! # What conditions compare

`proc_runtime_ifelse` fetches two parameters (`fetchCompared`) and compares them
in its `switch`. This module says when it compares what it has fetched, and how
the outcomes of its operators are related.

* `condition_iff` — the outcome is that of the operator on the values, unless a
  string is compared: its `case` tests the type of the second parameter against
  an enumerator of operand types;
* `opposed_iff` — negating the operator negates the outcome, unless two `double`s
  differ by less than the tolerance, which `<` and `>` leave out;
* `lt_and_ge_iff` — the band in which `<` and `>=` both hold;
* `swapped_clauses` — elsewhere, the clauses of a statement can be swapped with
  its operator negated.
-/

namespace CspProc

open TwosComplement Tolerance Traced

/-! ## Operators -/

namespace ComparisonOp

/-- The enumerators' values. -/
def code : ComparisonOp → UInt32
  | eq => 0
  | neq => 1
  | lt => 2
  | gt => 3
  | le => 4
  | ge => 5

@[simp] theorem ofCode_code (op : ComparisonOp) : ofCode op.code = some op := by
  cases op <;> rfl

/-- The operator that holds just when this one does not. -/
def negate : ComparisonOp → ComparisonOp
  | eq => neq
  | neq => eq
  | lt => ge
  | gt => le
  | le => gt
  | ge => lt

/-- The operator for the operands in the other order. -/
def exchange : ComparisonOp → ComparisonOp
  | eq => eq
  | neq => neq
  | lt => gt
  | gt => lt
  | le => ge
  | ge => le

theorem holds_negate (op : ComparisonOp) (o : Ordering) : op.negate.holds o = !op.holds o := by
  cases op <;> cases o <;> rfl

theorem holds_exchange (op : ComparisonOp) (o : Ordering) :
    op.exchange.holds o.swap = op.holds o := by
  cases op <;> cases o <;> rfl

end ComparisonOp

/-! ## Outcomes -/

namespace Condition

/-- The other outcome, if there is one. -/
def negate : Condition → Condition
  | holds => fails
  | fails => holds
  | err => err
  | errType => errType

/-- The clause that runs after a condition. -/
def clause {α : Type} (ifClause elseClause : α) : Condition → Option α
  | holds => some ifClause
  | fails => some elseClause
  | err | errType => none

theorem clause_negate {α : Type} (ifClause elseClause : α) (c : Condition) :
    c.negate.clause elseClause ifClause = c.clause ifClause elseClause := by
  cases c <;> rfl

end Condition

theorem conditionOf_not (b : Bool) : conditionOf (some !b) = (conditionOf (some b)).negate := by
  cases b <;> rfl

theorem conditionOf_inj {a b : Option Bool} : conditionOf a = conditionOf b ↔ a = b := by
  rcases a with _ | _ | _ <;> rcases b with _ | _ | _ <;> decide

theorem conditionOf_some_holds {b : Bool} : conditionOf (some b) = .holds ↔ b = true := by
  cases b <;> decide

theorem conditionOf_ne_errType (b : Option Bool) : conditionOf b ≠ .errType := by
  rcases b with _ | _ | _ <;> decide

/-- A statement runs the clause that its condition says, if it says one. -/
theorem Structured.execStmt_clause {S : Type} (h : Handlers S) (call : UInt8 → Cmd (Effects S))
    (ins : ProcInstruction) (ifClause elseClause : Option ProcInstruction) (e : Effects S) :
    execStmt h call (.ifelse ins ifClause elseClause) e =
      match (h.ifelse ins e.params).1.clause ifClause elseClause with
      | some clause => execClause h call clause (e.log ins (h.ifelse ins e.params).2)
      | none => ((h.ifelse ins e.params).1.flag.code, e.log ins (h.ifelse ins e.params).2) := by
  unfold execStmt
  dsimp only
  cases (h.ifelse ins e.params).1 <;> rfl

/-! ## Before the switch -/

/-- What `proc_runtime_ifelse` has fetched when it comes to its `switch`. The
parameters are those that it finds first; `fetch_operand_param_pair` searches for them
again, and the operands are read from what it finds. -/
structure Compared (F : Type) where
  paramA : Param
  paramB : Param
  a : Operand F
  b : Operand F
  pairParamA : Param
  pairParamB : Param

namespace Host

variable {P F : Type} (h : Host P F)

/-- The part of `proc_runtime_ifelse` before its `switch`. -/
def fetchCompared (a b : CStr) (node : UInt16) : Traced Access P (Option (Compared F)) := do
  let paramA ← h.procFetchParam a node
  let paramB ← h.procFetchParam b node
  match paramA with
  | none => return none
  | some paramA =>
      match paramB with
      | none => return none
      | some paramB =>
          if paramA.type = .invalid ∨ paramB.type = .data then
            return none
          else
            match ← h.fetchOperandParamPair a node with
            | none => return none
            | some (operandA, pairParamA) =>
                match ← h.fetchOperandParamPair b node with
                | none => return none
                | some (operandB, pairParamB) =>
                    return some ⟨paramA, paramB, operandA, operandB, pairParamA, pairParamB⟩

/-- The `switch`. -/
def compareFetched (op : ComparisonOp) (c : Compared F) : Traced Access P Condition :=
  h.compareOperands op.code c.paramA c.paramB c.a c.b

/-- What `ifelse a op b` comes to on a node. -/
def condition (op : ComparisonOp) (a b : CStr) (node : UInt16) (s : P) : Condition :=
  ((h.procRuntimeIfelse ⟨node, .ifelse a op.code b⟩).run s).value

variable {h} {op : ComparisonOp} {nameA nameB : CStr} {node : UInt16} {s : P} {c : Compared F}

/-- The handler fetches and compares. -/
theorem ifelse_eq (op : ComparisonOp) (a b : CStr) (node : UInt16) :
    h.procRuntimeIfelse ⟨node, .ifelse a op.code b⟩ = (do
      match ← h.fetchCompared a b node with
      | none => return .err
      | some c => h.compareFetched op c) := by
  unfold procRuntimeIfelse fetchCompared
  simp only [bind_assoc]
  -- two searches and two operands, each of which may be where the handler ends
  apply bind_congr
  intro paramA
  apply bind_congr
  intro paramB
  rcases paramA with _ | paramA
  · rfl
  rcases paramB with _ | paramB
  · rfl
  dsimp only
  split
  · rfl
  rw [bind_assoc]
  apply bind_congr
  rintro (_ | ⟨a, _⟩)
  · rfl
  dsimp only
  rw [bind_assoc]
  apply bind_congr
  rintro (_ | ⟨b, _⟩)
  · rfl
  · rfl

theorem condition_eq (hfetch : ((h.fetchCompared nameA nameB node).run s).value = some c)
    (op : ComparisonOp) :
    h.condition op nameA nameB node s =
      ((h.compareFetched op c).run ((h.fetchCompared nameA nameB node).run s).state).value := by
  unfold condition
  rw [ifelse_eq, run_bind, hfetch]

end Host

/-! ## The switch -/

theorem compareOfLessAndEq_congr {α β : Type} [LT α] [LT β] [DecidableEq α] [DecidableEq β]
    {a b : α} {x y : β} [Decidable (a < b)] [Decidable (x < y)] (hlt : a < b ↔ x < y)
    (heq : a = b ↔ x = y) : compareOfLessAndEq a b = compareOfLessAndEq x y := by
  unfold compareOfLessAndEq
  simp only [hlt, heq]

/-- Machine integers are ordered as the integers that they stand for. -/
theorem compare_u64 (a b : UInt64) : compare a b = compare (a.toNat : Int) b.toNat := by
  refine compareOfLessAndEq_congr ?_ ?_
  · rw [UInt64.lt_iff_toNat_lt, Int.ofNat_lt]
  · rw [Int.ofNat_inj, UInt64.toNat_inj]

theorem compare_i64 (a b : Int64) : compare a b = compare a.toInt b.toInt :=
  compareOfLessAndEq_congr Int64.lt_iff_toInt_lt Int64.toInt_inj.symm

namespace Host

variable {P F : Type} {h : Host P F} {c : Compared F} (op : ComparisonOp) (s : P)

theorem compareFetched_number (ha : c.a.type = .uint ∨ c.a.type = .int) :
    ((h.compareFetched op c).run s).value =
      if c.b.type = c.a.type then
        conditionOf (some (op.holds (compare (c.a.toInt h.fl) (c.b.toInt h.fl))))
      else .errType := by
  unfold compareFetched compareOperands
  rw [ComparisonOp.ofCode_code]
  rcases ha with ha | ha
  · simp only [ha]
    by_cases hb : c.b.type = .uint
    · rw [if_neg (not_not_intro hb), if_pos hb, compare_u64, Operand.toInt_uint ha,
        Operand.toInt_uint hb]
      rfl
    · rw [if_pos hb, if_neg hb]
      rfl
  · simp only [ha]
    by_cases hb : c.b.type = .int
    · rw [if_neg (not_not_intro hb), if_pos hb, compare_i64, Operand.toInt_int ha,
        Operand.toInt_int hb]
      rfl
    · rw [if_pos hb, if_neg hb]
      rfl

theorem compareFetched_float (ha : c.a.type = .float) (hb : c.b.type = .float) :
    ((h.compareFetched op c).run s).value =
      conditionOf (some (op.holdsFloat h.fl (c.a.d h.fl) (c.b.d h.fl))) := by
  unfold compareFetched compareOperands
  rw [ComparisonOp.ofCode_code]
  simp only [ha]
  rw [if_neg (not_not_intro hb)]
  rfl

/-- The texts are compared if the second parameter has a certain type, which is
not that of strings. -/
theorem compareFetched_string (ha : c.a.type = .string) :
    ((h.compareFetched op c).run s).value =
      if h.lib.typeCode c.paramB.type = OperandType.string.code then
        conditionOf (some (op.holds
          (strcmp (h.lib.text s c.paramA.addr) (h.lib.text s c.paramB.addr))))
      else .errType := by
  unfold compareFetched compareOperands
  rw [ComparisonOp.ofCode_code]
  simp only [ha]
  by_cases hb : h.lib.typeCode c.paramB.type = OperandType.string.code
  · rw [if_neg (not_not_intro hb), if_pos hb]
    rfl
  · rw [if_pos hb, if_neg hb]
    rfl

end Host

/-! ## Like with like -/

/-- What a condition compares: an integer of one of two classes, or a string. -/
inductive Comparand where
  | number (signed : Bool) (value : Int)
  | text (s : CStr)

namespace Comparand

/-- The order of two values of one class. -/
def order : Comparand → Comparand → Option Ordering
  | number signed x, number signed' y => if signed = signed' then some (compare x y) else none
  | text x, text y => some (strcmp x y)
  | number .., text _ | text _, number .. => none

/-- The truth of an operator, or that the classes differ. -/
def outcome (op : ComparisonOp) (x y : Comparand) : Condition :=
  match x.order y with
  | some o => conditionOf (some (op.holds o))
  | none => .errType

end Comparand

/-- The value that a parameter of a type has: its bytes, or the text at its address. -/
def ParamType.comparand (type : ParamType) (raw : UInt64) (text : CStr) : Option Comparand :=
  match type.integer with
  | some t => some (.number t.signed (t.ofRaw raw))
  | none => if type = .string then some (.text text) else none

/-- The value that an operand stands for, unless it is a `double`. -/
def Operand.comparand {F : Type} (fl : FloatOps F) (text : CStr) (o : Operand F) :
    Option Comparand :=
  match o.type with
  | .uint => some (.number false (o.toInt fl))
  | .int => some (.number true (o.toInt fl))
  | .float => none
  | .string => some (.text text)

theorem parseValue_comparand {F : Type} {fl : FloatOps F} {type : ParamType} {raw : UInt64}
    {o : Operand F} (h : parseValue fl type raw = some o) (text : CStr) :
    o.comparand fl text = type.comparand raw text := by
  unfold ParamType.comparand
  cases ht : type.integer with
  | some t =>
      rcases parseValue_integer fl ht raw with ⟨o', ho', hof, hint⟩
      rw [h] at ho'
      cases ho'
      unfold Operand.comparand
      rw [hof.type, hint]
      unfold IntegerType.operandType
      dsimp only
      cases t.signed <;> rfl
  | none => cases type <;> cases ht <;> cases h <;> rfl

theorem exists_comparand {F : Type} (fl : FloatOps F) (text : CStr) {o : Operand F}
    (h : o.type ≠ .float) : ∃ x, o.comparand fl text = some x := by
  unfold Operand.comparand
  cases ho : o.type with
  | float => exact absurd ho h
  | _ => exact ⟨_, rfl⟩

namespace Host

variable {P F : Type} (h : Host P F) (nameA nameB : CStr) (node : UInt16) (s : P)

/-- The handler fetches two parameters, and they have these values: each operand is
read from a parameter, and a string is the text at that parameter's address. -/
structure Compares (c : Compared F) (x y : Comparand) : Prop where
  fetched : ((h.fetchCompared nameA nameB node).run s).value = some c
  first : ∃ raw, parseValue h.fl c.pairParamA.type raw = some c.a ∧
    c.pairParamA.type.comparand raw
      (h.lib.text ((h.fetchCompared nameA nameB node).run s).state c.pairParamA.addr) = some x
  second : ∃ raw, parseValue h.fl c.pairParamB.type raw = some c.b ∧
    c.pairParamB.type.comparand raw
      (h.lib.text ((h.fetchCompared nameA nameB node).run s).state c.pairParamB.addr) = some y

/-- A string that is the first operand is compared as it should be: the `case` tests the
second parameter that was found first for the type of a UINT64, and takes the texts of
both parameters that were found first. -/
def TextsCompared (op : ComparisonOp) (s : P) (c : Compared F) : Prop :=
  if c.b.type = .string then
    c.paramB.type = .uint64 ∧
      op.holds (strcmp (h.lib.text s c.paramA.addr) (h.lib.text s c.paramB.addr)) =
        op.holds (strcmp (h.lib.text s c.pairParamA.addr) (h.lib.text s c.pairParamB.addr))
  else c.paramB.type ≠ .uint64

variable {h nameA nameB node s} {c : Compared F} {x y : Comparand}

/-- The handler comes to its comparison without a write, and with operands that its
parameters hold. -/
theorem fetchCompared_reads (nameA nameB : CStr) (node : UInt16) (s : P) :
    Within (Access.Sure Anyone) (fun a => ¬ a.IsWrite)
      (fun r _ => ∀ c, r = some c →
        (∃ raw, parseValue h.fl c.pairParamA.type raw = some c.a) ∧
          ∃ raw, parseValue h.fl c.pairParamB.type raw = some c.b)
      (h.fetchCompared nameA nameB node) s := by
  unfold fetchCompared
  refine within_seq (procFetchParam_reads nameA node s) ?_
  intro paramA s _
  refine within_seq (procFetchParam_reads nameB node s) ?_
  intro paramB s _
  rcases paramA with _ | paramA
  · exact within_pure (by simp)
  rcases paramB with _ | paramB
  · exact within_pure (by simp)
  refine within_ite (fun _ => within_pure (by simp)) fun _ => ?_
  refine within_seq (fetchOperandParamPair_reads nameA node s) ?_
  rintro (_ | ⟨a, pairParamA⟩) s ha
  · exact within_pure (by simp)
  refine within_seq (fetchOperandParamPair_reads nameB node s) ?_
  rintro (_ | ⟨b, pairParamB⟩) s hb
  · exact within_pure (by simp)
  · refine within_pure ?_
    intro c hc
    cases hc
    exact ⟨ha a pairParamA rfl, hb b pairParamB rfl⟩

/-- Two parameters that are fetched have values, unless one is a `double`. -/
theorem exists_compares (hfetch : ((h.fetchCompared nameA nameB node).run s).value = some c)
    (ha : c.a.type ≠ .float) (hb : c.b.type ≠ .float) :
    ∃ x y, h.Compares nameA nameB node s c x y := by
  rcases (fetchCompared_reads nameA nameB node s fun a _ => sure_anyone a).2 c hfetch
    with ⟨⟨rawA, hA⟩, rawB, hB⟩
  have hx := exists_comparand h.fl
    (h.lib.text ((h.fetchCompared nameA nameB node).run s).state c.pairParamA.addr) ha
  have hy := exists_comparand h.fl
    (h.lib.text ((h.fetchCompared nameA nameB node).run s).state c.pairParamB.addr) hb
  rw [parseValue_comparand hA] at hx
  rw [parseValue_comparand hB] at hy
  rcases hx with ⟨x, hx⟩
  rcases hy with ⟨y, hy⟩
  exact ⟨x, y, hfetch, ⟨rawA, hA, hx⟩, ⟨rawB, hB, hy⟩⟩

/-- The value of `PARAM_TYPE_UINT64` is that of `OPERAND_TYPE_STRING`. -/
theorem string_code_iff (hcode : ∀ type, h.lib.typeCode type = type.ctorIdx) (type : ParamType) :
    h.lib.typeCode type = OperandType.string.code ↔ type = .uint64 := by
  rw [hcode]
  cases type <;> decide

/-- The values of two operands are compared as they should be if the first one is
no string. -/
theorem compareFetched_outcome {textA textB : CStr} (hx : c.a.comparand h.fl textA = some x)
    (hy : c.b.comparand h.fl textB = some y) (ha : c.a.type ≠ .string) (op : ComparisonOp)
    (s : P) : ((h.compareFetched op c).run s).value = Comparand.outcome op x y := by
  unfold Operand.comparand at hx hy
  cases ha' : c.a.type with
  | uint =>
      rw [ha'] at hx
      cases hx
      rw [compareFetched_number _ _ (.inl ha'), ha']
      cases hb : c.b.type <;> rw [hb] at hy <;> cases hy <;> rfl
  | int =>
      rw [ha'] at hx
      cases hx
      rw [compareFetched_number _ _ (.inr ha'), ha']
      cases hb : c.b.type <;> rw [hb] at hy <;> cases hy <;> rfl
  | float =>
      rw [ha'] at hx
      cases hx
  | string => exact absurd ha' ha

/-- A string is of no class but its own. -/
theorem outcome_text {textA textB : CStr} (hy : c.b.comparand h.fl textB = some y)
    (op : ComparisonOp) :
    Comparand.outcome op (.text textA) y =
      if c.b.type = .string then conditionOf (some (op.holds (strcmp textA textB)))
      else .errType := by
  unfold Operand.comparand at hy
  cases hb : c.b.type with
  | float =>
      rw [hb] at hy
      cases hy
  | uint | int | string =>
      rw [hb] at hy
      cases hy
      rfl

/-- A string is compared by the type of the second parameter, instead of that of
the second operand. -/
theorem compareFetched_text_iff (hcode : ∀ type, h.lib.typeCode type = type.ctorIdx)
    (ha : c.a.type = .string)
    (hy : c.b.comparand h.fl (h.lib.text s c.pairParamB.addr) = some y) (op : ComparisonOp) :
    ((h.compareFetched op c).run s).value =
        Comparand.outcome op (.text (h.lib.text s c.pairParamA.addr)) y ↔
      h.TextsCompared op s c := by
  rw [compareFetched_string _ _ ha, outcome_text hy, TextsCompared, ne_eq, ← string_code_iff hcode]
  by_cases hb : c.b.type = .string
  · rw [if_pos hb, if_pos hb]
    by_cases htest : h.lib.typeCode c.paramB.type = OperandType.string.code
    · rw [if_pos htest, conditionOf_inj, Option.some.injEq, and_iff_right htest]
    · rw [if_neg htest]
      exact iff_of_false (conditionOf_ne_errType _).symm fun hcompared => htest hcompared.1
  · rw [if_neg hb, if_neg hb]
    by_cases htest : h.lib.typeCode c.paramB.type = OperandType.string.code
    · rw [if_pos htest]
      exact iff_of_false (conditionOf_ne_errType _) (not_not_intro htest)
    · rw [if_neg htest]
      exact iff_of_true rfl htest

/-- Where the second search finds the same parameter, that is never so for two strings,
nor for a string and a UINT64. -/
theorem textsCompared_iff (hfetched : ∃ raw, parseValue h.fl c.pairParamB.type raw = some c.b)
    (hsame : c.pairParamB = c.paramB) (op : ComparisonOp) :
    h.TextsCompared op s c ↔ c.b.type ≠ .string ∧ c.paramB.type ≠ .uint64 := by
  rcases hfetched with ⟨raw, hraw⟩
  rw [hsame] at hraw
  unfold TextsCompared
  by_cases hb : c.b.type = .string
  · have htype : c.paramB.type ≠ .uint64 := by
      intro htype
      rw [htype] at hraw
      rw [← Option.some.inj hraw] at hb
      cases hb
    rw [if_pos hb]
    exact iff_of_false (fun hcompared => htype hcompared.1) fun hboth => hboth.1 hb
  · rw [if_neg hb, and_iff_right hb]

/-- Where the types of parameters are numbered in order, a condition compares
like with like, unless a string is its first operand: then it compares texts
just when its second parameter is a `PARAM_TYPE_UINT64`. -/
theorem condition_iff (hcode : ∀ type, h.lib.typeCode type = type.ctorIdx)
    (hcompares : h.Compares nameA nameB node s c x y) (op : ComparisonOp) :
    h.condition op nameA nameB node s = Comparand.outcome op x y ↔
      (c.a.type = .string →
        h.TextsCompared op ((h.fetchCompared nameA nameB node).run s).state c) := by
  rcases hcompares with ⟨hfetch, ⟨rawA, hA, hx⟩, ⟨rawB, hB, hy⟩⟩
  rw [← parseValue_comparand hA] at hx
  rw [← parseValue_comparand hB] at hy
  rw [condition_eq hfetch]
  by_cases ha : c.a.type = .string
  · have htext : x = .text (h.lib.text ((h.fetchCompared nameA nameB node).run s).state
        c.pairParamA.addr) := by
      unfold Operand.comparand at hx
      rw [ha] at hx
      exact (Option.some.inj hx).symm
    rw [imp_iff_right ha, htext]
    exact compareFetched_text_iff hcode ha hy op
  · exact iff_of_true (compareFetched_outcome hx hy ha op _) fun hstring => absurd hstring ha

end Host

theorem small_compared :
    ((hostOne.fetchCompared nameK nameL 0).run smallNumbers).value.isSome = true := by
  decide

theorem condition_small :
    ∃ c x y, hostOne.Compares nameK nameL 0 smallNumbers c x y ∧
      hostOne.condition .gt nameK nameL 0 smallNumbers = Comparand.outcome .gt x y := by
  rcases Host.exists_compares (Option.some_get small_compared).symm (by decide) (by decide)
    with ⟨x, y, hcompares⟩
  refine ⟨_, x, y, hcompares, (Host.condition_iff (fun _ => rfl) hcompares .gt).mpr ?_⟩
  intro hstring
  exact absurd hstring (by decide)

/-- Two strings, which are empty. -/
def twoStrings : List (Param × UInt64) := numbers (.string, 0) (.string, 0) (.uint8, 0)

theorem strings_compared :
    ((hostOne.fetchCompared nameK nameL 0).run twoStrings).value.isSome = true := by
  decide

/-- Equal strings are not found equal by a node that numbers its types in order. -/
theorem strings_not_compared :
    (∀ type, hostOne.lib.typeCode type = type.ctorIdx) ∧
    ∃ c, hostOne.Compares nameK nameL 0 twoStrings c (.text .nil) (.text .nil) ∧
      hostOne.condition .eq nameK nameL 0 twoStrings ≠
        Comparand.outcome .eq (.text .nil) (.text .nil) := by
  refine ⟨fun _ => rfl, Option.get _ strings_compared,
    ⟨(Option.some_get strings_compared).symm, ?_, ?_⟩, ?_⟩
  · exact ⟨0, rfl, rfl⟩
  · exact ⟨0, rfl, rfl⟩
  · decide

/-! ## Opposite operators -/

/-- The `double`s taken as rational numbers, with exact operators. -/
structure FloatOps.Exact (fl : FloatOps ℚ) : Prop where
  zero : fl.zero = 0
  neg : ∀ a, fl.neg a = -a
  sub : ∀ a b, fl.sub a b = a - b
  lt : ∀ a b, fl.lt a b = decide (a < b)
  le : ∀ a b, fl.le a b = decide (a ≤ b)

/-- The truth of an operator on numbers with a tolerance. -/
def ComparisonOp.Tolerant (ε : ℚ) : ComparisonOp → ℚ → ℚ → Prop
  | eq, a, b => Near ε a b
  | neq, a, b => ¬ Near ε a b
  | lt, a, b => a < b
  | gt, a, b => b < a
  | le, a, b => AtMost ε a b
  | ge, a, b => AtMost ε b a

namespace FloatOps.Exact

variable {fl : FloatOps ℚ} (hexact : fl.Exact)
include hexact

theorem floatAbs_eq (x : ℚ) : fl.floatAbs x = |x| := by
  unfold floatAbs
  rw [hexact.lt, hexact.zero, hexact.neg]
  by_cases hx : x < 0
  · rw [if_pos (decide_eq_true hx), abs_of_neg hx]
  · rw [if_neg (by simpa using hx), abs_of_nonneg (not_lt.mp hx)]

theorem holdsFloat_iff (op : ComparisonOp) (a b : ℚ) :
    op.holdsFloat fl a b = true ↔ op.Tolerant fl.epsilon a b := by
  have hcomm : b < a ∨ |a - b| < fl.epsilon ↔ AtMost fl.epsilon b a :=
    or_congr_right near_comm
  unfold ComparisonOp.holdsFloat ComparisonOp.Tolerant
  cases op with
  | le => simp [hexact.lt, hexact.sub, hexact.floatAbs_eq, AtMost, Near]
  | ge => simp [hexact.lt, hexact.sub, hexact.floatAbs_eq, hcomm]
  | _ => simp [hexact.lt, hexact.le, hexact.sub, hexact.floatAbs_eq, Near]

end FloatOps.Exact

/-! ## A node that computes with rational numbers -/

/-- The number that the bits of a floating-point number stand for, with `m` bits
of mantissa and `e` of exponent. -/
def floatOfBits (m e bits : Nat) : ℚ :=
  let mantissa := bits % 2 ^ m
  let exponent := bits / 2 ^ m % 2 ^ e
  let magnitude : Nat :=
    if exponent = 0 then mantissa else (2 ^ m + mantissa) * 2 ^ (exponent - 1)
  mkRat (if bits / 2 ^ (m + e) % 2 = 1 then -magnitude else magnitude) (2 ^ (2 ^ (e - 1) + m - 2))

/-- The bits of a number, cut off after `m` bits of mantissa. -/
def floatBits (m e : Nat) (x : ℚ) : Nat :=
  let magnitude := x.num.natAbs * 2 ^ (2 ^ (e - 1) + m - 2) / x.den
  let l := magnitude.log2
  (if x < 0 then 2 ^ (m + e) else 0) +
    if l < m then magnitude else (l - m + 1) * 2 ^ m + magnitude / 2 ^ (l - m) % 2 ^ m

/-- Doubles as the numbers that they stand for. -/
def FloatOps.rational : FloatOps ℚ where
  add := (· + ·)
  sub := (· - ·)
  mul := (· * ·)
  div := (· / ·)
  neg := (- ·)
  zero := 0
  one := 1
  epsilon := 1 / 1000000
  eq a b := decide (a = b)
  lt a b := decide (a < b)
  le a b := decide (a ≤ b)
  bits x := .ofNat (floatBits 52 11 x)
  ofBits b := floatOfBits 52 11 b.toNat
  single x := .ofNat (floatBits 23 8 x)
  ofSingle b := floatOfBits 23 8 b.toNat

theorem FloatOps.rational_exact : FloatOps.rational.Exact where
  zero := rfl
  neg _ := rfl
  sub _ _ := rfl
  lt _ _ := rfl
  le _ _ := rfl

/-- A node that computes with rational numbers. -/
def hostRational : Host (List (Param × UInt64)) ℚ :=
  ⟨.cells, .rational, [1], fun k => cInt k, true⟩

/-- The single-precision numbers 0 and another one. -/
def zeroAnd (raw : UInt64) : List (Param × UInt64) :=
  numbers (.float, 0) (.float, raw) (.uint8, 0)

/-! ## Opposed outcomes -/

theorem ComparisonOp.tolerant_exchange (op : ComparisonOp) (ε a b : ℚ) :
    op.exchange.Tolerant ε b a ↔ op.Tolerant ε a b := by
  cases op with
  | eq => exact near_comm
  | neq => exact not_congr near_comm
  | _ => exact Iff.rfl

/-- Operators are opposed to each other where the tolerance resolves. -/
theorem ComparisonOp.tolerant_negate_iff {ε a b : ℚ} :
    (∀ op : ComparisonOp, op.negate.Tolerant ε a b ↔ ¬ op.Tolerant ε a b) ↔ Resolves ε a b := by
  rw [resolves_iff]
  constructor
  · intro h
    exact ⟨h .ge, h .le⟩
  · rintro ⟨hlt, hgt⟩ op
    cases op with
    | eq => exact Iff.rfl
    | neq => exact not_not.symm
    | lt => exact iff_not_comm.mp hlt
    | gt => exact iff_not_comm.mp hgt
    | le => exact hgt
    | ge => exact hlt

namespace Compared

/-- The truth of an operator on two numbers of one class. -/
def test {F : Type} (fl : FloatOps F) (op : ComparisonOp) (c : Compared F) : Bool :=
  match c.a.type with
  | .float => op.holdsFloat fl (c.a.d fl) (c.b.d fl)
  | _ => op.holds (compare (c.a.toInt fl) (c.b.toInt fl))

/-- Two numbers of one class. -/
structure Numeric {F : Type} (c : Compared F) : Prop where
  class_eq : c.b.type = c.a.type
  number : c.a.type ≠ .string

variable {fl : FloatOps ℚ} {c c' : Compared ℚ}

theorem test_float {F : Type} {fl : FloatOps F} {c : Compared F} (h : c.a.type = .float)
    (op : ComparisonOp) : c.test fl op = op.holdsFloat fl (c.a.d fl) (c.b.d fl) := by
  unfold test
  rw [h]

theorem test_integer {F : Type} {fl : FloatOps F} {c : Compared F} (h : c.a.type ≠ .float)
    (op : ComparisonOp) :
    c.test fl op = op.holds (compare (c.a.toInt fl) (c.b.toInt fl)) := by
  unfold test
  cases ht : c.a.type with
  | float => exact absurd ht h
  | _ => rfl

theorem test_exchange (hexact : fl.Exact) (hc : c.Numeric) (ha : c'.a = c.b) (hb : c'.b = c.a)
    (op : ComparisonOp) : c'.test fl op.exchange = c.test fl op := by
  by_cases hfloat : c.a.type = .float
  · -- to be near is symmetric
    have hfloat' : c'.a.type = .float := by rw [ha, hc.class_eq, hfloat]
    rw [test_float hfloat', test_float hfloat, Bool.eq_iff_iff, hexact.holdsFloat_iff,
      hexact.holdsFloat_iff, ha, hb]
    exact op.tolerant_exchange ..
  · -- the order of two integers is swapped
    have hfloat' : c'.a.type ≠ .float := by
      rw [ha, hc.class_eq]
      exact hfloat
    have hswap : compare (c.b.toInt fl) (c.a.toInt fl) =
        (compare (c.a.toInt fl) (c.b.toInt fl)).swap := Std.OrientedCmp.eq_swap
    rw [test_integer hfloat', test_integer hfloat, ha, hb, hswap, op.holds_exchange]

theorem test_negate_iff (hexact : fl.Exact) :
    (∀ op : ComparisonOp, c.test fl op.negate = !c.test fl op) ↔
      (c.a.type = .float → Resolves fl.epsilon (c.a.d fl) (c.b.d fl)) := by
  by_cases hfloat : c.a.type = .float
  · rw [imp_iff_right hfloat, ← ComparisonOp.tolerant_negate_iff]
    refine forall_congr' fun op => ?_
    rw [test_float hfloat, test_float hfloat, Bool.eq_iff_iff, Bool.not_eq_true',
      ← Bool.not_eq_true, hexact.holdsFloat_iff, hexact.holdsFloat_iff]
  · refine iff_of_true ?_ fun h => absurd h hfloat
    intro op
    rw [test_integer hfloat, test_integer hfloat, op.holds_negate]

end Compared

namespace Host

variable {P F : Type} (h : Host P F) (nameA nameB : CStr) (node : UInt16) (s : P)

/-- For what a condition has fetched, opposite operators have opposite outcomes. -/
structure Opposed (c : Compared F) : Prop where
  decided : ∀ op, h.condition op nameA nameB node s = .holds ∨
    h.condition op nameA nameB node s = .fails
  negate : ∀ op, h.condition op.negate nameA nameB node s =
    (h.condition op nameA nameB node s).negate
  exchange : ∀ op nameA' nameB' node' s' c',
    ((h.fetchCompared nameA' nameB' node').run s').value = some c' → c'.a = c.b → c'.b = c.a →
    h.condition op.exchange nameA' nameB' node' s' = h.condition op nameA nameB node s
  clause : ∀ op (ifClause elseClause : Option ProcInstruction),
    (h.condition op.negate nameA nameB node s).clause elseClause ifClause =
      (h.condition op nameA nameB node s).clause ifClause elseClause

variable {h nameA nameB node s} {c : Compared F}

theorem condition_numeric (hfetch : ((h.fetchCompared nameA nameB node).run s).value = some c)
    (hc : c.Numeric) (op : ComparisonOp) :
    h.condition op nameA nameB node s = conditionOf (some (c.test h.fl op)) := by
  rw [condition_eq hfetch]
  cases ha : c.a.type with
  | uint =>
      rw [compareFetched_number _ _ (.inl ha), if_pos hc.class_eq,
        Compared.test_integer (by rw [ha]; decide)]
  | int =>
      rw [compareFetched_number _ _ (.inr ha), if_pos hc.class_eq,
        Compared.test_integer (by rw [ha]; decide)]
  | float => rw [compareFetched_float _ _ ha (hc.class_eq.trans ha), Compared.test_float ha]
  | string => exact absurd ha hc.number

/-- Where the operator and the outcome are negated together. -/
theorem condition_negate_iff {h : Host P ℚ} {c : Compared ℚ} (hexact : h.fl.Exact)
    (hfetch : ((h.fetchCompared nameA nameB node).run s).value = some c) (hc : c.Numeric) :
    (∀ op, h.condition op.negate nameA nameB node s =
      (h.condition op nameA nameB node s).negate) ↔
      (c.a.type = .float → Resolves h.fl.epsilon (c.a.d h.fl) (c.b.d h.fl)) := by
  rw [← Compared.test_negate_iff hexact]
  refine forall_congr' fun op => ?_
  rw [condition_numeric hfetch hc, condition_numeric hfetch hc, ← conditionOf_not,
    conditionOf_inj, Option.some.injEq]

/-- The band in which `<` and `>=` both hold. -/
theorem lt_and_ge_iff {h : Host P ℚ} {c : Compared ℚ} (hexact : h.fl.Exact)
    (hfetch : ((h.fetchCompared nameA nameB node).run s).value = some c) (hc : c.Numeric)
    (hfloat : c.a.type = .float) :
    h.condition .lt nameA nameB node s = .holds ∧ h.condition .ge nameA nameB node s = .holds ↔
      c.a.d h.fl < c.b.d h.fl ∧ c.b.d h.fl < c.a.d h.fl + h.fl.epsilon := by
  rw [condition_numeric hfetch hc, condition_numeric hfetch hc, conditionOf_some_holds,
    conditionOf_some_holds, Compared.test_float hfloat, Compared.test_float hfloat,
    hexact.holdsFloat_iff, hexact.holdsFloat_iff]
  exact lt_and_atMost

theorem Opposed.exists_clause (hopposed : h.Opposed nameA nameB node s c) (op : ComparisonOp)
    (ifClause elseClause : Option ProcInstruction) :
    ∃ clause, (h.condition op nameA nameB node s).clause ifClause elseClause = some clause ∧
      (h.condition op.negate nameA nameB node s).clause elseClause ifClause = some clause := by
  rw [hopposed.clause]
  rcases hopposed.decided op with hholds | hfails
  · rw [hholds]
    exact ⟨ifClause, rfl, rfl⟩
  · rw [hfails]
    exact ⟨elseClause, rfl, rfl⟩

/-- Opposite operators are opposed for all integers, and for two `double`s that
the tolerance resolves. -/
theorem opposed_iff {h : Host P ℚ} {c : Compared ℚ} (hexact : h.fl.Exact)
    (hfetch : ((h.fetchCompared nameA nameB node).run s).value = some c) (hc : c.Numeric) :
    h.Opposed nameA nameB node s c ↔
      (c.a.type = .float → Resolves h.fl.epsilon (c.a.d h.fl) (c.b.d h.fl)) := by
  rw [← condition_negate_iff hexact hfetch hc]
  constructor
  · exact fun hopposed => hopposed.negate
  · intro hnegate
    refine ⟨?_, hnegate, ?_, ?_⟩
    · intro op
      rw [condition_numeric hfetch hc]
      cases c.test h.fl op
      · exact .inr rfl
      · exact .inl rfl
    · -- other names, or another state, but the same operands in the other order
      intro op nameA' nameB' node' s' c' hfetch' ha hb
      have hc' : c'.Numeric := by
        constructor
        · rw [ha, hb, hc.class_eq]
        · rw [ha, hc.class_eq]
          exact hc.number
      rw [condition_numeric hfetch' hc', condition_numeric hfetch hc,
        Compared.test_exchange hexact hc ha hb]
    · intro op ifClause elseClause
      rw [hnegate, Condition.clause_negate]

end Host

theorem one_compared :
    ((hostRational.fetchCompared nameK nameL 0).run (zeroAnd 0x3F800000)).value.isSome = true := by
  decide

theorem floatOfBits_zero : floatOfBits 23 8 0 = 0 := by
  norm_num [floatOfBits]

theorem opposed_one :
    ∃ c, ((hostRational.fetchCompared nameK nameL 0).run (zeroAnd 0x3F800000)).value = some c ∧
      hostRational.Opposed nameK nameL 0 (zeroAnd 0x3F800000) c := by
  refine ⟨_, (Option.some_get one_compared).symm,
    (Host.opposed_iff FloatOps.rational_exact (Option.some_get one_compared).symm
      ⟨rfl, by decide⟩).mpr fun _ => ?_⟩
  show |floatOfBits 23 8 0 - floatOfBits 23 8 0x3F800000| < 1 / 1000000 ↔
    floatOfBits 23 8 0 = floatOfBits 23 8 0x3F800000
  have hone : floatOfBits 23 8 0x3F800000 = 1 := by
    norm_num [floatOfBits, Rat.mkRat_eq_div]
  rw [floatOfBits_zero, hone]
  norm_num

theorem near_compared :
    ((hostRational.fetchCompared nameK nameL 0).run (zeroAnd 0x35000000)).value.isSome = true := by
  decide

/-- 0 is below 2 to the power of -21, and it is found not to be below. -/
theorem near_not_opposed :
    ∃ c, ((hostRational.fetchCompared nameK nameL 0).run (zeroAnd 0x35000000)).value = some c ∧
      hostRational.fl.Exact ∧ c.Numeric ∧
      hostRational.condition .lt nameK nameL 0 (zeroAnd 0x35000000) = .holds ∧
      hostRational.condition .ge nameK nameL 0 (zeroAnd 0x35000000) = .holds ∧
      ¬ hostRational.Opposed nameK nameL 0 (zeroAnd 0x35000000) c := by
  have hnumeric : (Option.get _ near_compared).Numeric := ⟨rfl, by decide⟩
  have hband : floatOfBits 23 8 0 < floatOfBits 23 8 0x35000000 ∧
      floatOfBits 23 8 0x35000000 < floatOfBits 23 8 0 + 1 / 1000000 := by
    norm_num [floatOfBits, Rat.mkRat_eq_div]
  rcases (Host.lt_and_ge_iff FloatOps.rational_exact (Option.some_get near_compared).symm
    hnumeric rfl).mpr hband with ⟨hlt, hge⟩
  refine ⟨_, (Option.some_get near_compared).symm, FloatOps.rational_exact, hnumeric, hlt, hge, ?_⟩
  intro hopposed
  have hnegate := hopposed.negate .lt
  rw [hlt] at hnegate
  rw [show ComparisonOp.lt.negate = .ge from rfl, hge] at hnegate
  cases hnegate

/-- A statement runs the same clause as the one with the opposite operator and
its clauses swapped. -/
theorem RuntimeHost.swapped_clauses {P F T : Type} {h : RuntimeHost P F T} {nameA nameB : CStr}
    {node : UInt16} {c : Compared F} {e : Effects (Session P)}
    (hopposed : h.Opposed nameA nameB node e.params.params c)
    (call : UInt8 → Cmd (Effects (Session P))) (op : ComparisonOp)
    (ifClause elseClause : Option ProcInstruction) :
    let ins : ComparisonOp → ProcInstruction := fun op => ⟨node, .ifelse nameA op.code nameB⟩
    let after := fun op => e.log (ins op) (h.handlers.ifelse (ins op) e.params).2
    ∃ clause,
      Structured.execStmt h.handlers call (.ifelse (ins op) ifClause elseClause) e =
        Structured.execClause h.handlers call clause (after op) ∧
      Structured.execStmt h.handlers call (.ifelse (ins op.negate) elseClause ifClause) e =
        Structured.execClause h.handlers call clause (after op.negate) := by
  intro ins after
  have hvalue : ∀ op, (h.handlers.ifelse (ins op) e.params).1 =
      h.condition op nameA nameB node e.params.params := fun _ => rfl
  rcases hopposed.exists_clause op ifClause elseClause with ⟨clause, hclause, hswapped⟩
  refine ⟨clause, ?_, ?_⟩
  · rw [Structured.execStmt_clause, hvalue, hclause]
  · rw [Structured.execStmt_clause, hvalue, hswapped]

end CspProc
