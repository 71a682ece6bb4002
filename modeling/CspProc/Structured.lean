import CspProc.Interp

/-! # Structured if/else

Two readings of the instructions of a procedure, over arbitrary handlers and
an arbitrary meaning of calls. `execLoop` is the loop of
`proc_instructions_exec`: it carries a flag along that says what becomes of the
next instruction. `Structured.exec` has no flag: the instructions are read as a
sequence of statements, in which an `ifelse` has the next instruction as its
if-clause and the one after as its else-clause.

`execLoop_eq_structured`: they agree on every procedure that does not use
`ifelse` within the two instructions after another one.
-/

namespace CspProc

variable {S : Type}

/-! ## The loop with its flag -/

/-- The loop of `proc_instructions_exec` over the instructions that are left. -/
def execLoop (h : Handlers S) (call : UInt8 → Cmd (Effects S)) :
    List ProcInstruction → IfElseFlag → Effects S → Int × Effects S
  | [], _, e => (0, e)
  | ins :: rest, flag, e =>
      if flag = .isFalse then execLoop h call rest .isNone e
      else
        match ins.instruction with
        | .call procedureSlot =>
            let (ret, e) := call procedureSlot (e.log ins e.params)
            if ret ≠ 0 then (ret, e) else execLoop h call rest flag.next e
        | _ =>
            let (ret, flag, e) := execHandler h ins flag.next e
            if ret ≠ 0 then (ret, e) else execLoop h call rest flag e

/-- A procedure with every call nested, where `depth` more entries are allowed. -/
def execNested (h : Handlers S) (store : Store) : Nat → Proc → Cmd (Effects S)
  | 0, _ => fun e => (-1, e.refuse)
  | depth + 1, p =>
      execLoop h (fun s => execNested h store depth (store s)) p.instructions .isNone

/-! ## The structured reading -/

/-- A statement: an instruction, or a condition with its two clauses, which
are missing at the end of a procedure. -/
inductive Stmt where
  | plain (ins : ProcInstruction)
  | ifelse (condition : ProcInstruction) (ifClause elseClause : Option ProcInstruction)
deriving DecidableEq, Repr

/-- The statements of a procedure. -/
def Stmt.ofInstructions : List ProcInstruction → List Stmt
  | [] => []
  | [ins] => if ins.instruction.isIfelse then [.ifelse ins none none] else [.plain ins]
  | [ins, a] =>
      if ins.instruction.isIfelse then [.ifelse ins (some a) none]
      else .plain ins :: ofInstructions [a]
  | ins :: a :: b :: rest =>
      if ins.instruction.isIfelse then .ifelse ins (some a) (some b) :: ofInstructions rest
      else .plain ins :: ofInstructions (a :: b :: rest)

namespace Structured

/-- An instruction by itself. -/
def execPlain (h : Handlers S) (call : UInt8 → Cmd (Effects S)) (ins : ProcInstruction) :
    Cmd (Effects S) := fun e =>
  let run (handler : ProcInstruction → S → Int × S) : Int × Effects S :=
    ((handler ins e.params).1, e.log ins (handler ins e.params).2)
  match ins.instruction with
  | .block .. => run h.block
  | .set .. => run h.set
  | .unop .. => run h.unop
  | .binop .. => run h.binop
  | .call s => call s (e.log ins e.params)
  | .noop => (0, e)
  | .ifelse .. | .unknown .. => (-1, e.log ins e.params)

/-- A clause, which does nothing when it is missing. -/
def execClause (h : Handlers S) (call : UInt8 → Cmd (Effects S)) :
    Option ProcInstruction → Cmd (Effects S)
  | none => Cmd.skip
  | some ins => execPlain h call ins

/-- A statement. A condition that cannot be evaluated has its flag as its code. -/
def execStmt (h : Handlers S) (call : UInt8 → Cmd (Effects S)) : Stmt → Cmd (Effects S)
  | .plain ins => execPlain h call ins
  | .ifelse condition ifClause elseClause => fun e =>
      let e' := e.log condition (h.ifelse condition e.params).2
      match (h.ifelse condition e.params).1 with
      | .holds => execClause h call ifClause e'
      | .fails => execClause h call elseClause e'
      | .err => (IfElseFlag.err.code, e')
      | .errType => (IfElseFlag.errType.code, e')

/-- The statements in order, up to the first code other than 0. -/
def exec (h : Handlers S) (call : UInt8 → Cmd (Effects S)) (l : List ProcInstruction) :
    Cmd (Effects S) :=
  Cmd.block ((Stmt.ofInstructions l).map (execStmt h call))

end Structured

/-- Induction over the statements of a procedure. -/
theorem statements_induction {P : List ProcInstruction → Prop} (nil : P [])
    (plain : ∀ ins l, ins.instruction.isIfelse = false → P l → P (ins :: l))
    (ifelse : ∀ ins l, ins.instruction.isIfelse = true → P (l.drop 2) → P (ins :: l)) :
    ∀ l, P l
  | [] => nil
  | ins :: l =>
      match hif : ins.instruction.isIfelse with
      | false => plain ins l hif (statements_induction nil plain ifelse l)
      | true => ifelse ins l hif (statements_induction nil plain ifelse (l.drop 2))
termination_by l => l.length
decreasing_by all_goals simp_wf; try omega

/-! ## The restriction on `ifelse` -/

/-- No `ifelse` within the two instructions that follow another one. -/
def Restricted (l : List ProcInstruction) : Prop :=
  ∀ i < l.length, isIfelseAt l i = true →
    isIfelseAt l (i + 1) = false ∧ isIfelseAt l (i + 2) = false

instance (l : List ProcInstruction) : Decidable (Restricted l) :=
  inferInstanceAs (Decidable (∀ i < l.length, _))

namespace Restricted

variable {ins a b : ProcInstruction} {l : List ProcInstruction}

theorem tail (h : Restricted (ins :: l)) : Restricted l := by
  intro i hi hif
  have hlt : i + 1 < (ins :: l).length := Nat.succ_lt_succ hi
  exact h (i + 1) hlt hif

theorem drop (h : Restricted l) (n : Nat) : Restricted (l.drop n) := by
  induction n generalizing l with
  | zero => exact h
  | succ n ih =>
      cases l with
      | nil => exact h
      | cons ins l => exact ih h.tail

/-- The clauses of an `ifelse` are no `ifelse` themselves. -/
theorem clause (h : Restricted (ins :: a :: l)) (hif : ins.instruction.isIfelse = true) :
    a.instruction.isIfelse = false :=
  (h 0 (Nat.succ_pos _) hif).1

theorem second_clause (h : Restricted (ins :: a :: b :: l))
    (hif : ins.instruction.isIfelse = true) : b.instruction.isIfelse = false :=
  (h 0 (Nat.succ_pos _) hif).2

end Restricted

/-! ## Agreement -/

section Agreement

variable (h : Handlers S) (call : UInt8 → Cmd (Effects S))

/-- A skipped instruction. -/
theorem execLoop_skip (ins : ProcInstruction) (rest : List ProcInstruction) :
    execLoop h call (ins :: rest) .isFalse = execLoop h call rest .isNone := by
  funext e
  rw [execLoop, if_pos rfl]

/-- An instruction other than `ifelse` is executed by itself, and then the rest
with the flag that it was executed with. -/
theorem execLoop_plain {ins : ProcInstruction} (hif : ins.instruction.isIfelse = false)
    {flag : IfElseFlag} (hflag : flag ≠ .isFalse) (rest : List ProcInstruction) :
    execLoop h call (ins :: rest) flag =
      Cmd.seq (Structured.execPlain h call ins) (execLoop h call rest flag.next) := by
  funext e
  rw [execLoop, if_neg hflag]
  unfold Cmd.seq Structured.execPlain execHandler
  cases hins : ins.instruction with
  | ifelse => simp [hins, Instruction.isIfelse] at hif
  | _ => simp only [ne_eq, ite_not]

/-- An `ifelse`, by the outcome of its condition. -/
theorem execLoop_ifelse {ins : ProcInstruction} (hif : ins.instruction.isIfelse = true)
    {flag : IfElseFlag} (hflag : flag ≠ .isFalse) (rest : List ProcInstruction)
    (e : Effects S) :
    execLoop h call (ins :: rest) flag e =
      match (h.ifelse ins e.params).1 with
      | .holds => execLoop h call rest .isTrue (e.log ins (h.ifelse ins e.params).2)
      | .fails => execLoop h call rest .isFalse (e.log ins (h.ifelse ins e.params).2)
      | .err => (IfElseFlag.err.code, e.log ins (h.ifelse ins e.params).2)
      | .errType => (IfElseFlag.errType.code, e.log ins (h.ifelse ins e.params).2) := by
  rw [execLoop, if_neg hflag]
  unfold execHandler
  cases hins : ins.instruction with
  | ifelse =>
      simp only
      cases (h.ifelse ins e.params).1 <;> rfl
  | _ => simp [hins, Instruction.isIfelse] at hif

/-- In the structured reading, the first instruction by itself and then the rest. -/
theorem Structured.exec_plain {ins : ProcInstruction} (hif : ins.instruction.isIfelse = false)
    (l : List ProcInstruction) :
    Structured.exec h call (ins :: l) =
      Cmd.seq (Structured.execPlain h call ins) (Structured.exec h call l) := by
  rcases l with _ | ⟨a, _ | ⟨b, rest⟩⟩ <;>
    simp [Structured.exec, Stmt.ofInstructions, hif, Cmd.block_cons, Structured.execStmt]

/-- In the structured reading, a condition takes the two instructions after it
as its clauses. -/
theorem Structured.exec_ifelse {ins : ProcInstruction} (hif : ins.instruction.isIfelse = true)
    (l : List ProcInstruction) :
    Structured.exec h call (ins :: l) =
      Cmd.seq (Structured.execStmt h call (.ifelse ins l[0]? l[1]?))
        (Structured.exec h call (l.drop 2)) := by
  rcases l with _ | ⟨a, _ | ⟨b, rest⟩⟩ <;>
    simp [Structured.exec, Stmt.ofInstructions, hif, Cmd.block_cons]

/-- The loop executes a condition as one statement: a clause is executed or
skipped as a whole, and the flag is clear again afterwards. -/
theorem execLoop_statement {ins : ProcInstruction} (hif : ins.instruction.isIfelse = true)
    {l : List ProcInstruction} (hr : Restricted (ins :: l)) :
    execLoop h call (ins :: l) .isNone =
      Cmd.seq (Structured.execStmt h call (.ifelse ins l[0]? l[1]?))
        (execLoop h call (l.drop 2) .isNone) := by
  have hnone : IfElseFlag.isNone ≠ .isFalse := by decide
  have htrue : IfElseFlag.isTrue ≠ .isFalse := by decide
  funext e
  rw [execLoop_ifelse h call hif hnone]
  cases hc : (h.ifelse ins e.params).1 <;> simp only [Cmd.seq, Structured.execStmt, hc]
  case err => rfl
  case errType => rfl
  case holds =>
      -- the if-clause is executed with a flag that skips the instruction after it
      rcases l with _ | ⟨a, l⟩
      · rfl
      · have ha := hr.clause hif
        rw [execLoop_plain h call ha htrue]
        rcases l with _ | ⟨b, rest⟩
        · rfl
        · rw [IfElseFlag.next, execLoop_skip]
          rfl
  case fails =>
      -- the if-clause is skipped, and the else-clause executed with a clear flag
      rcases l with _ | ⟨a, _ | ⟨b, rest⟩⟩
      · rfl
      · rfl
      · have hb := hr.second_clause hif
        rw [execLoop_skip, execLoop_plain h call hb hnone]
        rfl

/-- The loop executes just the statements of a restricted procedure. -/
theorem execLoop_eq_structured (l : List ProcInstruction) (hr : Restricted l) :
    execLoop h call l .isNone = Structured.exec h call l := by
  have hnone : IfElseFlag.isNone ≠ .isFalse := by decide
  induction l using statements_induction with
  | nil => rfl
  | plain ins l hif ih =>
      rw [execLoop_plain h call hif hnone, Structured.exec_plain h call hif, ← ih hr.tail]
      rfl
  | ifelse ins l hif ih =>
      rw [execLoop_statement h call hif hr, Structured.exec_ifelse h call hif, ih (hr.drop 3)]

end Agreement

end CspProc
