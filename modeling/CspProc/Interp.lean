import CspProc.Analyze
import CspProc.Lib.Command

/-! # The interpreter

`proc_instructions_exec` and `proc_runtime_call`, as a machine that takes one
pass of the instruction loop, one entry or one return per step. The C stack is
a list of frames; each has the local variables of one call of
`proc_instructions_exec`.

What the instructions do to parameters is left to `Handlers`, over an arbitrary
type of parameter states. The same machine runs with tail calls as the code has
them and, for comparison, with every call nested (`reuseFrames`).
-/

namespace CspProc

/-! ## Handlers -/

/-- `if_else_flag_t`. -/
inductive IfElseFlag where
  | isTrue
  | isFalse
  | isNone
  | err
  | errType
deriving DecidableEq, Repr

/-- The enumerators' values. -/
def IfElseFlag.code : IfElseFlag → Int
  | isTrue => 1
  | isFalse => 0
  | isNone => -1
  | err => -2
  | errType => -3

/-- The flag with which an instruction is executed. -/
def IfElseFlag.next : IfElseFlag → IfElseFlag
  | isTrue => isFalse
  | flag => flag

/-- What `proc_runtime_ifelse` can return: it never returns
`IF_ELSE_FLAG_NONE`. -/
inductive Condition where
  | holds
  | fails
  | err
  | errType
deriving DecidableEq, Repr

def Condition.flag : Condition → IfElseFlag
  | holds => .isTrue
  | fails => .isFalse
  | err => .err
  | errType => .errType

/-- The handlers of the instructions: a result code, or the outcome of a
condition, and the parameters afterwards. -/
structure Handlers (S : Type) where
  block : ProcInstruction → S → Int × S
  ifelse : ProcInstruction → S → Condition × S
  set : ProcInstruction → S → Int × S
  unop : ProcInstruction → S → Int × S
  binop : ProcInstruction → S → Int × S

/-! ## States -/

/-- The local variables of a call of `proc_instructions_exec`. -/
structure Frame where
  proc : ProcRef
  analysis : Nat
  i : Nat
  flag : IfElseFlag
  recursionDepth : Nat
deriving DecidableEq, Repr

/-- Where the interpreter is: in the loop of a frame, on its way out of a frame
with a return value, or outside its defined behaviour. The callers are the
frames below, the innermost first. -/
inductive Control where
  | exec (frame : Frame) (callers : List Frame)
  | returning (ret : Int) (callers : List Frame)
  | fault
deriving DecidableEq, Repr

/-- What a run has done so far: the parameters, the executed instructions other
than `noop`, and whether a call was refused for its depth. -/
structure Effects (S : Type) where
  params : S
  trace : List ProcInstruction
  limitReached : Bool

/-- A run: the control state, the depth stored for the thread, and the effects. -/
structure RunState (S : Type) where
  control : Control
  depth : Nat
  effects : Effects S

/-- What a run works on: the procedures behind the pointers, the analyses, the
handlers and `MAX_PROC_RECURSION_DEPTH`. Without `reuseFrames` every call is
nested, whatever its analysis says. -/
structure Interp (S : Type) where
  code : ProcRef → Proc
  node : Nat → Analysis
  handlers : Handlers S
  maxDepth : Nat
  reuseFrames : Bool

namespace Effects

variable {S : Type}

/-- An executed instruction, with the parameters it leaves. -/
def log (e : Effects S) (ins : ProcInstruction) (params : S) : Effects S :=
  { e with params := params, trace := e.trace ++ [ins] }

/-- A call was refused for its depth. -/
def refuse (e : Effects S) : Effects S := { e with limitReached := true }

end Effects

/-- The `switch` over the type of an instruction that is not skipped, calls
excepted: the result code, the flag and the effects. -/
def execHandler {S : Type} (h : Handlers S) (ins : ProcInstruction) (flag : IfElseFlag)
    (e : Effects S) : Int × IfElseFlag × Effects S :=
  let run (handler : ProcInstruction → S → Int × S) : Int × IfElseFlag × Effects S :=
    let (ret, params) := handler ins e.params
    (ret, flag, e.log ins params)
  match ins.instruction with
  | .block .. => run h.block
  | .ifelse .. =>
      let (condition, params) := h.ifelse ins e.params
      let flag := condition.flag
      let ret := if flag.code ≤ IfElseFlag.err.code then flag.code else 0
      (ret, flag, e.log ins params)
  | .set .. => run h.set
  | .unop .. => run h.unop
  | .binop .. => run h.binop
  | .call _ => (0, flag, e)
  | .noop => (0, flag, e)
  | .unknown .. => (-1, flag, e.log ins e.params)

namespace Interp

variable {S : Type} (m : Interp S)

/-! ## Steps -/

/-- The entry of `proc_instructions_exec`. -/
def enter (proc : ProcRef) (analysis : Nat) (callers : List Frame) (st : RunState S) :
    RunState S :=
  if st.depth > m.maxDepth then
    { st with control := .returning (-1) callers, effects := st.effects.refuse }
  else
    { st with
      control := .exec ⟨proc, analysis, 0, .isNone, st.depth⟩ callers
      depth := st.depth + 1 }

/-- The end of a pass of the loop: a result code other than 0 is returned. -/
def endPass (ret : Int) (frame : Frame) (callers : List Frame) (st : RunState S) : RunState S :=
  if ret ≠ 0 then
    { st with control := .returning ret callers, depth := frame.recursionDepth }
  else { st with control := .exec { frame with i := frame.i + 1 } callers }

/-- The search of `proc_runtime_call`: the first entry for the slot. -/
def findSlot (analysis : Analysis) (procedureSlot : UInt8) : Option Nat :=
  analysis.procedureSlots.findIdx? fun s => s = procedureSlot

/-- `proc_runtime_call`, and the end of the pass it is called from. An entry of
`sub_analyses` that was not filled in, and an index past the instruction
analyses, lead out of the defined behaviour. -/
def procRuntimeCall (procedureSlot : UInt8) (frame : Frame) (callers : List Frame)
    (st : RunState S) : RunState S :=
  let analysis := m.node frame.analysis
  match findSlot analysis procedureSlot with
  | none => endPass (-1) frame callers st
  | some analysisIndex =>
      match analysis.instructionAnalyses[frame.i]?, analysis.subAnalyses[analysisIndex]? with
      | some instructionAnalysis, some sub =>
          if instructionAnalysis.isTailCall && m.reuseFrames then
            { st with
              control := .exec
                { frame with proc := (m.node sub).proc, analysis := sub, i := 0, flag := .isNone }
                callers }
          else m.enter (m.node sub).proc sub (frame :: callers) st
      | _, _ => { st with control := .fault }

/-- A pass of the loop with an instruction that is not skipped. -/
def execInstruction (ins : ProcInstruction) (frame : Frame) (callers : List Frame)
    (st : RunState S) : RunState S :=
  match ins.instruction with
  | .call procedureSlot =>
      m.procRuntimeCall procedureSlot frame callers
        { st with effects := st.effects.log ins st.effects.params }
  | _ =>
      let (ret, flag, effects) := execHandler m.handlers ins frame.flag st.effects
      endPass ret { frame with flag := flag } callers { st with effects := effects }

/-- One step. -/
def step (st : RunState S) : RunState S :=
  match st.control with
  | .fault | .returning _ [] => st
  | .returning ret (caller :: callers) => endPass ret caller callers st
  | .exec frame callers =>
      match (m.code frame.proc).instructions[frame.i]? with
      | none => { st with control := .returning 0 callers, depth := frame.recursionDepth }
      | some ins =>
          match frame.flag with
          | .isFalse =>
              { st with control := .exec { frame with i := frame.i + 1, flag := .isNone } callers }
          | .isTrue => m.execInstruction ins { frame with flag := .isFalse } callers st
          | _ => m.execInstruction ins frame callers st

/-- Any number of steps. -/
def steps (n : Nat) (st : RunState S) : RunState S := m.step^[n] st

/-- The state in which `runtime_thread` calls `proc_instructions_exec`, with the
analysis of its procedure at number 0. -/
def start (params : S) : RunState S :=
  m.enter .root 0 [] ⟨.returning 0 [], 0, params, [], false⟩

end Interp

/-- The interpreter of a run on a store that does not change. -/
def Interp.frozen {S : Type} (store : Store) (p : Proc) (st : AnalysisState)
    (handlers : Handlers S) (maxDepth : Nat) (reuseFrames : Bool) : Interp S :=
  ⟨fun ref => ref.deref p store, st.node, handlers, maxDepth, reuseFrames⟩

/-- `runtime_thread` up to its call of `proc_instructions_exec`: without a
result when the analysis fails and the thread ends there. -/
def runtimeThread {S : Type} (store : Store) (p : Proc) (handlers : Handlers S) (maxDepth : Nat) :
    Option (Interp S) := do
  let (ret, st) ← runAnalysis store p
  if ret ≠ 0 then none else some (.frozen store p st handlers maxDepth true)

variable {S : Type}

/-! ## The end of a frame, and passes of its loop -/

/-- The state after a frame has returned a code to its callers. -/
def RunState.returned (callers : List Frame) (d : Nat) (out : Int × Effects S) : RunState S :=
  ⟨.returning out.1 callers, d, out.2⟩

namespace Interp

variable (m : Interp S) {f : Frame} {callers : List Frame} {d : Nat} {e : Effects S}
variable {ins : ProcInstruction}

theorem steps_succ (n : Nat) (st : RunState S) : m.steps (n + 1) st = m.step (m.steps n st) :=
  Function.iterate_succ_apply' m.step n st

theorem step_end (hins : (m.code f.proc).instructions[f.i]? = none) :
    m.step ⟨.exec f callers, d, e⟩ = ⟨.returning 0 callers, f.recursionDepth, e⟩ := by
  simp only [step, hins]

theorem step_skip (hins : (m.code f.proc).instructions[f.i]? = some ins)
    (hflag : f.flag = .isFalse) :
    m.step ⟨.exec f callers, d, e⟩ =
      ⟨.exec { f with i := f.i + 1, flag := .isNone } callers, d, e⟩ := by
  simp only [step, hins, hflag]

theorem step_instruction (hins : (m.code f.proc).instructions[f.i]? = some ins)
    (hflag : f.flag ≠ .isFalse) :
    m.step ⟨.exec f callers, d, e⟩ =
      m.execInstruction ins { f with flag := f.flag.next } callers ⟨.exec f callers, d, e⟩ := by
  rcases f with ⟨proc, analysis, i, flag, recursionDepth⟩
  simp only [step, hins]
  cases flag with
  | isFalse => exact absurd rfl hflag
  | _ => rfl

theorem endPass_zero (st : RunState S) :
    endPass 0 f callers st = { st with control := .exec { f with i := f.i + 1 } callers } :=
  rfl

theorem endPass_ne_zero {ret : Int} (h : ret ≠ 0) (st : RunState S) :
    endPass ret f callers st =
      { st with control := .returning ret callers, depth := f.recursionDepth } := if_pos h

/-- Only a call is not left to a handler. -/
theorem execInstruction_handler (h : ins.instruction.callSlot = none) (st : RunState S) :
    m.execInstruction ins f callers st =
      endPass (execHandler m.handlers ins f.flag st.effects).1
        { f with flag := (execHandler m.handlers ins f.flag st.effects).2.1 } callers
        { st with effects := (execHandler m.handlers ins f.flag st.effects).2.2 } := by
  unfold execInstruction
  cases hins : ins.instruction with
  | call s => simp [hins, Instruction.callSlot] at h
  | _ => rfl

theorem execInstruction_call {s : UInt8} (h : ins.instruction = .call s) (st : RunState S) :
    m.execInstruction ins f callers st =
      m.procRuntimeCall s f callers
        { st with effects := st.effects.log ins st.effects.params } := by
  simp only [execInstruction, h]

/-- A caller goes on with the code that it is given. -/
theorem step_returned (out : Int × Effects S) (c : Control) :
    m.step (.returned (f :: callers) d out) = endPass out.1 f callers ⟨c, d, out.2⟩ := rfl

theorem enter_of_le (ref : ProcRef) (a : Nat) (c : Control) (h : d ≤ m.maxDepth) :
    m.enter ref a callers ⟨c, d, e⟩ = ⟨.exec ⟨ref, a, 0, .isNone, d⟩ callers, d + 1, e⟩ := by
  simp [enter, Nat.not_lt.mpr h]

theorem enter_of_gt (ref : ProcRef) (a : Nat) (c : Control) (h : m.maxDepth < d) :
    m.enter ref a callers ⟨c, d, e⟩ = ⟨.returning (-1) callers, d, e.refuse⟩ := by
  simp [enter, h]

end Interp

end CspProc
