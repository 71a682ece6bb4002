import CspProc.Store

/-! # Static analysis of a procedure

`proc_analyze.c`: for a procedure and, recursively, for every procedure it
calls, one `proc_analysis_t` is built. It records which calls are tail calls
and, for the calls in order, the slot and the callee's analysis.

Pointers to procedures are `ProcRef`, pointers to analyses are numbers, and
the analyses themselves stand in an explicit heap. Allocations and the store's
mutex succeed here.
-/

namespace CspProc

/-! ## The data of an analysis -/

/-- A `proc_t *` of a run: its own copy of the procedure it was started with,
or an element of the store. -/
inductive ProcRef where
  | root
  | slot (slot : UInt8)
deriving DecidableEq, Repr

/-- What a `proc_t *` points to. -/
def ProcRef.deref (root : Proc) (store : Store) : ProcRef → Proc
  | .root => root
  | .slot s => store s

/-- `proc_instruction_analysis_t`. -/
structure InstructionAnalysis where
  type : UInt32
  isTailCall : Bool
deriving DecidableEq, Repr

/-- What `proc_calloc` leaves in it. -/
def InstructionAnalysis.zero : InstructionAnalysis := ⟨0, false⟩

/-- `proc_analysis_t`. The two counts are the lengths of their lists. -/
structure Analysis where
  proc : ProcRef
  subAnalyses : List Nat
  procedureSlots : List UInt8
  instructionAnalyses : List InstructionAnalysis
deriving DecidableEq, Repr

namespace Analysis

/-- `instruction_analyses[i] = x`. -/
def setInstruction (a : Analysis) (i : Nat) (x : InstructionAnalysis) : Analysis :=
  { a with instructionAnalyses := a.instructionAnalyses.set i x }

/-- Append to `procedure_slots`. -/
def addSlot (a : Analysis) (slot : UInt8) : Analysis :=
  { a with procedureSlots := a.procedureSlots ++ [slot] }

/-- Append to `sub_analyses`. -/
def addSub (a : Analysis) (sub : Nat) : Analysis :=
  { a with subAnalyses := a.subAnalyses ++ [sub] }

end Analysis

/-- The heap of analyses, in which the numbers below `next` are allocated, and
the `analyses` of the `proc_analysis_config_t`. `analyzed_procs` is set
together with them and says which are set. -/
structure AnalysisState where
  node : Nat → Analysis
  next : Nat
  analyses : UInt8 → Option Nat

namespace AnalysisState

/-- Change the analysis `id`. -/
def modify (st : AnalysisState) (id : Nat) (f : Analysis → Analysis) : AnalysisState :=
  { st with node := Function.update st.node id (f (st.node id)) }

/-- Allocate an analysis and enter it for a slot. -/
def mark (st : AnalysisState) (slot : UInt8) : AnalysisState :=
  { st with next := st.next + 1, analyses := Function.update st.analyses slot (some st.next) }

@[simp] theorem modify_next (st : AnalysisState) (id : Nat) (f : Analysis → Analysis) :
    (st.modify id f).next = st.next := rfl

@[simp] theorem modify_analyses (st : AnalysisState) (id : Nat) (f : Analysis → Analysis) :
    (st.modify id f).analyses = st.analyses := rfl

@[simp] theorem modify_node_self (st : AnalysisState) (id : Nat) (f : Analysis → Analysis) :
    (st.modify id f).node id = f (st.node id) := by
  simp [modify]

theorem modify_node_of_ne (st : AnalysisState) {id a : Nat} (f : Analysis → Analysis)
    (h : a ≠ id) : (st.modify id f).node a = st.node a := by
  simp [modify, h]

@[simp] theorem mark_node (st : AnalysisState) (slot : UInt8) :
    (st.mark slot).node = st.node := rfl

@[simp] theorem mark_next (st : AnalysisState) (slot : UInt8) :
    (st.mark slot).next = st.next + 1 := rfl

end AnalysisState

/-! ## Tail calls -/

/-- The instruction at index `i` is an `ifelse`. -/
def isIfelseAt (l : List ProcInstruction) (i : Nat) : Bool :=
  (l[i]?.map fun ins => ins.instruction.isIfelse).getD false

/-- `analyze_tail_call`, for the call at index `i`. The two loops start at
`i + 2` and at `i + 1`, which an 8-bit index holds when they are reached. -/
def analyzeTailCall (l : List ProcInstruction) (i : Nat) : Bool :=
  if (decide (0 < i) && isIfelseAt l (i - 1)) && decide (i + 1 < l.length) then
    (l.drop (i + 2)).all fun ins => ins.instruction.isNoop
  else if decide (i = 0) || !isIfelseAt l (i - 1) then
    (l.drop (i + 1)).all fun ins => ins.instruction.isNoop
  else true

/-- What `analyze_instruction` and its caller enter for the instruction at
index `i`. Only a call is looked at closer. -/
def analyzeInstruction (l : List ProcInstruction) (i : Nat) (ins : ProcInstruction) :
    InstructionAnalysis :=
  match ins.instruction with
  | .call _ => ⟨ins.instruction.type, analyzeTailCall l i⟩
  | _ => ⟨ins.instruction.type, false⟩

/-! ## `proc_analyze` -/

/-- The loop of `proc_analyze` over the instructions from index `i` on, for
the procedure with the instructions `l` and the analysis `id`. `recur` is the
recursive call; its return value is not looked at. -/
def analyzeInstructions (store : Store) (l : List ProcInstruction) (id : Nat)
    (recur : Proc → ProcRef → Nat → AnalysisState → Option (Int × AnalysisState)) :
    List ProcInstruction → Nat → AnalysisState → Option (Int × AnalysisState)
  | [], _, st => some (0, st)
  | ins :: rest, i, st =>
      let st := st.modify id fun a => a.setInstruction i (analyzeInstruction l i ins)
      match ins.instruction with
      | .call procedureSlot =>
          let st := st.modify id fun a => a.addSlot procedureSlot
          match store.getProc true procedureSlot with
          | .found subProc =>
              match st.analyses procedureSlot with
              | some subAnalysis =>
                  let st := st.modify id fun a => a.addSub subAnalysis
                  analyzeInstructions store l id recur rest (i + 1) st
              | none => do
                  let subAnalysis := st.next
                  let (_, st) ←
                    recur subProc (.slot procedureSlot) subAnalysis (st.mark procedureSlot)
                  let st := st.modify id fun a => a.addSub subAnalysis
                  analyzeInstructions store l id recur rest (i + 1) st
          | _ => some (-1, st)
      | _ => analyzeInstructions store l id recur rest (i + 1) st

/-- `proc_analyze`. The first argument bounds the depth of the recursion; there
is no result when it runs out. -/
def procAnalyze (store : Store) :
    Nat → Proc → ProcRef → Nat → AnalysisState → Option (Int × AnalysisState)
  | 0, _, _, _, _ => none
  | depth + 1, proc, ref, id, st =>
      let st := st.modify id fun _ =>
        ⟨ref, [], [], List.replicate proc.instructions.length .zero⟩
      analyzeInstructions store proc.instructions id (procAnalyze store depth) proc.instructions
        0 st

/-- The heap before an analysis: nothing but the root's, at number 0, and a
fresh configuration. -/
def AnalysisState.init : AnalysisState :=
  ⟨fun _ => ⟨.root, [], [], []⟩, 1, fun _ => none⟩

/-- The analysis that a run starts with. Every recursive call marks a slot, so
a depth of one more than the number of slots is enough. -/
def runAnalysis (store : Store) (proc : Proc) : Option (Int × AnalysisState) :=
  procAnalyze store (maxProcSlot + 2) proc .root 0 .init

end CspProc
