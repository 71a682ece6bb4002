import CspProc.Analyze
import CspProc.Lib.Heap

/-! # Static analysis in memory

`proc_analyze.c` again, with its memory: an analysis is a block with pointers to
three arrays, each call of the allocator may fail, and indices have 8 bits. The
recursive calls that are made and whether an index has wrapped are recorded.

A result `none` stands for a loop or a recursion that was not followed to its
end, or for behaviour that is not defined.
-/

namespace CspProc

/-! ## Blocks -/

/-- `proc_analysis_t`. -/
structure StoredAnalysis where
  proc : ProcRef
  subAnalyses : Ptr
  subAnalysisCount : Nat
  procedureSlots : Ptr
  procedureSlotCount : Nat
  instructionAnalyses : Ptr
  deallocationMark : Bool
deriving DecidableEq, Repr

/-- What an element of one of the arrays holds. -/
inductive Element where
  | subAnalysis (p : Ptr)
  | slot (s : UInt8)
  | instruction (x : InstructionAnalysis)
deriving DecidableEq, Repr

/-- What a block holds: an analysis that has been allocated only, an analysis, or
an array, in which elements may not have been written yet. -/
inductive AnalysisBlock where
  | fresh
  | analysis (a : StoredAnalysis)
  | array (elements : List (Option Element))
deriving DecidableEq, Repr

/-- The analysis in a block. -/
def analysisAt (heap : Heap AnalysisBlock) (a : Nat) : Option StoredAnalysis :=
  match heap.blocks a with
  | some (.analysis sa) => some sa
  | _ => none

/-- The array behind a pointer. A null pointer is an array without elements. -/
def arrayAt (heap : Heap AnalysisBlock) (p : Ptr) : Option (List (Option Element)) :=
  match p with
  | none => some []
  | some b =>
      match heap.blocks b with
      | some (.array elements) => some elements
      | _ => none

/-- An array after `proc_realloc` to `n` elements. -/
def resize (elements : List (Option Element)) (n : Nat) : List (Option Element) :=
  elements.take n ++ List.replicate (n - elements.length) none

/-- An element is written. -/
def writeElement (heap : Heap AnalysisBlock) (p : Ptr) (i : Nat) (x : Element) :
    Option (Heap AnalysisBlock) := do
  let elements ← arrayAt heap p
  if i < elements.length then heap.store p (.array (elements.set i (some x))) else none

/-- `proc_realloc` of an array to `n` elements. -/
def growArray (alloc : Nat → Bool) (heap : Heap AnalysisBlock) (p : Ptr) (n : Nat) :
    Option (Ptr × Heap AnalysisBlock) := do
  let elements ← arrayAt heap p
  heap.realloc alloc p (.array (resize elements n))

/-! ## Indices -/

/-- `i + k` as a `uint8_t`, and whether it wraps. -/
def addIndex (i : UInt8) (k : Nat) : UInt8 × Bool :=
  (i + UInt8.ofNat k, decide (256 ≤ i.toNat + k))

/-- The heap of the analysis, its `proc_analysis_config_t`, and what is recorded:
the slots of the recursive calls, with their marks when the calls are made, and
whether an index has wrapped. -/
structure Analyzer where
  heap : Heap AnalysisBlock
  analyzedProcs : UInt8 → Bool
  analyses : UInt8 → Ptr
  invocations : List (UInt8 × Bool)
  wrapped : Bool

namespace Analyzer

/-- The loops of `analyze_tail_call`: whether only `noop`s are left, and whether
the index has wrapped. -/
def noopLoop (proc : Proc) : Nat → UInt8 → Bool → Option (Bool × Bool)
  | 0, _, _ => none
  | fuel + 1, j, wrapped =>
      if j < proc.instructionCount then do
        let ins ← proc.instructions[j.toNat]?
        if ins.instruction.isNoop then
          let (j, wraps) := addIndex j 1
          noopLoop proc fuel j (wrapped || wraps)
        else return (false, wrapped)
      else some (true, wrapped)

/-- `analyze_tail_call`. -/
def analyzeTailCall (fuel : Nat) (proc : Proc) (i : UInt8) : Option (Bool × Bool) :=
  if (decide (0 < i) && isIfelseAt proc.instructions (i.toNat - 1)) &&
      decide (i.toNat + 1 < proc.instructionCount.toNat) then
    let (j, wraps) := addIndex i 2
    noopLoop proc fuel j wraps
  else if decide (i = 0) || !isIfelseAt proc.instructions (i.toNat - 1) then
    let (j, wraps) := addIndex i 1
    noopLoop proc fuel j wraps
  else some (true, false)

/-- `analyze_instruction`: the mark of a call. Nothing is done for others. -/
def analyzeInstruction (fuel : Nat) (proc : Proc) (i : UInt8) (ins : ProcInstruction) :
    Option (Bool × Bool) :=
  match ins.instruction with
  | .call _ => analyzeTailCall fuel proc i
  | _ => some (false, false)

variable (alloc : Nat → Bool)

/-! ## Parts of `proc_analyze` -/

/-- The beginning of `proc_analyze`: the fields and the array of the instruction
analyses, and whether there was memory for it. -/
def begin (proc : Proc) (ref : ProcRef) (a : Nat) (m : Analyzer) : Option (Bool × Analyzer) := do
  let zeros := List.replicate proc.instructionCount.toNat
    (some (.instruction .zero) : Option Element)
  let (instructionAnalyses, heap) := m.heap.alloc alloc (.array zeros)
  let heap ← heap.store (some a) (.analysis ⟨ref, none, 0, none, 0, instructionAnalyses, false⟩)
  return (instructionAnalyses.isSome, { m with heap := heap })

/-- An instruction is analysed. -/
def enterInstruction (fuel : Nat) (proc : Proc) (a : Nat) (i : UInt8) (ins : ProcInstruction)
    (m : Analyzer) : Option Analyzer := do
  let sa ← analysisAt m.heap a
  let (isTailCall, wraps) ← analyzeInstruction fuel proc i ins
  let heap ← writeElement m.heap sa.instructionAnalyses i.toNat
    (.instruction ⟨ins.instruction.type, isTailCall⟩)
  return { m with heap := heap, wrapped := m.wrapped || wraps }

/-- The slot of a call is appended to `procedure_slots`, if there is memory. -/
def addSlot (a : Nat) (procedureSlot : UInt8) (m : Analyzer) : Option (Bool × Analyzer) := do
  let sa ← analysisAt m.heap a
  let (procedureSlots, heap) ←
    growArray alloc m.heap sa.procedureSlots (sa.procedureSlotCount + 1)
  if procedureSlots.isNone then
    let heap ← heap.store (some a) (.analysis { sa with procedureSlots := none })
    return (false, { m with heap := heap })
  else
    let heap ← writeElement heap procedureSlots sa.procedureSlotCount (.slot procedureSlot)
    let heap ← heap.store (some a) (.analysis { sa with
      procedureSlots := procedureSlots
      procedureSlotCount := sa.procedureSlotCount + 1 })
    return (true, { m with heap := heap })

/-- `sub_analyses` gets room for one more element, if there is memory. -/
def growSubAnalyses (a : Nat) (m : Analyzer) : Option (Bool × Analyzer) := do
  let sa ← analysisAt m.heap a
  let (subAnalyses, heap) ← growArray alloc m.heap sa.subAnalyses (sa.subAnalysisCount + 1)
  let heap ← heap.store (some a) (.analysis { sa with subAnalyses := subAnalyses })
  return (subAnalyses.isSome, { m with heap := heap })

/-- The analysis of the called procedure is appended to `sub_analyses`. -/
def addSubAnalysis (a : Nat) (subAnalysis : Ptr) (m : Analyzer) : Option Analyzer := do
  let sa ← analysisAt m.heap a
  let heap ← writeElement m.heap sa.subAnalyses sa.subAnalysisCount (.subAnalysis subAnalysis)
  let heap ← heap.store (some a) (.analysis { sa with
    subAnalysisCount := sa.subAnalysisCount + 1 })
  return { m with heap := heap }

/-- The procedure in a slot is marked as analysed, and its analysis is called for. -/
def mark (procedureSlot : UInt8) (subAnalysis : Nat) (m : Analyzer) : Analyzer :=
  { m with
    analyzedProcs := Function.update m.analyzedProcs procedureSlot true
    analyses := Function.update m.analyses procedureSlot (some subAnalysis)
    invocations := m.invocations ++ [(procedureSlot, m.analyzedProcs procedureSlot)] }

/-! ## `proc_analyze` -/

/-- The loop of `proc_analyze` over the instructions from index `i` on. The
recursive call begins with a loop of its own, and its return value is dropped. -/
def analyzeLoop (store : Store) : Nat → Proc → Nat → UInt8 → Analyzer → Option (Int × Analyzer)
  | 0, _, _, _, _ => none
  | fuel + 1, proc, a, i, m =>
      if i < proc.instructionCount then do
        let ins ← proc.instructions[i.toNat]?
        let m ← m.enterInstruction fuel proc a i ins
        let (next, wraps) := addIndex i 1
        match ins.instruction with
        | .call procedureSlot => do
            let (ok, m) ← m.addSlot alloc a procedureSlot
            if ok = false then return (-1, m)
            let (ok, m) ← m.growSubAnalyses alloc a
            if ok = false then return (-1, m)
            match store.getProc true procedureSlot with
            | .found subProc =>
                if m.analyzedProcs procedureSlot then do
                  let m ← m.addSubAnalysis a (m.analyses procedureSlot)
                  analyzeLoop store fuel proc a next { m with wrapped := m.wrapped || wraps }
                else
                  match m.heap.alloc alloc .fresh with
                  | (none, heap) => return (-1, { m with heap := heap })
                  | (some subAnalysis, heap) => do
                      let m := { m with heap := heap }.mark procedureSlot subAnalysis
                      let (ok, m) ← m.begin alloc subProc (.slot procedureSlot) subAnalysis
                      let (_, m) ←
                        if ok then analyzeLoop store fuel subProc subAnalysis 0 m else some (-1, m)
                      let m ← m.addSubAnalysis a (some subAnalysis)
                      analyzeLoop store fuel proc a next { m with wrapped := m.wrapped || wraps }
            | _ => return (-1, m)
        | _ => analyzeLoop store fuel proc a next { m with wrapped := m.wrapped || wraps }
      else some (0, m)

/-- `proc_analyze`. -/
def procAnalyze (store : Store) (fuel : Nat) (proc : Proc) (ref : ProcRef) (a : Nat)
    (m : Analyzer) : Option (Int × Analyzer) := do
  let (ok, m) ← m.begin alloc proc ref a
  if ok then analyzeLoop alloc store fuel proc a 0 m else return (-1, m)

/-- Before the analysis of a run: the root's analysis has been allocated. -/
def init : Analyzer where
  heap := (Heap.empty.alloc (fun _ => true) .fresh).2
  analyzedProcs _ := false
  analyses _ := none
  invocations := []
  wrapped := false

/-- The analysis that a run starts with, in the root's analysis at block 0. -/
def run (store : Store) (fuel : Nat) (proc : Proc) : Option (Int × Analyzer) :=
  procAnalyze alloc store fuel proc .root 0 init

end Analyzer

end CspProc
