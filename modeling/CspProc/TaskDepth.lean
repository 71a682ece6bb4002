import CspProc.Depth
import CspProc.TailCall

/-! # The recursion depth of a task

`proc_instructions_exec` of the FreeRTOS runtime, in one task. The depth is a
pointer in the task's own storage, under an index that is fixed when the code is
built, and it is cast to an `int` and back.

The task is recorded like a thread (`RuntimeThread`), with the index in place of
the key. The instructions may do something else in every step: their handlers
are the inputs of a run.

* `TaskOk.next` — a step keeps the count, whatever the instructions do;
* `TaskOk.next_tailCall`, `TaskOk.chained` — tail calls stay in their frame;
* `depth_disciplined` — the discipline of the depth in every reachable state.
-/

namespace CspProc

variable {S : Type}

/-! ## Tasks -/

/-- `INT_MAX`. -/
def intMax : Nat := 2 ^ 31 - 1

/-- `TASK_STORAGE_RECURSION_DEPTH_INDEX` and `MAX_PROC_RECURSION_DEPTH`. -/
structure TaskLimits where
  recursionDepthIndex : Nat
  maxProcRecursionDepth : Nat

/-- `recursion_depth`, from the pointer in the task's storage. The limit is an
unsigned constant, so it is compared as an unsigned number. -/
def recursionDepthOf (pointer : Nat) : Nat := (cInt pointer % 2 ^ 32).toNat

/-- What has been written as an `int` is read back. -/
theorem recursionDepthOf_of_le {d : Nat} (h : d ≤ intMax) : recursionDepthOf d = d := by
  unfold intMax at h
  unfold recursionDepthOf
  rw [cInt_of_lt (by omega) (by omega)]
  omega

namespace RuntimeThread

variable (limits : TaskLimits) (code : ProcRef → Proc) (params : S)

/-- The interpreter of a step in which the instructions do what `handlers` say. -/
def interp (task : RuntimeThread S) (handlers : Handlers S) : Interp S :=
  ⟨code, task.node, handlers, limits.maxProcRecursionDepth, true⟩

/-- The run after one more step, the first of which is the task's own call of
`proc_instructions_exec`. -/
def stepTask (task : RuntimeThread S) (handlers : Handlers S) : RunState S :=
  let m := task.interp limits code handlers
  let recursionDepth := recursionDepthOf (task.specific limits.recursionDepthIndex)
  match task.run with
  | none => m.enter .root 0 [] ⟨.returning 0 [], recursionDepth, ⟨params, [], false⟩⟩
  | some st => m.step { st with depth := recursionDepth }

/-- One step of a task. It is undefined where `recursion_depth + 1` overflows. -/
def nextTask (task : RuntimeThread S) (handlers : Handlers S) : Option (RuntimeThread S) :=
  let st := task.stepTask limits code params handlers
  if st.depth ≤ intMax then some (task.stepped limits.recursionDepthIndex st) else none

/-- A new task, after its analysis. All pointers in its storage are `NULL`. -/
def newTask (node : Nat → Analysis) : RuntimeThread S := ⟨node, fun _ => 0, none, [], []⟩

/-- The mark of the call that the next step executes, if it executes one. -/
def callMark (task : RuntimeThread S) : Option Bool :=
  match task.control with
  | .exec frame _ =>
      if frame.flag = .isFalse then none
      else do
        let ins ← (code frame.proc).instructions[frame.i]?
        let _ ← ins.instruction.callSlot
        let instructionAnalysis ← (task.node frame.analysis).instructionAnalyses[frame.i]?
        return instructionAnalysis.isTailCall
  | .returning .. | .fault => none

/-- The task is in the loop of a frame. -/
def InFrame (task : RuntimeThread S) : Prop :=
  ∃ frame callers, task.control = .exec frame callers

/-- The next step leads neither back to a frame nor into a new one: the task is
in the loop of a frame, and if it is at a call, at a tail call. -/
def KeepsFrame (task : RuntimeThread S) : Prop := task.InFrame ∧ task.callMark code ≠ some false

end RuntimeThread

open RuntimeThread

/-- The discipline of the depth in a state: it counts the frames, within the
limit, and is what each frame found when the frame is left; a step can always
be taken, tail calls change nothing, however many follow each other. -/
structure DepthDisciplined (limits : TaskLimits) (code : ProcRef → Proc) (params : S)
    (task : RuntimeThread S) : Prop where
  ne_fault : task.control ≠ .fault
  counted : task.specific limits.recursionDepthIndex = task.frames
  frames_le : task.frames ≤ limits.maxProcRecursionDepth + 1
  recorded : task.found.length = task.frames
  left_as_found : ∀ visit ∈ task.left, visit.2 = visit.1
  defined : ∀ handlers, ∃ task', nextTask limits code params task handlers = some task'
  unchanged : ∀ handlers task', nextTask limits code params task handlers = some task' →
    task'.frames = task.frames → task'.specific = task.specific
  tailCall : ∀ handlers task', nextTask limits code params task handlers = some task' →
    task.callMark code = some true →
    task'.frames = task.frames ∧ task'.specific = task.specific ∧ task'.left = task.left
  chained : ∀ inputs task',
    Reaches (nextTask limits code params) (fun t _ => t.KeepsFrame code) task inputs task' →
    task'.InFrame →
    task'.frames = task.frames ∧ task'.specific = task.specific ∧ task'.left = task.left

/-- All calls of a procedure, and of those that it calls transitively, are tail
calls. -/
def OnlyTailCalls (store : Store) (p : Proc) : Prop :=
  ∀ ref : ProcRef, (ref = .root ∨ ∃ s, ref = .slot s ∧ ReachableSlot store p s) →
    ∀ (i : Nat) (ins : ProcInstruction) (s : UInt8),
      (ref.deref p store).instructions[i]? = some ins → ins.instruction = .call s →
      analyzeTailCall (ref.deref p store).instructions i = true

/-- No call of `proc_instructions_exec` was refused for its depth. -/
def RuntimeThread.NeverRefused (task : RuntimeThread S) : Prop :=
  ∀ st, task.run = some st → st.effects.limitReached = false

/-! ## Steps on a call graph -/

section Steps

variable {store : Store} {p : Proc} {st : AnalysisState} {m : Interp S}

/-- A tail call goes on in its frame. -/
theorem OnGraph.step_tailCall (h : OnGraph store p st m) (hreuse : m.reuseFrames = true)
    {r : RunState S} {f : Frame} {callers : List Frame} (hr : r.control = .exec f callers)
    (hf : AnalysedAs st f.proc f.analysis) (hflag : f.flag ≠ .isFalse) {ins : ProcInstruction}
    {s : UInt8} (hins : (m.code f.proc).instructions[f.i]? = some ins)
    (hcall : ins.instruction = .call s)
    (htail : analyzeTailCall (m.code f.proc).instructions f.i = true) :
    (∃ f', (m.step r).control = .exec f' callers) ∧
      (m.step r).effects.limitReached = r.effects.limitReached := by
  rcases r with ⟨control, d, e⟩
  obtain rfl : control = .exec f callers := hr
  obtain ⟨b, -, heq⟩ := h.procRuntimeCall_eq (f := { f with flag := f.flag.next }) hf hins
    hcall callers ⟨.exec f callers, d, e.log ins e.params⟩
  rw [m.step_instruction hins hflag, m.execInstruction_call hcall, heq, hreuse, Bool.and_true,
    if_pos htail]
  exact ⟨⟨_, rfl⟩, rfl⟩

/-- In the loop of a frame, a step that executes no nested call goes on with the
same callers, in the loop or with a return. -/
theorem OnGraph.step_inFrame (h : OnGraph store p st m) (hreuse : m.reuseFrames = true)
    {r : RunState S} {f : Frame} {callers : List Frame} (hr : r.control = .exec f callers)
    (hf : AnalysedAs st f.proc f.analysis)
    (hcalls : ∀ ins s, f.flag ≠ .isFalse → (m.code f.proc).instructions[f.i]? = some ins →
      ins.instruction = .call s → analyzeTailCall (m.code f.proc).instructions f.i = true) :
    ((∃ f', (m.step r).control = .exec f' callers) ∨
      ∃ ret, (m.step r).control = .returning ret callers) ∧
    (m.step r).effects.limitReached = r.effects.limitReached := by
  cases hins : (m.code f.proc).instructions[f.i]? with
  | none =>
      rcases r with ⟨control, d, e⟩
      obtain rfl : control = .exec f callers := hr
      rw [m.step_end hins]
      exact ⟨.inr ⟨_, rfl⟩, rfl⟩
  | some ins =>
      by_cases hflag : f.flag = .isFalse
      · rcases r with ⟨control, d, e⟩
        obtain rfl : control = .exec f callers := hr
        rw [m.step_skip hins hflag]
        exact ⟨.inl ⟨_, rfl⟩, rfl⟩
      cases hslot : ins.instruction.callSlot with
      | none =>
          rcases r with ⟨control, d, e⟩
          obtain rfl : control = .exec f callers := hr
          rw [m.step_instruction hins hflag, m.execInstruction_handler hslot]
          constructor
          · unfold Interp.endPass
            split
            · exact .inr ⟨_, rfl⟩
            · exact .inl ⟨_, rfl⟩
          · rw [Interp.endPass_effects]
            exact execHandler_limitReached _ _ _ _
      | some s =>
          have hcall := Instruction.eq_call hslot
          obtain ⟨hstay, hlimit⟩ := h.step_tailCall hreuse hr hf hflag hins hcall
            (hcalls ins s hflag hins hcall)
          exact ⟨.inl hstay, hlimit⟩

end Steps

/-! ## The invariant -/

section Stepped

variable (task : RuntimeThread S) (index : Nat) (r : RunState S)

theorem stepped_node : (task.stepped index r).node = task.node := by
  unfold RuntimeThread.stepped
  dsimp only
  split
  · rfl
  · split
    · rfl
    · split <;> rfl

theorem stepped_run : (task.stepped index r).run = some r := by
  unfold RuntimeThread.stepped
  dsimp only
  split
  · rfl
  · split
    · rfl
    · split <;> rfl

theorem stepped_control : (task.stepped index r).control = r.control := by
  rw [RuntimeThread.control, stepped_run]

theorem stepped_specific :
    (task.stepped index r).specific = Function.update task.specific index r.depth := by
  unfold RuntimeThread.stepped
  dsimp only
  split
  · rfl
  · split
    · rfl
    · split <;> rfl

/-- Nothing is recorded of a step that keeps the number of frames. -/
theorem stepped_left (hr : r.control ≠ .fault) (hframes : r.control.frames.length = task.frames) :
    (task.stepped index r).left = task.left := by
  rw [DepthState.stepped_of_ne_fault task index hr, hframes, if_neg (Nat.lt_irrefl _),
    if_neg (Nat.lt_irrefl _)]

end Stepped

/-- The counts of threads, for a task. They do not depend on any handlers. -/
def TaskLimits.counting (limits : TaskLimits) : DepthLimits S where
  handlers :=
    ⟨fun _ e => (0, e), fun _ e => (.holds, e), fun _ e => (0, e), fun _ e => (0, e),
      fun _ e => (0, e)⟩
  maxProcRecursionDepth := limits.maxProcRecursionDepth
  keysMax := 0

/-- What is kept for a task on the call graph of its procedure: its frames run
the procedures of their analyses, and the pointer in its storage counts them. -/
structure TaskOk (store : Store) (p : Proc) (st : AnalysisState) (limits : TaskLimits)
    (task : RuntimeThread S) : Prop where
  node : task.node = st.node
  analysed : task.control.All (AnalysedAs st) False
  counts : DepthState.ThreadCounts limits.counting limits.recursionDepthIndex task

namespace TaskOk

variable {store : Store} {p : Proc} {st : AnalysisState} {limits : TaskLimits}
variable {task task' : RuntimeThread S}

theorem ne_fault (h : TaskOk store p st limits task) : task.control ≠ .fault := by
  intro hfault
  have hall := h.analysed
  rw [hfault] at hall
  exact hall

/-- The frames, the storage and the records, by one number. -/
theorem count (h : TaskOk store p st limits task) :
    task.frames ≤ limits.maxProcRecursionDepth + 1 ∧
      task.control.depths = (List.range task.frames).reverse ∧
      task.specific = DepthState.onlyUnder limits.recursionDepthIndex task.frames ∧
      task.found.length = task.frames := by
  rcases h.counts.counts h.ne_fault with ⟨d, hd, hdepths, hspecific, hfound⟩
  have hframes : task.frames = d := by
    have hlen := congrArg List.length hdepths
    rwa [Control.depths, List.length_map, List.length_reverse, List.length_range] at hlen
  subst hframes
  refine ⟨hd, hdepths, hspecific, ?_⟩
  rw [hfound, List.length_map, List.length_reverse, List.length_range]

theorem counted (h : TaskOk store p st limits task) :
    task.specific limits.recursionDepthIndex = task.frames := by
  rw [h.count.2.2.1, DepthState.onlyUnder_self]

/-- The storage follows from the number of frames. -/
theorem specific_eq (h : TaskOk store p st limits task) (h' : TaskOk store p st limits task')
    (hframes : task'.frames = task.frames) : task'.specific = task.specific := by
  rw [h'.count.2.2.1, h.count.2.2.1, hframes]

/-- What is read from the storage is the number of frames. -/
theorem recursionDepthOf_eq (h : TaskOk store p st limits task)
    (hmax : limits.maxProcRecursionDepth < intMax) :
    recursionDepthOf (task.specific limits.recursionDepthIndex) =
      task.specific limits.recursionDepthIndex := by
  have hle := h.count.1
  rw [recursionDepthOf_of_le (by rw [h.counted]; omega)]

theorem onGraph (h : TaskOk store p st limits task) (hdone : AnalysisDone store p st)
    (hc : Closed store p) (handlers : Handlers S) :
    OnGraph store p st (task.interp limits (fun ref => ref.deref p store) handlers) :=
  ⟨rfl, h.node, hdone, hc⟩

end TaskOk

section Equations

variable {limits : TaskLimits} {code : ProcRef → Proc} {params : S} {task : RuntimeThread S}
variable {handlers : Handlers S}

theorem stepTask_call (hrun : task.run = none) :
    task.stepTask limits code params handlers =
      (task.interp limits code handlers).enter .root 0 []
        ⟨.returning 0 [], recursionDepthOf (task.specific limits.recursionDepthIndex),
          ⟨params, [], false⟩⟩ := by
  rw [stepTask, hrun]

theorem stepTask_run {r : RunState S} (hrun : task.run = some r) :
    task.stepTask limits code params handlers =
      (task.interp limits code handlers).step
        { r with depth := recursionDepthOf (task.specific limits.recursionDepthIndex) } := by
  rw [stepTask, hrun]

end Equations

section Next

variable {store : Store} {p : Proc} {st : AnalysisState} {limits : TaskLimits}
variable (hdone : AnalysisDone store p st) (hc : Closed store p)
variable (hmax : limits.maxProcRecursionDepth < intMax) (params : S)

/-- The new task is ok. -/
theorem newTask_ok : TaskOk store p st limits (newTask st.node : RuntimeThread S) where
  node := rfl
  analysed := by simp [RuntimeThread.control, newTask, Control.All]
  counts := DepthState.threadCounts_start limits.counting _ _

include hmax in
/-- A step of a task, seen by its counter. -/
theorem TaskOk.stepTask_depths {task : RuntimeThread S} (h : TaskOk store p st limits task)
    (code : ProcRef → Proc) (handlers : Handlers S) :
    (task.stepTask limits code params handlers).control = .fault ∨
    DepthMove limits.maxProcRecursionDepth
      (task.control.depths, task.specific limits.recursionDepthIndex)
      ((task.stepTask limits code params handlers).control.depths,
        (task.stepTask limits code params handlers).depth) := by
  have hread := h.recursionDepthOf_eq hmax
  cases hrun : task.run with
  | none =>
      have hcontrol : task.control = .returning 0 [] := by rw [RuntimeThread.control, hrun]
      rw [hcontrol, stepTask_call hrun, hread]
      exact .inr ((task.interp limits code handlers).enter_depths .root 0 []
        ⟨.returning 0 [], task.specific limits.recursionDepthIndex, ⟨params, [], false⟩⟩)
  | some r =>
      have hcontrol : task.control = r.control := by rw [RuntimeThread.control, hrun]
      rw [hcontrol, stepTask_run hrun, hread]
      exact (task.interp limits code handlers).step_depths
        { r with depth := task.specific limits.recursionDepthIndex }

include hdone hc in
/-- A step keeps every frame in the procedure of its analysis. -/
theorem TaskOk.stepTask_all {task : RuntimeThread S} (h : TaskOk store p st limits task)
    (handlers : Handlers S) :
    (task.stepTask limits (fun ref => ref.deref p store) params handlers).control.All
      (AnalysedAs st) False := by
  have hgraph := h.onGraph hdone hc handlers
  have hall := h.analysed
  cases hrun : task.run with
  | none =>
      rw [stepTask_call hrun]
      exact enter_all hgraph.root_analysed (by simp) _
  | some r =>
      rw [RuntimeThread.control, hrun] at hall
      rw [stepTask_run hrun]
      exact hgraph.step_ok hall

include hdone hc hmax in
/-- Whatever the instructions do, a step can be taken, and the task stays ok. -/
theorem TaskOk.next {task : RuntimeThread S} (h : TaskOk store p st limits task)
    (handlers : Handlers S) :
    nextTask limits (fun ref => ref.deref p store) params task handlers =
        some (task.stepped limits.recursionDepthIndex
          (task.stepTask limits (fun ref => ref.deref p store) params handlers)) ∧
      TaskOk store p st limits (task.stepped limits.recursionDepthIndex
        (task.stepTask limits (fun ref => ref.deref p store) params handlers)) := by
  have hmove := h.stepTask_depths hmax params (fun ref => ref.deref p store) handlers
  have hall := h.stepTask_all hdone hc params handlers
  unfold nextTask
  generalize task.stepTask limits (fun ref => ref.deref p store) params handlers = r at hmove hall
  have hr : r.control ≠ .fault := by
    intro hfault
    rw [hfault] at hall
    exact hall
  have hcounts := h.counts.stepped _ (.inr ⟨h.ne_fault, hmove.resolve_left hr⟩)
  have hok : TaskOk store p st limits (task.stepped limits.recursionDepthIndex r) := by
    refine ⟨?_, ?_, hcounts⟩
    · rw [stepped_node]
      exact h.node
    · rw [stepped_control]
      exact hall
  -- the depth that is stored is again the number of frames, which an `int` holds
  have hle : r.depth ≤ intMax := by
    have hframes := hok.count.1
    rw [← hok.counted, stepped_specific, Function.update_self] at hframes
    omega
  exact ⟨if_pos hle, hok⟩

include hdone hc hmax in
/-- The same, for the state that a step leads to. -/
theorem TaskOk.of_next {task task' : RuntimeThread S} (h : TaskOk store p st limits task)
    {handlers : Handlers S}
    (hnext : nextTask limits (fun ref => ref.deref p store) params task handlers = some task') :
    TaskOk store p st limits task' ∧
      task' = task.stepped limits.recursionDepthIndex
        (task.stepTask limits (fun ref => ref.deref p store) params handlers) := by
  rcases h.next hdone hc hmax params handlers with ⟨hnext', hok⟩
  rw [hnext] at hnext'
  obtain rfl := Option.some.inj hnext'
  exact ⟨hok, rfl⟩

/-! ## Tail calls -/

include hdone hc in
/-- A call is marked as the analysis of its procedure says. -/
theorem TaskOk.callMark_eq {task : RuntimeThread S} (h : TaskOk store p st limits task)
    {f : Frame} {callers : List Frame} (hcontrol : task.control = .exec f callers)
    (hflag : f.flag ≠ .isFalse) {ins : ProcInstruction} {s : UInt8}
    (hins : (f.proc.deref p store).instructions[f.i]? = some ins)
    (hcall : ins.instruction = .call s) :
    task.callMark (fun ref => ref.deref p store) =
      some (analyzeTailCall (f.proc.deref p store).instructions f.i) := by
  have hanalysed := h.analysed
  rw [hcontrol] at hanalysed
  have hgraph := h.onGraph hdone hc
    (⟨fun _ e => (0, e), fun _ e => (.holds, e), fun _ e => (0, e), fun _ e => (0, e),
      fun _ e => (0, e)⟩ : Handlers S)
  have hentry := hgraph.instructionAnalysis_eq hanalysed.1 hins hcall
  have hslot : ins.instruction.callSlot = some s := by rw [hcall]; rfl
  simp only [RuntimeThread.callMark, hcontrol, if_neg hflag, hins, hslot, h.node, hentry,
    Option.bind_eq_bind, Option.bind_some]
  rfl

include hdone hc in
/-- Where a call has a mark, the task is at it. -/
theorem TaskOk.call_of_mark {task : RuntimeThread S} (h : TaskOk store p st limits task)
    {mark : Bool} (hmark : task.callMark (fun ref => ref.deref p store) = some mark) :
    ∃ f callers ins s, task.control = .exec f callers ∧ f.flag ≠ .isFalse ∧
      (f.proc.deref p store).instructions[f.i]? = some ins ∧ ins.instruction = .call s ∧
      mark = analyzeTailCall (f.proc.deref p store).instructions f.i := by
  have hcall := hmark
  unfold RuntimeThread.callMark at hcall
  split at hcall
  case h_1 f callers hcontrol =>
    split at hcall
    · cases hcall
    · simp only [Option.bind_eq_bind, Option.bind_eq_some_iff] at hcall
      rcases hcall with ⟨ins, hins, s, hslot, -⟩
      have hbody := Instruction.eq_call hslot
      rw [h.callMark_eq hdone hc hcontrol ‹_› hins hbody] at hmark
      exact ⟨f, callers, ins, s, hcontrol, ‹_›, hins, hbody, (Option.some.inj hmark).symm⟩
  case h_2 => cases hcall
  case h_3 => cases hcall

theorem frames_of_exec {task : RuntimeThread S} {f : Frame} {callers : List Frame}
    (h : task.control = .exec f callers) : task.frames = callers.length + 1 := by
  rw [RuntimeThread.frames, h]
  rfl

include hdone hc in
/-- A step that keeps the frame stays in its loop or returns from it. -/
theorem TaskOk.stepTask_keepsFrame {task : RuntimeThread S} (h : TaskOk store p st limits task)
    (handlers : Handlers S) {f : Frame} {callers : List Frame} {r : RunState S}
    (hrun : task.run = some r) (hr : r.control = .exec f callers)
    (hmark : task.callMark (fun ref => ref.deref p store) ≠ some false) :
    ((∃ f', (task.stepTask limits (fun ref => ref.deref p store) params handlers).control =
        .exec f' callers) ∨
      ∃ ret, (task.stepTask limits (fun ref => ref.deref p store) params handlers).control =
        .returning ret callers) ∧
    (task.stepTask limits (fun ref => ref.deref p store) params handlers).effects.limitReached =
      r.effects.limitReached := by
  have hcontrol : task.control = .exec f callers := by rw [RuntimeThread.control, hrun, ← hr]
  have hanalysed := h.analysed
  rw [hcontrol] at hanalysed
  rw [stepTask_run hrun]
  refine (h.onGraph hdone hc handlers).step_inFrame rfl hr hanalysed.1 ?_
  intro ins s hflag hins hcall
  rw [h.callMark_eq hdone hc hcontrol hflag hins hcall] at hmark
  show analyzeTailCall (f.proc.deref p store).instructions f.i = true
  simpa using hmark

include hdone hc hmax in
/-- While a task keeps its frame, so are the number of frames, the storage and
the records. -/
theorem TaskOk.next_keepsFrame {task task' : RuntimeThread S}
    (h : TaskOk store p st limits task) {handlers : Handlers S}
    (hnext : nextTask limits (fun ref => ref.deref p store) params task handlers = some task')
    (hkeeps : task.KeepsFrame fun ref => ref.deref p store) (hin : task'.InFrame) :
    task'.frames = task.frames ∧ task'.specific = task.specific ∧ task'.left = task.left := by
  rcases hkeeps with ⟨⟨f, callers, hcontrol⟩, hmark⟩
  rcases h.of_next hdone hc hmax params hnext with ⟨hok, rfl⟩
  have hframes := frames_of_exec hcontrol
  cases hrun : task.run with
  | none =>
      rw [RuntimeThread.control, hrun] at hcontrol
      cases hcontrol
  | some r =>
      rw [RuntimeThread.control, hrun] at hcontrol
      have hstay := (h.stepTask_keepsFrame hdone hc params handlers hrun hcontrol hmark).1
      rcases hin with ⟨f', callers', hin⟩
      rw [stepped_control] at hin
      rw [hin] at hstay
      obtain rfl : callers' = callers := by simpa using hstay
      have hcontrol' : (task.stepped limits.recursionDepthIndex
          (task.stepTask limits (fun ref => ref.deref p store) params handlers)).control =
            .exec f' callers' := (stepped_control ..).trans hin
      have hframes' := frames_of_exec hcontrol'
      have hsame := hframes'.trans hframes.symm
      refine ⟨hsame, h.specific_eq hok hsame, stepped_left task _ _ ?_ ?_⟩
      · rw [hin]
        exact nofun
      · rw [hin, hframes]
        rfl

include hdone hc hmax in
/-- A tail call leaves the task in the loop of a frame. -/
theorem TaskOk.next_tailCall {task task' : RuntimeThread S}
    (h : TaskOk store p st limits task) {handlers : Handlers S}
    (hnext : nextTask limits (fun ref => ref.deref p store) params task handlers = some task')
    (hmark : task.callMark (fun ref => ref.deref p store) = some true) :
    task.InFrame ∧ task'.InFrame := by
  rcases h.of_next hdone hc hmax params hnext with ⟨-, rfl⟩
  obtain ⟨f, callers, ins, s, hcontrol, hflag, hins, hcall, htail⟩ := h.call_of_mark hdone hc hmark
  have hanalysed := h.analysed
  rw [hcontrol] at hanalysed
  refine ⟨⟨f, callers, hcontrol⟩, ?_⟩
  cases hrun : task.run with
  | none =>
      rw [RuntimeThread.control, hrun] at hcontrol
      cases hcontrol
  | some r =>
      rw [RuntimeThread.control, hrun] at hcontrol
      obtain ⟨⟨f', hf'⟩, -⟩ := (h.onGraph hdone hc handlers).step_tailCall rfl
        (r := { r with depth := recursionDepthOf (task.specific limits.recursionDepthIndex) })
        hcontrol hanalysed.1 hflag hins hcall htail.symm
      refine ⟨f', callers, ?_⟩
      rw [stepped_control, stepTask_run hrun, hf']

/-! ## Procedures with tail calls only -/

/-- No call was refused, and there is no frame but the task's first one. -/
def SingleFrame (task : RuntimeThread S) : Prop :=
  ∀ r, task.run = some r → r.effects.limitReached = false ∧
    ((∃ f, r.control = .exec f []) ∨ ∃ ret, r.control = .returning ret [])

include hdone hc hmax in
/-- Where all calls are tail calls, a task stays in its first frame. -/
theorem TaskOk.next_singleFrame (htail : OnlyTailCalls store p) {task task' : RuntimeThread S}
    (h : TaskOk store p st limits task) {handlers : Handlers S}
    (hnext : nextTask limits (fun ref => ref.deref p store) params task handlers = some task')
    (hsingle : SingleFrame task) : SingleFrame task' := by
  rcases h.of_next hdone hc hmax params hnext with ⟨-, rfl⟩
  intro r' hr'
  rw [stepped_run] at hr'
  obtain rfl := Option.some.inj hr'
  cases hrun : task.run with
  | none =>
      -- the first entry finds 0, which is within every limit
      have hread := h.recursionDepthOf_eq hmax
      have hzero : task.frames = 0 := by rw [RuntimeThread.frames, RuntimeThread.control, hrun]; rfl
      rw [h.counted, hzero] at hread
      rw [stepTask_call hrun, h.counted, hzero, hread, Interp.enter_of_le _ _ _ _ (Nat.zero_le _)]
      exact ⟨rfl, .inl ⟨_, rfl⟩⟩
  | some r =>
      rcases hsingle r hrun with ⟨hlimit, ⟨f, hr⟩ | ⟨ret, hr⟩⟩
      · have hcontrol : task.control = .exec f [] := by rw [RuntimeThread.control, hrun, ← hr]
        have hmark : task.callMark (fun ref => ref.deref p store) ≠ some false := by
          intro hmark
          obtain ⟨f', callers', ins, s, hexec, -, hins, hcall, hmark⟩ :=
            h.call_of_mark hdone hc hmark
          have hanalysed := h.analysed
          rw [hexec] at hanalysed
          have hall := htail f'.proc ((h.onGraph hdone hc handlers).ref_reachable hanalysed.1) f'.i
            ins s hins hcall
          rw [hall] at hmark
          cases hmark
        rcases h.stepTask_keepsFrame hdone hc params handlers hrun hr hmark with ⟨hstay, hkept⟩
        exact ⟨hkept.trans hlimit, hstay⟩
      · -- the task has come to its end
        rcases r with ⟨control, d, e⟩
        obtain rfl : control = .returning ret [] := hr
        rw [stepTask_run hrun]
        exact ⟨hlimit, .inr ⟨ret, rfl⟩⟩

end Next

/-! ## The discipline -/

section Run

variable {store : Store} {p : Proc} {st : AnalysisState} {limits : TaskLimits}
variable (hdone : AnalysisDone store p st) (hc : Closed store p)
variable (hmax : limits.maxProcRecursionDepth < intMax) (params : S)

include hdone hc hmax in
/-- Every reachable state is ok, and in one frame where all calls are tail calls. -/
theorem taskOk_of_reaches {inputs : List (Handlers S)} {task : RuntimeThread S}
    (h : Reaches (nextTask limits (fun ref => ref.deref p store) params) (fun _ _ => True)
      (newTask st.node) inputs task) :
    TaskOk store p st limits task ∧ (OnlyTailCalls store p → SingleFrame task) := by
  refine h.invariant (P := fun _ task => TaskOk store p st limits task ∧
    (OnlyTailCalls store p → SingleFrame task)) ⟨newTask_ok, fun _ => nofun⟩ ?_
  rintro _ t handlers u ⟨hok, hsingle⟩ - hnext
  refine ⟨(hok.of_next hdone hc hmax params hnext).1, fun htail => ?_⟩
  exact hok.next_singleFrame hdone hc hmax params htail hnext (hsingle htail)

include hdone hc hmax in
/-- A chain of steps that keep the frame, tail calls among them. -/
theorem TaskOk.chained {task : RuntimeThread S} (hok : TaskOk store p st limits task)
    {inputs : List (Handlers S)} {task' : RuntimeThread S}
    (h : Reaches (nextTask limits (fun ref => ref.deref p store) params)
      (fun t _ => t.KeepsFrame fun ref => ref.deref p store) task inputs task') :
    TaskOk store p st limits task' ∧ (task'.InFrame →
      task'.frames = task.frames ∧ task'.specific = task.specific ∧ task'.left = task.left) := by
  refine h.invariant (P := fun _ task' => TaskOk store p st limits task' ∧ (task'.InFrame →
      task'.frames = task.frames ∧ task'.specific = task.specific ∧ task'.left = task.left))
    ⟨hok, fun _ => ⟨rfl, rfl, rfl⟩⟩ ?_
  rintro _ t handlers u ⟨ht, hsame⟩ hkeeps hnext
  refine ⟨(ht.of_next hdone hc hmax params hnext).1, fun hin => ?_⟩
  rcases hsame hkeeps.1 with ⟨hframes, hspecific, hleft⟩
  obtain ⟨hframes', hspecific', hleft'⟩ := ht.next_keepsFrame hdone hc hmax params hnext hkeeps hin
  exact ⟨hframes'.trans hframes, hspecific'.trans hspecific, hleft'.trans hleft⟩

include hdone hc hmax in
theorem TaskOk.disciplined {task : RuntimeThread S} (h : TaskOk store p st limits task) :
    DepthDisciplined limits (fun ref => ref.deref p store) params task where
  ne_fault := h.ne_fault
  counted := h.counted
  frames_le := h.count.1
  recorded := h.count.2.2.2
  left_as_found := h.counts.left_as_found
  defined handlers := ⟨_, (h.next hdone hc hmax params handlers).1⟩
  unchanged _ _ hnext hframes := h.specific_eq (h.of_next hdone hc hmax params hnext).1 hframes
  tailCall _ _ hnext hmark := by
    rcases h.next_tailCall hdone hc hmax params hnext hmark with ⟨hin, hin'⟩
    refine h.next_keepsFrame hdone hc hmax params hnext ⟨hin, ?_⟩ hin'
    rw [hmark]
    decide
  chained _ _ hreach hin := (h.chained hdone hc hmax params hreach).2 hin

end Run

/-- On a store that does not change and in which every reachable slot is
occupied, the depth is disciplined in every reachable state of a task, whatever
the instructions do. A procedure all of whose calls are tail calls never has one
refused. -/
theorem depth_disciplined (store : Store) (p : Proc) (hc : Closed store p) (limits : TaskLimits)
    (hmax : limits.maxProcRecursionDepth < intMax) (params : S) :
    ∃ st, runAnalysis store p = some (0, st) ∧
      ∀ (inputs : List (Handlers S)) (task : RuntimeThread S),
        Reaches (nextTask limits (fun ref => ref.deref p store) params) (fun _ _ => True)
          (newTask st.node) inputs task →
        DepthDisciplined limits (fun ref => ref.deref p store) params task ∧
          (OnlyTailCalls store p → task.NeverRefused) := by
  rcases runAnalysis_spec store p with ⟨st, hrun, hdone⟩
  rw [if_pos hc.allOccupied] at hrun
  refine ⟨st, hrun, ?_⟩
  intro inputs task hreach
  rcases taskOk_of_reaches hdone hc hmax params hreach with ⟨hok, hsingle⟩
  exact ⟨hok.disciplined hdone hc hmax params, fun htail r hr => (hsingle htail r hr).1⟩

/-- A procedure with tail calls, where no call may be nested. -/
theorem depth_disciplined_tailRoot :
    ∃ st, runAnalysis tailStore tailRoot = some (0, st) ∧
      ∀ (inputs : List (Handlers Nat)) (task : RuntimeThread Nat),
        Reaches (nextTask ⟨0, 0⟩ (fun ref => ref.deref tailRoot tailStore) 0) (fun _ _ => True)
          (newTask st.node) inputs task →
        DepthDisciplined ⟨0, 0⟩ (fun ref => ref.deref tailRoot tailStore) 0 task ∧
          (OnlyTailCalls tailStore tailRoot → task.NeverRefused) :=
  depth_disciplined tailStore tailRoot tailRoot_closed ⟨0, 0⟩ (by decide) 0

end CspProc
