import CspProc.Interp
import CspProc.Lib.System

/-! # The recursion limit of concurrent threads

`runtime_thread` of the POSIX runtime from `pthread_key_create` on, for any
number of threads. A thread counts its nested calls of `proc_instructions_exec`
in a thread-specific value, but the key that names the value is one global
variable, which every new thread overwrites.

* `Interp.step_depths` — a step of the interpreter stays in its frame, enters
  one or returns from one, and reads and writes the depth accordingly;
* `recursionLimit_of_keptKey` — the limit and the counters are kept in every
  run in which no key is created while a thread has a frame.
-/

namespace CspProc

variable {S : Type}

/-! ## What a step does to the depth -/

/-- The frames of `proc_instructions_exec` past their entry check. -/
def Control.frames : Control → List Frame
  | .exec frame callers => frame :: callers
  | .returning _ callers => callers
  | .fault => []

/-- The depths that the frames have recorded, and will restore. -/
def Control.depths (c : Control) : List Nat := c.frames.map Frame.recursionDepth

/-- One step, seen by the depth counter: in the same frame, into a new frame
when the counter is within the limit, or out of the innermost frame. -/
inductive DepthMove (maxDepth : Nat) : List Nat × Nat → List Nat × Nat → Prop where
  | stay (ds : List Nat) (d : Nat) : DepthMove maxDepth (ds, d) (ds, d)
  | enter (ds : List Nat) (d : Nat) (h : d ≤ maxDepth) :
      DepthMove maxDepth (ds, d) (d :: ds, d + 1)
  | leave (ds : List Nat) (found d : Nat) : DepthMove maxDepth (found :: ds, d) (ds, found)

/-- Where the frames count upwards from 0, a move keeps it so: nothing happens, a
frame more counts those below it, or the innermost one is gone. -/
theorem DepthMove.counting {maxDepth d d' : Nat} {ds' : List Nat}
    (h : DepthMove maxDepth ((List.range d).reverse, d) (ds', d')) :
    (ds' = (List.range d).reverse ∧ d' = d) ∨
    (d ≤ maxDepth ∧ ds' = (List.range (d + 1)).reverse ∧ d' = d + 1) ∨
    ∃ n, d = n + 1 ∧ ds' = (List.range n).reverse ∧ d' = n := by
  generalize hds : (List.range d).reverse = ds at h
  cases h with
  | stay => exact .inl ⟨rfl, rfl⟩
  | enter _ _ hle =>
      subst hds
      refine .inr (.inl ⟨hle, ?_, rfl⟩)
      rw [List.range_succ, List.reverse_append]
      rfl
  | leave _ found _ =>
      obtain ⟨n, rfl⟩ : ∃ n, d = n + 1 := by
        cases d with
        | zero => cases hds
        | succ n => exact ⟨n, rfl⟩
      rw [List.range_succ, List.reverse_append, List.reverse_singleton, List.singleton_append,
        List.cons.injEq] at hds
      rcases hds with ⟨rfl, rfl⟩
      exact .inr (.inr ⟨_, rfl, rfl, rfl⟩)

namespace Interp

variable (m : Interp S)

theorem enter_depths (proc : ProcRef) (analysis : Nat) (callers : List Frame) (st : RunState S) :
    DepthMove m.maxDepth (callers.map Frame.recursionDepth, st.depth)
      ((m.enter proc analysis callers st).control.depths,
        (m.enter proc analysis callers st).depth) := by
  unfold enter
  split
  · exact .stay _ _
  · exact .enter _ _ (Nat.le_of_not_lt ‹_›)

theorem endPass_depths (ret : Int) (frame : Frame) (callers : List Frame) (st : RunState S) :
    DepthMove m.maxDepth ((frame :: callers).map Frame.recursionDepth, st.depth)
      ((endPass ret frame callers st).control.depths, (endPass ret frame callers st).depth) := by
  unfold endPass
  split
  · exact .leave _ _ _
  · exact .stay _ _

theorem procRuntimeCall_depths (procedureSlot : UInt8) (frame : Frame) (callers : List Frame)
    (st : RunState S) :
    (m.procRuntimeCall procedureSlot frame callers st).control = .fault ∨
    DepthMove m.maxDepth ((frame :: callers).map Frame.recursionDepth, st.depth)
      ((m.procRuntimeCall procedureSlot frame callers st).control.depths,
        (m.procRuntimeCall procedureSlot frame callers st).depth) := by
  unfold procRuntimeCall
  dsimp only
  split
  · exact .inr (m.endPass_depths _ _ _ _)
  · split
    · split
      · exact .inr (.stay _ _)
      · exact .inr (m.enter_depths _ _ _ _)
    · exact .inl rfl

theorem execInstruction_depths (ins : ProcInstruction) (frame : Frame) (callers : List Frame)
    (st : RunState S) :
    (m.execInstruction ins frame callers st).control = .fault ∨
    DepthMove m.maxDepth ((frame :: callers).map Frame.recursionDepth, st.depth)
      ((m.execInstruction ins frame callers st).control.depths,
        (m.execInstruction ins frame callers st).depth) := by
  cases hcall : ins.instruction.callSlot with
  | some slot =>
      rw [m.execInstruction_call (Instruction.eq_call hcall)]
      exact m.procRuntimeCall_depths _ _ _ _
  | none =>
      rw [m.execInstruction_handler hcall]
      generalize execHandler m.handlers ins frame.flag st.effects = r
      exact .inr (m.endPass_depths r.1 { frame with flag := r.2.1 } callers
        { st with effects := r.2.2 })

theorem step_depths (st : RunState S) :
    (m.step st).control = .fault ∨
    DepthMove m.maxDepth (st.control.depths, st.depth)
      ((m.step st).control.depths, (m.step st).depth) := by
  rcases st with ⟨control, depth, effects⟩
  cases control with
  | fault => exact .inl rfl
  | returning ret callers =>
      cases callers with
      | nil => exact .inr (.stay _ _)
      | cons caller callers => exact .inr (m.endPass_depths _ _ _ _)
  | exec frame callers =>
      cases hins : (m.code frame.proc).instructions[frame.i]? with
      | none =>
          rw [m.step_end hins]
          exact .inr (.leave _ _ _)
      | some ins =>
          by_cases hflag : frame.flag = .isFalse
          · rw [m.step_skip hins hflag]
            exact .inr (.stay _ _)
          · rw [m.step_instruction hins hflag]
            exact m.execInstruction_depths _ _ _ _

end Interp

/-! ## Threads -/

/-- What is the same for all threads: the handlers, `MAX_PROC_RECURSION_DEPTH`
and how many keys `pthread_key_create` has. -/
structure DepthLimits (S : Type) where
  handlers : Handlers S
  maxProcRecursionDepth : Nat
  keysMax : Nat

/-- A thread that has created its key: its analysis, its thread-specific value
under every key, and its run once it has called `proc_instructions_exec`. The
last two fields record history: what the values were when each of its frames
was entered, and for each frame it has returned from, what they were at its
entry and after its return. -/
structure RuntimeThread (S : Type) where
  node : Nat → Analysis
  specific : Nat → Nat
  run : Option (RunState S)
  found : List (Nat → Nat)
  left : List ((Nat → Nat) × (Nat → Nat))

/-- All threads, the parameters they share, and the global
`recursion_depth_key`; `keys` keys have been created. -/
structure DepthState (S : Type) where
  recursionDepthKey : Nat
  keys : Nat
  params : S
  threads : List (RuntimeThread S)

/-- A thread is started and creates its key, or a thread takes a step, with
what the store holds at that time. -/
inductive DepthInput where
  | start (node : Nat → Analysis)
  | step (t : Nat) (code : ProcRef → Proc)

namespace RuntimeThread

/-- Where the thread is; before its first call, and after it, it has no frame. -/
def control (th : RuntimeThread S) : Control :=
  match th.run with
  | none => .returning 0 []
  | some st => st.control

/-- The frames the thread has. -/
def frames (th : RuntimeThread S) : Nat := th.control.frames.length

/-- The thread after a step to `st`, which has stored its depth under `key`. -/
def stepped (th : RuntimeThread S) (key : Nat) (st : RunState S) : RuntimeThread S :=
  let specific := Function.update th.specific key st.depth
  let th' := { th with specific := specific, run := some st }
  match st.control with
  | .fault => th'
  | _ =>
      if th.frames < st.control.frames.length then { th' with found := th.specific :: th.found }
      else if st.control.frames.length < th.frames then
        { th' with
          found := th.found.tail
          left := th.found.head?.toList.map (fun found => (found, specific)) ++ th.left }
      else th'

end RuntimeThread

namespace DepthState

variable (limits : DepthLimits S)

/-- One step of a thread: the depth is read and written under the key that the
global holds now. -/
def stepThread (s : DepthState S) (th : RuntimeThread S) (code : ProcRef → Proc) : RunState S :=
  let m : Interp S := ⟨code, th.node, limits.handlers, limits.maxProcRecursionDepth, true⟩
  let depth := th.specific s.recursionDepthKey
  match th.run with
  | none => m.enter .root 0 [] ⟨.returning 0 [], depth, ⟨s.params, [], false⟩⟩
  | some st => m.step { st with depth := depth, effects := { st.effects with params := s.params } }

/-- One step of the system. When no key can be created the new thread returns. -/
def next (s : DepthState S) : DepthInput → Option (DepthState S)
  | .start node =>
      if s.keys < limits.keysMax then
        some { s with
          recursionDepthKey := s.keys
          keys := s.keys + 1
          threads := s.threads ++ [⟨node, fun _ => 0, none, [], []⟩] }
      else some s
  | .step t code =>
      s.threads[t]?.map fun th =>
        let st := s.stepThread limits th code
        { s with
          params := st.effects.params
          threads := s.threads.set t (th.stepped s.recursionDepthKey st) }

/-- No thread has been started. -/
def init (params : S) : DepthState S := ⟨0, 0, params, []⟩

/-- No key is created while a thread is in `proc_instructions_exec`. -/
def KeepsKey (s : DepthState S) : DepthInput → Prop
  | .start _ => s.keys < limits.keysMax → ∀ th ∈ s.threads, th.frames = 0
  | .step .. => True

instance (s : DepthState S) : (i : DepthInput) → Decidable (KeepsKey limits s i)
  | .start _ => inferInstanceAs (Decidable (_ → _))
  | .step .. => inferInstanceAs (Decidable True)

/-- No thread has more frames than the limit allows, and every frame has left
the thread-specific values as it found them. -/
structure RecursionLimited (s : DepthState S) : Prop where
  frames_le : ∀ th ∈ s.threads, th.frames ≤ limits.maxProcRecursionDepth + 1
  left_as_found : ∀ th ∈ s.threads, ∀ p ∈ th.left, p.2 = p.1

/-! ## The counters -/

/-- The thread-specific values when only the one under `key` has been stored. -/
def onlyUnder (key d : Nat) : Nat → Nat := Function.update (fun _ => 0) key d

@[simp] theorem onlyUnder_self (key d : Nat) : onlyUnder key d key = d := Function.update_self ..

@[simp] theorem update_onlyUnder (key d d' : Nat) :
    Function.update (onlyUnder key d) key d' = onlyUnder key d' := by
  simp [onlyUnder, Function.update_idem]

theorem onlyUnder_zero (key : Nat) : onlyUnder key 0 = fun _ => 0 := by
  funext k
  simp [onlyUnder, Function.update_apply]

/-- What is kept for each thread as long as the key is: under the key it counts
its frames, each frame has recorded how many there were, and nothing is stored
under other keys. -/
structure ThreadCounts (key : Nat) (th : RuntimeThread S) : Prop where
  left_as_found : ∀ p ∈ th.left, p.2 = p.1
  counts : th.control ≠ .fault → ∃ d ≤ limits.maxProcRecursionDepth + 1,
    th.control.depths = (List.range d).reverse ∧
    th.specific = onlyUnder key d ∧
    th.found = (List.range d).reverse.map (onlyUnder key)

theorem ThreadCounts.frames_le {key : Nat} {th : RuntimeThread S}
    (h : ThreadCounts limits key th) : th.frames ≤ limits.maxProcRecursionDepth + 1 := by
  by_cases hfault : th.control = .fault
  · simp [RuntimeThread.frames, hfault, Control.frames]
  · rcases h.counts hfault with ⟨d, hd, hdepths, -⟩
    have hlen := congrArg List.length hdepths
    simp only [Control.depths, List.length_map, List.length_reverse, List.length_range] at hlen
    rw [RuntimeThread.frames, hlen]
    exact hd

/-- A thread without frames does not care which key is used. -/
theorem ThreadCounts.new_key {key : Nat} {th : RuntimeThread S} (h : ThreadCounts limits key th)
    (hframes : th.frames = 0) (key' : Nat) : ThreadCounts limits key' th := by
  refine ⟨h.left_as_found, ?_⟩
  intro hfault
  rcases h.counts hfault with ⟨d, hd, hdepths, hspecific, hfound⟩
  have hlen := congrArg List.length hdepths
  simp only [Control.depths, List.length_map, List.length_reverse, List.length_range] at hlen
  obtain rfl : d = 0 := hlen.symm.trans hframes
  exact ⟨0, hd, hdepths, by rw [hspecific, onlyUnder_zero, onlyUnder_zero], hfound⟩

theorem threadCounts_start (key : Nat) (node : Nat → Analysis) :
    ThreadCounts limits key (⟨node, fun _ => 0, none, [], []⟩ : RuntimeThread S) := by
  refine ⟨by simp, ?_⟩
  intro _
  exact ⟨0, Nat.zero_le _, rfl, (onlyUnder_zero key).symm, rfl⟩

/-- A step of a thread, seen by its counter. -/
theorem stepThread_depths (s : DepthState S) (th : RuntimeThread S) (code : ProcRef → Proc) :
    (s.stepThread limits th code).control = .fault ∨
    (th.control ≠ .fault ∧ DepthMove limits.maxProcRecursionDepth
      (th.control.depths, th.specific s.recursionDepthKey)
      ((s.stepThread limits th code).control.depths, (s.stepThread limits th code).depth)) := by
  rcases th with ⟨node, specific, run, found, left⟩
  let m : Interp S := ⟨code, node, limits.handlers, limits.maxProcRecursionDepth, true⟩
  cases run with
  | none =>
      refine .inr ⟨nofun, ?_⟩
      exact m.enter_depths .root 0 []
        ⟨.returning 0 [], specific s.recursionDepthKey, ⟨s.params, [], false⟩⟩
  | some st =>
      by_cases hfault : st.control = .fault
      · left
        simp [stepThread, Interp.step, hfault]
      · refine (m.step_depths { st with
          depth := specific s.recursionDepthKey
          effects := { st.effects with params := s.params } }).imp_right fun hmove => ?_
        exact ⟨hfault, hmove⟩

/-- The history of a thread that steps within the defined behaviour. -/
theorem stepped_of_ne_fault (th : RuntimeThread S) (key : Nat) {st : RunState S}
    (hst : st.control ≠ .fault) :
    th.stepped key st =
      if th.frames < st.control.frames.length then
        { th with
          specific := Function.update th.specific key st.depth
          run := some st
          found := th.specific :: th.found }
      else if st.control.frames.length < th.frames then
        { th with
          specific := Function.update th.specific key st.depth
          run := some st
          found := th.found.tail
          left := th.found.head?.toList.map
            (fun found => (found, Function.update th.specific key st.depth)) ++ th.left }
      else
        { th with specific := Function.update th.specific key st.depth, run := some st } := by
  unfold RuntimeThread.stepped
  split
  · exact absurd ‹_› hst
  · rfl

/-- A step of a thread keeps its counts under the key that it uses. -/
theorem ThreadCounts.stepped {key : Nat} {th : RuntimeThread S} {st : RunState S}
    (h : ThreadCounts limits key th)
    (hstep : st.control = .fault ∨ (th.control ≠ .fault ∧
      DepthMove limits.maxProcRecursionDepth (th.control.depths, th.specific key)
        (st.control.depths, st.depth))) :
    ThreadCounts limits key (th.stepped key st) := by
  rcases hstep with hfault | ⟨hth, hmove⟩
  · -- nothing is promised any more
    unfold RuntimeThread.stepped
    rw [hfault]
    exact ⟨h.left_as_found, fun hno => absurd hfault hno⟩
  · rcases h.counts hth with ⟨d, hd, hdepths, hspecific, hfound⟩
    by_cases hst : st.control = .fault
    · unfold RuntimeThread.stepped
      rw [hst]
      exact ⟨h.left_as_found, fun hno => absurd hst hno⟩
    have hframes : th.frames = d := by
      have hlen := congrArg List.length hdepths
      rwa [Control.depths, List.length_map, List.length_reverse, List.length_range] at hlen
    have hframes' : st.control.frames.length = st.control.depths.length := by
      rw [Control.depths, List.length_map]
    rw [stepped_of_ne_fault th key hst, hframes, hframes', hspecific, hfound]
    rw [hdepths, hspecific, onlyUnder_self] at hmove
    rcases hmove.counting with ⟨hds, hd'⟩ | ⟨hle, hds, hd'⟩ | ⟨n, rfl, hds, hd'⟩
    · -- in the same frame
      rw [hds, List.length_reverse, List.length_range, if_neg (Nat.lt_irrefl _),
        if_neg (Nat.lt_irrefl _)]
      refine ⟨h.left_as_found, fun _ => ⟨d, hd, hds, ?_, rfl⟩⟩
      rw [hd', update_onlyUnder]
    · -- into a new frame, which has found the count of those below it
      rw [hds, List.length_reverse, List.length_range, if_pos (Nat.lt_succ_self _)]
      refine ⟨h.left_as_found, fun _ => ⟨d + 1, Nat.succ_le_succ hle, hds, ?_, ?_⟩⟩
      · rw [hd', update_onlyUnder]
      · rw [List.range_succ, List.reverse_append]
        rfl
    · -- out of a frame
      rw [hds, hd', List.length_reverse, List.length_range,
        if_neg (Nat.not_lt.mpr (Nat.le_succ _)), if_pos (Nat.lt_succ_self _), update_onlyUnder,
        List.range_succ, List.reverse_append]
      constructor
      · intro p hp
        rcases List.mem_append.mp hp with hnew | hold
        · -- the frame found what it now leaves
          obtain rfl : p = (onlyUnder key n, onlyUnder key n) := by simpa using hnew
          rfl
        · exact h.left_as_found p hold
      · intro _
        exact ⟨n, Nat.le_of_succ_le hd, hds, rfl, rfl⟩

/-- Every step that keeps the key of threads with frames keeps all counts. -/
theorem next_threadCounts {s u : DepthState S} {i : DepthInput}
    (h : ∀ th ∈ s.threads, ThreadCounts limits s.recursionDepthKey th)
    (hok : KeepsKey limits s i) (hnext : next limits s i = some u) :
    ∀ th ∈ u.threads, ThreadCounts limits u.recursionDepthKey th := by
  cases i with
  | start node =>
      simp only [next] at hnext
      split at hnext
      · rename_i hkeys
        cases hnext
        intro th hth
        rcases List.mem_append.mp hth with hold | hnew
        · exact (h th hold).new_key limits (hok hkeys th hold) s.keys
        · rw [List.mem_singleton.mp hnew]
          exact threadCounts_start limits s.keys node
      · cases hnext
        exact h
  | step t code =>
      rcases Option.map_eq_some_iff.mp hnext with ⟨th, hget, rfl⟩
      intro th' hth'
      rcases List.mem_or_eq_of_mem_set hth' with hold | rfl
      · exact h th' hold
      · exact (h th (List.mem_of_getElem? hget)).stepped limits (s.stepThread_depths limits th code)

/-- The recursion limit holds in every run in which no key is created while a
thread has a frame. -/
theorem recursionLimit_of_keptKey (params : S) {inputs : List DepthInput} {s : DepthState S}
    (h : Reaches (next limits) (KeepsKey limits) (init params) inputs s) :
    RecursionLimited limits s := by
  have hcounts : ∀ th ∈ s.threads, ThreadCounts limits s.recursionDepthKey th := by
    refine h.invariant
      (P := fun _ s => ∀ th ∈ s.threads, ThreadCounts limits s.recursionDepthKey th) ?_ ?_
    · simp [init]
    · exact fun _ _ _ _ hcounts hok hnext => next_threadCounts limits hcounts hok hnext
  constructor
  · intro th hth
    exact (hcounts th hth).frames_le limits
  · intro th hth
    exact (hcounts th hth).left_as_found

/-- Slot 0 has a procedure that does nothing. -/
def calledStore : Store := fun s =>
  if s = 0 then ⟨[⟨0, .noop⟩], one_le_maxInstructions⟩ else Proc.empty

/-- A call of slot 0, and something after it. -/
def callsSlot : Proc := ⟨[⟨0, .call 0⟩, ⟨0, .set .nil .nil⟩], Nat.le_of_ble_eq_true rfl⟩

/-- The analysis of `callsSlot`. -/
def callsSlotNode : Nat → Analysis := ((runAnalysis calledStore callsSlot).get (by decide)).2.node

/-- A thread is started on `callsSlot`, and a thread takes a step. -/
def startInput : DepthInput := .start callsSlotNode

def stepInput (t : Nat) : DepthInput := .step t fun ref => ref.deref callsSlot calledStore

/-- Without any parameters, and with room for two keys. -/
def smallLimits (maxProcRecursionDepth : Nat) : DepthLimits Unit where
  handlers :=
    ⟨fun _ e => (0, e), fun _ e => (.holds, e), fun _ e => (0, e), fun _ e => (0, e),
      fun _ e => (0, e)⟩
  maxProcRecursionDepth := maxProcRecursionDepth
  keysMax := 2

/-- One thread runs to its end, then another is started and makes its call. -/
def consecutiveInputs : List DepthInput :=
  startInput :: (List.replicate 7 (stepInput 0) ++ [startInput, stepInput 1, stepInput 1])

theorem consecutiveInputs_taken :
    (consecutiveInputs.foldlM (guarded (next (smallLimits 1)) (KeepsKey (smallLimits 1)))
      (init ())).isSome = true := by
  decide +kernel

theorem recursionLimit_consecutiveInputs :
    ∃ s, Reaches (next (smallLimits 1)) (KeepsKey (smallLimits 1)) (init ()) consecutiveInputs s ∧
      s.threads.map RuntimeThread.frames = [0, 2] ∧ RecursionLimited (smallLimits 1) s := by
  have hreaches := Reaches.of_foldlM (Option.some_get consecutiveInputs_taken).symm
  exact ⟨_, hreaches, by decide +kernel, recursionLimit_of_keptKey (smallLimits 1) () hreaches⟩

/-- A second thread is started while the first one is in its first frame, which
then makes its call. -/
def overlappingInputs : List DepthInput := [startInput, stepInput 0, startInput, stepInput 0]

theorem overlappingInputs_taken :
    (overlappingInputs.foldlM (guarded (next (smallLimits 0)) fun _ _ => True)
      (init ())).isSome = true := by
  decide +kernel

/-- The first thread then counts from zero again, and has one frame more than
the limit allows. -/
theorem recursionLimit_exceeded :
    ∃ s, Reaches (next (smallLimits 0)) (fun _ _ => True) (init ()) overlappingInputs s ∧
      ¬ RecursionLimited (smallLimits 0) s := by
  refine ⟨_, Reaches.of_foldlM (Option.some_get overlappingInputs_taken).symm, ?_⟩
  intro h
  have hle := h.frames_le
  revert hle
  decide +kernel

end DepthState

end CspProc
