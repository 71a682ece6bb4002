import CspProc.CallGraph
import Mathlib.Tactic.ByContra

/-! # Accepted runs

On a store where every reachable slot is occupied, a call finds the analysis
of the procedure in its slot (`OnGraph.procRuntimeCall_eq`), so that the
interpreter never leaves its defined behaviour (`OnGraph.steps_ne_fault`). The analysis itself
looks no further than the procedure it is started with, since the result of
the recursive call is dropped: `analysisExact_iff` says when its verdict is
the right one.
-/

namespace CspProc

variable {S : Type}

/-! ## Frames -/

/-- Every frame of a control state has a procedure and an analysis that are
related by `P`; `faults` says whether there may be no state at all. -/
def Control.All (P : ProcRef → Nat → Prop) (faults : Prop) : Control → Prop
  | .exec f callers => P f.proc f.analysis ∧ ∀ c ∈ callers, P c.proc c.analysis
  | .returning _ callers => ∀ c ∈ callers, P c.proc c.analysis
  | .fault => faults

section Frames

variable {m : Interp S} {P : ProcRef → Nat → Prop} {faults : Prop} {f : Frame}
variable {callers : List Frame}

theorem endPass_all (hf : P f.proc f.analysis) (hcallers : ∀ c ∈ callers, P c.proc c.analysis)
    (ret : Int) (r : RunState S) :
    (Interp.endPass ret f callers r).control.All P faults := by
  unfold Interp.endPass
  split
  · exact hcallers
  · exact ⟨hf, hcallers⟩

theorem enter_all {ref : ProcRef} {a : Nat} (h : P ref a)
    (hcallers : ∀ c ∈ callers, P c.proc c.analysis) (r : RunState S) :
    (m.enter ref a callers r).control.All P faults := by
  unfold Interp.enter
  split
  · exact hcallers
  · exact ⟨h, hcallers⟩

/-- The frames stay as they are meant to be when calls take care of them. -/
theorem step_all
    (hcall : ∀ f callers r ins s, P f.proc f.analysis → (∀ c ∈ callers, P c.proc c.analysis) →
      (m.code f.proc).instructions[f.i]? = some ins → ins.instruction = .call s →
      (m.procRuntimeCall s f callers r).control.All P faults)
    {r : RunState S} (hr : r.control.All P faults) : (m.step r).control.All P faults := by
  rcases r with ⟨control, d, e⟩
  cases control with
  | fault => exact hr
  | returning ret callers =>
      cases callers with
      | nil => exact hr
      | cons caller callers =>
          exact endPass_all (hr caller List.mem_cons_self)
            (fun c hmem => hr c (List.mem_cons_of_mem caller hmem)) _ _
  | exec f callers =>
      rcases hr with ⟨hf, hcallers⟩
      cases hins : (m.code f.proc).instructions[f.i]? with
      | none =>
          rw [m.step_end hins]
          exact hcallers
      | some ins =>
          by_cases hflag : f.flag = .isFalse
          · rw [m.step_skip hins hflag]
            exact ⟨hf, hcallers⟩
          rw [m.step_instruction hins hflag]
          cases hslot : ins.instruction.callSlot with
          | none =>
              rw [m.execInstruction_handler hslot]
              refine endPass_all ?_ hcallers _ _
              exact hf
          | some s =>
              have hbody := Instruction.eq_call hslot
              rw [m.execInstruction_call hbody]
              exact hcall { f with flag := f.flag.next } callers _ ins s hf hcallers hins hbody

end Frames

/-! ## Runs on a call graph -/

/-- The interpreter works on the analyses `st` of `p`, on the store they were
made for, in which no reachable slot is empty. -/
structure OnGraph (store : Store) (p : Proc) (st : AnalysisState) (m : Interp S) : Prop where
  code : m.code = fun ref => ref.deref p store
  node : m.node = st.node
  done : AnalysisDone store p st
  closed : Closed store p

/-- The analysis `a` can be reached, and it was made for what `ref` points to. -/
structure AnalysedAs (st : AnalysisState) (ref : ProcRef) (a : Nat) : Prop where
  reachable : ReachableAnalysis st a
  proc : ref = (st.node a).proc

namespace OnGraph

variable {store : Store} {p : Proc} {st : AnalysisState} {m : Interp S}

theorem code_root (h : OnGraph store p st m) : m.code .root = p := by
  rw [h.code]
  rfl

theorem code_slot (h : OnGraph store p st m) (s : UInt8) : m.code (.slot s) = store s := by
  rw [h.code]
  rfl

theorem root_analysed (h : OnGraph store p st m) : AnalysedAs st .root 0 :=
  ⟨.refl, h.done.root.proc.symm⟩

/-- The instructions of a frame are those that were analysed. -/
theorem code_eq (h : OnGraph store p st m) {ref : ProcRef} {a : Nat} (ha : AnalysedAs st ref a) :
    (m.code ref).instructions = analysedInstructions store p st a := by
  rw [h.code, ha.proc]
  rfl

/-- What a frame runs is the root's procedure or that of a reachable slot. -/
theorem ref_reachable (h : OnGraph store p st m) {ref : ProcRef} {a : Nat}
    (ha : AnalysedAs st ref a) : ref = .root ∨ ∃ s, ref = .slot s ∧ ReachableSlot store p s := by
  rcases (h.done.isCallGraph h.closed).nodes a ha.reachable with rfl | ⟨s, hs, hslot⟩
  · exact .inl (ha.proc.trans h.done.root.proc)
  · exact .inr ⟨s, ha.proc.trans hslot, hs⟩

/-- What the analysis of a frame has entered for a call. -/
theorem instructionAnalysis_eq (h : OnGraph store p st m) {ref : ProcRef} {a i : Nat}
    (ha : AnalysedAs st ref a) {ins : ProcInstruction} {s : UInt8}
    (hins : (m.code ref).instructions[i]? = some ins) (hcall : ins.instruction = .call s) :
    (st.node a).instructionAnalyses[i]? =
      some ⟨ins.instruction.type, analyzeTailCall (m.code ref).instructions i⟩ := by
  rcases h.done.nodeOk h.closed ha.reachable with ⟨hok, hocc⟩
  rw [h.code_eq ha] at hins ⊢
  rw [hok.instrs hocc, instructionAnalysesFrom_getElem?, hins, Option.map_some, Nat.zero_add]
  simp only [analyzeInstruction, hcall]

/-- A call continues in the procedure of its slot, in the same frame when it is
marked as a tail call and frames are reused, and in a new one otherwise. -/
theorem procRuntimeCall_eq (h : OnGraph store p st m) {f : Frame}
    (hf : AnalysedAs st f.proc f.analysis) {ins : ProcInstruction} {s : UInt8}
    (hins : (m.code f.proc).instructions[f.i]? = some ins) (hcall : ins.instruction = .call s)
    (callers : List Frame) (r : RunState S) :
    ∃ b, AnalysedAs st (.slot s) b ∧
      m.procRuntimeCall s f callers r =
        if analyzeTailCall (m.code f.proc).instructions f.i && m.reuseFrames then
          { r with control := .exec { f with proc := .slot s, analysis := b, i := 0,
                                             flag := .isNone } callers }
        else m.enter (.slot s) b (f :: callers) r := by
  have hinstr := h.instructionAnalysis_eq hf hins hcall
  rw [h.code_eq hf] at hins
  obtain ⟨j, b, hfind, hb, hreach, hproc⟩ := (h.done.isCallGraph h.closed).lookup f.analysis
    hf.reachable ins (List.mem_of_getElem? hins) s hcall
  refine ⟨b, ⟨hreach, hproc.symm⟩, ?_⟩
  simp only [Interp.procRuntimeCall, h.node, hfind, hinstr, hb, hproc]

/-! ## Fault freedom -/

/-- A step keeps every frame in the procedure of its analysis. -/
theorem step_ok (h : OnGraph store p st m) {r : RunState S}
    (hr : r.control.All (AnalysedAs st) False) : (m.step r).control.All (AnalysedAs st) False := by
  refine step_all ?_ hr
  intro f callers r ins s hf hcallers hins hcall
  rcases h.procRuntimeCall_eq hf hins hcall callers r with ⟨b, hb, heq⟩
  rw [heq]
  split
  · exact ⟨hb, hcallers⟩
  · refine enter_all hb ?_ _
    simp only [List.mem_cons, forall_eq_or_imp]
    exact ⟨hf, hcallers⟩

/-- A run on a call graph never leaves the defined behaviour. -/
theorem steps_ne_fault (h : OnGraph store p st m) (params : S) (n : Nat) :
    (m.steps n (m.start params)).control ≠ .fault := by
  have hstart : (m.start params).control.All (AnalysedAs st) False :=
    enter_all h.root_analysed (by simp) _
  have hok := Runs.preserves (P := fun r : RunState S => r.control.All (AnalysedAs st) False)
    (fun _ => h.step_ok) ⟨n, rfl⟩ hstart
  intro hfault
  rw [Interp.steps] at hfault
  rw [hfault] at hok
  exact hok

end OnGraph

/-! ## The verdict of the analysis -/

theorem runtimeThread_eq (store : Store) (p : Proc) (handlers : Handlers S) (maxDepth : Nat)
    {ret : Int} {st : AnalysisState} (h : runAnalysis store p = some (ret, st)) :
    runtimeThread store p handlers maxDepth =
      if ret ≠ 0 then none else some (.frozen store p st handlers maxDepth true) := by
  simp [runtimeThread, h]

theorem onGraph_of_closed {store : Store} {p : Proc} (hc : Closed store p) :
    ∃ st, runAnalysis store p = some (0, st) ∧ ∀ (handlers : Handlers S) maxDepth reuseFrames,
      OnGraph store p st (.frozen store p st handlers maxDepth reuseFrames) := by
  rcases runAnalysis_spec store p with ⟨st, hrun, hdone⟩
  rw [if_pos hc.allOccupied] at hrun
  exact ⟨st, hrun, fun _ _ _ => ⟨rfl, rfl, hdone, hc⟩⟩

/-- The analysis is exact on a procedure: it succeeds if and only if every
reachable slot is occupied, so that a run that can reach an empty slot is
refused, and no run that is accepted meets a call without a sub-analysis. -/
structure AnalysisExact (store : Store) (p : Proc) : Prop where
  verdict : ∃ ret st, runAnalysis store p = some (ret, st) ∧ (ret = 0 ↔ Closed store p)
  refused : ¬ Closed store p → ∀ (S : Type) (handlers : Handlers S) (maxDepth : Nat),
    runtimeThread store p handlers maxDepth = none
  accepted : ∀ (S : Type) (handlers : Handlers S) (maxDepth : Nat) (m : Interp S),
    runtimeThread store p handlers maxDepth = some m → ∀ (params : S) (n : Nat),
      (m.steps n (m.start params)).control ≠ .fault

/-- It is exact when all reachable slots are occupied, and when already the
procedure itself calls an empty slot; it misses just the empty slots that only
other procedures call. -/
theorem analysisExact_iff (store : Store) (p : Proc) :
    AnalysisExact store p ↔
      Closed store p ∨ ∃ s ∈ callSlots p.instructions, store.occupied s = false := by
  rcases runAnalysis_spec store p with ⟨st, hrun, hdone⟩
  by_cases hall : AllOccupied store (callSlots p.instructions)
  · -- the analysis succeeds, which is right for a closed store only
    have hnone : ¬ ∃ s ∈ callSlots p.instructions, store.occupied s = false := by
      rintro ⟨s, hs, hempty⟩
      rw [hall s hs] at hempty
      cases hempty
    rw [if_pos hall] at hrun
    simp only [hnone, or_false]
    constructor
    · intro h
      rcases h.verdict with ⟨ret, st', hrun', hiff⟩
      rw [hrun] at hrun'
      cases hrun'
      exact hiff.mp rfl
    · intro hc
      refine ⟨⟨0, st, hrun, iff_of_true rfl hc⟩, fun h => absurd hc h, ?_⟩
      intro S handlers maxDepth m hm params n
      rw [runtimeThread_eq store p handlers maxDepth hrun, if_neg (by simp)] at hm
      cases hm
      exact OnGraph.steps_ne_fault ⟨rfl, rfl, hdone, hc⟩ params n
  · -- the procedure itself calls an empty slot, and the analysis fails
    have hopen : ¬ Closed store p := fun hc => hall hc.allOccupied
    have hsome : ∃ s ∈ callSlots p.instructions, store.occupied s = false := by
      by_contra hno
      refine hall fun s hs => ?_
      by_contra hocc
      exact hno ⟨s, hs, by simpa using hocc⟩
    rw [if_neg hall] at hrun
    refine iff_of_true ⟨⟨-1, st, hrun, iff_of_false (by decide) hopen⟩, ?_, ?_⟩ (.inr hsome)
    · intro _ S handlers maxDepth
      rw [runtimeThread_eq store p handlers maxDepth hrun, if_pos (by decide)]
    · intro S handlers maxDepth m hm
      rw [runtimeThread_eq store p handlers maxDepth hrun, if_pos (by decide)] at hm
      cases hm

/-- The procedure in slot 1 calls slot 2, which is empty. -/
def danglingStore : Store := fun s => if s = 1 then ⟨[⟨0, .call 2⟩], by decide⟩ else Proc.empty

/-- A procedure that calls slot 1. -/
def callOne : Proc := ⟨[⟨0, .call 1⟩], by decide⟩

/-- Its analysis succeeds although it reaches the empty slot. -/
theorem analysis_misses_empty_slot :
    ¬ Closed danglingStore callOne ∧
    (runAnalysis danglingStore callOne).map (fun r => r.1) = some 0 := by
  refine ⟨?_, by decide⟩
  intro hc
  have hreach : ReachableSlot danglingStore callOne 2 :=
    (ReachableSlot.direct (s := 1) (by decide)).tail (by unfold Calls; decide)
  have hocc := hc 2 hreach
  revert hocc
  decide

end CspProc
