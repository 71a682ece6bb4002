import CspProc.Lib.Walk
import CspProc.TailCall
import CspProc.TaskDepth

/-! # Which runs end

Nested calls are limited in their depth and each frame goes through its procedure
once, so a run can go on for ever only by reusing a frame, again and again.

* `step_cost` — the variant: an upper bound of the steps that the frames still take;
* `runtimeThread_ends` — a run ends unless a procedure comes back to itself by tail calls,
  after a number of steps that depends on the recursion limit only;
* `tailCall_within` — a run that does not end reuses a frame within every window of
  so many steps;
* `only_errors` — a run of procedures that all end in an unconditional call never
  returns 0, and goes on in one frame for ever unless an instruction fails.
-/

namespace CspProc

open Relation

variable {S : Type}

/-! ## Costs -/

/-- How many steps a frame takes that makes at most `passes` passes of its loop and
has room for so many entries, its own included. -/
def frameCost (passes : Nat) : Nat → Nat
  | 0 => 0
  | entries + 1 => passes * (frameCost passes entries + 2) + 1

/-- The passes that a frame has left: those through its procedure, and those of the
frame's later procedures, of which there are at most as many as the rank says. -/
def Frame.passes (rank : ProcRef → Nat) (f : Frame) : Nat :=
  rank f.proc * (maxInstructions + 1) + (maxInstructions + 1 - f.i)

/-- How many steps the frame itself and its calls still take. -/
def Frame.cost (rank : ProcRef → Nat) (passes maxDepth : Nat) (f : Frame) : Nat :=
  f.passes rank * (frameCost passes (maxDepth - f.recursionDepth) + 2) + 1

/-- How many steps the frames take to which the innermost one returns. -/
def callersCost (rank : ProcRef → Nat) (passes maxDepth : Nat) (callers : List Frame) : Nat :=
  (callers.map fun c => Frame.cost rank passes maxDepth { c with i := c.i + 1 } + 1).sum

def Control.cost (rank : ProcRef → Nat) (passes maxDepth : Nat) : Control → Nat
  | .exec f callers => f.cost rank passes maxDepth + callersCost rank passes maxDepth callers
  | .returning _ callers => callersCost rank passes maxDepth callers
  | .fault => 0

section Costs

variable {rank : ProcRef → Nat} {passes maxDepth : Nat} {f f' : Frame}

theorem callersCost_cons (callers : List Frame) :
    callersCost rank passes maxDepth (f :: callers) =
      Frame.cost rank passes maxDepth { f with i := f.i + 1 } + 1 +
        callersCost rank passes maxDepth callers := by
  rw [callersCost, List.map_cons, List.sum_cons]
  rfl

/-- A pass takes the cost of a call, and two steps more. -/
theorem Frame.cost_of_passes (hdepth : f'.recursionDepth = f.recursionDepth)
    (hlt : f'.passes rank < f.passes rank) :
    f'.cost rank passes maxDepth + frameCost passes (maxDepth - f.recursionDepth) + 2 ≤
      f.cost rank passes maxDepth := by
  have hmul := Nat.mul_le_mul_right (frameCost passes (maxDepth - f.recursionDepth) + 2) hlt
  rw [Nat.succ_mul] at hmul
  unfold Frame.cost
  rw [hdepth]
  omega

/-- The next pass is one of those that are left. -/
theorem Frame.cost_next (f : Frame) (hi : f.i ≤ maxInstructions) (flag : IfElseFlag) :
    Frame.cost rank passes maxDepth { f with i := f.i + 1, flag := flag } +
        frameCost passes (maxDepth - f.recursionDepth) + 2 ≤
      f.cost rank passes maxDepth := by
  refine Frame.cost_of_passes rfl ?_
  simp only [Frame.passes]
  omega

/-- A frame that is reused has its passes in a procedure of a lower rank. -/
theorem Frame.cost_reused (f : Frame) (hi : f.i ≤ maxInstructions) {ref : ProcRef}
    (hlt : rank ref < rank f.proc) (a : Nat) :
    Frame.cost rank passes maxDepth { f with proc := ref, analysis := a, i := 0, flag := .isNone } +
        frameCost passes (maxDepth - f.recursionDepth) + 2 ≤
      f.cost rank passes maxDepth := by
  refine Frame.cost_of_passes rfl ?_
  have hmul := Nat.mul_le_mul_right (maxInstructions + 1) hlt
  rw [Nat.succ_mul] at hmul
  simp only [Frame.passes]
  omega

/-- A new frame costs no more than its entry. -/
theorem Frame.cost_of_entry (hrank : ∀ ref, (rank ref + 1) * (maxInstructions + 1) ≤ passes)
    (ref : ProcRef) (a : Nat) {d : Nat} (hd : d ≤ maxDepth) :
    Frame.cost rank passes maxDepth ⟨ref, a, 0, .isNone, d⟩ ≤
      frameCost passes (maxDepth + 1 - d) := by
  have hpasses : Frame.passes rank ⟨ref, a, 0, .isNone, d⟩ ≤ passes := by
    refine le_trans (le_of_eq ?_) (hrank ref)
    rw [Frame.passes, Nat.sub_zero, Nat.succ_mul]
  rw [Nat.succ_sub hd, frameCost, Frame.cost]
  exact Nat.succ_le_succ (Nat.mul_le_mul_right _ hpasses)

end Costs

/-! ## The variant -/

/-- The counter has the frames numbered from the outermost one on, and each frame is
in the procedure of its analysis. -/
structure Numbered (st : AnalysisState) (maxDepth : Nat) (r : RunState S) : Prop where
  analysed : r.control.All (AnalysedAs st) False
  depths : r.control.depths = (List.range r.depth).reverse
  depth_le : r.depth ≤ maxDepth + 1

/-- The run has returned from its outermost frame. -/
def RunState.Ended (r : RunState S) : Prop := ∃ ret, r.control = .returning ret []

/-- The run is at a call for which its frame is going to be reused. -/
def Interp.AtTailCall (m : Interp S) (r : RunState S) : Prop :=
  ∃ f callers ins s, r.control = .exec f callers ∧
    (m.code f.proc).instructions[f.i]? = some ins ∧ f.flag ≠ .isFalse ∧
    ins.instruction = .call s ∧ analyzeTailCall (m.code f.proc).instructions f.i = true

/-- A tail call takes up one of the later procedures of its frame. -/
def LowersRank (m : Interp S) (rank : ProcRef → Nat) (r : RunState S) : Prop :=
  ∀ f callers ins s, r.control = .exec f callers →
    (m.code f.proc).instructions[f.i]? = some ins → ins.instruction = .call s →
    f.flag ≠ .isFalse → analyzeTailCall (m.code f.proc).instructions f.i = true →
    rank (.slot s) < rank f.proc

/-- The frames of a list are numbered downwards to 0. -/
theorem numbered_cons {f : Frame} {callers : List Frame} {d : Nat}
    (h : (f :: callers).map Frame.recursionDepth = (List.range d).reverse) :
    d = f.recursionDepth + 1 ∧
      callers.map Frame.recursionDepth = (List.range f.recursionDepth).reverse := by
  cases d with
  | zero => cases h
  | succ n =>
      rw [List.range_succ, List.reverse_append, List.reverse_singleton, List.singleton_append,
        List.map_cons, List.cons.injEq] at h
      rcases h with ⟨rfl, hcallers⟩
      exact ⟨rfl, hcallers⟩

theorem index_le {p : Proc} {i : Nat} {ins : ProcInstruction}
    (h : p.instructions[i]? = some ins) : i ≤ maxInstructions :=
  (List.getElem?_eq_some_iff.mp h).1.le.trans p.length_le

section Steps

variable {store : Store} {p : Proc} {st : AnalysisState} {m : Interp S} {r : RunState S}
variable {rank : ProcRef → Nat} {passes : Nat}

theorem OnGraph.start_numbered (h : OnGraph store p st m) (params : S) :
    Numbered st m.maxDepth (m.start params) := by
  unfold Interp.start
  rw [m.enter_of_le _ _ _ (Nat.zero_le _)]
  exact ⟨⟨h.root_analysed, by simp⟩, rfl, Nat.succ_le_succ (Nat.zero_le _)⟩

theorem OnGraph.step_numbered (h : OnGraph store p st m) (hr : Numbered st m.maxDepth r) :
    Numbered st m.maxDepth (m.step r) := by
  have hok := h.step_ok hr.analysed
  rcases m.step_depths r with hfault | hmove
  · rw [hfault] at hok
    exact hok.elim
  · rw [hr.depths] at hmove
    have hle := hr.depth_le
    rcases hmove.counting with ⟨hds, hd⟩ | ⟨hroom, hds, hd⟩ | ⟨n, hn, hds, hd⟩
    · exact ⟨hok, by rw [hds, hd], by omega⟩
    · exact ⟨hok, by rw [hds, hd], by omega⟩
    · exact ⟨hok, by rw [hds, hd], by omega⟩

/-- The end of a pass that has used one of the frame's passes. -/
theorem endPass_cost {f : Frame} (ret : Int) (callers : List Frame) (r : RunState S)
    {maxDepth : Nat} :
    (Interp.endPass ret f callers r).control.cost rank passes maxDepth ≤
      Frame.cost rank passes maxDepth { f with i := f.i + 1 } +
        callersCost rank passes maxDepth callers := by
  unfold Interp.endPass
  split
  · exact Nat.le_add_left _ _
  · exact Nat.le_refl _

/-- An entry: the callee's frame is paid for by its caller. -/
theorem enter_cost (hrank : ∀ ref, (rank ref + 1) * (maxInstructions + 1) ≤ passes)
    {f : Frame} (callers : List Frame) (ref : ProcRef) (a : Nat)
    (hd : r.depth = f.recursionDepth + 1) :
    (m.enter ref a (f :: callers) r).control.cost rank passes m.maxDepth ≤
      frameCost passes (m.maxDepth - f.recursionDepth) +
        callersCost rank passes m.maxDepth (f :: callers) := by
  unfold Interp.enter
  split
  · exact Nat.le_add_left _ _
  · rename_i hroom
    have hentry := Frame.cost_of_entry hrank ref a (Nat.le_of_not_lt hroom)
    rw [show m.maxDepth + 1 - r.depth = m.maxDepth - f.recursionDepth by omega] at hentry
    exact Nat.add_le_add_right hentry _

/-- Every step of a run that has not ended takes up some of the cost. -/
theorem OnGraph.step_cost (h : OnGraph store p st m) (hreuse : m.reuseFrames = true)
    (hrank : ∀ ref, (rank ref + 1) * (maxInstructions + 1) ≤ passes) (hr : Numbered st m.maxDepth r)
    (hend : ¬ r.Ended) (hlower : LowersRank m rank r) :
    (m.step r).control.cost rank passes m.maxDepth < r.control.cost rank passes m.maxDepth := by
  rcases r with ⟨control, d, e⟩
  cases control with
  | fault => exact hr.analysed.elim
  | returning ret callers =>
      cases callers with
      | nil => exact absurd ⟨ret, rfl⟩ hend
      | cons c callers =>
          refine (endPass_cost ret callers _).trans_lt ?_
          rw [Control.cost, callersCost_cons]
          omega
  | exec f callers =>
      cases hins : (m.code f.proc).instructions[f.i]? with
      | none =>
          rw [m.step_end hins]
          simp only [Control.cost, Frame.cost]
          omega
      | some ins =>
          have hi := index_le hins
          by_cases hflag : f.flag = .isFalse
          · rw [m.step_skip hins hflag]
            have hpass : _ ≤ f.cost rank passes m.maxDepth := f.cost_next hi .isNone
            simp only [Control.cost]
            omega
          rw [m.step_instruction hins hflag]
          cases hslot : ins.instruction.callSlot with
          | none =>
              rw [m.execInstruction_handler hslot]
              refine (endPass_cost _ callers _).trans_lt ?_
              have hpass : _ ≤ f.cost rank passes m.maxDepth :=
                f.cost_next hi (execHandler m.handlers ins f.flag.next e).2.1
              simp only [Control.cost]
              omega
          | some s =>
              have hcall := Instruction.eq_call hslot
              rw [m.execInstruction_call hcall]
              rcases h.procRuntimeCall_eq (f := { f with flag := f.flag.next }) hr.analysed.1 hins
                hcall callers ⟨.exec f callers, d, e.log ins e.params⟩ with ⟨b, -, heq⟩
              rw [heq, hreuse, Bool.and_true]
              split
              · -- the frame is reused, at a lower rank
                have hlt := hlower f callers ins s rfl hins hcall hflag ‹_›
                have hpass : _ ≤ f.cost rank passes m.maxDepth := f.cost_reused hi hlt b
                simp only [Control.cost]
                omega
              · -- a new frame, and two steps for its entry and its return
                have hentry := enter_cost (m := m) hrank (f := { f with flag := f.flag.next })
                  (r := ⟨.exec f callers, d, e.log ins e.params⟩) callers (.slot s) b
                  (numbered_cons hr.depths).1
                have hpass : _ ≤ f.cost rank passes m.maxDepth := f.cost_next hi f.flag.next
                rw [callersCost_cons] at hentry
                refine hentry.trans_lt ?_
                simp only [Control.cost]
                omega

/-- What the frames that are returned to have left, with a call of the innermost one,
is part of the cost of an entry. -/
theorem callersCost_le (hrank : ∀ ref, (rank ref + 1) * (maxInstructions + 1) ≤ passes)
    {maxDepth d : Nat} (hd : d ≤ maxDepth + 1) {callers : List Frame}
    (h : callers.map Frame.recursionDepth = (List.range d).reverse) :
    frameCost passes (maxDepth + 1 - d) + callersCost rank passes maxDepth callers ≤
      frameCost passes (maxDepth + 1) := by
  induction callers generalizing d with
  | nil =>
      obtain rfl : d = 0 := by simpa using congrArg List.length h.symm
      exact Nat.le_refl _
  | cons c callers ih =>
      rcases numbered_cons h with ⟨rfl, hcallers⟩
      refine le_trans ?_ (ih (by omega) hcallers)
      rw [callersCost_cons, Nat.succ_sub (by omega : c.recursionDepth ≤ maxDepth),
        Nat.add_sub_add_right, frameCost, Frame.cost]
      have hone : Frame.passes rank { c with i := c.i + 1 } + 1 ≤ passes := by
        refine le_trans ?_ (hrank c.proc)
        rw [Frame.passes, Nat.succ_mul]
        dsimp only
        omega
      have hmul := Nat.mul_le_mul_right (frameCost passes (maxDepth - c.recursionDepth) + 2) hone
      rw [Nat.succ_mul] at hmul
      dsimp only
      omega

/-- From any state of a run, at most the cost of the first entry is left. -/
theorem Numbered.cost_le (hrank : ∀ ref, (rank ref + 1) * (maxInstructions + 1) ≤ passes)
    {maxDepth : Nat} (hr : Numbered st maxDepth r) :
    r.control.cost rank passes maxDepth ≤ frameCost passes (maxDepth + 1) := by
  rcases r with ⟨control, d, e⟩
  cases control with
  | fault => exact hr.analysed.elim
  | returning ret callers =>
      exact (Nat.le_add_left _ _).trans (callersCost_le hrank hr.depth_le hr.depths)
  | exec f callers =>
      rcases numbered_cons hr.depths with ⟨hd, hcallers⟩
      have hroom := hr.depth_le
      refine le_trans ?_ (callersCost_le hrank (by omega) hcallers)
      rw [Control.cost, Nat.succ_sub (by omega), frameCost, Frame.cost]
      have hpasses : f.passes rank ≤ passes := by
        refine le_trans ?_ (hrank f.proc)
        rw [Frame.passes, Nat.succ_mul]
        omega
      have hmul := Nat.mul_le_mul_right (frameCost passes (maxDepth - f.recursionDepth) + 2) hpasses
      omega

end Steps

/-! ## Runs that end -/

/-- The slots of the calls that are marked as tail calls. -/
def tailSlots (l : List ProcInstruction) : List UInt8 :=
  (List.range l.length).filterMap fun i =>
    if analyzeTailCall l i then l[i]?.bind fun ins => ins.instruction.callSlot else none

/-- The procedure in slot `s` may go on as the one in slot `t`. -/
def TailCalls (store : Store) (s t : UInt8) : Prop := t ∈ tailSlots (store s).instructions

theorem mem_tailSlots {l : List ProcInstruction} {i : Nat} {ins : ProcInstruction} {s : UInt8}
    (hins : l[i]? = some ins) (hcall : ins.instruction = .call s)
    (hmark : analyzeTailCall l i = true) : s ∈ tailSlots l := by
  have hi := (List.getElem?_eq_some_iff.mp hins).1
  refine List.mem_filterMap.mpr ⟨i, List.mem_range.mpr hi, ?_⟩
  rw [if_pos hmark, hins, Option.bind_some, hcall]
  rfl

def allSlots : Finset UInt8 := ((List.range (maxProcSlot + 1)).map UInt8.ofNat).toFinset

theorem mem_allSlots (s : UInt8) : s ∈ allSlots := List.mem_toFinset.mpr (Store.mem_allSlots s)

theorem card_allSlots_le : allSlots.card ≤ maxProcSlot + 1 := by
  refine (List.toFinset_card_le _).trans ?_
  rw [List.length_map, List.length_range]

/-- How many slots a procedure may come to by tail calls. The root is in no slot. -/
noncomputable def tailRank (store : Store) : ProcRef → Nat
  | .root => maxProcSlot + 2
  | .slot s => Walk.reachCount allSlots (TailCalls store) s

/-- The passes that a frame makes at most, all of its procedures together. -/
def maxPasses : Nat := (maxProcSlot + 3) * (maxInstructions + 1)

theorem tailRank_slot_le (store : Store) (s : UInt8) :
    tailRank store (.slot s) ≤ maxProcSlot + 1 :=
  (Walk.reachCount_le allSlots s).trans card_allSlots_le

theorem tailRank_le (store : Store) (ref : ProcRef) :
    (tailRank store ref + 1) * (maxInstructions + 1) ≤ maxPasses := by
  refine Nat.mul_le_mul_right _ (Nat.succ_le_succ ?_)
  cases ref with
  | root => exact Nat.le_refl _
  | slot s => exact (tailRank_slot_le store s).trans (Nat.le_succ _)

/-- Where no procedure comes back to itself, tail calls lower the rank. -/
theorem OnGraph.lowersRank {store : Store} {p : Proc} {st : AnalysisState} {m : Interp S}
    (h : OnGraph store p st m)
    (hacyclic : ∀ s, ReachableSlot store p s → ¬ TransGen (TailCalls store) s s)
    {r : RunState S} (hr : r.control.All (AnalysedAs st) False) :
    LowersRank m (tailRank store) r := by
  intro f callers ins s hexec hins hcall _ hmark
  rw [hexec] at hr
  rcases h.ref_reachable hr.1 with hroot | ⟨t, hslot, ht⟩
  · rw [hroot]
    exact Nat.lt_succ_of_le (tailRank_slot_le store s)
  · rw [hslot, h.code_slot] at hins hmark
    rw [hslot]
    have hcalls : Calls store t s := by
      refine List.mem_filterMap.mpr ⟨ins, List.mem_of_getElem? hins, ?_⟩
      rw [hcall]
      rfl
    exact Walk.reachCount_lt (mem_tailSlots hins hcall hmark) (mem_allSlots s)
      (hacyclic s (ht.tail hcalls))

/-- A run in which no procedure can come back to itself by tail calls ends, whatever
its instructions do, after a number of steps that depends on nothing but the
recursion limit. -/
theorem runtimeThread_ends (store : Store) (p : Proc) (hc : Closed store p)
    (hacyclic : ∀ s, ReachableSlot store p s → ¬ TransGen (TailCalls store) s s)
    (handlers : Handlers S) (maxDepth : Nat) :
    ∃ m, runtimeThread store p handlers maxDepth = some m ∧ ∀ params,
      ∃ n ≤ frameCost maxPasses (maxDepth + 1), (m.steps n (m.start params)).Ended := by
  rcases onGraph_of_closed (S := S) hc with ⟨st, hrun, hgraph⟩
  have h := hgraph handlers maxDepth true
  refine ⟨.frozen store p st handlers maxDepth true, ?_, ?_⟩
  · rw [runtimeThread_eq store p handlers maxDepth hrun, if_neg (by simp)]
  intro params
  have hstart := h.start_numbered params
  rcases exists_stop RunState.Ended
      (fun r => r.control.cost (tailRank store) maxPasses maxDepth)
      (fun r hr hend => ⟨h.step_numbered hr, h.step_cost rfl (tailRank_le store) hr hend
        (h.lowersRank hacyclic hr.analysed)⟩) hstart with ⟨n, hn, hended⟩
  exact ⟨n, hn.trans (hstart.cost_le (tailRank_le store)), hended⟩

/-- The run of a procedure with two tail calls, the second to a procedure with one. -/
theorem runtimeThread_ends_tailRoot :
    ∃ m, runtimeThread tailStore tailRoot countHandlers 2 = some m ∧ ∀ params,
      ∃ n ≤ frameCost maxPasses 3, (m.steps n (m.start params)).Ended := by
  refine runtimeThread_ends tailStore tailRoot tailRoot_closed ?_ countHandlers 2
  have hcalls : ∀ s t, TailCalls tailStore s t → s = 2 ∧ t = 1 := by
    intro s t h
    unfold TailCalls tailStore at h
    split at h
    · cases h
    · split at h
      · rename_i hs
        have hone : t ∈ [(1 : UInt8)] := h
        exact ⟨hs, List.mem_singleton.mp hone⟩
      · cases h
  intro s _ hcycle
  rcases TransGen.head'_iff.mp hcycle with ⟨t, hst, hts⟩
  rcases TransGen.tail'_iff.mp hcycle with ⟨u, hsu, hus⟩
  exact absurd ((hcalls s t hst).1.symm.trans (hcalls u s hus).2) (by decide)

/-! ## Runs that go on -/

/-- Any run that has not ended after so many steps more reuses a frame in one of
them: nothing else can go on for ever. -/
theorem tailCall_within (store : Store) (p : Proc) (hc : Closed store p) (handlers : Handlers S)
    (maxDepth : Nat) :
    ∃ m, runtimeThread store p handlers maxDepth = some m ∧ ∀ params n,
      ∃ k ≤ frameCost (maxInstructions + 1) (maxDepth + 1),
        (m.steps (n + k) (m.start params)).Ended ∨
          m.AtTailCall (m.steps (n + k) (m.start params)) := by
  rcases onGraph_of_closed (S := S) hc with ⟨st, hrun, hgraph⟩
  have h := hgraph handlers maxDepth true
  refine ⟨.frozen store p st handlers maxDepth true, ?_, ?_⟩
  · rw [runtimeThread_eq store p handlers maxDepth hrun, if_neg (by simp)]
  intro params n
  -- between two tail calls all procedures have the same rank
  have hrank : ∀ ref : ProcRef, ((fun _ => 0) ref + 1) * (maxInstructions + 1) ≤
      maxInstructions + 1 := fun _ => (Nat.one_mul _).le
  have hreached := Runs.preserves (fun _ hr => h.step_numbered hr) ⟨n, rfl⟩
    (h.start_numbered params)
  rcases exists_stop
      (fun r => r.Ended ∨ (Interp.frozen store p st handlers maxDepth true).AtTailCall r)
      (fun r => r.control.cost (fun _ => 0) (maxInstructions + 1) maxDepth)
      (fun r hr hgoes => ⟨h.step_numbered hr, h.step_cost rfl hrank hr
        (fun hend => hgoes (.inl hend))
        fun f callers ins s hexec hins hcall hflag hmark =>
          absurd (.inr ⟨f, callers, ins, s, hexec, hins, hflag, hcall, hmark⟩) hgoes⟩)
      hreached with ⟨k, hk, hstop⟩
  refine ⟨k, hk.trans (hreached.cost_le hrank), ?_⟩
  rw [Interp.steps, Nat.add_comm, Function.iterate_add_apply]
  exact hstop

/-- Procedure 1 goes on as itself for ever: with room for one nested call, there is a
tail call in every window of so many steps. -/
theorem tailCall_within_mutualRoot :
    ∃ m, runtimeThread mutualStore mutualRoot countHandlers 1 = some m ∧ ∀ params n,
      ∃ k ≤ frameCost (maxInstructions + 1) 2,
        (m.steps (n + k) (m.start params)).Ended ∨
          m.AtTailCall (m.steps (n + k) (m.start params)) :=
  tailCall_within mutualStore mutualRoot mutualRoot_closed countHandlers 1

/-! ## Procedures that repeat -/

/-- The last instruction is a call, and in no clause of a condition. -/
def EndsInCall (l : List ProcInstruction) : Prop :=
  (l.getLast?.bind fun ins => ins.instruction.callSlot).isSome = true ∧
    ¬ IfelseBefore l (l.length - 1) 1 ∧ ¬ IfelseBefore l (l.length - 1) 2

/-- The frame has not come to the end of its procedure. -/
structure InLoop (l : List ProcInstruction) (f : Frame) : Prop where
  lt : f.i < l.length
  flag : FlagFrom l f.i f.flag

namespace EndsInCall

variable {l : List ProcInstruction} {f : Frame} {ins : ProcInstruction}

theorem last (h : EndsInCall l) :
    ∃ ins s, l[l.length - 1]? = some ins ∧ ins.instruction = .call s := by
  have hsome := h.1
  rw [List.getLast?_eq_getElem?] at hsome
  cases hlast : l[l.length - 1]? with
  | none => simp [hlast] at hsome
  | some ins =>
      rw [hlast, Option.bind_some, Option.isSome_iff_exists] at hsome
      rcases hsome with ⟨s, hs⟩
      exact ⟨ins, s, rfl, Instruction.eq_call hs⟩

theorem length_pos (h : EndsInCall l) : 0 < l.length := by
  rcases h.last with ⟨ins, -, hlast, -⟩
  exact Nat.zero_lt_of_lt (List.getElem?_eq_some_iff.mp hlast).1

theorem ne_nil (h : EndsInCall l) : l ≠ [] := List.length_pos_iff.mp h.length_pos

theorem start (h : EndsInCall l) {ref : ProcRef} {a d : Nat} :
    InLoop l ⟨ref, a, 0, .isNone, d⟩ :=
  ⟨h.length_pos, (flagFrom l).start⟩

/-- The last instruction is not skipped. -/
theorem lt_of_skipped (h : EndsInCall l) (hf : InLoop l f) (hflag : f.flag = .isFalse) :
    f.i + 1 < l.length := by
  have hlt := hf.lt
  by_contra hend
  obtain hi : f.i = l.length - 1 := by omega
  have hbefore := hf.flag.ifFalse hflag
  rw [hi] at hbefore
  exact hbefore.elim h.2.1 h.2.2

/-- An instruction other than a call has one after it. -/
theorem lt_of_handler (h : EndsInCall l) (hins : l[f.i]? = some ins)
    (hslot : ins.instruction.callSlot = none) : f.i + 1 < l.length := by
  have hlt := (List.getElem?_eq_some_iff.mp hins).1
  by_contra hend
  obtain hi : f.i = l.length - 1 := by omega
  rcases h.last with ⟨ins', s, hlast, hcall⟩
  rw [hi, hlast, Option.some.injEq] at hins
  rw [← hins, hcall] at hslot
  cases hslot

end EndsInCall

/-- Where a step from such a procedure leads: on with its loop, into a callee, or out
with an error, of a handler or of the recursion limit. -/
inductive RepeatStep (m : Interp S) (f : Frame) (r : RunState S) : Prop where
  | goesOn (f' : Frame) (callers : List Frame) (hcontrol : r.control = .exec f' callers)
      (hloop : InLoop (m.code f'.proc).instructions f')
  | failed (ins : ProcInstruction) (flag : IfElseFlag) (e : Effects S) (callers : List Frame)
      (hmem : ins ∈ (m.code f.proc).instructions)
      (hslot : ins.instruction.callSlot = none)
      (hret : (execHandler m.handlers ins flag e).1 ≠ 0)
      (hcontrol : r.control = .returning (execHandler m.handlers ins flag e).1 callers)
  | refused (callers : List Frame) (hcontrol : r.control = .returning (-1) callers)
      (hlimit : r.effects.limitReached = true)

section Repeat

variable {store : Store} {p : Proc} {st : AnalysisState} {m : Interp S}

theorem enter_repeats {ref : ProcRef} {a : Nat} (h : EndsInCall (m.code ref).instructions)
    (f : Frame) (callers : List Frame) (r : RunState S) :
    RepeatStep m f (m.enter ref a callers r) := by
  unfold Interp.enter
  split
  · exact .refused callers rfl rfl
  · exact .goesOn _ callers rfl h.start

theorem OnGraph.step_repeats (h : OnGraph store p st m) (hreuse : m.reuseFrames = true)
    (hrepeats : ∀ ref a, AnalysedAs st ref a → EndsInCall (m.code ref).instructions)
    {f : Frame} (callers : List Frame) (d : Nat) (e : Effects S)
    (hf : AnalysedAs st f.proc f.analysis) (hloop : InLoop (m.code f.proc).instructions f) :
    RepeatStep m f (m.step ⟨.exec f callers, d, e⟩) := by
  have hl := hrepeats f.proc f.analysis hf
  obtain ⟨ins, hins⟩ : ∃ ins, (m.code f.proc).instructions[f.i]? = some ins :=
    ⟨_, List.getElem?_eq_getElem hloop.lt⟩
  by_cases hflag : f.flag = .isFalse
  · rw [m.step_skip hins hflag]
    refine .goesOn _ callers rfl ⟨hl.lt_of_skipped hloop hflag, ?_⟩
    exact (flagFrom _).skip f.i (hflag ▸ hloop.flag)
  rw [m.step_instruction hins hflag]
  cases hslot : ins.instruction.callSlot with
  | none =>
      rw [m.execInstruction_handler hslot]
      by_cases hret : (execHandler m.handlers ins f.flag.next e).1 = 0
      · rw [hret, Interp.endPass_zero]
        refine .goesOn _ callers rfl ⟨hl.lt_of_handler hins hslot, ?_⟩
        exact (flagFrom _).handler hins hflag hloop.flag m.handlers e hret
      · rw [Interp.endPass_ne_zero hret]
        exact .failed ins _ _ callers (List.mem_of_getElem? hins) hslot hret rfl
  | some s =>
      have hcall := Instruction.eq_call hslot
      rw [m.execInstruction_call hcall]
      rcases h.procRuntimeCall_eq (f := { f with flag := f.flag.next }) hf hins hcall callers
        ⟨.exec f callers, d, e.log ins e.params⟩ with ⟨b, hb, heq⟩
      rw [heq, hreuse, Bool.and_true]
      split
      · exact .goesOn _ callers rfl (hrepeats _ _ hb).start
      · exact enter_repeats (hrepeats _ _ hb) f _ _

/-- The frames of a run that has not returned are in their loops. -/
def Control.InLoops (m : Interp S) : Control → Prop
  | .exec f _ => InLoop (m.code f.proc).instructions f
  | .returning ret _ => ret ≠ 0
  | .fault => False

theorem OnGraph.step_inLoops (h : OnGraph store p st m) (hreuse : m.reuseFrames = true)
    (hrepeats : ∀ ref a, AnalysedAs st ref a → EndsInCall (m.code ref).instructions)
    {r : RunState S} (hr : r.control.All (AnalysedAs st) False) (hloops : r.control.InLoops m) :
    (m.step r).control.InLoops m := by
  rcases r with ⟨control, d, e⟩
  cases control with
  | fault => exact hloops.elim
  | returning ret callers =>
      cases callers with
      | nil => exact hloops
      | cons c callers =>
          -- an error goes through to the caller's caller
          change (m.step (.returned (c :: callers) d (ret, e))).control.InLoops m
          rw [m.step_returned (ret, e) (.returning ret (c :: callers)),
            Interp.endPass_ne_zero hloops]
          exact hloops
  | exec f callers =>
      cases h.step_repeats hreuse hrepeats callers d e hr.1 hloops with
      | goesOn f' callers' hcontrol hloop =>
          rw [hcontrol]
          exact hloop
      | failed ins flag e' callers' _ _ hret hcontrol =>
          rw [hcontrol]
          exact hret
      | refused callers' hcontrol =>
          rw [hcontrol]
          exact (by decide : (-1 : Int) ≠ 0)

/-- The run is in the loop of its only frame, and no call has been refused. -/
structure StaysInLoop (st : AnalysisState) (m : Interp S) (r : RunState S) : Prop where
  analysed : r.control.All (AnalysedAs st) False
  inLoops : r.control.InLoops m
  frame : ∃ f, r.control = .exec f []
  notRefused : r.effects.limitReached = false

/-- Without errors and nested calls a run stays in the loop of its frame. -/
theorem OnGraph.step_staysInLoop (h : OnGraph store p st m) (hreuse : m.reuseFrames = true)
    (hrepeats : ∀ ref a, AnalysedAs st ref a → EndsInCall (m.code ref).instructions)
    (htail : OnlyTailCalls store p)
    (hok : ∀ ref a, AnalysedAs st ref a → ∀ ins ∈ (m.code ref).instructions,
      ins.instruction.callSlot = none → ∀ flag e, (execHandler m.handlers ins flag e).1 = 0)
    {r : RunState S} (hr : StaysInLoop st m r) : StaysInLoop st m (m.step r) := by
  have hanalysed := h.step_ok hr.analysed
  have hloops := h.step_inLoops hreuse hrepeats hr.analysed hr.inLoops
  rcases hr.frame with ⟨f, hexec⟩
  rcases r with ⟨control, d, e⟩
  obtain rfl : control = .exec f [] := hexec
  have hf : AnalysedAs st f.proc f.analysis := hr.analysed.1
  have hcalls : ∀ ins s, f.flag ≠ .isFalse → (m.code f.proc).instructions[f.i]? = some ins →
      ins.instruction = .call s → analyzeTailCall (m.code f.proc).instructions f.i = true := by
    intro ins s _ hins hcall
    rw [h.code] at hins ⊢
    exact htail f.proc (h.ref_reachable hf) f.i ins s hins hcall
  rcases h.step_inFrame hreuse (r := ⟨.exec f [], d, e⟩) rfl hf hcalls with ⟨hnext, hlimit⟩
  refine ⟨hanalysed, hloops, ?_, hlimit.trans hr.notRefused⟩
  rcases hnext with hframe | ⟨ret, hret⟩
  · exact hframe
  · -- a return would be an error, and there is none
    cases h.step_repeats hreuse hrepeats [] d e hf hr.inLoops with
    | goesOn f' callers' hcontrol =>
        rw [hcontrol] at hret
        cases hret
    | failed ins flag e' callers' hmem hslot hne =>
        exact absurd (hok _ _ hf ins hmem hslot flag e') hne
    | refused callers' _ hrefused =>
        exact absurd (hrefused.symm.trans (hlimit.trans hr.notRefused)) (by decide)

end Repeat

/-- Where the procedures of a run all end in an unconditional call, the run returns
nothing but errors. If besides all calls are tail calls and no instruction ever
fails, it goes on in its only frame for ever. -/
theorem only_errors (store : Store) (p : Proc)
    (hrepeats : ∀ ref : ProcRef, (ref = .root ∨ ∃ s, ref = .slot s ∧ ReachableSlot store p s) →
      EndsInCall (ref.deref p store).instructions)
    (handlers : Handlers S) (maxDepth : Nat) :
    ∃ m, runtimeThread store p handlers maxDepth = some m ∧ ∀ params n,
      (∀ ret callers, (m.steps n (m.start params)).control = .returning ret callers → ret ≠ 0) ∧
      (OnlyTailCalls store p →
        (∀ ref : ProcRef, (ref = .root ∨ ∃ s, ref = .slot s ∧ ReachableSlot store p s) →
          ∀ ins ∈ (ref.deref p store).instructions, ins.instruction.callSlot = none →
            ∀ flag e, (execHandler handlers ins flag e).1 = 0) →
        ∃ f, (m.steps n (m.start params)).control = .exec f []) := by
  have hc : Closed store p := fun s hs =>
    Store.occupied_eq_true.mpr (hrepeats (.slot s) (.inr ⟨s, rfl, hs⟩)).ne_nil
  rcases onGraph_of_closed (S := S) hc with ⟨st, hrun, hgraph⟩
  have h := hgraph handlers maxDepth true
  refine ⟨.frozen store p st handlers maxDepth true, ?_, ?_⟩
  · rw [runtimeThread_eq store p handlers maxDepth hrun, if_neg (by simp)]
  intro params n
  let m := Interp.frozen store p st handlers maxDepth true
  have hcode : ∀ ref a, AnalysedAs st ref a → EndsInCall (m.code ref).instructions :=
    fun ref a ha => hrepeats ref (h.ref_reachable ha)
  have hstart : StaysInLoop st m (m.start params) := by
    unfold Interp.start
    rw [m.enter_of_le _ _ _ (Nat.zero_le _)]
    exact ⟨⟨h.root_analysed, by simp⟩, (hcode .root 0 h.root_analysed).start, ⟨_, rfl⟩, rfl⟩
  constructor
  · intro ret callers hret
    have hall := Runs.preserves
      (P := fun r : RunState S => r.control.All (AnalysedAs st) False ∧ r.control.InLoops m)
      (fun r hr => ⟨h.step_ok hr.1, h.step_inLoops rfl hcode hr.1 hr.2⟩)
      ⟨n, rfl⟩ ⟨hstart.analysed, hstart.inLoops⟩
    have hloops := hall.2
    rw [Interp.steps] at hret
    rw [hret] at hloops
    exact hloops
  · intro htail hok
    have hgoes := Runs.preserves (P := StaysInLoop st m)
      (fun r hr => h.step_staysInLoop rfl hcode htail
        (fun ref a ha => hok ref (h.ref_reachable ha)) hr) ⟨n, rfl⟩ hstart
    exact hgoes.frame

/-- The procedure of the README that logs a data point whenever the vehicle is in the
area: it waits for `geo_check`, sets `sensor_log` on node 2 and calls itself. -/
def geoFencingCheck : Proc where
  instructions := [
    ⟨1, .block ⟨[103, 101, 111, 95, 99, 104, 101, 99, 107], by decide⟩ 1
      ⟨[95, 122, 101, 114, 111], by decide⟩⟩,
    ⟨2, .set ⟨[115, 101, 110, 115, 111, 114, 95, 108, 111, 103], by decide⟩ (.ofBytes [49] rfl)⟩,
    ⟨2, .call 1⟩]
  length_le := by decide

def geoFencingStore : Store := fun s => if s = 1 then geoFencingCheck else Proc.empty

/-- It keeps logging. -/
theorem only_errors_geoFencingCheck :
    ∃ m, runtimeThread geoFencingStore geoFencingCheck countHandlers 0 = some m ∧
      ∀ n, ∃ f, (m.steps n (m.start 0)).control = .exec f [] := by
  have hcovers : coversCalls geoFencingStore geoFencingCheck [1] = true := by decide
  have hrefs : ∀ ref : ProcRef,
      (ref = .root ∨ ∃ s, ref = .slot s ∧ ReachableSlot geoFencingStore geoFencingCheck s) →
      ref.deref geoFencingCheck geoFencingStore = geoFencingCheck := by
    rintro ref (rfl | ⟨s, rfl, hs⟩)
    · rfl
    · obtain rfl : s = 1 := List.mem_singleton.mp (hs.mem hcovers)
      rfl
  have hrepeats : EndsInCall geoFencingCheck.instructions :=
    ⟨by decide, by unfold IfelseBefore; decide, by unfold IfelseBefore; decide⟩
  rcases only_errors geoFencingStore geoFencingCheck
    (fun ref href => by rw [hrefs ref href]; exact hrepeats) countHandlers 0 with ⟨m, hm, hall⟩
  refine ⟨m, hm, fun n => (hall 0 n).2 ?_ ?_⟩
  · intro ref href i ins s hins hcall
    rw [hrefs ref href] at hins ⊢
    rcases i with _ | _ | _ | i
    · cases hins
      cases hcall
    · cases hins
      cases hcall
    · decide
    · cases hins
  · intro ref href ins hins hslot flag e
    rw [hrefs ref href] at hins
    simp only [geoFencingCheck, List.mem_cons, List.not_mem_nil, or_false] at hins
    rcases hins with rfl | rfl | rfl
    · rfl
    · rfl
    · cases hslot

end CspProc
