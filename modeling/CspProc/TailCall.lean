import CspProc.Nested

/-! # Tail calls

A call that `analyze_tail_call` marks has nothing to do after it: what the loop
still finds is skipped or a `noop` (`execLoop_after_tailCall`). The mark is
computed from the neighbours of the call, while the loop goes by its flag;
`FlagAt` relates the two. So the frame can be reused for the callee, with the
same effects and the same code, and it is reused at a depth that is never
larger than the depth of the nested call.
-/

namespace CspProc

variable {S : Type}

/-! ## The flag and the neighbours of an instruction -/

/-- The instruction `k` before index `i` is an `ifelse`. -/
def IfelseBefore (l : List ProcInstruction) (i k : Nat) : Prop :=
  k ≤ i ∧ isIfelseAt l (i - k) = true

/-- The flag at index `i` comes from an `ifelse` just before. -/
structure FlagFrom (l : List ProcInstruction) (i : Nat) (flag : IfElseFlag) : Prop where
  ifTrue : flag = .isTrue → IfelseBefore l i 1
  ifFalse : flag = .isFalse → IfelseBefore l i 1 ∨ IfelseBefore l i 2

/-- What the flag says of the two instructions before index `i`. -/
structure FlagAt (l : List ProcInstruction) (i : Nat) (flag : IfElseFlag) : Prop
    extends FlagFrom l i flag where
  after : IfelseBefore l i 1 → flag = .isTrue ∨ flag = .isFalse

theorem isIfelseAt_of_getElem? {l : List ProcInstruction} {i : Nat} {ins : ProcInstruction}
    (h : l[i]? = some ins) : isIfelseAt l i = ins.instruction.isIfelse := by
  rw [isIfelseAt, h]
  rfl

theorem ifelseBefore_succ_one {l : List ProcInstruction} {i : Nat} :
    IfelseBefore l (i + 1) 1 ↔ isIfelseAt l i = true := by
  simp [IfelseBefore]

theorem ifelseBefore_succ_two {l : List ProcInstruction} {i : Nat} :
    IfelseBefore l (i + 1) 2 ↔ IfelseBefore l i 1 := by
  simp [IfelseBefore]

/-- A flag that skips or is about to comes from an `ifelse`, whatever the procedure. -/
theorem flagFrom (l : List ProcInstruction) : LoopInvariant l (FlagFrom l) where
  start := ⟨nofun, nofun⟩
  skip _ _ := ⟨nofun, nofun⟩
  plain i ins flag _ _ hflag hi := by
    refine ⟨fun hnext => ?_, fun hnext => ?_⟩
    · cases flag <;> cases hnext
    · -- only the if-clause leaves a flag that skips
      right
      rw [ifelseBefore_succ_two]
      cases flag with
      | isTrue => exact hi.ifTrue rfl
      | isFalse => exact absurd rfl hflag
      | _ => cases hnext
  ifelse i ins flag hins hif _ _ := by
    have hbefore : IfelseBefore l (i + 1) 1 := by
      rw [ifelseBefore_succ_one, isIfelseAt_of_getElem? hins, hif]
    exact ⟨⟨fun _ => hbefore, nofun⟩, ⟨nofun, fun _ => .inl hbefore⟩⟩

namespace Restricted

variable {l : List ProcInstruction}

/-- The two instructions after an `ifelse` are none. -/
theorem not_ifelse (h : Restricted l) {i : Nat} (hi : IfelseBefore l i 1 ∨ IfelseBefore l i 2) :
    isIfelseAt l i = false := by
  have hlt : ∀ j, isIfelseAt l j = true → j < l.length := by
    intro j hj
    by_contra hge
    rw [isIfelseAt, List.getElem?_eq_none (Nat.le_of_not_lt hge)] at hj
    cases hj
  rcases hi with ⟨hle, hif⟩ | ⟨hle, hif⟩
  · have h1 := (h _ (hlt _ hif) hif).1
    rwa [Nat.sub_add_cancel hle] at h1
  · have h2 := (h _ (hlt _ hif) hif).2
    rwa [Nat.sub_add_cancel hle] at h2

/-- In a restricted procedure the flag keeps saying so. -/
theorem flagAt (h : Restricted l) : LoopInvariant l (FlagAt l) where
  start := ⟨(flagFrom l).start, fun ⟨hle, _⟩ => absurd hle (by omega)⟩
  skip i hi := by
    refine ⟨(flagFrom l).skip i hi.toFlagFrom, fun hbefore => ?_⟩
    rw [ifelseBefore_succ_one, h.not_ifelse (hi.ifFalse rfl)] at hbefore
    cases hbefore
  plain i ins flag hins hif hflag hi := by
    refine ⟨(flagFrom l).plain i ins flag hins hif hflag hi.toFlagFrom, fun hbefore => ?_⟩
    rw [ifelseBefore_succ_one, isIfelseAt_of_getElem? hins, hif] at hbefore
    cases hbefore
  ifelse i ins flag hins hif hflag hi := by
    rcases (flagFrom l).ifelse i ins flag hins hif hflag hi.toFlagFrom with ⟨htrue, hfalse⟩
    exact ⟨⟨htrue, fun _ => .inl rfl⟩, ⟨hfalse, fun _ => .inr rfl⟩⟩

end Restricted

/-! ## After a tail call -/

section After

variable (h : Handlers S) (call : UInt8 → Cmd (Effects S))

theorem execLoop_noops {l : List ProcInstruction}
    (hl : l.all (fun ins => ins.instruction.isNoop) = true) (flag : IfElseFlag) (e : Effects S) :
    execLoop h call l flag e = (0, e) := by
  induction l generalizing flag with
  | nil => rfl
  | cons ins l ih =>
      rw [List.all_cons, Bool.and_eq_true] at hl
      rcases hl with ⟨hnoop, hrest⟩
      by_cases hflag : flag = .isFalse
      · subst hflag
        rw [execLoop_skip, ih hrest]
      · rw [execLoop, if_neg hflag]
        cases hins : ins.instruction with
        | noop => simpa [execHandler, hins] using ih hrest flag.next
        | _ => simp [hins, Instruction.isNoop] at hnoop

/-- After a call that is marked there is nothing left to do. -/
theorem execLoop_after_tailCall {l : List ProcInstruction} {i : Nat} {flag : IfElseFlag}
    (htail : analyzeTailCall l i = true) (hi : FlagAt l i flag) (hflag : flag ≠ .isFalse)
    (e : Effects S) : execLoop h call (l.drop (i + 1)) flag.next e = (0, e) := by
  unfold analyzeTailCall at htail
  split at htail
  case isTrue hclause =>
    -- an if-clause: the else-clause is skipped
    simp only [Bool.and_eq_true, decide_eq_true_eq] at hclause
    rcases hclause with ⟨⟨hpos, hif⟩, hlt⟩
    have htrue : flag = .isTrue := (hi.after ⟨hpos, hif⟩).resolve_right hflag
    subst htrue
    rw [List.drop_eq_getElem_cons hlt, IfElseFlag.next, execLoop_skip]
    exact execLoop_noops h call htail _ e
  case isFalse hclause =>
    split at htail
    case isTrue => exact execLoop_noops h call htail _ e
    case isFalse hlast =>
      -- an if-clause at the end
      simp only [Bool.and_eq_true, decide_eq_true_eq, Bool.or_eq_true, not_or,
        Bool.not_eq_true', Bool.not_eq_false] at hclause hlast
      have hend : l.length ≤ i + 1 := by
        by_contra hlt
        exact hclause ⟨⟨Nat.pos_of_ne_zero hlast.1, hlast.2⟩, by omega⟩
      rw [List.drop_eq_nil_of_le hend]
      rfl

end After

/-! ## The recursion limit -/

/-- Every handler leaves the mark of a refused call alone. -/
theorem execHandler_limitReached (h : Handlers S) (ins : ProcInstruction) (flag : IfElseFlag)
    (e : Effects S) : (execHandler h ins flag e).2.2.limitReached = e.limitReached := by
  unfold execHandler
  cases ins.instruction <;> rfl

theorem execLoop_limitReached (h : Handlers S) {call : UInt8 → Cmd (Effects S)}
    (hcall : ∀ s e, e.limitReached = true → (call s e).2.limitReached = true)
    (l : List ProcInstruction) (flag : IfElseFlag) (e : Effects S) (he : e.limitReached = true) :
    (execLoop h call l flag e).2.limitReached = true := by
  induction l generalizing flag e with
  | nil => exact he
  | cons ins l ih =>
      by_cases hflag : flag = .isFalse
      · subst hflag
        rw [execLoop_skip]
        exact ih _ _ he
      cases hslot : ins.instruction.callSlot with
      | none =>
          have hkeep := (execHandler_limitReached h ins flag.next e).trans he
          rw [execLoop_handler h call hslot l hflag]
          split
          · exact hkeep
          · exact ih _ _ hkeep
      | some s =>
          have hlog := hcall s (e.log ins e.params) he
          rw [execLoop_call h call (Instruction.eq_call hslot) l hflag, Cmd.seq]
          split
          · exact ih _ _ hlog
          · exact hlog

/-- A call that was refused stays on record. -/
theorem execNested_limitReached (h : Handlers S) (store : Store) (k : Nat) (p : Proc)
    (e : Effects S) (he : e.limitReached = true) :
    (execNested h store k p e).2.limitReached = true := by
  induction k generalizing p e with
  | zero => rfl
  | succ k ih => exact execLoop_limitReached h (fun s e => ih (store s) e) _ _ e he

namespace Interp

variable (m : Interp S)

theorem endPass_effects (ret : Int) (f : Frame) (callers : List Frame) (r : RunState S) :
    (endPass ret f callers r).effects = r.effects := by
  unfold endPass
  split <;> rfl

theorem enter_limitReached (ref : ProcRef) (a : Nat) (callers : List Frame) (r : RunState S)
    (hr : r.effects.limitReached = true) :
    (m.enter ref a callers r).effects.limitReached = true := by
  unfold enter
  split
  · rfl
  · exact hr

theorem procRuntimeCall_limitReached (s : UInt8) (f : Frame) (callers : List Frame)
    (r : RunState S) (hr : r.effects.limitReached = true) :
    (m.procRuntimeCall s f callers r).effects.limitReached = true := by
  unfold procRuntimeCall
  simp only
  split
  · exact hr
  · split
    · split
      · exact hr
      · exact m.enter_limitReached _ _ _ _ hr
    · exact hr

/-- No step takes the mark of a refused call back. -/
theorem step_limitReached (r : RunState S) (hr : r.effects.limitReached = true) :
    (m.step r).effects.limitReached = true := by
  rcases r with ⟨control, d, e⟩
  cases control with
  | fault => exact hr
  | returning ret callers =>
      cases callers with
      | nil => exact hr
      | cons f callers => rwa [step, endPass_effects]
  | exec f callers =>
      cases hins : (m.code f.proc).instructions[f.i]? with
      | none => rwa [m.step_end hins]
      | some ins =>
          by_cases hflag : f.flag = .isFalse
          · rwa [m.step_skip hins hflag]
          rw [m.step_instruction hins hflag]
          cases hslot : ins.instruction.callSlot with
          | none =>
              rw [m.execInstruction_handler hslot, endPass_effects]
              exact (execHandler_limitReached m.handlers ins _ e).trans hr
          | some s =>
              rw [m.execInstruction_call (Instruction.eq_call hslot)]
              exact m.procRuntimeCall_limitReached _ _ _ _ hr

end Interp

/-! ## Reused frames -/

section Reuse

variable {store : Store} {p : Proc} {st : AnalysisState} {m : Interp S}

/-- The states in which a call has been refused. -/
def LimitReached (r : RunState S) : Prop := r.effects.limitReached = true

/-- With reused frames every procedure of the call graph returns what
`execNested` computes with `k` entries, unless a call is refused: in the nested
reading, or here when this happens sooner. -/
theorem OnGraph.enter_reused (h : OnGraph store p st m) (hreuse : m.reuseFrames = true)
    (hr : ∀ ref a, AnalysedAs st ref a → Restricted (m.code ref).instructions)
    (nestedDepth : Nat) (k : Nat) {ref : ProcRef} {a d : Nat} (hd : d + k ≤ nestedDepth + 1)
    (ha : AnalysedAs st ref a) (callers : List Frame) (c : Control) (e : Effects S) :
    RunsUnless LimitReached (fun r => m.maxDepth < nestedDepth ∧ LimitReached r) m.step
      (m.enter ref a callers ⟨c, d, e⟩)
      (.returned callers d (execNested m.handlers store k (m.code ref) e)) := by
  induction k generalizing ref a d callers c e with
  | zero => exact .of_lost rfl
  | succ k ih =>
      by_cases hle : d ≤ m.maxDepth
      case neg =>
        -- only this run's limit is reached, which is then the smaller one
        rw [m.enter_of_gt _ _ _ (by omega)]
        exact .of_bad .refl ⟨by omega, rfl⟩
      refine enter_runs hle (hr ref a ha).flagAt ?_ c e
      intro i ins s flag c e hins hcall hflag hi hrest
      obtain ⟨b, hb, heq⟩ := h.procRuntimeCall_eq (f := ⟨ref, a, i, flag.next, d⟩) ha hins hcall
        callers ⟨c, d + 1, e⟩
      rw [heq, hreuse, Bool.and_true]
      split
      case isTrue htail =>
        -- the frame goes on in the callee, as if that were entered at the same depth
        rw [Cmd.seq_of_idle (execLoop_after_tailCall m.handlers _ htail hi hflag)]
        have hrun := ih (d := d) (by omega) hb callers c e
        rw [h.code_slot, m.enter_of_le _ _ _ hle] at hrun
        exact hrun
      case isFalse =>
        have hrun := ih (d := d + 1) (by omega) hb (⟨ref, a, i, flag.next, d⟩ :: callers) c e
        rw [h.code_slot] at hrun
        refine hrun.trans (.head ?_) ?_
        · rw [m.step_returned _ c]
          exact endPass_runs c (hrest _)
        · -- a call that was refused in the callee counts for the caller too
          intro hlost
          unfold Cmd.seq
          split
          · refine execLoop_limitReached m.handlers ?_ _ _ _ hlost
            exact fun s e => execNested_limitReached m.handlers store k (store s) e
          · exact hlost

end Reuse

/-- The variant of an interpreter in which every call is nested, with its own
recursion limit. -/
def Interp.nested (m : Interp S) (nestedDepth : Nat) : Interp S :=
  { m with maxDepth := nestedDepth, reuseFrames := false }

/-- On a call graph the nested variant returns, with what `execNested` computes. -/
theorem OnGraph.nested_returns {store : Store} {p : Proc} {st : AnalysisState} {m : Interp S}
    (h : OnGraph store p st m) (nestedDepth : Nat) (params : S) :
    Runs (m.nested nestedDepth).step ((m.nested nestedDepth).start params)
      (.returned [] 0 (execNested m.handlers store (nestedDepth + 1) p ⟨params, [], false⟩)) := by
  have hnested : OnGraph store p st (m.nested nestedDepth) := ⟨h.code, h.node, h.done, h.closed⟩
  have hrun := hnested.enter_nested rfl (nestedDepth + 1) (d := 0) rfl hnested.root_analysed []
    (.returning 0 []) ⟨params, [], false⟩
  rwa [hnested.code_root] at hrun

/-- Reusing the frame of a tail call preserves the meaning of a run: where all
reachable slots are occupied and no procedure has an `ifelse` close after
another, the run and its nested variant return the same code with the same
parameters after the same instructions, as long as no call is refused. When the
limit of the nested variant is not the larger one, this need not be assumed of
the run itself. -/
theorem tailCalls_preserve_run (store : Store) (p : Proc) (hc : Closed store p)
    (hroot : Restricted p.instructions)
    (hslots : ∀ s, ReachableSlot store p s → Restricted (store s).instructions)
    (handlers : Handlers S) (maxDepth nestedDepth : Nat) (params : S) {code : Interp S}
    (hcode : runtimeThread store p handlers maxDepth = some code)
    (hnested : ∀ n, ¬ LimitReached
      ((code.nested nestedDepth).steps n ((code.nested nestedDepth).start params)))
    (hreused : maxDepth < nestedDepth →
      ∀ n, ¬ LimitReached (code.steps n (code.start params))) :
    ∃ out, Runs (code.nested nestedDepth).step ((code.nested nestedDepth).start params)
        (.returned [] 0 out) ∧
      Runs code.step (code.start params) (.returned [] 0 out) := by
  obtain ⟨st, hrun, hgraph⟩ := onGraph_of_closed (S := S) hc
  rw [runtimeThread_eq store p handlers maxDepth hrun, if_neg (by simp)] at hcode
  cases hcode
  have h := hgraph handlers maxDepth true
  have hreturns := h.nested_returns nestedDepth params
  refine ⟨_, hreturns, ?_⟩
  have hrestricted : ∀ ref a, AnalysedAs st ref a →
      Restricted (ref.deref p store).instructions := by
    intro ref a ha
    rcases h.ref_reachable ha with rfl | ⟨s, rfl, hs⟩
    · exact hroot
    · exact hslots s hs
  have hreuse := h.enter_reused rfl hrestricted nestedDepth (nestedDepth + 1) (d := 0) (by omega)
    h.root_analysed [] (.returning 0 []) ⟨params, [], false⟩
  refine hreuse.runs ?_ ?_
  · -- the nested variant returns with what `execNested` computes
    rcases hreturns with ⟨n, hn⟩
    intro hlost
    refine hnested n ?_
    rw [Interp.steps, hn]
    exact hlost
  · rintro u ⟨n, rfl⟩ ⟨hlt, hbad⟩
    exact hreused hlt n hbad

/-- A run that has returned without a refused call has refused none before. -/
theorem not_limitReached_of_runs {m : Interp S} {r : RunState S} {d : Nat}
    {out : Int × Effects S} (h : Runs m.step r (.returned [] d out))
    (hout : out.2.limitReached = false) (n : Nat) : ¬ LimitReached (m.steps n r) := by
  intro hlimit
  have hrest : Runs m.step (m.steps n r) (.returned [] d out) := h.to_halted rfl ⟨n, rfl⟩
  have hend : LimitReached (.returned [] d out) := hrest.preserves m.step_limitReached hlimit
  rw [LimitReached, RunState.returned, hout] at hend
  cases hend

/-- The procedure in slot 2 ends with a tail call of slot 1, as an if-clause. -/
def tailStore : Store := fun s =>
  if s = 1 then ⟨[⟨0, .setNil⟩], by decide⟩
  else if s = 2 then ⟨[⟨1, .setNil⟩, ⟨2, .ifelseNil⟩, ⟨3, .call 1⟩, ⟨4, .setNil⟩], by decide⟩
  else Proc.empty

/-- Both clauses are tail calls. -/
def tailRoot : Proc :=
  ⟨[⟨5, .ifelseNil⟩, ⟨6, .call 1⟩, ⟨7, .call 2⟩, ⟨8, .noop⟩], by decide⟩

theorem tailRoot_closed : Closed tailStore tailRoot :=
  .of_covers [1, 2] (by decide) (by decide)

theorem tailCalls_preserve_run_tailRoot :
    ∃ code, runtimeThread tailStore tailRoot countHandlers 2 = some code ∧
      ∃ out, Runs (code.nested 2).step ((code.nested 2).start 0) (.returned [] 0 out) ∧
        Runs code.step (code.start 0) (.returned [] 0 out) := by
  obtain ⟨st, hrun, hgraph⟩ := onGraph_of_closed (S := Nat) tailRoot_closed
  refine ⟨.frozen tailStore tailRoot st countHandlers 2 true, ?_, ?_⟩
  · rw [runtimeThread_eq tailStore tailRoot countHandlers 2 hrun, if_neg (by simp)]
  · have hreturns := (hgraph countHandlers 2 true).nested_returns 2 0
    have hcovers : coversCalls tailStore tailRoot [1, 2] = true := by decide
    have hslots : [1, 2].all (fun t => decide (Restricted (tailStore t).instructions)) = true := by
      decide
    refine tailCalls_preserve_run tailStore tailRoot tailRoot_closed (by decide) ?_ countHandlers
      2 2 0 ?_ (not_limitReached_of_runs hreturns rfl) (fun hlt => absurd hlt (by decide))
    · intro s hs
      simpa using List.all_eq_true.mp hslots s (hs.mem hcovers)
    · rw [runtimeThread_eq tailStore tailRoot countHandlers 2 hrun, if_neg (by simp)]

end CspProc
