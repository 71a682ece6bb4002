import CspProc.Accepted
import CspProc.Structured

/-! # Frames and their calls

The machine of `proc_instructions_exec` executes a frame as `execLoop` does.
`execLoop_runs` proves this once, for any way in which the calls of the frame
get done; whether they are nested or reuse the frame is left to its callers.

With nested calls the machine computes the structured reading, and a code
other than 0 goes through to the outermost call.
-/

namespace CspProc

variable {S : Type}

/-! ## The loop, instruction by instruction -/

/-- The loop at an instruction that is left to a handler. -/
theorem execLoop_handler (h : Handlers S) (call : UInt8 → Cmd (Effects S))
    {ins : ProcInstruction} (hins : ins.instruction.callSlot = none) (rest : List ProcInstruction)
    {flag : IfElseFlag} (hflag : flag ≠ .isFalse) (e : Effects S) :
    execLoop h call (ins :: rest) flag e =
      if (execHandler h ins flag.next e).1 ≠ 0 then
        ((execHandler h ins flag.next e).1, (execHandler h ins flag.next e).2.2)
      else
        execLoop h call rest (execHandler h ins flag.next e).2.1
          (execHandler h ins flag.next e).2.2 := by
  rw [execLoop, if_neg hflag]
  cases hbody : ins.instruction with
  | call s => simp [hbody, Instruction.callSlot] at hins
  | _ => rfl

/-- The loop at a call. -/
theorem execLoop_call (h : Handlers S) (call : UInt8 → Cmd (Effects S))
    {ins : ProcInstruction} {s : UInt8} (hins : ins.instruction = .call s)
    (rest : List ProcInstruction) {flag : IfElseFlag} (hflag : flag ≠ .isFalse) (e : Effects S) :
    execLoop h call (ins :: rest) flag e =
      Cmd.seq (call s) (execLoop h call rest flag.next) (e.log ins e.params) := by
  rw [execLoop, if_neg hflag]
  simp only [hins, Cmd.seq, ne_eq, ite_not]

/-! ## The loop of a frame -/

/-- What is known of the flag at every index of a procedure. -/
structure LoopInvariant (l : List ProcInstruction) (J : Nat → IfElseFlag → Prop) : Prop where
  start : J 0 .isNone
  skip : ∀ i, J i .isFalse → J (i + 1) .isNone
  plain : ∀ i ins flag, l[i]? = some ins → ins.instruction.isIfelse = false → flag ≠ .isFalse →
    J i flag → J (i + 1) flag.next
  ifelse : ∀ i ins flag, l[i]? = some ins → ins.instruction.isIfelse = true → flag ≠ .isFalse →
    J i flag → J (i + 1) .isTrue ∧ J (i + 1) .isFalse

theorem LoopInvariant.trivial (l : List ProcInstruction) : LoopInvariant l fun _ _ => True where
  start := .intro
  skip _ _ := .intro
  plain _ _ _ _ _ _ _ := .intro
  ifelse _ _ _ _ _ _ _ := ⟨.intro, .intro⟩

section Loop

variable (m : Interp S) (lost bad : RunState S → Prop) (J : Nat → IfElseFlag → Prop)
variable (ref : ProcRef) (a d : Nat) (callers : List Frame) (call : UInt8 → Cmd (Effects S))

variable {m lost bad} in
/-- The end of a pass, and the rest of the loop when it goes on. -/
theorem endPass_runs {f : Frame} {callers : List Frame} {d : Nat} {first rest : Cmd (Effects S)}
    {e : Effects S} (c : Control)
    (hrest : RunsUnless lost bad m.step ⟨.exec { f with i := f.i + 1 } callers, d, (first e).2⟩
      (.returned callers f.recursionDepth (rest (first e).2))) :
    RunsUnless lost bad m.step (Interp.endPass (first e).1 f callers ⟨c, d, (first e).2⟩)
      (.returned callers f.recursionDepth (Cmd.seq first rest e)) := by
  by_cases hret : (first e).1 = 0
  · rw [Cmd.seq_of_zero _ hret, hret, Interp.endPass_zero]
    exact hrest
  · rw [Cmd.seq_of_ne_zero _ hret, Interp.endPass_ne_zero hret]
    exact .of_runs .refl

/-- The calls of a frame get done: where the frame returns the result of the
rest of the loop from the pass after a call, it returns the result of the call
and the rest from the call. -/
def CallsDone : Prop :=
  ∀ i ins s flag c e, (m.code ref).instructions[i]? = some ins → ins.instruction = .call s →
    flag ≠ .isFalse → J i flag →
    (∀ e', RunsUnless lost bad m.step ⟨.exec ⟨ref, a, i + 1, flag.next, d⟩ callers, d + 1, e'⟩
      (.returned callers d (execLoop m.handlers call ((m.code ref).instructions.drop (i + 1))
        flag.next e'))) →
    RunsUnless lost bad m.step
      (m.procRuntimeCall s ⟨ref, a, i, flag.next, d⟩ callers ⟨c, d + 1, e⟩)
      (.returned callers d (Cmd.seq (call s)
        (execLoop m.handlers call ((m.code ref).instructions.drop (i + 1)) flag.next) e))

variable {m lost bad J ref a d callers call}

/-- The flag that a handler leaves when the loop goes on. -/
theorem LoopInvariant.handler {l : List ProcInstruction} (hJ : LoopInvariant l J) {i : Nat}
    {ins : ProcInstruction} {flag : IfElseFlag} (hins : l[i]? = some ins)
    (hflag : flag ≠ .isFalse) (hi : J i flag) (h : Handlers S) (e : Effects S)
    (hret : (execHandler h ins flag.next e).1 = 0) :
    J (i + 1) (execHandler h ins flag.next e).2.1 := by
  cases hif : ins.instruction.isIfelse with
  | false =>
      have hsame : (execHandler h ins flag.next e).2.1 = flag.next := by
        unfold execHandler
        cases hbody : ins.instruction <;> simp_all [Instruction.isIfelse]
      rw [hsame]
      exact hJ.plain i ins flag hins hif hflag hi
  | true =>
      rcases hJ.ifelse i ins flag hins hif hflag hi with ⟨htrue, hfalse⟩
      unfold execHandler at hret ⊢
      cases hbody : ins.instruction <;> simp_all [Instruction.isIfelse]
      -- the outcomes that are errors have codes other than 0
      revert hret
      cases (h.ifelse ins e.params).1 with
      | holds => exact fun _ => htrue
      | fails => exact fun _ => hfalse
      | err | errType => exact fun hret => absurd (hret (by decide)) (by decide)

/-- A frame runs through its loop and returns the loop's result. -/
theorem execLoop_runs (hJ : LoopInvariant (m.code ref).instructions J)
    (hcall : CallsDone m lost bad J ref a d callers call) (rest : List ProcInstruction) (i : Nat)
    (flag : IfElseFlag) (e : Effects S) (hrest : (m.code ref).instructions.drop i = rest)
    (hi : J i flag) :
    RunsUnless lost bad m.step ⟨.exec ⟨ref, a, i, flag, d⟩ callers, d + 1, e⟩
      (.returned callers d (execLoop m.handlers call rest flag e)) := by
  induction rest generalizing i flag e with
  | nil =>
      -- past the last instruction the frame returns 0
      have hend : (m.code ref).instructions[i]? = none := by
        rw [List.getElem?_eq_none_iff, ← List.drop_eq_nil_iff]
        exact hrest
      refine RunsUnless.head ?_
      rw [m.step_end hend]
      exact .of_runs .refl
  | cons ins rest ih =>
      have hins : (m.code ref).instructions[i]? = some ins := by
        rw [← List.head?_drop, hrest]
        rfl
      have hnext : (m.code ref).instructions.drop (i + 1) = rest := by
        rw [← List.tail_drop, hrest]
        rfl
      refine RunsUnless.head ?_
      by_cases hflag : flag = .isFalse
      · -- the clause of a condition that does not hold
        subst hflag
        rw [m.step_skip hins rfl, execLoop_skip]
        exact ih (i + 1) .isNone e hnext (hJ.skip i hi)
      · rw [m.step_instruction hins hflag]
        cases hslot : ins.instruction.callSlot with
        | none =>
            rw [m.execInstruction_handler hslot, execLoop_handler m.handlers call hslot rest hflag]
            by_cases hret : (execHandler m.handlers ins flag.next e).1 = 0
            · rw [hret, Interp.endPass_zero, if_neg (by simp)]
              exact ih (i + 1) _ _ hnext (hJ.handler hins hflag hi m.handlers e hret)
            · rw [Interp.endPass_ne_zero hret, if_pos hret]
              exact .of_runs .refl
        | some s =>
            have hbody := Instruction.eq_call hslot
            have hif : ins.instruction.isIfelse = false := by rw [hbody]; rfl
            have hi' := hJ.plain i ins flag hins hif hflag hi
            rw [m.execInstruction_call hbody, execLoop_call m.handlers call hbody rest hflag,
              ← hnext]
            refine hcall i ins s flag _ _ hins hbody hflag hi ?_
            intro e'
            rw [hnext]
            exact ih (i + 1) flag.next e' hnext hi'

/-- A frame that may be entered returns its loop's result. -/
theorem enter_runs (hd : d ≤ m.maxDepth) (hJ : LoopInvariant (m.code ref).instructions J)
    (hcall : CallsDone m lost bad J ref a d callers call) (c : Control) (e : Effects S) :
    RunsUnless lost bad m.step (m.enter ref a callers ⟨c, d, e⟩)
      (.returned callers d (execLoop m.handlers call (m.code ref).instructions .isNone e)) := by
  rw [m.enter_of_le ref a c hd]
  exact execLoop_runs hJ hcall _ 0 .isNone e rfl hJ.start

end Loop

/-! ## Nested calls -/

/-- The calls of a frame are subroutines: the pass that a call is made in ends
with the code and the effects of `call`. -/
def CallsReturn (m : Interp S) (ref : ProcRef) (a d : Nat) (call : UInt8 → Cmd (Effects S)) :
    Prop :=
  ∀ i ins s flag callers c e, (m.code ref).instructions[i]? = some ins →
    ins.instruction = .call s →
    Runs m.step (m.procRuntimeCall s ⟨ref, a, i, flag, d⟩ callers ⟨c, d + 1, e⟩)
      (Interp.endPass (call s e).1 ⟨ref, a, i, flag, d⟩ callers ⟨c, d + 1, (call s e).2⟩)

theorem CallsReturn.callsDone {m : Interp S} {ref : ProcRef} {a d : Nat}
    {call : UInt8 → Cmd (Effects S)} (h : CallsReturn m ref a d call) (lost bad : RunState S → Prop)
    (J : Nat → IfElseFlag → Prop) (callers : List Frame) :
    CallsDone m lost bad J ref a d callers call := by
  intro i ins s flag c e hins hcall _ _ hrest
  refine RunsUnless.runs_trans (h i ins s flag.next callers c e hins hcall) ?_
  exact endPass_runs c (hrest _)

section OnGraph

variable {store : Store} {p : Proc} {st : AnalysisState} {m : Interp S}

/-- The calls of a frame return when the procedures in their slots do. -/
theorem OnGraph.callsReturn (h : OnGraph store p st m) (hreuse : m.reuseFrames = false)
    {ref : ProcRef} {a d : Nat} (ha : AnalysedAs st ref a) {call : UInt8 → Cmd (Effects S)}
    (hentry : ∀ s b callers c e, AnalysedAs st (.slot s) b →
      Runs m.step (m.enter (.slot s) b callers ⟨c, d + 1, e⟩)
        (.returned callers (d + 1) (call s e))) :
    CallsReturn m ref a d call := by
  intro i ins s flag callers c e hins hcall
  obtain ⟨b, hb, heq⟩ := h.procRuntimeCall_eq (f := ⟨ref, a, i, flag, d⟩) ha hins hcall callers
    ⟨c, d + 1, e⟩
  rw [heq, hreuse, Bool.and_false, if_neg (by simp)]
  -- the callee returns to this frame, which ends the pass with its code
  refine (hentry s b _ c e hb).trans (.head ?_)
  rw [m.step_returned (call s e) c]
  exact .refl

/-- With nested calls every procedure of the call graph returns what
`execNested` computes, at a depth that leaves room for `k` more entries. -/
theorem OnGraph.enter_nested (h : OnGraph store p st m) (hreuse : m.reuseFrames = false)
    (k : Nat) {ref : ProcRef} {a d : Nat} (hd : k + d = m.maxDepth + 1)
    (ha : AnalysedAs st ref a) (callers : List Frame) (c : Control) (e : Effects S) :
    Runs m.step (m.enter ref a callers ⟨c, d, e⟩)
      (.returned callers d (execNested m.handlers store k (m.code ref) e)) := by
  induction k generalizing ref a d callers c e with
  | zero =>
      -- no entry is left: the call is refused
      have hgt : m.maxDepth < d := by omega
      rw [m.enter_of_gt _ _ _ hgt]
      exact .refl
  | succ k ih =>
      have hle : d ≤ m.maxDepth := by omega
      have hcalls : CallsReturn m ref a d (fun s => execNested m.handlers store k (store s)) := by
        refine h.callsReturn hreuse ha ?_
        intro s b callers c e hb
        have hrun := ih (d := d + 1) (by omega) hb callers c e
        rwa [h.code_slot] at hrun
      have hloop := enter_runs hle (.trivial _)
        (hcalls.callsDone (fun _ => False) (fun _ => False) (fun _ _ => True) callers) c e
      exact hloop.runs id fun _ _ => id

/-- The calls of a procedure of the call graph are subroutines. -/
theorem OnGraph.callsReturn_nested (h : OnGraph store p st m) (hreuse : m.reuseFrames = false)
    {ref : ProcRef} {a d : Nat} (ha : AnalysedAs st ref a) (hd : d ≤ m.maxDepth) :
    CallsReturn m ref a d (fun s => execNested m.handlers store (m.maxDepth - d) (store s)) := by
  refine h.callsReturn hreuse ha ?_
  intro s b callers c e hb
  have hrun := h.enter_nested hreuse (m.maxDepth - d) (d := d + 1) (by omega) hb callers c e
  rwa [h.code_slot] at hrun

end OnGraph

/-- A code other than 0 goes through all callers. -/
theorem returned_runs (m : Interp S) (callers : List Frame) (d : Nat) {out : Int × Effects S}
    (hret : out.1 ≠ 0) : ∃ d', Runs m.step (.returned callers d out) (.returned [] d' out) := by
  induction callers generalizing d with
  | nil => exact ⟨d, .refl⟩
  | cons f callers ih =>
      rcases ih f.recursionDepth with ⟨d', hrun⟩
      refine ⟨d', .head ?_⟩
      rw [m.step_returned out .fault, Interp.endPass_ne_zero hret]
      exact hrun

/-- A frame whose calls are subroutines returns what the structured reading of its
procedure computes. -/
theorem enter_structured {m : Interp S} {ref : ProcRef} {a d : Nat}
    {call : UInt8 → Cmd (Effects S)} (hr : Restricted (m.code ref).instructions)
    (hd : d ≤ m.maxDepth) (hcall : CallsReturn m ref a d call) (callers : List Frame)
    (c : Control) (e : Effects S) :
    Runs m.step (m.enter ref a callers ⟨c, d, e⟩)
      (.returned callers d (Structured.exec m.handlers call (m.code ref).instructions e)) := by
  have hloop := enter_runs hd (.trivial _)
    (hcall.callsDone (fun _ => False) (fun _ => False) (fun _ _ => True) callers) c e
  rw [execLoop_eq_structured m.handlers call _ hr] at hloop
  exact hloop.runs id fun _ _ => id

/-- The interpreter computes the structured reading of a procedure without
`ifelse` close after another, whatever its calls do. A code other than 0 is
returned by the outermost call, with nothing executed after it. -/
theorem exec_structured (m : Interp S) (ref : ProcRef) (a d : Nat)
    (call : UInt8 → Cmd (Effects S)) (hr : Restricted (m.code ref).instructions)
    (hd : d ≤ m.maxDepth) (hcall : CallsReturn m ref a d call) (callers : List Frame)
    (c : Control) (e : Effects S) :
    let out := Structured.exec m.handlers call (m.code ref).instructions e
    Runs m.step (m.enter ref a callers ⟨c, d, e⟩) (.returned callers d out) ∧
    (out.1 ≠ 0 →
      ∃ d', Runs m.step (m.enter ref a callers ⟨c, d, e⟩) (.returned [] d' out)) := by
  intro out
  have hrun : Runs m.step (m.enter ref a callers ⟨c, d, e⟩) (.returned callers d out) :=
    enter_structured hr hd hcall callers c e
  refine ⟨hrun, fun hret => ?_⟩
  rcases returned_runs m callers d hret with ⟨d', hout⟩
  exact ⟨d', hrun.trans hout⟩

/-- Handlers that count: `set` adds 1, a condition holds unless the count is 0,
and `binop` fails. -/
def countHandlers : Handlers Nat where
  block _ n := (0, n)
  ifelse _ n := (if n = 0 then .fails else .holds, n)
  set _ n := (0, n + 1)
  unop _ n := (0, n)
  binop _ n := (-1, n)

/-- Instructions without operands of any length. -/
def Instruction.ifelseNil : Instruction := .ifelse .nil 0 .nil
def Instruction.setNil : Instruction := .set .nil .nil
def Instruction.binopNil : Instruction := .binop .nil 0 .nil .nil

/-- The procedure in slot 1 is a condition with two clauses. -/
def branchStore : Store := fun s =>
  if s = 1 then ⟨[⟨0, .ifelseNil⟩, ⟨1, .setNil⟩, ⟨2, .binopNil⟩], by decide⟩ else Proc.empty

/-- A condition with a call and a `set` as clauses, a call and then more. -/
def branchRoot : Proc where
  instructions := [⟨3, .ifelseNil⟩, ⟨4, .call 1⟩, ⟨5, .setNil⟩, ⟨6, .call 1⟩, ⟨7, .binopNil⟩,
    ⟨8, .setNil⟩]
  length_le := by decide

theorem branchRoot_closed : Closed branchStore branchRoot :=
  .of_covers [1] (by decide) (by decide)

theorem exec_structured_branchRoot : ∃ st, runAnalysis branchStore branchRoot = some (0, st) ∧
    let m := Interp.frozen branchStore branchRoot st countHandlers 4 false
    Runs m.step (m.start 0) (.returned [] 0 (-1, ⟨2, [⟨3, .ifelseNil⟩, ⟨5, .setNil⟩,
      ⟨6, .call 1⟩, ⟨0, .ifelseNil⟩, ⟨1, .setNil⟩, ⟨7, .binopNil⟩], false⟩)) := by
  obtain ⟨st, hrun, hgraph⟩ := onGraph_of_closed (S := Nat) branchRoot_closed
  refine ⟨st, hrun, ?_⟩
  intro m
  have h := hgraph countHandlers 4 false
  have hcalls := h.callsReturn_nested rfl h.root_analysed (Nat.zero_le 4)
  have hr : Restricted branchRoot.instructions := by decide
  exact (exec_structured m .root 0 0 _ hr (Nat.zero_le 4) hcalls [] (.returning 0 [])
    ⟨0, [], false⟩).1

end CspProc
