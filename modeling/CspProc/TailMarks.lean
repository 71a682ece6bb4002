import CspProc.AnalyzerParts
import CspProc.TailCall

/-! # Which calls are marked

`analyze_tail_call` looks at the instructions around a call; whether there is
anything left to do after the call is a question about all executions of its
frame. On restricted procedures of known types the two agree.

* `Pass` — what one pass of the instruction loop can be, with every call nested,
  whatever the handlers do;
* `exists_active` — every instruction is executed in some execution;
* `marked_iff` — a call is marked if and only if no execution has work after it.
-/

namespace CspProc

open Relation

/-! ## Executions of a frame -/

/-- Where a frame is: the index of its loop, and its flag. -/
abbrev FramePos := Nat × IfElseFlag

/-- A pass of the loop that goes on with the next instruction: one is skipped, a
handler, any handler in any state, has returned 0, or a nested call has. -/
inductive Pass (l : List ProcInstruction) : FramePos → FramePos → Prop where
  | skip {i : Nat} {ins : ProcInstruction} (hins : l[i]? = some ins) :
      Pass l (i, .isFalse) (i + 1, .isNone)
  | handler {S : Type} {i : Nat} {ins : ProcInstruction} {flag : IfElseFlag} (h : Handlers S)
      (e : Effects S) (hins : l[i]? = some ins) (hflag : flag ≠ .isFalse)
      (hcall : ins.instruction.callSlot = none) (hret : (execHandler h ins flag.next e).1 = 0) :
      Pass l (i, flag) (i + 1, (execHandler h ins flag.next e).2.1)
  | call {i : Nat} {ins : ProcInstruction} {s : UInt8} {flag : IfElseFlag}
      (hins : l[i]? = some ins) (hflag : flag ≠ .isFalse) (hcall : ins.instruction = .call s) :
      Pass l (i, flag) (i + 1, flag.next)

/-- Any number of passes. -/
def Passes (l : List ProcInstruction) : FramePos → FramePos → Prop := ReflTransGen (Pass l)

/-- An execution of the frame comes to the instruction at an index and executes it. -/
structure Executed (l : List ProcInstruction) (start : FramePos) (i : Nat) (flag : IfElseFlag)
    (ins : ProcInstruction) : Prop where
  passes : Passes l start (i, flag)
  instruction : l[i]? = some ins
  active : flag ≠ .isFalse

/-- In some execution of the frame the call at index `i` is executed and returns,
and an instruction other than `noop` is executed after it. -/
def WorkAfter (l : List ProcInstruction) (i : Nat) : Prop :=
  ∃ flag call next, Executed l (0, .isNone) i flag call ∧ Pass l (i, flag) next ∧
    ∃ j later ins, Executed l next j later ins ∧ ins.instruction.isNoop = false

/-! ## Passes of the machine -/

section Machine

variable {S : Type} {m : Interp S} {f f' : Frame} {callers : List Frame} {d d' : Nat}
variable {e e' : Effects S} {ins : ProcInstruction}

/-- Where a nested call can lead from its frame. -/
inductive CallLeads (f : Frame) (callers : List Frame) : Control → Prop where
  | fault : CallLeads f callers .fault
  | missing : CallLeads f callers (.returning (-1) callers)
  | refused : CallLeads f callers (.returning (-1) (f :: callers))
  | entered (callee : Frame) : CallLeads f callers (.exec callee (f :: callers))

theorem callLeads (hm : m.reuseFrames = false) (f : Frame) (callers : List Frame) (s : UInt8)
    (st : RunState S) : CallLeads f callers (m.procRuntimeCall s f callers st).control := by
  simp only [Interp.procRuntimeCall, hm, Bool.and_false, Bool.false_eq_true, if_false]
  split
  · exact .missing
  · split
    · unfold Interp.enter
      split
      · exact .refused
      · exact .entered _
    · exact .fault

/-- A step at an instruction other than a call stays in its frame, or ends it. -/
theorem step_at_handler (hins : (m.code f.proc).instructions[f.i]? = some ins)
    (hflag : f.flag ≠ .isFalse) (hcall : ins.instruction.callSlot = none) {c : Control}
    (hstep : (m.step ⟨.exec f callers, d, e⟩).control = c) :
    (∃ ret, c = .returning ret callers) ∨
      ((execHandler m.handlers ins f.flag.next e).1 = 0 ∧
        c = .exec { f with
          i := f.i + 1, flag := (execHandler m.handlers ins f.flag.next e).2.1 } callers) := by
  rw [m.step_instruction hins hflag, m.execInstruction_handler hcall] at hstep
  by_cases hret : (execHandler m.handlers ins f.flag.next e).1 = 0
  · rw [hret, Interp.endPass_zero] at hstep
    exact .inr ⟨hret, hstep.symm⟩
  · rw [Interp.endPass_ne_zero hret] at hstep
    exact .inl ⟨_, hstep.symm⟩

theorem step_at_call (hm : m.reuseFrames = false)
    (hins : (m.code f.proc).instructions[f.i]? = some ins) (hflag : f.flag ≠ .isFalse)
    {s : UInt8} (hcall : ins.instruction = .call s) (callers : List Frame) (d : Nat)
    (e : Effects S) :
    CallLeads { f with flag := f.flag.next } callers
      (m.step ⟨.exec f callers, d, e⟩).control := by
  rw [m.step_instruction hins hflag, m.execInstruction_call hcall]
  exact callLeads hm _ _ s _

/-- With nested calls, a step within a frame is a pass of its loop. -/
theorem pass_of_step (hm : m.reuseFrames = false)
    (hstep : (m.step ⟨.exec f callers, d, e⟩).control = .exec f' callers) :
    Pass (m.code f.proc).instructions (f.i, f.flag) (f'.i, f'.flag) := by
  cases hins : (m.code f.proc).instructions[f.i]? with
  | none =>
      rw [m.step_end hins] at hstep
      cases hstep
  | some ins =>
      by_cases hflag : f.flag = .isFalse
      · rw [m.step_skip hins hflag] at hstep
        cases hstep
        rw [hflag]
        exact .skip hins
      · cases hcall : ins.instruction.callSlot with
        | none =>
            rcases step_at_handler hins hflag hcall hstep with ⟨ret, hret⟩ | ⟨hret, hnext⟩
            · cases hret
            · cases hnext
              exact .handler m.handlers e hins hflag hcall hret
        | some s =>
            -- a call leaves the frame
            have hleads := step_at_call hm hins hflag (Instruction.eq_call hcall) callers d e
            rw [hstep] at hleads
            cases hleads

/-- So is a nested call, from the entry of its callee to the return to its caller. -/
theorem pass_of_return (hm : m.reuseFrames = false) {callee caller : Frame}
    (hentry : (m.step ⟨.exec f callers, d, e⟩).control = .exec callee (caller :: callers))
    (hreturn : (m.step ⟨.returning 0 (caller :: callers), d', e'⟩).control = .exec f' callers) :
    Pass (m.code f.proc).instructions (f.i, f.flag) (f'.i, f'.flag) := by
  cases hins : (m.code f.proc).instructions[f.i]? with
  | none =>
      rw [m.step_end hins] at hentry
      cases hentry
  | some ins =>
      by_cases hflag : f.flag = .isFalse
      · rw [m.step_skip hins hflag] at hentry
        cases hentry
      · cases hcall : ins.instruction.callSlot with
        | none =>
            rcases step_at_handler hins hflag hcall hentry with ⟨ret, hret⟩ | ⟨-, hnext⟩
            · cases hret
            · cases hnext
        | some s =>
            have hcall := Instruction.eq_call hcall
            have hleads := step_at_call hm hins hflag hcall callers d e
            rw [hentry] at hleads
            cases hleads
            cases hreturn
            exact .call hins hflag hcall

end Machine

/-! ## What passes keep -/

section Passes

variable {l : List ProcInstruction} {x y : FramePos}

theorem Pass.index (h : Pass l x y) : y.1 = x.1 + 1 := by
  cases h with
  | skip | handler | call => rfl

/-- Passes only go forward. -/
theorem Passes.eq_or_lt (h : Passes l x y) : x = y ∨ x.1 < y.1 := by
  induction h with
  | refl => exact .inl rfl
  | tail _ hpass ih =>
      right
      rw [hpass.index]
      rcases ih with rfl | hlt
      · exact Nat.lt_succ_self _
      · omega

theorem Passes.le (h : Passes l x y) : x.1 ≤ y.1 := by
  rcases h.eq_or_lt with rfl | hlt
  · exact Nat.le_refl _
  · exact hlt.le

/-- An invariant of the loop holds wherever an execution comes to. -/
theorem LoopInvariant.passes {J : Nat → IfElseFlag → Prop} (hJ : LoopInvariant l J)
    (h : Passes l (0, .isNone) x) : J x.1 x.2 := by
  induction h with
  | refl => exact hJ.start
  | tail _ hpass ih =>
      cases hpass with
      | skip => exact hJ.skip _ ih
      | handler h e hins hflag _ hret => exact hJ.handler hins hflag ih h e hret
      | call hins hflag hcall => exact hJ.plain _ _ _ hins (by rw [hcall]; rfl) hflag ih

end Passes

/-! ## Every instruction can be executed -/

theorem IfElseFlag.next_of_ne {flag : IfElseFlag} (h : flag ≠ .isTrue) : flag.next = flag := by
  cases flag with
  | isTrue => exact absurd rfl h
  | _ => rfl

theorem exists_of_isIfelseAt {l : List ProcInstruction} {i : Nat} (h : isIfelseAt l i = true) :
    ∃ ins, l[i]? = some ins ∧ ins.instruction.isIfelse = true := by
  cases hins : l[i]? with
  | none =>
      rw [isIfelseAt, hins] at h
      cases h
  | some ins => exact ⟨ins, rfl, (isIfelseAt_of_getElem? hins).symm.trans h⟩

section Executed

variable {l : List ProcInstruction} {i : Nat} {ins : ProcInstruction} {flag : IfElseFlag}

/-- Handlers that succeed, and a condition with a given outcome. -/
def Handlers.succeeding (condition : Condition) : Handlers Unit where
  block _ s := (0, s)
  ifelse _ s := (condition, s)
  set _ s := (0, s)
  unop _ s := (0, s)
  binop _ s := (0, s)

/-- Both outcomes of a condition are possible. -/
theorem pass_condition (hins : l[i]? = some ins)
    (hif : ins.instruction.isIfelse = true) (hflag : flag ≠ .isFalse) {condition : Condition}
    (hok : condition = .holds ∨ condition = .fails) :
    Pass l (i, flag) (i + 1, condition.flag) := by
  cases hbody : ins.instruction with
  | ifelse a op b =>
      have hexec : execHandler (.succeeding condition) ins flag.next ⟨(), [], false⟩ =
          (0, condition.flag, ⟨(), [ins], false⟩) := by
        rcases hok with rfl | rfl
        · simp [execHandler, hbody, Handlers.succeeding, Condition.flag, IfElseFlag.code,
            Effects.log]
        · simp [execHandler, hbody, Handlers.succeeding, Condition.flag, IfElseFlag.code,
            Effects.log]
      have hpass := Pass.handler (.succeeding condition) ⟨(), [], false⟩ hins hflag
        (by rw [hbody]; rfl) (congrArg Prod.fst hexec)
      rw [hexec] at hpass
      exact hpass
  | _ =>
      rw [hbody] at hif
      cases hif

/-- Any other instruction of a known type can succeed. -/
theorem pass_plain (hins : l[i]? = some ins)
    (hknown : ins.instruction.isKnown = true) (hif : ins.instruction.isIfelse = false)
    (hflag : flag ≠ .isFalse) : Pass l (i, flag) (i + 1, flag.next) := by
  cases hcall : ins.instruction.callSlot with
  | some s => exact .call hins hflag (Instruction.eq_call hcall)
  | none =>
      have hexec : ∃ e, execHandler (.succeeding .holds) ins flag.next ⟨(), [], false⟩ =
          (0, flag.next, e) := by
        cases hbody : ins.instruction with
        | ifelse | unknown | call => simp_all [Instruction.isIfelse, Instruction.isKnown,
            Instruction.callSlot]
        | _ => exact ⟨_, by simp only [execHandler, hbody]; rfl⟩
      rcases hexec with ⟨e, hexec⟩
      have hpass := Pass.handler (.succeeding .holds) ⟨(), [], false⟩ hins hflag hcall
        (congrArg Prod.fst hexec)
      rw [hexec] at hpass
      exact hpass

/-- Every index is come to with a flag that does not skip: a condition in front of
the instruction, or in front of the one before it, has the outcome for that. -/
theorem exists_active (hr : Restricted l)
    (hknown : ∀ ins ∈ l, ins.instruction.isKnown = true) (hi : i ≤ l.length) :
    ∃ flag, flag ≠ .isFalse ∧ Passes l (0, .isNone) (i, flag) := by
  induction i using Nat.strong_induction_on with
  | _ i ih =>
      cases i with
      | zero => exact ⟨.isNone, by decide, .refl⟩
      | succ k =>
          have hk : l[k]? = some l[k] := List.getElem?_eq_getElem hi
          rcases ih k (Nat.lt_succ_self k) (by omega) with ⟨flag, hflag, hpasses⟩
          cases hif : l[k].instruction.isIfelse with
          | true =>
              exact ⟨.isTrue, by decide, hpasses.tail (pass_condition hk hif hflag (.inl rfl))⟩
          | false =>
              have hplain := pass_plain hk (hknown _ (List.getElem_mem hi)) hif hflag
              by_cases hclause : flag = .isTrue
              · -- an if-clause has been executed: the condition has to fail
                rcases (hr.flagAt.passes hpasses).ifTrue hclause with ⟨hone, hcondition⟩
                rcases Nat.exists_eq_add_of_le' hone with ⟨c, rfl⟩
                rcases exists_of_isIfelseAt hcondition with ⟨condition, hc, hcif⟩
                rcases ih c (by omega) (by omega) with ⟨before, hbefore, hreached⟩
                refine ⟨.isNone, by decide, ?_⟩
                exact (hreached.tail (pass_condition hc hcif hbefore (.inr rfl))).tail (.skip hk)
              · refine ⟨flag, hflag, ?_⟩
                rw [IfElseFlag.next_of_ne hclause] at hplain
                exact hpasses.tail hplain

end Executed

/-! ## The marks -/

section Marks

variable {l : List ProcInstruction} {i : Nat} {flag : IfElseFlag}

theorem noop_of_all {a j : Nat} (h : (l.drop a).all (fun ins => ins.instruction.isNoop) = true)
    (hj : a ≤ j) {ins : ProcInstruction} (hins : l[j]? = some ins) :
    ins.instruction.isNoop = true := by
  have hmem : ins ∈ l.drop a := by
    apply List.mem_of_getElem? (i := j - a)
    rw [List.getElem?_drop, Nat.add_sub_cancel' hj]
    exact hins
  exact List.all_eq_true.mp h ins hmem

/-- Where a list does not end in `noop`s only, there is a first other instruction. -/
theorem exists_first_work {a : Nat}
    (h : (l.drop a).all (fun ins => ins.instruction.isNoop) = false) :
    ∃ j ins, a ≤ j ∧ l[j]? = some ins ∧ ins.instruction.isNoop = false ∧
      ∀ k, a ≤ k → k < j → ∃ noop, l[k]? = some noop ∧ noop.instruction.isNoop = true := by
  induction hn : l.length - a generalizing a with
  | zero =>
      rw [List.drop_eq_nil_of_le (by omega)] at h
      cases h
  | succ n ih =>
      have ha : a < l.length := by omega
      cases hnoop : l[a].instruction.isNoop with
      | false =>
          refine ⟨a, l[a], Nat.le_refl a, List.getElem?_eq_getElem ha, hnoop, ?_⟩
          intro k hk hlt
          omega
      | true =>
          rw [List.drop_eq_getElem_cons ha, List.all_cons, hnoop, Bool.true_and] at h
          rcases ih h (by omega) with ⟨j, ins, hj, hins, hwork, hbefore⟩
          refine ⟨j, ins, by omega, hins, hwork, ?_⟩
          intro k hk hlt
          rcases Nat.eq_or_lt_of_le hk with rfl | hk
          · exact ⟨l[a], List.getElem?_eq_getElem ha, hnoop⟩
          · exact hbefore k hk hlt

/-- Only `noop`s are passed with the flag as it is. -/
theorem passes_noops {a j : Nat} (hle : a ≤ j) (hfalse : flag ≠ .isFalse) (htrue : flag ≠ .isTrue)
    (hnoops : ∀ k, a ≤ k → k < j → ∃ noop, l[k]? = some noop ∧ noop.instruction.isNoop = true) :
    Passes l (a, flag) (j, flag) := by
  induction j, hle using Nat.le_induction with
  | base => exact .refl
  | succ j hle ih =>
      rcases hnoops j hle (Nat.lt_succ_self j) with ⟨noop, hins, hnoop⟩
      have hkind : noop.instruction = .noop := by
        cases hbody : noop.instruction with
        | noop => rfl
        | _ => rw [hbody] at hnoop; cases hnoop
      have hpass := pass_plain hins (by rw [hkind]; rfl) (by rw [hkind]; rfl) hfalse
      rw [IfElseFlag.next_of_ne htrue] at hpass
      exact ReflTransGen.tail (ih fun k hk hlt => hnoops k hk (by omega)) hpass

/-- A nested call that has returned leaves the flag as any instruction does. -/
theorem Pass.of_call {next : FramePos} (h : Pass l (i, flag) next) {call : ProcInstruction}
    {s : UInt8} (hins : l[i]? = some call) (hbody : call.instruction = .call s)
    (hflag : flag ≠ .isFalse) : next = (i + 1, flag.next) := by
  cases h with
  | skip => exact absurd rfl hflag
  | call => rfl
  | handler _ _ hins' _ hnone _ =>
      rw [← Option.some.inj (hins.symm.trans hins'), hbody] at hnone
      cases hnone

/-- A call that is marked has nothing after it. -/
theorem not_workAfter (hr : Restricted l) {call : ProcInstruction} {s : UInt8}
    (hins : l[i]? = some call) (hbody : call.instruction = .call s)
    (hmark : analyzeTailCall l i = true) : ¬ WorkAfter l i := by
  rintro ⟨flag, call', next, hcall, hpass, j, later, ins, hwork, hnoop⟩
  rw [hpass.of_call hins hbody hcall.active] at hwork
  have hi := hr.flagAt.passes hcall.passes
  have hj : i + 1 ≤ j := hwork.passes.le
  have hlt : j < l.length := (List.getElem?_eq_some_iff.mp hwork.instruction).1
  unfold analyzeTailCall at hmark
  split at hmark
  case isTrue hclause =>
    -- an if-clause: the else-clause is skipped, and the rest is looked at
    simp only [Bool.and_eq_true, decide_eq_true_eq] at hclause
    rcases hclause with ⟨⟨hpos, hif⟩, -⟩
    have htrue : flag = .isTrue := (hi.after ⟨hpos, hif⟩).resolve_right hcall.active
    have hbehind : i + 1 < j := by
      rcases hwork.passes.eq_or_lt with heq | hbehind
      · rw [htrue] at heq
        exact absurd (congrArg Prod.snd heq).symm hwork.active
      · exact hbehind
    rw [noop_of_all hmark hbehind hwork.instruction] at hnoop
    cases hnoop
  case isFalse hclause =>
    split at hmark
    case isTrue =>
      rw [noop_of_all hmark hj hwork.instruction] at hnoop
      cases hnoop
    case isFalse hlast =>
      -- an if-clause at the end
      simp only [Bool.and_eq_true, decide_eq_true_eq, Bool.or_eq_true, not_or,
        Bool.not_eq_true', Bool.not_eq_false] at hclause hlast
      exact hclause ⟨⟨Nat.pos_of_ne_zero hlast.1, hlast.2⟩, by omega⟩

/-- A call that is not marked has an instruction after it that some execution
comes to. -/
theorem workAfter (hr : Restricted l) (hknown : ∀ ins ∈ l, ins.instruction.isKnown = true)
    {call : ProcInstruction} {s : UInt8} (hcall : l[i]? = some call)
    (hbody : call.instruction = .call s) (hmark : analyzeTailCall l i = false) :
    WorkAfter l i := by
  have hlt := (List.getElem?_eq_some_iff.mp hcall).1
  rcases exists_active hr hknown hlt.le with ⟨flag, hflag, hpasses⟩
  have hi := hr.flagAt.passes hpasses
  refine ⟨flag, call, _, ⟨hpasses, hcall, hflag⟩, .call hcall hflag hbody, ?_⟩
  unfold analyzeTailCall at hmark
  split at hmark
  case isTrue hclause =>
    simp only [Bool.and_eq_true, decide_eq_true_eq] at hclause
    rcases hclause with ⟨⟨hpos, hif⟩, hnext⟩
    have htrue : flag = .isTrue := (hi.after ⟨hpos, hif⟩).resolve_right hflag
    rcases exists_first_work hmark with ⟨j, ins, hj, hins, hwork, hnoops⟩
    -- behind the else-clause, which is skipped
    have hskip : Pass l (i + 1, .isFalse) (i + 2, .isNone) :=
      .skip (List.getElem?_eq_getElem hnext)
    refine ⟨j, .isNone, ins, ⟨?_, hins, by decide⟩, hwork⟩
    rw [htrue]
    exact (ReflTransGen.single hskip).trans (passes_noops hj (by decide) (by decide) hnoops)
  case isFalse =>
    split at hmark
    case isTrue hplain =>
      simp only [Bool.or_eq_true, decide_eq_true_eq, Bool.not_eq_true'] at hplain
      have htrue : flag ≠ .isTrue := by
        intro htrue
        rcases hi.ifTrue htrue with ⟨hone, hif⟩
        rcases hplain with rfl | hplain
        · omega
        · rw [hif] at hplain
          cases hplain
      rcases exists_first_work hmark with ⟨j, ins, hj, hins, hwork, hnoops⟩
      refine ⟨j, flag, ins, ⟨?_, hins, hflag⟩, hwork⟩
      rw [IfElseFlag.next_of_ne htrue]
      exact passes_noops hj hflag htrue hnoops
    case isFalse => cases hmark

end Marks

/-- `analyze_tail_call` ends, with 8-bit indices that do not wrap, and marks a call
if and only if in no execution of its frame, with nested calls, the call is
executed and returns and an instruction other than `noop` is executed after it. -/
theorem marked_iff {p : Proc} (hknown : p.Known) (hr : Restricted p.instructions) {i : Nat}
    {ins : ProcInstruction} {s : UInt8} (hins : p.instructions[i]? = some ins)
    (hcall : ins.instruction = .call s) :
    ∃ mark, Analyzer.analyzeTailCall (maxInstructions + 1) p (UInt8.ofNat i) = some (mark, false) ∧
      (mark = true ↔ ¬ WorkAfter p.instructions i) := by
  have hi := (List.getElem?_eq_some_iff.mp hins).1
  have hfuel : p.instructions.length < maxInstructions + 1 + i := by
    have := p.length_le
    omega
  refine ⟨analyzeTailCall p.instructions i, Analyzer.analyzeTailCall_eq p hi hfuel, ?_⟩
  constructor
  · exact not_workAfter hr hins hcall
  · intro hnone
    by_contra hmark
    exact hnone (workAfter hr hknown hins hcall (Bool.not_eq_true _ ▸ hmark))

/-- A call in an if-clause with an instruction behind the else-clause, and one at the end. -/
def clausesProc : Proc :=
  ⟨[⟨0, .ifelse .nil 0 .nil⟩, ⟨0, .call 1⟩, ⟨0, .noop⟩, ⟨0, .set .nil .nil⟩, ⟨0, .call 2⟩],
    by decide⟩

theorem marked_clausesProc :
    WorkAfter clausesProc.instructions 1 ∧ ¬ WorkAfter clausesProc.instructions 4 := by
  have hknown : clausesProc.Known := by decide
  have hr : Restricted clausesProc.instructions := by decide
  have hclause : clausesProc.instructions[1]? = some ⟨0, .call 1⟩ := rfl
  have hlast : clausesProc.instructions[4]? = some ⟨0, .call 2⟩ := rfl
  constructor
  · rcases marked_iff hknown hr hclause rfl with ⟨mark, hmark, hiff⟩
    have hno : Analyzer.analyzeTailCall (maxInstructions + 1) clausesProc (UInt8.ofNat 1) =
        some (false, false) := by decide +kernel
    rw [hno] at hmark
    cases hmark
    by_contra hnone
    exact Bool.false_ne_true (hiff.mpr hnone)
  · rcases marked_iff hknown hr hlast rfl with ⟨mark, hmark, hiff⟩
    have hyes : Analyzer.analyzeTailCall (maxInstructions + 1) clausesProc (UInt8.ofNat 4) =
        some (true, false) := by decide +kernel
    rw [hyes] at hmark
    cases hmark
    exact hiff.mp rfl

end CspProc
