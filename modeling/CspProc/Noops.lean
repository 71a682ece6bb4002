import CspProc.TailCall

/-! # Noops between the statements

`proc noop` is there to fill the clauses of an `ifelse`. Anywhere else a `noop` makes no
difference, although the indices of the instructions, and with them what
`analyze_tail_call` looks at, are others: a call stays a tail call when only `noop`s are
put behind it.

* `Padded` — a procedure with further `noop`s between its statements;
* `follows_padded` — the interpreter on the padded procedures follows the one on the
  others, step by step, with steps of its own at the further `noop`s;
* `noops_preserve_runs` — runs that have no end included, the same instructions have the
  same effects at the same depths.
-/

namespace CspProc

/-! ## Padding -/

/-- The second list has further `noop`s between the statements of the first. The clauses
of an `ifelse` are no `ifelse` themselves, and where one is missing nothing is added. -/
inductive Padded : List ProcInstruction → List ProcInstruction → Prop where
  | nil : Padded [] []
  | noop {l l' : List ProcInstruction} (node : UInt16) (h : Padded l l') :
      Padded l (⟨node, .noop⟩ :: l')
  | plain {l l' : List ProcInstruction} {ins : ProcInstruction}
      (hif : ins.instruction.isIfelse = false) (h : Padded l l') : Padded (ins :: l) (ins :: l')
  | ifelse {l l' : List ProcInstruction} {ins : ProcInstruction}
      (hif : ins.instruction.isIfelse = true) (hclauses : l.take 2 = l'.take 2)
      (hplain : ∀ a ∈ l.take 2, a.instruction.isIfelse = false)
      (h : Padded (l.drop 2) (l'.drop 2)) : Padded (ins :: l) (ins :: l')

/-- An instruction that is no `ifelse`, before a restricted procedure. -/
theorem Restricted.cons_plain {ins : ProcInstruction} {l : List ProcInstruction}
    (hif : ins.instruction.isIfelse = false) (h : Restricted l) : Restricted (ins :: l) := by
  intro i hi hat
  cases i with
  | zero =>
      have hhead : isIfelseAt (ins :: l) 0 = ins.instruction.isIfelse := rfl
      rw [hhead, hif] at hat
      cases hat
  | succ i => exact h i (Nat.lt_of_succ_lt_succ hi) hat

theorem isIfelseAt_of_take {l : List ProcInstruction} {n i : Nat}
    (h : ∀ a ∈ l.take n, a.instruction.isIfelse = false) (hi : i < n) :
    isIfelseAt l i = false := by
  unfold isIfelseAt
  cases hins : l[i]? with
  | none => rfl
  | some ins =>
      refine h ins (List.mem_iff_getElem?.mpr ⟨i, ?_⟩)
      rw [List.getElem?_take_of_lt hi, hins]

/-- An `ifelse` with clauses that are none, before a restricted procedure. -/
theorem Restricted.cons_ifelse {ins : ProcInstruction} {l : List ProcInstruction}
    (hplain : ∀ a ∈ l.take 2, a.instruction.isIfelse = false) (h : Restricted (l.drop 2)) :
    Restricted (ins :: l) := by
  have hl : Restricted l := by
    rcases l with _ | ⟨a, _ | ⟨b, l⟩⟩
    · exact h
    · exact .cons_plain (hplain a (by simp)) h
    · exact .cons_plain (hplain a (by simp)) (.cons_plain (hplain b (by simp)) h)
  intro i hi hat
  cases i with
  | zero =>
      have h0 : isIfelseAt l 0 = false := isIfelseAt_of_take hplain Nat.two_pos
      have h1 : isIfelseAt l 1 = false := isIfelseAt_of_take hplain Nat.one_lt_two
      exact ⟨h0, h1⟩
  | succ i => exact hl i (Nat.lt_of_succ_lt_succ hi) hat

namespace Padded

variable {l l' : List ProcInstruction}

theorem restricted (h : Padded l l') : Restricted l ∧ Restricted l' := by
  induction h with
  | nil => exact ⟨nofun, nofun⟩
  | noop node _ ih => exact ⟨ih.1, .cons_plain rfl ih.2⟩
  | plain hif _ ih => exact ⟨.cons_plain hif ih.1, .cons_plain hif ih.2⟩
  | ifelse _ hclauses hplain _ ih =>
      exact ⟨.cons_ifelse hplain ih.1, .cons_ifelse (hclauses ▸ hplain) ih.2⟩

/-- Padding adds neither calls nor work. -/
theorem filter_eq (h : Padded l l') (q : ProcInstruction → Bool)
    (hq : ∀ node, q ⟨node, .noop⟩ = false) : l'.filter q = l.filter q := by
  induction h with
  | nil => rfl
  | noop node _ ih => rw [List.filter_cons_of_neg (by simp [hq]), ih]
  | plain _ _ ih => rw [List.filter_cons, List.filter_cons, ih]
  | @ifelse l l' ins _ hclauses _ _ ih =>
      rw [List.filter_cons, List.filter_cons, ← List.take_append_drop 2 l,
        ← List.take_append_drop 2 l', List.filter_append, List.filter_append, ih, hclauses]

theorem callSlots_eq (h : Padded l l') : callSlots l' = callSlots l := by
  have hfilter (l : List ProcInstruction) : callSlots l =
      (l.filter fun ins => ins.instruction.callSlot.isSome).filterMap
        fun ins => ins.instruction.callSlot := by
    rw [callSlots, List.filterMap_filter]
    congr 1
    funext ins
    cases ins.instruction.callSlot <;> rfl
  rw [hfilter l, hfilter l', h.filter_eq _ fun _ => rfl]

theorem all_noop (h : Padded l l') :
    (l'.all fun ins => ins.instruction.isNoop) = l.all fun ins => ins.instruction.isNoop := by
  have hfilter (l : List ProcInstruction) : (l.all fun ins => ins.instruction.isNoop) =
      (l.filter fun ins => !ins.instruction.isNoop).isEmpty := by
    induction l with
    | nil => rfl
    | cons ins l ih => cases hno : ins.instruction.isNoop <;> simp [hno, ih]
  rw [hfilter l, hfilter l', h.filter_eq _ fun _ => rfl]

theorem length_le (h : Padded l l') : l.length ≤ l'.length := by
  induction h with
  | nil => exact Nat.le_refl 0
  | noop node _ ih => exact Nat.le_succ_of_le ih
  | plain _ _ ih => exact Nat.succ_le_succ ih
  | @ifelse l l' ins _ hclauses _ _ ih =>
      have htake := congrArg List.length hclauses
      simp only [List.length_take, List.length_drop, List.length_cons] at htake ih ⊢
      omega

end Padded

/-! ## The same place in both -/

/-- What is left of both procedures, by the flag of their frames: the clauses that the flag
speaks of are the same. -/
def SamePlace : IfElseFlag → List ProcInstruction → List ProcInstruction → Prop
  | .isNone, l, l' => Padded l l'
  | .isFalse, l, l' => l.take 1 = l'.take 1 ∧ Padded (l.drop 1) (l'.drop 1)
  | .isTrue, l, l' => l.take 2 = l'.take 2 ∧
      (∀ a ∈ l.take 2, a.instruction.isIfelse = false) ∧ Padded (l.drop 2) (l'.drop 2)
  | .err, _, _ | .errType, _, _ => False

/-- The places after an instruction, whatever becomes of it. -/
structure SamePlacesAfter (ins : ProcInstruction) (flag : IfElseFlag)
    (l l' : List ProcInstruction) : Prop where
  skipped : flag = .isFalse → SamePlace .isNone l l'
  plain : flag ≠ .isFalse → ins.instruction.isIfelse = false → SamePlace flag.next l l'
  ifelse : flag ≠ .isFalse → ins.instruction.isIfelse = true →
    SamePlace .isTrue l l' ∧ SamePlace .isFalse l l'

/-- After a condition both readings of its clauses are at the same place. -/
theorem samePlace_clauses {l l' : List ProcInstruction} (hclauses : l.take 2 = l'.take 2)
    (hplain : ∀ a ∈ l.take 2, a.instruction.isIfelse = false)
    (h : Padded (l.drop 2) (l'.drop 2)) : SamePlace .isFalse l l' := by
  rcases l with _ | ⟨a, _ | ⟨b, l⟩⟩
  · rcases l' with _ | ⟨a', l'⟩
    · exact ⟨rfl, .nil⟩
    · simp at hclauses
  · rcases l' with _ | ⟨a', _ | ⟨b', l'⟩⟩
    · simp at hclauses
    · exact ⟨hclauses, .nil⟩
    · simp at hclauses
  · rcases l' with _ | ⟨a', _ | ⟨b', l'⟩⟩
    · simp at hclauses
    · simp at hclauses
    · simp only [List.take_succ_cons, List.take_zero, List.cons.injEq, and_true] at hclauses
      rcases hclauses with ⟨rfl, rfl⟩
      exact ⟨rfl, .plain (hplain b (by simp)) h⟩

/-- At the same place both are at their end, or the second is at a further `noop`, or both
are at one instruction. -/
theorem samePlace_cases {flag : IfElseFlag} {l l' : List ProcInstruction}
    (h : SamePlace flag l l') :
    (l = [] ∧ l' = []) ∨
    (flag = .isNone ∧ ∃ node rest', l' = ⟨node, .noop⟩ :: rest' ∧ SamePlace .isNone l rest') ∨
    ∃ ins rest rest', l = ins :: rest ∧ l' = ins :: rest' ∧
      SamePlacesAfter ins flag rest rest' := by
  cases flag with
  | isNone =>
      cases h with
      | nil => exact .inl ⟨rfl, rfl⟩
      | noop node h => exact .inr (.inl ⟨rfl, node, _, rfl, h⟩)
      | @plain l l' ins hif h =>
          refine .inr (.inr ⟨ins, l, l', rfl, rfl, ⟨nofun, fun _ _ => h, fun _ hif' => ?_⟩⟩)
          rw [hif] at hif'
          cases hif'
      | @ifelse l l' ins hif hclauses hplain h =>
          refine .inr (.inr ⟨ins, l, l', rfl, rfl, ⟨nofun, fun _ hif' => ?_, fun _ _ => ?_⟩⟩)
          · rw [hif] at hif'
            cases hif'
          · exact ⟨⟨hclauses, hplain, h⟩, samePlace_clauses hclauses hplain h⟩
  | isFalse =>
      rcases h with ⟨htake, h⟩
      rcases l with _ | ⟨ins, l⟩
      · rcases l' with _ | ⟨ins', l'⟩
        · exact .inl ⟨rfl, rfl⟩
        · simp at htake
      · rcases l' with _ | ⟨ins', l'⟩
        · simp at htake
        · obtain rfl : ins = ins' := by simpa using htake
          exact .inr (.inr ⟨ins, l, l', rfl, rfl,
            ⟨fun _ => h, fun hne => absurd rfl hne, fun hne => absurd rfl hne⟩⟩)
  | isTrue =>
      rcases h with ⟨htake, hplain, h⟩
      rcases l with _ | ⟨ins, l⟩
      · rcases l' with _ | ⟨ins', l'⟩
        · exact .inl ⟨rfl, rfl⟩
        · simp at htake
      · rcases l' with _ | ⟨ins', l'⟩
        · simp at htake
        · simp only [List.take_succ_cons, List.cons.injEq] at htake
          rcases htake with ⟨rfl, htake⟩
          have hif : ins.instruction.isIfelse = false := hplain ins (by simp)
          refine .inr (.inr ⟨ins, l, l', rfl, rfl,
            ⟨nofun, fun _ _ => ⟨htake, h⟩, fun _ hif' => ?_⟩⟩)
          rw [hif] at hif'
          cases hif'
  | err => exact h.elim
  | errType => exact h.elim

/-- A call at the same place is a tail call in both or in neither. -/
theorem analyzeTailCall_eq_all {l : List ProcInstruction} {i : Nat} {flag : IfElseFlag}
    (hi : FlagAt l i flag) (hflag : flag ≠ .isFalse) :
    analyzeTailCall l i = (l.drop (if flag = .isTrue then i + 2 else i + 1)).all
      fun ins => ins.instruction.isNoop := by
  unfold analyzeTailCall
  by_cases htrue : flag = .isTrue
  · rcases hi.ifTrue htrue with ⟨hpos, hif⟩
    rw [if_pos htrue]
    by_cases hlt : i + 1 < l.length
    · rw [if_pos (by simp [Nat.lt_of_succ_le hpos, hif, hlt])]
    · rw [if_neg (by simp [hlt]), if_neg (by simp [Nat.ne_of_gt hpos, hif]),
        List.drop_eq_nil_of_le (by omega)]
      rfl
  · have hnot : ¬ (0 < i ∧ isIfelseAt l (i - 1) = true) := by
      intro hbefore
      exact (hi.after hbefore).elim htrue hflag
    rw [if_neg htrue, if_neg (fun h => hnot (by simp_all)), if_pos]
    by_cases hzero : i = 0
    · simp [hzero]
    · simpa [hzero] using fun h => hnot ⟨Nat.pos_of_ne_zero hzero, h⟩

/-! ## The two interpreters -/

section Follow

variable {S : Type}

/-- Two interpreters on call graphs that differ in nothing but padding. -/
structure PaddedGraphs (store store' : Store) (p p' : Proc) (st st' : AnalysisState)
    (m m' : Interp S) : Prop where
  left : OnGraph store p st m
  right : OnGraph store' p' st' m'
  handlers : m'.handlers = m.handlers
  maxDepth : m'.maxDepth = m.maxDepth
  reuseFrames : m'.reuseFrames = m.reuseFrames
  padded : ∀ ref a, AnalysedAs st ref a →
    Padded (m.code ref).instructions (m'.code ref).instructions

variable {store store' : Store} {p p' : Proc} {st st' : AnalysisState} {m m' : Interp S}

/-- Two frames at the same place of the same procedure. -/
structure SameFrame (st st' : AnalysisState) (m m' : Interp S) (f f' : Frame) : Prop where
  proc : f'.proc = f.proc
  flag : f'.flag = f.flag
  depth : f'.recursionDepth = f.recursionDepth
  analysed : AnalysedAs st f.proc f.analysis
  analysed' : AnalysedAs st' f'.proc f'.analysis
  flagAt : FlagAt (m.code f.proc).instructions f.i f.flag
  flagAt' : FlagAt (m'.code f'.proc).instructions f'.i f'.flag
  place : SamePlace f.flag ((m.code f.proc).instructions.drop f.i)
    ((m'.code f'.proc).instructions.drop f'.i)

/-- A frame that waits for a call goes on behind it. -/
def Frame.behind (f : Frame) : Frame := { f with i := f.i + 1 }

/-- The frames that wait are at the same places, and so is the one that is executed. -/
def SameControl (st st' : AnalysisState) (m m' : Interp S) : Control → Control → Prop
  | .exec f cs, .exec f' cs' => SameFrame st st' m m' f f' ∧
      List.Forall₂ (fun c c' => SameFrame st st' m m' c.behind c'.behind) cs cs'
  | .returning ret cs, .returning ret' cs' => ret' = ret ∧
      List.Forall₂ (fun c c' => SameFrame st st' m m' c.behind c'.behind) cs cs'
  | _, _ => False

/-- Two runs that are at the same place have had the same effects, at the same depth. -/
structure SameState (st st' : AnalysisState) (m m' : Interp S) (r r' : RunState S) : Prop where
  control : SameControl st st' m m' r.control r'.control
  depth : r'.depth = r.depth
  effects : r'.effects = r.effects

variable {f f' : Frame} {cs cs' : List Frame} {d : Nat} {e : Effects S}

/-- Two frames that go on behind an instruction. -/
theorem SameFrame.next (hf : SameFrame st st' m m' f f') {flag : IfElseFlag}
    (hflag : FlagAt (m.code f.proc).instructions (f.i + 1) flag)
    (hflag' : FlagAt (m'.code f'.proc).instructions (f'.i + 1) flag)
    (hplace : SamePlace flag ((m.code f.proc).instructions.drop (f.i + 1))
      ((m'.code f'.proc).instructions.drop (f'.i + 1))) :
    SameFrame st st' m m' { f with i := f.i + 1, flag := flag }
      { f' with i := f'.i + 1, flag := flag } :=
  ⟨hf.proc, rfl, hf.depth, hf.analysed, hf.analysed', hflag, hflag', hplace⟩

/-- A call at the same place is marked in both analyses or in neither. -/
theorem SameFrame.marks_eq (hf : SameFrame st st' m m' f f') (hflag : f.flag ≠ .isFalse)
    (hplace : SamePlace f.flag.next ((m.code f.proc).instructions.drop (f.i + 1))
      ((m'.code f'.proc).instructions.drop (f'.i + 1))) :
    analyzeTailCall (m'.code f'.proc).instructions f'.i =
      analyzeTailCall (m.code f.proc).instructions f.i := by
  rw [analyzeTailCall_eq_all hf.flagAt hflag,
    analyzeTailCall_eq_all hf.flagAt' (hf.flag ▸ hflag), hf.flag]
  cases hcase : f.flag with
  | isNone =>
      rw [hcase] at hplace
      simpa using Padded.all_noop hplace
  | isTrue =>
      rw [hcase] at hplace
      have hpad := hplace.2
      rw [List.drop_drop, List.drop_drop] at hpad
      simpa using hpad.all_noop
  | isFalse => exact absurd hcase hflag
  | err =>
      rw [hcase] at hplace
      exact hplace.elim
  | errType =>
      rw [hcase] at hplace
      exact hplace.elim

theorem endPass_same (hf : SameFrame st st' m m' f.behind f'.behind)
    (hcs : List.Forall₂ (fun c c' => SameFrame st st' m m' c.behind c'.behind) cs cs')
    (ret : Int) (c c' : Control) :
    SameState st st' m m' (Interp.endPass ret f cs ⟨c, d, e⟩)
      (Interp.endPass ret f' cs' ⟨c', d, e⟩) := by
  by_cases hret : ret = 0
  · rw [hret, Interp.endPass_zero, Interp.endPass_zero]
    exact ⟨⟨hf, hcs⟩, rfl, rfl⟩
  · rw [Interp.endPass_ne_zero hret, Interp.endPass_ne_zero hret]
    exact ⟨⟨rfl, hcs⟩, hf.depth, rfl⟩

/-- The flag that a handler leaves when the loop goes on. -/
theorem execHandler_flag (h : Handlers S) {ins : ProcInstruction} {flag : IfElseFlag}
    (hret : (execHandler h ins flag.next e).1 = 0) :
    (ins.instruction.isIfelse = false → (execHandler h ins flag.next e).2.1 = flag.next) ∧
    (ins.instruction.isIfelse = true → (execHandler h ins flag.next e).2.1 = .isTrue ∨
      (execHandler h ins flag.next e).2.1 = .isFalse) := by
  unfold execHandler at hret ⊢
  cases hbody : ins.instruction <;> simp_all [Instruction.isIfelse]
  -- the outcomes that are errors have codes other than 0
  revert hret
  cases (h.ifelse ins e.params).1 with
  | holds => exact fun _ => .inl rfl
  | fails => exact fun _ => .inr rfl
  | err | errType => exact fun hret => absurd (hret (by decide)) (by decide)

namespace PaddedGraphs

variable (hg : PaddedGraphs store store' p p' st st' m m')
include hg

/-- A procedure that is entered in both is at its beginning in both. -/
theorem entered {ref : ProcRef} {a a' : Nat} (ha : AnalysedAs st ref a)
    (ha' : AnalysedAs st' ref a') (d : Nat) :
    SameFrame st st' m m' ⟨ref, a, 0, .isNone, d⟩ ⟨ref, a', 0, .isNone, d⟩ := by
  have hpad := hg.padded ref a ha
  exact ⟨rfl, rfl, rfl, ha, ha', hpad.restricted.1.flagAt.start, hpad.restricted.2.flagAt.start,
    hpad⟩

theorem enter_same {ref : ProcRef} {a a' : Nat} (ha : AnalysedAs st ref a)
    (ha' : AnalysedAs st' ref a')
    (hcs : List.Forall₂ (fun c c' => SameFrame st st' m m' c.behind c'.behind) cs cs')
    (c c' : Control) :
    SameState st st' m m' (m.enter ref a cs ⟨c, d, e⟩) (m'.enter ref a' cs' ⟨c', d, e⟩) := by
  rcases Nat.lt_or_ge m.maxDepth d with hgt | hle
  · rw [m.enter_of_gt ref a c hgt, m'.enter_of_gt ref a' c' (hg.maxDepth ▸ hgt)]
    exact ⟨⟨rfl, hcs⟩, rfl, rfl⟩
  · rw [m.enter_of_le ref a c hle, m'.enter_of_le ref a' c' (hg.maxDepth ▸ hle)]
    exact ⟨⟨hg.entered ha ha' d, hcs⟩, rfl, rfl⟩

/-- A call from the same place. -/
theorem call_same (hf : SameFrame st st' m m' f f')
    (hcs : List.Forall₂ (fun c c' => SameFrame st st' m m' c.behind c'.behind) cs cs')
    {ins : ProcInstruction} {s : UInt8} (hbody : ins.instruction = .call s)
    (hins : (m.code f.proc).instructions[f.i]? = some ins)
    (hins' : (m'.code f'.proc).instructions[f'.i]? = some ins) (hflag : f.flag ≠ .isFalse)
    (hplace : SamePlace f.flag.next ((m.code f.proc).instructions.drop (f.i + 1))
      ((m'.code f'.proc).instructions.drop (f'.i + 1))) (c c' : Control) :
    SameState st st' m m'
      (m.procRuntimeCall s { f with flag := f.flag.next } cs ⟨c, d, e⟩)
      (m'.procRuntimeCall s { f' with flag := f.flag.next } cs' ⟨c', d, e⟩) := by
  have hif : ins.instruction.isIfelse = false := by rw [hbody]; rfl
  have hrestricted := (hg.padded _ _ hf.analysed).restricted
  rcases hg.left.procRuntimeCall_eq (f := { f with flag := f.flag.next }) hf.analysed hins hbody cs
    ⟨c, d, e⟩ with ⟨b, hb, heq⟩
  rcases hg.right.procRuntimeCall_eq (f := { f' with flag := f.flag.next }) hf.analysed' hins' hbody
    cs' ⟨c', d, e⟩ with ⟨b', hb', heq'⟩
  rw [heq, heq', hg.reuseFrames]
  dsimp only
  rw [hf.marks_eq hflag hplace]
  split
  · have hentered := hg.entered hb hb' f.recursionDepth
    exact ⟨⟨{ hentered with depth := hf.depth }, hcs⟩, rfl, rfl⟩
  · refine hg.enter_same hb hb' (.cons ?_ hcs) c c'
    refine hf.next ?_ ?_ hplace
    · exact hrestricted.1.flagAt.plain _ _ _ hins hif hflag hf.flagAt
    · rw [← hf.flag] at hflag ⊢
      have hflagAt' := hf.flagAt'
      rw [← hf.proc] at hrestricted
      exact hrestricted.2.flagAt.plain _ _ _ hins' hif hflag hflagAt'

/-- A pass over the same instruction, or its skipping. -/
theorem instruction_same (hf : SameFrame st st' m m' f f')
    (hcs : List.Forall₂ (fun c c' => SameFrame st st' m m' c.behind c'.behind) cs cs')
    {ins : ProcInstruction} (hins : (m.code f.proc).instructions[f.i]? = some ins)
    (hins' : (m'.code f'.proc).instructions[f'.i]? = some ins)
    (hplaces : SamePlacesAfter ins f.flag ((m.code f.proc).instructions.drop (f.i + 1))
      ((m'.code f'.proc).instructions.drop (f'.i + 1))) :
    SameState st st' m m' (m.step ⟨.exec f cs, d, e⟩) (m'.step ⟨.exec f' cs', d, e⟩) := by
  have hrestricted := (hg.padded _ _ hf.analysed).restricted
  have hJ := hrestricted.1.flagAt
  have hJ' : LoopInvariant (m'.code f'.proc).instructions
      (FlagAt (m'.code f'.proc).instructions) := by
    rw [hf.proc]
    exact hrestricted.2.flagAt
  have hi := hf.flagAt
  have hi' := hf.flagAt'
  rw [hf.flag] at hi'
  by_cases hflag : f.flag = .isFalse
  · rw [m.step_skip hins hflag, m'.step_skip hins' (hf.flag.trans hflag)]
    rw [hflag] at hi hi'
    exact ⟨⟨hf.next (hJ.skip _ hi) (hJ'.skip _ hi') (hplaces.skipped hflag), hcs⟩, rfl, rfl⟩
  · rw [m.step_instruction hins hflag, m'.step_instruction hins' (hf.flag ▸ hflag), hf.flag]
    cases hslot : ins.instruction.callSlot with
    | some s =>
        have hbody := Instruction.eq_call hslot
        have hif : ins.instruction.isIfelse = false := by rw [hbody]; rfl
        rw [m.execInstruction_call hbody, m'.execInstruction_call hbody]
        exact hg.call_same hf hcs hbody hins hins' hflag (hplaces.plain hflag hif) _ _
    | none =>
        rw [m.execInstruction_handler hslot, m'.execInstruction_handler hslot, hg.handlers]
        dsimp only
        by_cases hret : (execHandler m.handlers ins f.flag.next e).1 = 0
        · rcases execHandler_flag m.handlers hret with ⟨hplain, hifelse⟩
          refine endPass_same (hf.next (hJ.handler hins hflag hi m.handlers e hret)
            (hJ'.handler hins' hflag hi' m.handlers e hret) ?_) hcs _ _ _
          cases hif : ins.instruction.isIfelse with
          | false =>
              rw [hplain hif]
              exact hplaces.plain hflag hif
          | true =>
              rcases hplaces.ifelse hflag hif with ⟨htrue, hfalse⟩
              rcases hifelse hif with heq | heq
              · rw [heq]
                exact htrue
              · rw [heq]
                exact hfalse
        · rw [Interp.endPass_ne_zero hret, Interp.endPass_ne_zero hret]
          exact ⟨⟨rfl, hcs⟩, hf.depth, rfl⟩

end PaddedGraphs

/-- How many instructions are left in the frame that is executed. -/
def Interp.instructionsLeft (m : Interp S) (r : RunState S) : Nat :=
  match r.control with
  | .exec f _ => (m.code f.proc).instructions.length - f.i
  | .returning .. | .fault => 0

/-- At a further `noop` the interpreter goes on to what is behind it. -/
theorem step_noop {node : UInt16} (hflag : f.flag = .isNone)
    (hins : (m.code f.proc).instructions[f.i]? = some ⟨node, .noop⟩) :
    m.step ⟨.exec f cs, d, e⟩ = ⟨.exec { f with i := f.i + 1 } cs, d, e⟩ := by
  rw [m.step_instruction hins (by rw [hflag]; decide), m.execInstruction_handler rfl]
  simp only [execHandler, hflag, IfElseFlag.next, Interp.endPass_zero]

/-- Every step on the padded procedures is a step on the others, or passes a further
`noop`. -/
theorem follows_padded (hg : PaddedGraphs store store' p p' st st' m m') :
    Follows m.step m'.step (SameState st st' m m') m'.instructionsLeft where
  follow := by
    rintro ⟨c, d, e⟩ ⟨c', d', e'⟩ ⟨hcontrol, hdepth, heffects⟩
    obtain rfl : d' = d := hdepth
    obtain rfl : e' = e := heffects
    cases c with
    | fault => exact hcontrol.elim
    | returning ret cs =>
        cases c' with
        | exec f' cs' => exact hcontrol.elim
        | fault => exact hcontrol.elim
        | returning ret' cs' =>
            rcases hcontrol with ⟨rfl, hcs⟩
            cases hcs with
            | nil => exact .inl ⟨⟨rfl, .nil⟩, rfl, rfl⟩
            | cons hf hcs => exact .inl (endPass_same hf hcs _ _ _)
    | exec f cs =>
        cases c' with
        | returning ret' cs' => exact hcontrol.elim
        | fault => exact hcontrol.elim
        | exec f' cs' =>
            rcases hcontrol with ⟨hf, hcs⟩
            rcases samePlace_cases hf.place with ⟨hend, hend'⟩ |
              ⟨hnone, node, rest', hrest', hplace⟩ | ⟨ins, rest, rest', hrest, hrest', hplaces⟩
            · -- both frames return
              rw [m.step_end (List.getElem?_eq_none (List.drop_eq_nil_iff.mp hend)),
                m'.step_end (List.getElem?_eq_none (List.drop_eq_nil_iff.mp hend'))]
              exact .inl ⟨⟨rfl, hcs⟩, hf.depth, rfl⟩
            · -- only the padded one goes on
              have hins' : (m'.code f'.proc).instructions[f'.i]? = some ⟨node, .noop⟩ := by
                rw [← List.head?_drop, hrest']
                rfl
              have hnext : (m'.code f'.proc).instructions.drop (f'.i + 1) = rest' := by
                rw [← List.tail_drop, hrest']
                rfl
              have hflagAt' := hf.flagAt'
              rw [hf.flag, hnone] at hflagAt'
              have hJ' := (hg.padded _ _ hf.analysed).restricted.2.flagAt
              rw [← hf.proc] at hJ'
              rw [step_noop (hf.flag.trans hnone) hins']
              refine .inr ⟨⟨⟨{ hf with flagAt' := ?_, place := ?_ }, hcs⟩, rfl, rfl⟩, ?_⟩
              · dsimp only
                rw [hf.flag, hnone]
                exact hJ'.plain _ _ _ hins' rfl (by decide) hflagAt'
              · dsimp only
                rw [hnone, hnext]
                exact hplace
              · have hlt := (List.getElem?_eq_some_iff.mp hins').1
                simp only [Interp.instructionsLeft]
                omega
            · -- both are at one instruction
              have hins : (m.code f.proc).instructions[f.i]? = some ins := by
                rw [← List.head?_drop, hrest]
                rfl
              have hins' : (m'.code f'.proc).instructions[f'.i]? = some ins := by
                rw [← List.head?_drop, hrest']
                rfl
              have hnext : (m.code f.proc).instructions.drop (f.i + 1) = rest := by
                rw [← List.tail_drop, hrest]
                rfl
              have hnext' : (m'.code f'.proc).instructions.drop (f'.i + 1) = rest' := by
                rw [← List.tail_drop, hrest']
                rfl
              refine .inl (hg.instruction_same hf hcs hins hins' ?_)
              rw [hnext, hnext']
              exact hplaces

end Follow

/-! ## Whole runs -/

section Runs

variable {store store' : Store} {p p' : Proc}

/-- Padding changes neither what is called from a procedure nor that it is occupied. -/
theorem ReachableSlot.of_padded (hp : Padded p.instructions p'.instructions)
    (hslots : ∀ s, ReachableSlot store p s →
      Padded (store s).instructions (store' s).instructions) {s : UInt8}
    (h : ReachableSlot store' p' s) : ReachableSlot store p s := by
  rcases h with ⟨t, ht, hts⟩
  rw [hp.callSlots_eq] at ht
  induction hts with
  | refl => exact .direct ht
  | tail _ hcalls ih =>
      refine ih.tail ?_
      rw [Calls, (hslots _ ih).callSlots_eq] at hcalls
      exact hcalls

theorem Closed.of_padded (hc : Closed store p) (hp : Padded p.instructions p'.instructions)
    (hslots : ∀ s, ReachableSlot store p s →
      Padded (store s).instructions (store' s).instructions) : Closed store' p' := by
  intro s hs
  have hs' := hs.of_padded hp hslots
  have hocc := Store.occupied_eq_true.mp (hc s hs')
  have hle := (hslots s hs').length_le
  rw [Store.occupied_eq_true]
  rw [← List.length_pos_iff] at hocc ⊢
  exact Nat.lt_of_lt_of_le hocc hle

/-- Two runs have done the same, at the same depth, and have ended both or neither. -/
structure AtSamePoint {S : Type} (r r' : RunState S) : Prop where
  effects : r'.effects = r.effects
  depth : r'.depth = r.depth
  ended : ∀ ret, r'.control = .returning ret [] ↔ r.control = .returning ret []

theorem SameState.atSamePoint {S : Type} {st st' : AnalysisState} {m m' : Interp S}
    {r r' : RunState S} (h : SameState st st' m m' r r') : AtSamePoint r r' := by
  rcases h with ⟨hcontrol, hdepth, heffects⟩
  refine ⟨heffects, hdepth, fun ret => ?_⟩
  cases hc : r.control with
  | fault =>
      rw [hc] at hcontrol
      exact hcontrol.elim
  | exec f cs =>
      rw [hc] at hcontrol
      cases hc' : r'.control with
      | exec f' cs' => exact iff_of_false nofun nofun
      | returning ret' cs' =>
          rw [hc'] at hcontrol
          exact hcontrol.elim
      | fault =>
          rw [hc'] at hcontrol
          exact hcontrol.elim
  | returning ret₀ cs =>
      rw [hc] at hcontrol
      cases hc' : r'.control with
      | exec f' cs' =>
          rw [hc'] at hcontrol
          exact hcontrol.elim
      | fault =>
          rw [hc'] at hcontrol
          exact hcontrol.elim
      | returning ret' cs' =>
          rw [hc'] at hcontrol
          rcases hcontrol with ⟨rfl, hcs⟩
          cases hcs with
          | nil => exact Iff.rfl
          | cons => exact iff_of_false nofun nofun

/-- Where all reachable slots are occupied, `noop`s between the statements of a procedure
and of those it calls change nothing: its run and the one on the padded procedures get to
the same points, with the same parameters, after the same instructions, at the same depths
and with the same return code at their end, if they have one. -/
theorem noops_preserve_runs {S : Type} (hc : Closed store p)
    (hp : Padded p.instructions p'.instructions)
    (hslots : ∀ s, ReachableSlot store p s →
      Padded (store s).instructions (store' s).instructions)
    (handlers : Handlers S) (maxDepth : Nat) (params : S) :
    ∃ m m', runtimeThread store p handlers maxDepth = some m ∧
      runtimeThread store' p' handlers maxDepth = some m' ∧
      (∀ n, ∃ k, n ≤ k ∧
        AtSamePoint (m.steps n (m.start params)) (m'.steps k (m'.start params))) ∧
      (∀ k, ∃ n ≤ k,
        AtSamePoint (m.steps n (m.start params)) (m'.steps k (m'.start params))) := by
  obtain ⟨st, hrun, hgraph⟩ := onGraph_of_closed (S := S) hc
  obtain ⟨st', hrun', hgraph'⟩ := onGraph_of_closed (S := S) (hc.of_padded hp hslots)
  have hleft := hgraph handlers maxDepth true
  have hright := hgraph' handlers maxDepth true
  have hg : PaddedGraphs store store' p p' st st' (.frozen store p st handlers maxDepth true)
      (.frozen store' p' st' handlers maxDepth true) := by
    refine ⟨hleft, hright, rfl, rfl, rfl, fun ref a ha => ?_⟩
    rcases hleft.ref_reachable ha with rfl | ⟨s, rfl, hs⟩
    · exact hp
    · exact hslots s hs
  have hstart : SameState st st' _ _
      ((Interp.frozen store p st handlers maxDepth true).start params)
      ((Interp.frozen store' p' st' handlers maxDepth true).start params) :=
    hg.enter_same hleft.root_analysed hright.root_analysed .nil _ _
  refine ⟨.frozen store p st handlers maxDepth true, .frozen store' p' st' handlers maxDepth true,
    ?_, ?_, fun n => ?_, fun k => ?_⟩
  · rw [runtimeThread_eq store p handlers maxDepth hrun, if_neg (by simp)]
  · rw [runtimeThread_eq store' p' handlers maxDepth hrun', if_neg (by simp)]
  · rcases (follows_padded hg).reaches hstart n with ⟨k, hk, hsame⟩
    exact ⟨k, hk, hsame.atSamePoint⟩
  · rcases (follows_padded hg).reached hstart k with ⟨n, hn, hsame⟩
    exact ⟨n, hn, hsame.atSamePoint⟩

end Runs

/-- `tailStore` and `tailRoot`, padded. -/
def paddedStore : Store := fun s =>
  if s = 1 then ⟨[⟨9, .noop⟩, ⟨0, .setNil⟩], by decide⟩
  else if s = 2 then
    ⟨[⟨1, .setNil⟩, ⟨9, .noop⟩, ⟨2, .ifelseNil⟩, ⟨3, .call 1⟩, ⟨4, .setNil⟩, ⟨9, .noop⟩], by decide⟩
  else Proc.empty

def paddedRoot : Proc :=
  ⟨[⟨9, .noop⟩, ⟨5, .ifelseNil⟩, ⟨6, .call 1⟩, ⟨7, .call 2⟩, ⟨9, .noop⟩, ⟨8, .noop⟩], by decide⟩

theorem tailRoot_padded : Padded tailRoot.instructions paddedRoot.instructions :=
  .noop 9 (.ifelse rfl rfl (by decide) (.noop 9 (.plain rfl .nil)))

theorem tailStore_padded (s : UInt8) (hs : s ∈ [1, 2]) :
    Padded (tailStore s).instructions (paddedStore s).instructions := by
  obtain rfl | rfl : s = 1 ∨ s = 2 := by simpa using hs
  · exact .noop 9 (.plain rfl .nil)
  · exact .plain rfl (.noop 9 (.ifelse rfl rfl (by decide) (.noop 9 .nil)))

theorem noops_preserve_runs_tailRoot :
    ∃ m m', runtimeThread tailStore tailRoot countHandlers 2 = some m ∧
      runtimeThread paddedStore paddedRoot countHandlers 2 = some m' ∧
      ∀ n, ∃ k, n ≤ k ∧ AtSamePoint (m.steps n (m.start 0)) (m'.steps k (m'.start 0)) := by
  have hcovers : coversCalls tailStore tailRoot [1, 2] = true := by decide
  rcases noops_preserve_runs tailRoot_closed tailRoot_padded
    (fun s hs => tailStore_padded s (hs.mem hcovers)) countHandlers 2 0 with ⟨m, m', hm, hm', hn, -⟩
  exact ⟨m, m', hm, hm', hn⟩

end CspProc
