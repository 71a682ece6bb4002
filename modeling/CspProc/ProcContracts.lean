import CspProc.Lib.Contracts
import CspProc.Termination

/-! # Contracts for stored procedures

Rules of pre- and postconditions for procedures that call each other. The contract of a
slot speaks of the parameters when its procedure is entered and when it returns, and may
depend on the depth; a weakest precondition goes through a procedure as the loop of
`proc_instructions_exec` does, and takes calls for what their contracts say.

* `OnGraph.steps_stackState` — a run is one of a machine of procedures that has neither
  analyses nor a counter of its depth;
* `proves_iff_wp` — an outline of a procedure is its weakest precondition;
* `contracts_iff` — a demand holds in all runs if and only if contracts prove it;
* `contracts_iff_ends` — the same for runs that end;
* `procWp_eq_stmtsWp` — a condition by its clauses.
-/

namespace CspProc

variable {S : Type}

/-! ## The procedures -/

/-- A place in the loop of a frame. -/
structure LoopPoint where
  proc : ProcRef
  i : Nat
  flag : IfElseFlag
  recursionDepth : Nat

/-- What a frame does with an instruction. -/
def passJump (h : Handlers S) (maxDepth : Nat) (l : List ProcInstruction) (point : LoopPoint)
    (ins : ProcInstruction) (params : S) : Jump (ProcRef × Nat) LoopPoint S Int :=
  if point.flag = .isFalse then .goTo { point with i := point.i + 1, flag := .isNone } params
  else
    match ins.instruction.callSlot with
    | some s =>
        if analyzeTailCall l point.i then .tail (.slot s, point.recursionDepth) params
        else if point.recursionDepth < maxDepth then
          .call (.slot s, point.recursionDepth + 1)
            { point with i := point.i + 1, flag := point.flag.next } params
        else .fail (-1) params
    | none =>
        let (ret, flag, e) := execHandler h ins point.flag.next ⟨params, [], false⟩
        if ret = 0 then .goTo { point with i := point.i + 1, flag := flag } e.params
        else .fail ret e.params

section PassJump

variable {h : Handlers S} {maxDepth : Nat} {l : List ProcInstruction} {point : LoopPoint}
variable {ins : ProcInstruction} {params : S}

theorem passJump_skip (hflag : point.flag = .isFalse) :
    passJump h maxDepth l point ins params =
      .goTo { point with i := point.i + 1, flag := .isNone } params := if_pos hflag

theorem passJump_tail (hflag : point.flag ≠ .isFalse) {s : UInt8}
    (hslot : ins.instruction.callSlot = some s) (htail : analyzeTailCall l point.i = true) :
    passJump h maxDepth l point ins params = .tail (.slot s, point.recursionDepth) params := by
  rw [passJump, if_neg hflag, hslot]
  exact if_pos htail

theorem passJump_nested (hflag : point.flag ≠ .isFalse) {s : UInt8}
    (hslot : ins.instruction.callSlot = some s) (htail : analyzeTailCall l point.i ≠ true) :
    passJump h maxDepth l point ins params =
      if point.recursionDepth < maxDepth then
        .call (.slot s, point.recursionDepth + 1)
          { point with i := point.i + 1, flag := point.flag.next } params
      else .fail (-1) params := by
  rw [passJump, if_neg hflag, hslot]
  exact if_neg htail

/-- A handler reads nothing but the parameters. -/
theorem execHandler_of_params (h : Handlers S) (ins : ProcInstruction) (flag : IfElseFlag)
    (e : Effects S) :
    (execHandler h ins flag ⟨e.params, [], false⟩).1 = (execHandler h ins flag e).1 ∧
      (execHandler h ins flag ⟨e.params, [], false⟩).2.1 = (execHandler h ins flag e).2.1 ∧
      (execHandler h ins flag ⟨e.params, [], false⟩).2.2.params =
        (execHandler h ins flag e).2.2.params := by
  unfold execHandler
  cases ins.instruction <;> exact ⟨rfl, rfl, rfl⟩

theorem passJump_handler (hflag : point.flag ≠ .isFalse)
    (hslot : ins.instruction.callSlot = none) (e : Effects S) :
    passJump h maxDepth l point ins e.params =
      if (execHandler h ins point.flag.next e).1 = 0 then
        .goTo { point with
          i := point.i + 1, flag := (execHandler h ins point.flag.next e).2.1 }
          (execHandler h ins point.flag.next e).2.2.params
      else
        .fail (execHandler h ins point.flag.next e).1
          (execHandler h ins point.flag.next e).2.2.params := by
  rcases execHandler_of_params h ins point.flag.next e with ⟨hret, hnext, hparams⟩
  rw [passJump, if_neg hflag, hslot]
  simp only [hret, hnext, hparams]

/-- A frame goes on with the next instruction. -/
theorem passJump_goesOn {point' : LoopPoint}
    (hgoes : Procs.goesOn (passJump h maxDepth l point ins params) = some point') :
    ∃ flag, point' = { point with i := point.i + 1, flag := flag } := by
  by_cases hflag : point.flag = .isFalse
  · rw [passJump_skip hflag] at hgoes
    cases hgoes
    exact ⟨_, rfl⟩
  cases hslot : ins.instruction.callSlot with
  | some s =>
      by_cases htail : analyzeTailCall l point.i = true
      · rw [passJump_tail hflag hslot htail] at hgoes
        cases hgoes
      · rw [passJump_nested hflag hslot htail] at hgoes
        split at hgoes
        · cases hgoes
          exact ⟨_, rfl⟩
        · cases hgoes
  | none =>
      rw [passJump_handler hflag hslot ⟨params, [], false⟩] at hgoes
      split at hgoes
      · cases hgoes
        exact ⟨_, rfl⟩
      · cases hgoes

end PassJump

/-- The root and the stored procedures, at each depth. -/
def bodies (store : Store) (p : Proc) (h : Handlers S) (maxDepth : Nat) :
    Procs (ProcRef × Nat) LoopPoint S Int where
  entry := fun (ref, d) => ⟨ref, 0, .isNone, d⟩
  next point params :=
    let l := (point.proc.deref p store).instructions
    match l[point.i]? with
    | none => .ret params
    | some ins => passJump h maxDepth l point ins params

/-! ## Runs of the interpreter -/

def Frame.point (f : Frame) : LoopPoint := ⟨f.proc, f.i, f.flag, f.recursionDepth⟩

/-- Where a frame goes on when its call has returned. -/
def Frame.back (f : Frame) : LoopPoint := ⟨f.proc, f.i + 1, f.flag, f.recursionDepth⟩

/-- A run without what the analyses and the counter are for. -/
def RunState.stackState (r : RunState S) : StackState LoopPoint S Int :=
  match r.control with
  | .exec f callers => .running f.point r.effects.params (callers.map Frame.back)
  | .returning ret callers =>
      if ret = 0 then .returned r.effects.params (callers.map Frame.back)
      else .failed ret r.effects.params
  | .fault => .failed (-1) r.effects.params

theorem stackState_failed {ret : Int} (hret : ret ≠ 0) (callers : List Frame) (d : Nat)
    (e : Effects S) :
    RunState.stackState ⟨.returning ret callers, d, e⟩ = .failed ret e.params := if_neg hret

/-- The end of a pass. -/
theorem endPass_stackState (ret : Int) (f : Frame) (callers : List Frame) (r : RunState S) :
    (Interp.endPass ret f callers r).stackState =
      if ret = 0 then .running f.back r.effects.params (callers.map Frame.back)
      else .failed ret r.effects.params := by
  by_cases hret : ret = 0
  · subst hret
    rfl
  · rw [Interp.endPass_ne_zero hret, if_neg hret]
    exact if_neg hret

section Runs

variable {store : Store} {p : Proc} {st : AnalysisState} {m : Interp S}

/-- A step of a run is one of the procedures. -/
theorem OnGraph.step_stackState (h : OnGraph store p st m) (hreuse : m.reuseFrames = true)
    {r : RunState S} (hr : Numbered st m.maxDepth r) :
    (m.step r).stackState = (bodies store p m.handlers m.maxDepth).step r.stackState := by
  rcases r with ⟨control, d, e⟩
  cases control with
  | fault => exact hr.analysed.elim
  | returning ret callers =>
      cases callers with
      | nil =>
          change RunState.stackState ⟨.returning ret [], d, e⟩ = _
          by_cases hret : ret = 0
          · subst hret
            rfl
          · rw [stackState_failed hret]
            rfl
      | cons c callers =>
          change (Interp.endPass ret c callers _).stackState = _
          rw [endPass_stackState]
          by_cases hret : ret = 0
          · subst hret
            rfl
          · rw [stackState_failed hret, if_neg hret]
            rfl
  | exec f callers =>
      have hnext : (bodies store p m.handlers m.maxDepth).next f.point e.params =
          match (m.code f.proc).instructions[f.i]? with
          | none => .ret e.params
          | some ins => passJump m.handlers m.maxDepth (m.code f.proc).instructions f.point ins
              e.params := by
        rw [h.code]
        rfl
      change _ = (bodies store p m.handlers m.maxDepth).jump (callers.map Frame.back)
        ((bodies store p m.handlers m.maxDepth).next f.point e.params)
      rw [hnext]
      cases hins : (m.code f.proc).instructions[f.i]? with
      | none =>
          rw [m.step_end hins]
          rfl
      | some ins =>
          dsimp only
          by_cases hflag : f.flag = .isFalse
          · rw [m.step_skip hins hflag, passJump_skip hflag]
            rfl
          rw [m.step_instruction hins hflag]
          cases hslot : ins.instruction.callSlot with
          | none =>
              rw [m.execInstruction_handler hslot, endPass_stackState,
                passJump_handler hflag hslot]
              by_cases hret : (execHandler m.handlers ins f.point.flag.next e).1 = 0
              · rw [if_pos hret]
                exact if_pos hret
              · rw [if_neg hret]
                exact if_neg hret
          | some s =>
              have hcall := Instruction.eq_call hslot
              rcases h.procRuntimeCall_eq (f := { f with flag := f.flag.next }) hr.analysed.1 hins
                hcall callers ⟨.exec f callers, d, e.log ins e.params⟩ with ⟨b, -, heq⟩
              rw [m.execInstruction_call hcall, heq, hreuse, Bool.and_true]
              by_cases htail : analyzeTailCall (m.code f.proc).instructions f.i = true
              · rw [if_pos htail, passJump_tail hflag hslot htail]
                rfl
              · rw [if_neg htail, passJump_nested hflag hslot htail]
                -- the counter is one more than the depth of the frame
                have hd : d = f.recursionDepth + 1 := (numbered_cons hr.depths).1
                subst hd
                by_cases hroom : f.recursionDepth < m.maxDepth
                · rw [m.enter_of_le _ _ _ hroom, if_pos (by exact hroom)]
                  rfl
                · rw [m.enter_of_gt _ _ _ (by omega), if_neg (by exact hroom)]
                  rfl

/-- A run goes as the procedures say. -/
theorem OnGraph.steps_stackState (h : OnGraph store p st m) (hreuse : m.reuseFrames = true)
    (params : S) (n : Nat) :
    (m.steps n (m.start params)).stackState =
      (bodies store p m.handlers m.maxDepth).step^[n]
        ((bodies store p m.handlers m.maxDepth).start (.root, 0) params) := by
  induction n with
  | zero =>
      rw [Interp.steps, Function.iterate_zero_apply, Function.iterate_zero_apply, Interp.start,
        m.enter_of_le _ _ _ (Nat.zero_le _)]
      rfl
  | succ n ih =>
      have hnumbered : Numbered st m.maxDepth (m.steps n (m.start params)) :=
        Runs.preserves (fun _ => h.step_numbered) ⟨n, rfl⟩ (h.start_numbered params)
      rw [m.steps_succ, Function.iterate_succ_apply', h.step_stackState hreuse hnumbered, ih]

end Runs

/-! ## Weakest preconditions -/

/-- What is asked of a run: `safe` before an instruction is executed, and `fails` of the
code and the parameters when a run fails. -/
structure Demands (S : Type) where
  safe : ProcInstruction → S → Prop
  fails : Int → S → Prop

section Wp

variable (h : Handlers S) (maxDepth : Nat) (D : Demands S)
variable (C : Procs.Contracts (ProcRef × Nat) S)

/-- What has to hold of the parameters for the rest of a loop, at an index and with a
flag, in a frame of depth `d` of a procedure with the instructions `l`. A call that is
not marked needs room for one more frame. -/
def wp (l : List ProcInstruction) (d : Nat) (Q : S → Prop) :
    List ProcInstruction → Nat → IfElseFlag → S → Prop
  | [], _, _, params => Q params
  | ins :: rest, i, flag, params =>
      if flag = .isFalse then wp l d Q rest (i + 1) .isNone params
      else
        D.safe ins params ∧
          match ins.instruction.callSlot with
          | some s =>
              if analyzeTailCall l i then
                C.pre (.slot s, d) params ∧
                  ∀ params', C.post (.slot s, d) params params' → Q params'
              else if d < maxDepth then
                C.pre (.slot s, d + 1) params ∧
                  ∀ params', C.post (.slot s, d + 1) params params' →
                    wp l d Q rest (i + 1) flag.next params'
              else D.fails (-1) params
          | none =>
              let (ret, flag, e) := execHandler h ins flag.next ⟨params, [], false⟩
              if ret = 0 then wp l d Q rest (i + 1) flag e.params else D.fails ret e.params

/-- What has to hold when a procedure is entered at depth `d`, for `Q` when it returns. -/
def procWp (l : List ProcInstruction) (d : Nat) (Q : S → Prop) (params : S) : Prop :=
  wp h maxDepth D C l d Q l 0 .isNone params

variable {h maxDepth D C} {l rest : List ProcInstruction} {d i : Nat} {Q : S → Prop}
variable {ins : ProcInstruction} {flag : IfElseFlag} {params : S}

/-- One pass of the loop. -/
theorem wp_cons (ref : ProcRef) :
    wp h maxDepth D C l d Q (ins :: rest) i flag params ↔
      (flag ≠ .isFalse → D.safe ins params) ∧
        Procs.Keeps D.fails C (fun point => wp h maxDepth D C l d Q rest point.i point.flag) Q
          (passJump h maxDepth l ⟨ref, i, flag, d⟩ ins params) := by
  rw [wp]
  by_cases hflag : flag = .isFalse
  · rw [if_pos hflag, passJump_skip hflag]
    exact ⟨fun hw => ⟨fun hne => absurd hflag hne, hw⟩, fun hw => hw.2⟩
  rw [if_neg hflag]
  refine and_congr ⟨fun hs _ => hs, fun hs => hs hflag⟩ ?_
  cases hslot : ins.instruction.callSlot with
  | some s =>
      dsimp only
      by_cases htail : analyzeTailCall l i = true
      · rw [if_pos htail, passJump_tail hflag hslot htail]
        rfl
      · rw [if_neg htail, passJump_nested hflag hslot htail]
        dsimp only
        split <;> rfl
  | none =>
      rw [passJump_handler hflag hslot ⟨params, [], false⟩]
      dsimp only
      split <;> rfl

end Wp

section Rules

variable {store : Store} {p : Proc} {h : Handlers S} {maxDepth : Nat} {D : Demands S}
variable {C : Procs.Contracts (ProcRef × Nat) S} {Q : S → Prop}

/-- `safe`, for the instruction at a point. -/
def Demands.safeAt (D : Demands S) (store : Store) (p : Proc) (point : LoopPoint)
    (params : S) : Prop :=
  ∀ ins, (point.proc.deref p store).instructions[point.i]? = some ins → point.flag ≠ .isFalse →
    D.safe ins params

theorem bodies_next_nil {point : LoopPoint} {params : S}
    (h' : (point.proc.deref p store).instructions[point.i]? = none) :
    (bodies store p h maxDepth).next point params = .ret params := by
  simp only [bodies, h']

theorem bodies_next_cons {point : LoopPoint} {params : S} {ins : ProcInstruction}
    (h' : (point.proc.deref p store).instructions[point.i]? = some ins) :
    (bodies store p h maxDepth).next point params =
      passJump h maxDepth (point.proc.deref p store).instructions point ins params := by
  simp only [bodies, h']

/-- A procedure has an outline if and only if its weakest precondition holds. -/
theorem proves_iff_wp (ref : ProcRef) (d : Nat) (params : S) :
    (bodies store p h maxDepth).Proves (D.safeAt store p) D.fails C (ref, d) Q params ↔
      procWp h maxDepth D C (ref.deref p store).instructions d Q params := by
  constructor
  · rintro ⟨inside, houtline, hentry⟩
    -- the assertion at a point is no weaker than what the rest needs
    have hrest : ∀ rest i flag params, (ref.deref p store).instructions.drop i = rest →
        inside ⟨ref, i, flag, d⟩ params →
        wp h maxDepth D C (ref.deref p store).instructions d Q rest i flag params := by
      intro rest
      induction rest with
      | nil =>
          intro i flag params hdrop hinside
          have hkeeps := (houtline _ _ hinside).2
          have hnone : (ref.deref p store).instructions[i]? = none := by
            rw [← List.head?_drop, hdrop]
            rfl
          rw [bodies_next_nil hnone] at hkeeps
          exact hkeeps
      | cons ins rest ih =>
          intro i flag params hdrop hinside
          rcases houtline _ _ hinside with ⟨hsafe, hkeeps⟩
          have hins : (ref.deref p store).instructions[i]? = some ins := by
            rw [← List.head?_drop, hdrop]
            rfl
          have hnext : (ref.deref p store).instructions.drop (i + 1) = rest := by
            rw [← List.tail_drop, hdrop]
            rfl
          rw [bodies_next_cons hins] at hkeeps
          refine (wp_cons ref).mpr ⟨hsafe ins hins, hkeeps.imp ?_⟩
          intro point params' hgoes hinside'
          rcases passJump_goesOn hgoes with ⟨flag', rfl⟩
          exact ih (i + 1) flag' params' hnext hinside'
    exact hrest _ 0 .isNone params rfl hentry
  · intro hwp
    refine ⟨fun point params => point.proc = ref ∧ point.recursionDepth = d ∧
      wp h maxDepth D C (ref.deref p store).instructions d Q
        ((ref.deref p store).instructions.drop point.i) point.i point.flag params, ?_,
      rfl, rfl, hwp⟩
    rintro ⟨_, i, flag, _⟩ params ⟨rfl, rfl, hrest⟩
    dsimp only at hrest
    rename_i ref d
    cases hdrop : (ref.deref p store).instructions.drop i with
    | nil =>
        have hnone : (ref.deref p store).instructions[i]? = none := by
          rw [← List.head?_drop, hdrop]
          rfl
        rw [hdrop] at hrest
        rw [bodies_next_nil hnone]
        refine ⟨fun ins hins => ?_, hrest⟩
        rw [hnone] at hins
        cases hins
    | cons ins rest =>
        have hins : (ref.deref p store).instructions[i]? = some ins := by
          rw [← List.head?_drop, hdrop]
          rfl
        have hnext : (ref.deref p store).instructions.drop (i + 1) = rest := by
          rw [← List.tail_drop, hdrop]
          rfl
        rw [hdrop, wp_cons ref] at hrest
        rw [bodies_next_cons hins]
        constructor
        · intro ins' hins' hflag
          rw [hins] at hins'
          cases hins'
          exact hrest.1 hflag
        · refine hrest.2.imp ?_
          intro point params' hgoes hwp'
          rcases passJump_goesOn hgoes with ⟨flag', rfl⟩
          refine ⟨rfl, rfl, ?_⟩
          rw [hnext]
          exact hwp'

variable (store p h maxDepth D)

/-- Every procedure keeps its contracts, with the calls in it. -/
def KeepsContracts (C : Procs.Contracts (ProcRef × Nat) S) : Prop :=
  ∀ ref d params, C.pre (ref, d) params →
    procWp h maxDepth D C (ref.deref p store).instructions d (C.post (ref, d) params) params

/-- The same for contracts with ranks, where calls have lower ranks. -/
def KeepsRanked (C : Procs.RankedContracts (ProcRef × Nat) S) : Prop :=
  ∀ rank ref d params, C.pre rank (ref, d) params →
    procWp h maxDepth D (C.below rank) (ref.deref p store).instructions d
      (C.post (ref, d) params) params

variable {store p h maxDepth D}

theorem verified_iff_keepsContracts :
    (bodies store p h maxDepth).Verified (D.safeAt store p) D.fails C ↔
      KeepsContracts store p h maxDepth D C := by
  constructor
  · intro hC ref d params hpre
    exact (proves_iff_wp ref d params).mp (hC (ref, d) params hpre)
  · rintro hC ⟨ref, d⟩ params hpre
    exact (proves_iff_wp ref d params).mpr (hC ref d params hpre)

theorem verifiedRanked_iff_keepsRanked {C : Procs.RankedContracts (ProcRef × Nat) S} :
    (bodies store p h maxDepth).VerifiedRanked (D.safeAt store p) D.fails C ↔
      KeepsRanked store p h maxDepth D C := by
  constructor
  · intro hC rank ref d params hpre
    exact (proves_iff_wp ref d params).mp (hC rank (ref, d) params hpre)
  · rintro hC rank ⟨ref, d⟩ params hpre
    exact (proves_iff_wp ref d params).mpr (hC rank ref d params hpre)

/-- The number of instructions that are left goes down in a loop. -/
theorem bodies_advances (store : Store) (p : Proc) (h : Handlers S) (maxDepth : Nat) :
    (bodies store p h maxDepth).Advances
      fun point => (point.proc.deref p store).instructions.length - point.i := by
  intro point params point' hgoes
  cases hins : (point.proc.deref p store).instructions[point.i]? with
  | none =>
      rw [bodies_next_nil hins] at hgoes
      cases hgoes
  | some ins =>
      have hlt := (List.getElem?_eq_some_iff.mp hins).1
      rw [bodies_next_cons hins] at hgoes
      rcases passJump_goesOn hgoes with ⟨flag, rfl⟩
      dsimp only
      omega

end Rules

/-! ## Statements -/

section Statements

variable (h : Handlers S) (maxDepth : Nat) (D : Demands S)
variable (C : Procs.Contracts (ProcRef × Nat) S) (d : Nat) (Q : S → Prop)

/-- What has to hold for an instruction by itself, for `K` after it. When nothing is left
to do (`last`) a call needs no room, and is followed by what is asked of the procedure. -/
def plainWp (last : Bool) (K : S → Prop) (ins : ProcInstruction) (params : S) : Prop :=
  D.safe ins params ∧
    match ins.instruction.callSlot with
    | some s =>
        if last then
          C.pre (.slot s, d) params ∧ ∀ params', C.post (.slot s, d) params params' → Q params'
        else if d < maxDepth then
          C.pre (.slot s, d + 1) params ∧
            ∀ params', C.post (.slot s, d + 1) params params' → K params'
        else D.fails (-1) params
    | none =>
        let (ret, _, e) := execHandler h ins .isNone ⟨params, [], false⟩
        if ret = 0 then K e.params else D.fails ret e.params

/-- A clause that is missing does nothing. -/
def clauseWp (last : Bool) (K : S → Prop) : Option ProcInstruction → S → Prop
  | none => K
  | some ins => plainWp h maxDepth D C d Q last K ins

/-- What has to hold for a statement: of a condition, for the clause it selects. -/
def stmtWp (last : Bool) (K : S → Prop) : Stmt → S → Prop
  | .plain ins => plainWp h maxDepth D C d Q last K ins
  | .ifelse condition ifClause elseClause => fun params =>
      D.safe condition params ∧
        match (h.ifelse condition params).1 with
        | .holds => clauseWp h maxDepth D C d Q last K ifClause (h.ifelse condition params).2
        | .fails => clauseWp h maxDepth D C d Q last K elseClause (h.ifelse condition params).2
        | .err => D.fails IfElseFlag.err.code (h.ifelse condition params).2
        | .errType => D.fails IfElseFlag.errType.code (h.ifelse condition params).2

/-- A statement that does nothing. -/
def Stmt.isNoop : Stmt → Bool
  | .plain ins => ins.instruction.isNoop
  | .ifelse .. => false

/-- What has to hold for statements in order. -/
def stmtsWp : List Stmt → S → Prop
  | [] => Q
  | stmt :: rest => stmtWp h maxDepth D C d Q (rest.all Stmt.isNoop) (stmtsWp rest) stmt

variable {h maxDepth D C d Q} {l rest : List ProcInstruction} {ins : ProcInstruction} {i : Nat}

/-- A condition that holds. -/
theorem stmtWp_holds {last : Bool} {K : S → Prop} {condition : ProcInstruction}
    {ifClause elseClause : Option ProcInstruction} {params : S}
    (hholds : (h.ifelse condition params).1 = .holds) :
    stmtWp h maxDepth D C d Q last K (.ifelse condition ifClause elseClause) params ↔
      D.safe condition params ∧
        clauseWp h maxDepth D C d Q last K ifClause (h.ifelse condition params).2 := by
  simp only [stmtWp, hholds]

/-- A condition that does not. -/
theorem stmtWp_fails {last : Bool} {K : S → Prop} {condition : ProcInstruction}
    {ifClause elseClause : Option ProcInstruction} {params : S}
    (hfails : (h.ifelse condition params).1 = .fails) :
    stmtWp h maxDepth D C d Q last K (.ifelse condition ifClause elseClause) params ↔
      D.safe condition params ∧
        clauseWp h maxDepth D C d Q last K elseClause (h.ifelse condition params).2 := by
  simp only [stmtWp, hfails]

theorem ofInstructions_plain (hif : ins.instruction.isIfelse = false) :
    Stmt.ofInstructions (ins :: rest) = .plain ins :: Stmt.ofInstructions rest := by
  rcases rest with _ | ⟨a, _ | ⟨b, rest⟩⟩ <;> simp [Stmt.ofInstructions, hif]

theorem ofInstructions_ifelse (hif : ins.instruction.isIfelse = true) :
    Stmt.ofInstructions (ins :: rest) =
      .ifelse ins rest[0]? rest[1]? :: Stmt.ofInstructions (rest.drop 2) := by
  rcases rest with _ | ⟨a, _ | ⟨b, rest⟩⟩ <;> simp [Stmt.ofInstructions, hif]

theorem all_isNoop_ofInstructions (l : List ProcInstruction) :
    (Stmt.ofInstructions l).all Stmt.isNoop = l.all fun ins => ins.instruction.isNoop := by
  induction l using statements_induction with
  | nil => rfl
  | plain ins l hif ih =>
      rw [ofInstructions_plain hif, List.all_cons, List.all_cons, ih]
      rfl
  | ifelse ins l hif =>
      have hnoop : ins.instruction.isNoop = false := by
        cases hins : ins.instruction <;> simp_all [Instruction.isIfelse, Instruction.isNoop]
      rw [ofInstructions_ifelse hif, List.all_cons, List.all_cons, hnoop]
      rfl

/-- The loop at an instruction other than `ifelse`. -/
theorem wp_plain (hif : ins.instruction.isIfelse = false) {flag : IfElseFlag}
    (hflag : flag ≠ .isFalse) :
    wp h maxDepth D C l d Q (ins :: rest) i flag =
      plainWp h maxDepth D C d Q (analyzeTailCall l i)
        (wp h maxDepth D C l d Q rest (i + 1) flag.next) ins := by
  have hflags : ∀ e, execHandler h ins flag.next e =
      ((execHandler h ins .isNone e).1, flag.next, (execHandler h ins .isNone e).2.2) := by
    intro e
    unfold execHandler
    cases hins : ins.instruction <;> simp_all [Instruction.isIfelse]
  funext params
  rw [wp, if_neg hflag, plainWp, hflags]

/-- The loop at an instruction that is skipped. -/
theorem wp_skip : wp h maxDepth D C l d Q (ins :: rest) i .isFalse =
    wp h maxDepth D C l d Q rest (i + 1) .isNone := by
  funext params
  rw [wp, if_pos rfl]

/-- The loop at an `ifelse`. -/
theorem wp_ifelse (hif : ins.instruction.isIfelse = true) {flag : IfElseFlag}
    (hflag : flag ≠ .isFalse) (params : S) :
    wp h maxDepth D C l d Q (ins :: rest) i flag params =
      (D.safe ins params ∧
        match (h.ifelse ins params).1 with
        | .holds => wp h maxDepth D C l d Q rest (i + 1) .isTrue (h.ifelse ins params).2
        | .fails => wp h maxDepth D C l d Q rest (i + 1) .isFalse (h.ifelse ins params).2
        | .err => D.fails IfElseFlag.err.code (h.ifelse ins params).2
        | .errType => D.fails IfElseFlag.errType.code (h.ifelse ins params).2) := by
  rw [wp, if_neg hflag]
  unfold execHandler
  cases hins : ins.instruction with
  | ifelse =>
      simp only [Instruction.callSlot]
      cases (h.ifelse ins params).1 <;> rfl
  | _ => simp [hins, Instruction.isIfelse] at hif

/-- Where no `ifelse` is right before a call, the mark says that only noops follow. -/
theorem analyzeTailCall_of_not_clause (hstart : ¬ IfelseBefore l i 1) :
    analyzeTailCall l i = (l.drop (i + 1)).all fun ins => ins.instruction.isNoop := by
  cases i with
  | zero => rfl
  | succ i =>
      rw [ifelseBefore_succ_one, Bool.not_eq_true] at hstart
      simp [analyzeTailCall, hstart]

/-- For an if-clause it says so of what follows the else-clause. -/
theorem analyzeTailCall_of_ifClause (hif : isIfelseAt l i = true) :
    analyzeTailCall l (i + 1) = (l.drop (i + 3)).all fun ins => ins.instruction.isNoop := by
  by_cases hlt : i + 2 < l.length
  · simp [analyzeTailCall, hif, hlt]
  · rw [List.drop_eq_nil_of_le (by omega)]
    simp [analyzeTailCall, hif, hlt]

theorem isIfelseAt_of_drop (hdrop : l.drop i = ins :: rest) :
    isIfelseAt l i = ins.instruction.isIfelse := by
  rw [isIfelseAt, ← List.head?_drop, hdrop]
  rfl

theorem Restricted.not_ifelse_after (hr : Restricted l) (hif : ins.instruction.isIfelse = true)
    (hdrop : l.drop i = ins :: rest) :
    isIfelseAt l (i + 1) = false ∧ isIfelseAt l (i + 2) = false := by
  refine hr i ?_ ((isIfelseAt_of_drop hdrop).trans hif)
  by_contra hge
  rw [List.drop_eq_nil_of_le (Nat.le_of_not_lt hge)] at hdrop
  cases hdrop

/-- The loop at a condition with its two clauses. -/
theorem wp_statement (hif : ins.instruction.isIfelse = true) (hr : Restricted l)
    (hdrop : l.drop i = ins :: rest) :
    wp h maxDepth D C l d Q (ins :: rest) i .isNone =
      stmtWp h maxDepth D C d Q ((rest.drop 2).all fun ins => ins.instruction.isNoop)
        (wp h maxDepth D C l d Q (rest.drop 2) (i + 3) .isNone)
        (.ifelse ins rest[0]? rest[1]?) := by
  have hdrops : ∀ n, l.drop (i + (n + 1)) = rest.drop n := by
    intro n
    rw [← List.drop_drop, hdrop, List.drop_succ_cons]
  have hifMark := analyzeTailCall_of_ifClause ((isIfelseAt_of_drop hdrop).trans hif)
  have helseMark := analyzeTailCall_of_not_clause (l := l) (i := i + 2) (by
    rw [ifelseBefore_succ_one, (hr.not_ifelse_after hif hdrop).1]
    decide)
  rw [hdrops 2] at hifMark helseMark
  have hr' : Restricted (ins :: rest) := hdrop ▸ hr.drop i
  funext params
  rw [wp_ifelse hif (by decide), stmtWp]
  rcases rest with _ | ⟨a, _ | ⟨b, rest⟩⟩
  · rfl
  · rw [wp_plain (hr'.clause hif) (by decide), hifMark]
    rfl
  · -- the if-clause is followed by a skipped instruction, the else-clause comes after one
    rw [wp_plain (hr'.clause hif) (by decide), hifMark, IfElseFlag.next, wp_skip, wp_skip,
      wp_plain (hr'.second_clause hif) (by decide), helseMark]
    rfl

/-- For procedures without `ifelse` close after another, the weakest precondition goes by
statements, and a call is a tail call when nothing but noops follows its statement. -/
theorem procWp_eq_stmtsWp (hr : Restricted l) :
    procWp h maxDepth D C l d Q = stmtsWp h maxDepth D C d Q (Stmt.ofInstructions l) := by
  have hrest : ∀ rest i, l.drop i = rest → ¬ IfelseBefore l i 1 →
      wp h maxDepth D C l d Q rest i .isNone =
        stmtsWp h maxDepth D C d Q (Stmt.ofInstructions rest) := by
    intro rest
    induction rest using statements_induction with
    | nil => exact fun _ _ _ => rfl
    | plain ins rest hif ih =>
        intro i hdrop hstart
        have hnext : l.drop (i + 1) = rest := by
          rw [← List.drop_drop, hdrop, List.drop_one, List.tail_cons]
        have hafter : ¬ IfelseBefore l (i + 1) 1 := by
          rw [ifelseBefore_succ_one, isIfelseAt_of_drop hdrop, hif]
          decide
        rw [wp_plain hif (by decide), analyzeTailCall_of_not_clause hstart, hnext,
          ofInstructions_plain hif, stmtsWp, all_isNoop_ofInstructions, ← ih (i + 1) hnext hafter]
        rfl
    | ifelse ins rest hif ih =>
        intro i hdrop _
        have hnext : l.drop (i + 3) = rest.drop 2 := by
          rw [← List.drop_drop, hdrop, List.drop_succ_cons]
        have hafter : ¬ IfelseBefore l (i + 3) 1 := by
          rw [ifelseBefore_succ_one, (hr.not_ifelse_after hif hdrop).2]
          decide
        rw [wp_statement hif hr hdrop, ih (i + 3) hnext hafter, ofInstructions_ifelse hif, stmtsWp,
          all_isNoop_ofInstructions]
  refine hrest l 0 rfl ?_
  rintro ⟨hle, -⟩
  cases hle

end Statements

/-! ## All runs -/

/-- What is asked of the state of a run: `safe` where it executes an instruction, `Q` when
the outermost frame returns 0, and `fails` when any frame returns another code. -/
def Interp.Meets (m : Interp S) (D : Demands S) (Q : S → Prop) (r : RunState S) : Prop :=
  match r.control with
  | .exec f _ =>
      ∀ ins, (m.code f.proc).instructions[f.i]? = some ins → f.flag ≠ .isFalse →
        D.safe ins r.effects.params
  | .returning ret callers =>
      if ret = 0 then callers = [] → Q r.effects.params else D.fails ret r.effects.params
  | .fault => False

section AllRuns

variable {store : Store} {p : Proc} {st : AnalysisState} {m : Interp S} {D : Demands S}
variable {Q : S → Prop}

theorem OnGraph.meets_iff (h : OnGraph store p st m) {r : RunState S}
    (hr : Numbered st m.maxDepth r) :
    m.Meets D Q r ↔ r.stackState.Ok (D.safeAt store p) D.fails Q := by
  rcases r with ⟨control, d, e⟩
  cases control with
  | fault => exact hr.analysed.elim
  | exec f callers =>
      rw [Interp.Meets, h.code]
      rfl
  | returning ret callers =>
      by_cases hret : ret = 0
      · subst hret
        exact imp_congr List.map_eq_nil_iff.symm Iff.rfl
      · rw [stackState_failed hret, Interp.Meets]
        dsimp only
        rw [if_neg hret]
        rfl

/-- A demand on all states of a run, and on the procedures. -/
theorem OnGraph.run_meets_iff (h : OnGraph store p st m) (hreuse : m.reuseFrames = true)
    (params : S) :
    (∀ n, m.Meets D Q (m.steps n (m.start params))) ↔
      ∀ c, Runs (bodies store p m.handlers m.maxDepth).step
          ((bodies store p m.handlers m.maxDepth).start (.root, 0) params) c →
        c.Ok (D.safeAt store p) D.fails Q := by
  have hiff : ∀ n, m.Meets D Q (m.steps n (m.start params)) ↔
      ((bodies store p m.handlers m.maxDepth).step^[n]
        ((bodies store p m.handlers m.maxDepth).start (.root, 0) params)).Ok
          (D.safeAt store p) D.fails Q := by
    intro n
    have hnumbered : Numbered st m.maxDepth (m.steps n (m.start params)) :=
      Runs.preserves (fun _ => h.step_numbered) ⟨n, rfl⟩ (h.start_numbered params)
    rw [h.meets_iff hnumbered, h.steps_stackState hreuse]
  constructor
  · rintro hmeets c ⟨n, rfl⟩
    exact (hiff n).mp (hmeets n)
  · intro hok n
    exact (hiff n).mpr (hok _ ⟨n, rfl⟩)

/-- A run ends if and only if the procedures do. An error still goes through the
callers. -/
theorem OnGraph.ends_iff (h : OnGraph store p st m) (hreuse : m.reuseFrames = true)
    (params : S) :
    (∃ n, (m.steps n (m.start params)).Ended) ↔
      ∃ n, ((bodies store p m.handlers m.maxDepth).step^[n]
        ((bodies store p m.handlers m.maxDepth).start (.root, 0) params)).Final := by
  constructor
  · rintro ⟨n, ret, hret⟩
    refine ⟨n, ?_⟩
    rw [← h.steps_stackState hreuse, RunState.stackState, hret]
    dsimp only
    split
    · exact .returned _
    · exact .failed _ _
  · rintro ⟨n, hfinal⟩
    rw [← h.steps_stackState hreuse] at hfinal
    have hnumbered : Numbered st m.maxDepth (m.steps n (m.start params)) :=
      Runs.preserves (fun _ => h.step_numbered) ⟨n, rfl⟩ (h.start_numbered params)
    rcases hr : m.steps n (m.start params) with ⟨control, d, e⟩
    rw [hr] at hfinal hnumbered
    cases control with
    | fault => exact hnumbered.analysed.elim
    | exec f callers => cases hfinal
    | returning ret callers =>
        by_cases hret : ret = 0
        · subst hret
          have hcallers : callers.map Frame.back = [] := by
            cases hfinal' : callers.map Frame.back with
            | nil => rfl
            | cons back stack =>
                change StackState.Final (.returned e.params (callers.map Frame.back)) at hfinal
                rw [hfinal'] at hfinal
                cases hfinal
          rw [List.map_eq_nil_iff] at hcallers
          subst hcallers
          exact ⟨n, 0, by rw [hr]⟩
        · rcases returned_runs m callers d (show (ret, e).1 ≠ 0 from hret) with ⟨d', k, hk⟩
          refine ⟨k + n, ret, ?_⟩
          rw [Interp.steps, Function.iterate_add_apply]
          change (m.step^[k] (m.steps n (m.start params))).control = _
          rw [hr]
          change (m.step^[k] (.returned callers d (ret, e))).control = _
          rw [hk]
          rfl

end AllRuns

/-- The rules are sound and complete for runs of the code. Whatever is asked of the
parameters before each instruction, at the return and with errors, all runs from given
parameters meet it if and only if there are contracts for the slots that every procedure
keeps, and from which the weakest precondition of the root follows. -/
theorem contracts_iff (store : Store) (p : Proc) (hc : Closed store p) (handlers : Handlers S)
    (maxDepth : Nat) :
    ∃ m, runtimeThread store p handlers maxDepth = some m ∧
      ∀ (D : Demands S) (P : S → Prop) (Q : S → S → Prop),
        (∀ params, P params → ∀ n, m.Meets D (Q params) (m.steps n (m.start params))) ↔
          ∃ C, KeepsContracts store p handlers maxDepth D C ∧
            ∀ params, P params →
              procWp handlers maxDepth D C p.instructions 0 (Q params) params := by
  rcases onGraph_of_closed (S := S) hc with ⟨st, hrun, hgraph⟩
  have h := hgraph handlers maxDepth true
  refine ⟨.frozen store p st handlers maxDepth true, ?_, ?_⟩
  · rw [runtimeThread_eq store p handlers maxDepth hrun, if_neg (by simp)]
  intro D P Q
  let starts : ProcRef × Nat → S → Prop := fun k params => k = (.root, 0) ∧ P params
  have hiff := (bodies store p handlers maxDepth).safe_iff_proves (D.safeAt store p) D.fails starts
    fun _ => Q
  constructor
  · intro hmeets
    have hok := hiff.mp (by
      rintro _ params ⟨rfl, hparams⟩
      exact (h.run_meets_iff rfl params).mp (hmeets params hparams))
    rcases hok with ⟨C, hC, hproves⟩
    refine ⟨C, verified_iff_keepsContracts.mp hC, fun params hparams => ?_⟩
    exact (proves_iff_wp .root 0 params).mp (hproves _ params ⟨rfl, hparams⟩)
  · rintro ⟨C, hC, hwp⟩ params hparams
    refine (h.run_meets_iff rfl params).mpr (hiff.mpr ⟨C, ?_, ?_⟩ _ params ⟨rfl, hparams⟩)
    · exact verified_iff_keepsContracts.mpr hC
    · rintro _ params ⟨rfl, hparams⟩
      exact (proves_iff_wp .root 0 params).mpr (hwp params hparams)

theorem geoFencingCheck_closed : Closed geoFencingStore geoFencingCheck :=
  .of_covers [1] (by decide) (by decide)

/-- The contract of the geo-fencing check, where handlers count what is logged: it is
entered with 5 data points or more, and does not return. -/
def loggingContracts : Procs.Contracts (ProcRef × Nat) Nat where
  pre k n := k.1 = .slot 1 ∧ 5 ≤ n
  post _ _ _ := False

/-- No instruction is executed with fewer than 5 data points, and none fails. -/
def loggingDemands : Demands Nat := ⟨fun _ n => 5 ≤ n, fun _ _ => False⟩

theorem geoFencingCheck_wp (d : Nat) {n : Nat} (hn : 5 ≤ n) (Q : Nat → Prop) :
    procWp countHandlers 0 loggingDemands loggingContracts geoFencingCheck.instructions d Q n := by
  rw [procWp_eq_stmtsWp (by decide)]
  have hlogged : 5 ≤ n + 1 := Nat.le_succ_of_le hn
  -- the block, the set, the call
  exact ⟨hn, hn, hlogged, ⟨rfl, hlogged⟩, fun _ hpost => hpost.elim⟩

/-- From 5 data points on it goes on logging, and never returns. -/
theorem contracts_iff_geoFencingCheck :
    ∃ m, runtimeThread geoFencingStore geoFencingCheck countHandlers 0 = some m ∧
      ∀ n, 5 ≤ n → ∀ i, m.Meets loggingDemands (fun _ => False) (m.steps i (m.start n)) := by
  rcases contracts_iff geoFencingStore geoFencingCheck geoFencingCheck_closed countHandlers 0
    with ⟨m, hm, hiff⟩
  refine ⟨m, hm, (hiff loggingDemands (5 ≤ ·) fun _ _ => False).mpr ⟨loggingContracts, ?_, ?_⟩⟩
  · rintro ref d n ⟨rfl, hn⟩
    exact geoFencingCheck_wp d hn _
  · exact fun n hn => geoFencingCheck_wp 0 hn _

/-- The same with an end: all runs from given parameters meet the demand and come to
their end if and only if there are contracts with ranks. -/
theorem contracts_iff_ends (store : Store) (p : Proc) (hc : Closed store p)
    (handlers : Handlers S) (maxDepth : Nat) :
    ∃ m, runtimeThread store p handlers maxDepth = some m ∧
      ∀ (D : Demands S) (P : S → Prop) (Q : S → S → Prop),
        (∀ params, P params → (∀ n, m.Meets D (Q params) (m.steps n (m.start params))) ∧
            ∃ n, (m.steps n (m.start params)).Ended) ↔
          ∃ C, KeepsRanked store p handlers maxDepth D C ∧
            ∀ params, P params → ∃ rank,
              procWp handlers maxDepth D (C.below rank) p.instructions 0 (Q params) params := by
  rcases onGraph_of_closed (S := S) hc with ⟨st, hrun, hgraph⟩
  have h := hgraph handlers maxDepth true
  refine ⟨.frozen store p st handlers maxDepth true, ?_, ?_⟩
  · rw [runtimeThread_eq store p handlers maxDepth hrun, if_neg (by simp)]
  intro D P Q
  let starts : ProcRef × Nat → S → Prop := fun k params => k = (.root, 0) ∧ P params
  have hiff := Procs.ends_iff_proves (bodies_advances store p handlers maxDepth)
    (D.safeAt store p) D.fails starts fun _ => Q
  constructor
  · intro hmeets
    have hok := hiff.mp (by
      rintro _ params ⟨rfl, hparams⟩
      rcases hmeets params hparams with ⟨hall, hend⟩
      exact ⟨(h.run_meets_iff rfl params).mp hall, (h.ends_iff rfl params).mp hend⟩)
    rcases hok with ⟨C, hC, hproves⟩
    refine ⟨C, verifiedRanked_iff_keepsRanked.mp hC, fun params hparams => ?_⟩
    rcases hproves _ params ⟨rfl, hparams⟩ with ⟨rank, hrank⟩
    exact ⟨rank, (proves_iff_wp .root 0 params).mp hrank⟩
  · rintro ⟨C, hC, hwp⟩ params hparams
    have hends := hiff.mpr ⟨C, verifiedRanked_iff_keepsRanked.mpr hC, ?_⟩ _ params ⟨rfl, hparams⟩
    · exact ⟨(h.run_meets_iff rfl params).mpr hends.1, (h.ends_iff rfl params).mpr hends.2⟩
    · rintro _ params ⟨rfl, hparams⟩
      rcases hwp params hparams with ⟨rank, hrank⟩
      exact ⟨rank, (proves_iff_wp .root 0 params).mpr hrank⟩

/-- Handlers that count down: `unop` takes 1 away, and a condition holds unless nothing is
left. -/
def countdownHandlers : Handlers Nat where
  block _ n := (0, n)
  ifelse _ n := (if n = 0 then .fails else .holds, n)
  set _ n := (0, n)
  unop _ n := (0, n - 1)
  binop _ n := (0, n)

/-- A procedure that counts down and calls itself until nothing is left. -/
def countdown : Proc where
  instructions := [⟨0, .unop .nil 0 .nil⟩, ⟨1, .ifelseNil⟩, ⟨2, .call 1⟩]
  length_le := by decide

def countdownStore : Store := fun s => if s = 1 then countdown else Proc.empty

theorem countdown_closed : Closed countdownStore countdown :=
  .of_covers [1] (by decide) (by decide)

/-- Its contract: nothing is left when it returns. The rank bounds what is left when it is
entered. -/
def countdownContracts : Procs.RankedContracts (ProcRef × Nat) Nat where
  pre rank k n := k.1 = .slot 1 ∧ n ≤ rank
  post _ _ n' := n' = 0

/-- No instruction fails. -/
def countdownDemands : Demands Nat := ⟨fun _ _ => True, fun _ _ => False⟩

theorem countdown_wp (d : Nat) {rank n : Nat} (hn : n ≤ rank) :
    procWp countdownHandlers 0 countdownDemands (countdownContracts.below rank)
      countdown.instructions d (· = 0) n := by
  rw [procWp_eq_stmtsWp (by decide)]
  refine ⟨trivial, ?_⟩
  by_cases hleft : n - 1 = 0
  · exact (stmtWp_fails (if_pos hleft)).mpr ⟨trivial, hleft⟩
  · -- the call is a tail call, with less left than before
    refine (stmtWp_holds (if_neg hleft)).mpr ⟨trivial, trivial, ?_⟩
    exact ⟨⟨n - 1, by omega, rfl, Nat.le_refl _⟩, fun _ hpost => hpost⟩

/-- However much there is to count, it comes to its end with nothing left, in one frame. -/
theorem contracts_iff_ends_countdown :
    ∃ m, runtimeThread countdownStore countdown countdownHandlers 0 = some m ∧
      ∀ n, (∀ i, m.Meets countdownDemands (· = 0) (m.steps i (m.start n))) ∧
        ∃ i, (m.steps i (m.start n)).Ended := by
  rcases contracts_iff_ends countdownStore countdown countdown_closed countdownHandlers 0
    with ⟨m, hm, hiff⟩
  have hends := (hiff countdownDemands (fun _ => True) fun _ => (· = 0)).mpr
    ⟨countdownContracts, ?_, ?_⟩
  · exact ⟨m, hm, fun n => hends n trivial⟩
  · rintro rank ref d n ⟨rfl, hn⟩
    exact countdown_wp d hn
  · exact fun n _ => ⟨n, countdown_wp 0 (Nat.le_refl n)⟩

end CspProc
