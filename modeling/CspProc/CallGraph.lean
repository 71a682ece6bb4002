import CspProc.Interp
import Mathlib.Data.Fintype.Card
import Mathlib.Logic.Relation

/-! # What an analysis has built

The heap that `proc_analyze` leaves is described analysis by analysis
(`NodeOk`): it has the procedure it was made for, its slots are the slots of
the procedure's calls, and its sub-analyses are the ones that the
configuration holds for these slots. `procAnalyze_spec` proves this of every
procedure and every store, over the recursion; an analysis stops at its first
call of an empty slot, so the slots end there.

Where no call meets an empty slot the heap is the call graph.
-/

namespace CspProc

/-! ## The slots of a procedure -/

/-- The slots that a procedure calls, in order. -/
def callSlots (l : List ProcInstruction) : List UInt8 :=
  l.filterMap fun ins => ins.instruction.callSlot

/-- The slots that are fetched: those before the first empty one. -/
def fetchedSlots (store : Store) : List UInt8 → List UInt8
  | [] => []
  | s :: ss => if store.occupied s then s :: fetchedSlots store ss else []

/-- The slots that are entered in an analysis: those up to the first empty one. -/
def enteredSlots (store : Store) : List UInt8 → List UInt8
  | [] => []
  | s :: ss => if store.occupied s then s :: enteredSlots store ss else [s]

/-- Every slot of the list is occupied. -/
def AllOccupied (store : Store) (ss : List UInt8) : Prop := ∀ s ∈ ss, store.occupied s = true

instance (store : Store) (ss : List UInt8) : Decidable (AllOccupied store ss) :=
  List.decidableBAll (fun s => store.occupied s = true) ss

theorem fetchedSlots_of_allOccupied {store : Store} {ss : List UInt8}
    (h : AllOccupied store ss) : fetchedSlots store ss = ss := by
  induction ss with
  | nil => rfl
  | cons s ss ih =>
      have hs := h s List.mem_cons_self
      rw [fetchedSlots, if_pos hs, ih fun t ht => h t (List.mem_cons_of_mem s ht)]

theorem enteredSlots_of_allOccupied {store : Store} {ss : List UInt8}
    (h : AllOccupied store ss) : enteredSlots store ss = ss := by
  induction ss with
  | nil => rfl
  | cons s ss ih =>
      have hs := h s List.mem_cons_self
      rw [enteredSlots, if_pos hs, ih fun t ht => h t (List.mem_cons_of_mem s ht)]

/-- What the analysis enters for the instructions from index `i` on. -/
def instructionAnalysesFrom (l : List ProcInstruction) :
    Nat → List ProcInstruction → List InstructionAnalysis
  | _, [] => []
  | i, ins :: rest => analyzeInstruction l i ins :: instructionAnalysesFrom l (i + 1) rest

theorem instructionAnalysesFrom_getElem? (l : List ProcInstruction) (i k : Nat)
    (rest : List ProcInstruction) :
    (instructionAnalysesFrom l i rest)[k]? =
      rest[k]?.map fun ins => analyzeInstruction l (i + k) ins := by
  induction rest generalizing i k with
  | nil => rfl
  | cons ins rest ih =>
      cases k with
      | zero => rfl
      | succ k =>
          simp only [instructionAnalysesFrom, List.getElem?_cons_succ, ih]
          rw [Nat.add_right_comm, Nat.add_assoc]

/-! ## The invariant -/

/-- The heap and the configuration fit together: an entry of the
configuration is an allocated analysis other than the root's, no two slots
share one, and only occupied slots have one. -/
structure AnalysisState.Wf (store : Store) (st : AnalysisState) : Prop where
  next_pos : 0 < st.next
  bound : ∀ s a, st.analyses s = some a → 0 < a ∧ a < st.next
  inj : ∀ s t a, st.analyses s = some a → st.analyses t = some a → s = t
  occupied : ∀ s a, st.analyses s = some a → store.occupied s = true

/-- The analysis `a` is that of a procedure with the instructions `l`. -/
structure NodeOk (store : Store) (st : AnalysisState) (a : Nat) (l : List ProcInstruction)
    (ref : ProcRef) : Prop where
  proc : (st.node a).proc = ref
  slots : (st.node a).procedureSlots = enteredSlots store (callSlots l)
  subs : (st.node a).subAnalyses.map some = (fetchedSlots store (callSlots l)).map st.analyses
  instrs : AllOccupied store (callSlots l) →
    (st.node a).instructionAnalyses = instructionAnalysesFrom l 0 l

/-- From `st` to `st'` only the analysis `id` was changed and new ones were
made, each for a newly entered slot and complete. -/
structure Extends (store : Store) (id : Nat) (st st' : AnalysisState) : Prop where
  next_le : st.next ≤ st'.next
  analyses : ∀ s a, st.analyses s = some a → st'.analyses s = some a
  frame : ∀ a, a < st.next → a ≠ id → st'.node a = st.node a
  fresh : ∀ s a, st'.analyses s = some a → st.analyses s = none →
    st.next ≤ a ∧ a < st'.next ∧ NodeOk store st' a (store s).instructions (.slot s)

/-- A longer configuration agrees where the shorter one has entries. -/
theorem map_some_mono {ss : List UInt8} {as : List Nat} {f g : UInt8 → Option Nat}
    (h : as.map some = ss.map f) (hfg : ∀ s a, f s = some a → g s = some a) :
    as.map some = ss.map g := by
  induction ss generalizing as with
  | nil => simpa using h
  | cons s ss ih =>
      cases as with
      | nil => simp at h
      | cons a as =>
          simp only [List.map_cons, List.cons.injEq] at h
          simp only [List.map_cons, hfg s a h.1.symm, ih h.2]

/-- An analysis that is left alone stays that of its procedure. -/
theorem NodeOk.mono {store : Store} {st st' : AnalysisState} {a : Nat}
    {l : List ProcInstruction} {ref : ProcRef} (h : NodeOk store st a l ref)
    (hnode : st'.node a = st.node a)
    (hanalyses : ∀ s b, st.analyses s = some b → st'.analyses s = some b) :
    NodeOk store st' a l ref where
  proc := hnode ▸ h.proc
  slots := hnode ▸ h.slots
  subs := hnode ▸ map_some_mono h.subs hanalyses
  instrs := hnode ▸ h.instrs

namespace Extends

variable {store : Store} {id : Nat} {st st' st'' : AnalysisState}

theorem modify (store : Store) (st : AnalysisState) (id : Nat) (f : Analysis → Analysis) :
    Extends store id st (st.modify id f) where
  next_le := Nat.le_refl _
  analyses _ _ h := h
  frame _ _ hne := st.modify_node_of_ne f hne
  fresh s a h hnone := by
    rw [AnalysisState.modify_analyses, hnone] at h
    cases h

theorem trans (hid : id < st.next) (h : Extends store id st st') (h' : Extends store id st' st'') :
    Extends store id st st'' where
  next_le := h.next_le.trans h'.next_le
  analyses s a ha := h'.analyses s a (h.analyses s a ha)
  frame a ha hne := by
    rw [h'.frame a (ha.trans_le h.next_le) hne, h.frame a ha hne]
  fresh s a ha hnone := by
    cases hmid : st'.analyses s with
    | none =>
        rcases h'.fresh s a ha hmid with ⟨hle, hlt, hok⟩
        exact ⟨h.next_le.trans hle, hlt, hok⟩
    | some b =>
        have hab : b = a := by
          have hb := h'.analyses s b hmid
          rw [ha] at hb
          exact (Option.some.inj hb).symm
        subst hab
        rcases h.fresh s b hmid hnone with ⟨hle, hlt, hok⟩
        refine ⟨hle, hlt.trans_le h'.next_le, hok.mono ?_ h'.analyses⟩
        exact h'.frame b hlt (by omega)

/-- A recursive call for a newly entered slot changes nothing but its own
analysis and newer ones. -/
theorem of_mark {slot : UInt8} (id : Nat) (hnone : st.analyses slot = none)
    (h : Extends store st.next (st.mark slot) st')
    (hok : NodeOk store st' st.next (store slot).instructions (.slot slot)) :
    Extends store id st st' where
  next_le := by
    have hle := h.next_le
    rw [AnalysisState.mark_next] at hle
    omega
  analyses s a ha := by
    refine h.analyses s a ?_
    have hne : s ≠ slot := fun heq => by rw [heq, hnone] at ha; cases ha
    simpa [AnalysisState.mark, hne] using ha
  frame a ha hne := by
    have hmark : a < (st.mark slot).next := by
      rw [AnalysisState.mark_next]
      omega
    rw [h.frame a hmark (by omega), AnalysisState.mark_node]
  fresh s a ha hs := by
    by_cases heq : s = slot
    · subst heq
      have hentry := h.analyses s st.next (by simp [AnalysisState.mark])
      rw [ha] at hentry
      obtain rfl := Option.some.inj hentry
      have hle := h.next_le
      rw [AnalysisState.mark_next] at hle
      exact ⟨Nat.le_refl _, by omega, hok⟩
    · have hmark : (st.mark slot).analyses s = none := by
        simpa [AnalysisState.mark, heq] using hs
      rcases h.fresh s a ha hmark with ⟨hle, hlt, hsub⟩
      rw [AnalysisState.mark_next] at hle
      exact ⟨by omega, hlt, hsub⟩

end Extends

namespace AnalysisState.Wf

variable {store : Store} {st : AnalysisState}

theorem modify (h : st.Wf store) (id : Nat) (f : Analysis → Analysis) :
    (st.modify id f).Wf store :=
  ⟨h.next_pos, h.bound, h.inj, h.occupied⟩

/-- The next number is no slot's analysis yet, so it can be entered for one. -/
theorem mark (h : st.Wf store) {slot : UInt8} (hocc : store.occupied slot = true) :
    (st.mark slot).Wf store where
  next_pos := Nat.succ_pos _
  bound s a ha := by
    have hpos := h.next_pos
    by_cases heq : s = slot
    · subst heq
      simp only [AnalysisState.mark, Function.update_self, Option.some.injEq] at ha
      rw [AnalysisState.mark_next]
      omega
    · simp only [AnalysisState.mark, Function.update_of_ne heq] at ha
      have hb := h.bound s a ha
      rw [AnalysisState.mark_next]
      omega
  inj s t a hs ht := by
    -- the number that is given out is larger than all before
    have hnew : ∀ u, u ≠ slot → st.analyses u = some a → a ≠ st.next := by
      intro u _ hu
      have hb := (h.bound u a hu).2
      omega
    by_cases heqs : s = slot <;> by_cases heqt : t = slot
    · rw [heqs, heqt]
    · simp only [AnalysisState.mark, heqs, Function.update_self, Option.some.injEq,
        Function.update_of_ne heqt] at hs ht
      exact absurd hs.symm (hnew t heqt ht)
    · simp only [AnalysisState.mark, heqt, Function.update_self, Option.some.injEq,
        Function.update_of_ne heqs] at hs ht
      exact absurd ht.symm (hnew s heqs hs)
    · simp only [AnalysisState.mark, Function.update_of_ne heqs, Function.update_of_ne heqt]
        at hs ht
      exact h.inj s t a hs ht
  occupied s a ha := by
    by_cases heq : s = slot
    · rw [heq]
      exact hocc
    · simp only [AnalysisState.mark, Function.update_of_ne heq] at ha
      exact h.occupied s a ha

end AnalysisState.Wf

/-! ## The depth of the recursion -/

theorem card_slots_le {P Q : UInt8 → Prop} [DecidablePred P] [DecidablePred Q]
    (h : ∀ s, Q s → P s) :
    (Finset.univ.filter fun i : Fin 256 => Q (UInt8.ofNat i)).card ≤
      (Finset.univ.filter fun i : Fin 256 => P (UInt8.ofNat i)).card := by
  refine Finset.card_le_card ?_
  intro i hi
  simp only [Finset.mem_filter, Finset.mem_univ, true_and] at hi ⊢
  exact h _ hi

/-- There are fewer slots when one is left out. -/
theorem card_slots_lt {P Q : UInt8 → Prop} [DecidablePred P] [DecidablePred Q]
    (h : ∀ s, Q s → P s) {slot : UInt8} (hP : P slot) (hQ : ¬ Q slot) :
    (Finset.univ.filter fun i : Fin 256 => Q (UInt8.ofNat i)).card <
      (Finset.univ.filter fun i : Fin 256 => P (UInt8.ofNat i)).card := by
  have hslot : UInt8.ofNat (⟨slot.toNat, slot.toNat_lt⟩ : Fin 256) = slot := by simp
  refine Finset.card_lt_card (Finset.ssubset_iff_of_subset ?_ |>.mpr
    ⟨⟨slot.toNat, slot.toNat_lt⟩, ?_, ?_⟩)
  · intro i hi
    simp only [Finset.mem_filter, Finset.mem_univ, true_and] at hi ⊢
    exact h _ hi
  · simp only [Finset.mem_filter, Finset.mem_univ, true_and]
    rwa [hslot]
  · simp only [Finset.mem_filter, Finset.mem_univ, true_and]
    rwa [hslot]

/-- The number of slots without an entry. -/
def AnalysisState.unmarked (st : AnalysisState) : Nat :=
  (Finset.univ.filter fun i : Fin 256 => st.analyses (UInt8.ofNat i) = none).card

theorem AnalysisState.unmarked_le {st st' : AnalysisState}
    (h : ∀ s a, st.analyses s = some a → st'.analyses s = some a) :
    st'.unmarked ≤ st.unmarked := by
  refine card_slots_le (P := fun s => st.analyses s = none) (Q := fun s => st'.analyses s = none) ?_
  intro s hnone
  cases hs : st.analyses s with
  | none => rfl
  | some a =>
      rw [h s a hs] at hnone
      cases hnone

/-- Entering a slot uses it up. -/
theorem AnalysisState.unmarked_mark {st : AnalysisState} {slot : UInt8}
    (h : st.analyses slot = none) : (st.mark slot).unmarked < st.unmarked := by
  refine card_slots_lt (P := fun s => st.analyses s = none)
    (Q := fun s => (st.mark slot).analyses s = none) ?_ h ?_
  · intro s hs
    by_cases heq : s = slot
    · rw [heq, h]
    · simpa only [AnalysisState.mark, Function.update_of_ne heq] using hs
  · simp [AnalysisState.mark]

/-! ## Entering a call -/

/-- The analysis `id` with the call at index `i` and its slot entered. -/
def AnalysisState.enterCall (st : AnalysisState) (l : List ProcInstruction) (id i : Nat)
    (ins : ProcInstruction) (slot : UInt8) : AnalysisState :=
  (st.modify id fun a => a.setInstruction i (analyzeInstruction l i ins)).modify id
    fun a => a.addSlot slot

section EnterCall

variable {st : AnalysisState} (l : List ProcInstruction) (id i : Nat) (ins : ProcInstruction)
variable (slot : UInt8)

@[simp] theorem enterCall_node : (st.enterCall l id i ins slot).node id =
    { st.node id with
      procedureSlots := (st.node id).procedureSlots ++ [slot]
      instructionAnalyses :=
        (st.node id).instructionAnalyses.set i (analyzeInstruction l i ins) } := by
  simp [AnalysisState.enterCall, Analysis.setInstruction, Analysis.addSlot]

@[simp] theorem enterCall_next : (st.enterCall l id i ins slot).next = st.next := rfl

@[simp] theorem enterCall_analyses : (st.enterCall l id i ins slot).analyses = st.analyses := rfl

theorem AnalysisState.Wf.enterCall {store : Store} (h : st.Wf store) :
    (st.enterCall l id i ins slot).Wf store := (h.modify id _).modify id _

theorem Extends.refl (store : Store) (id : Nat) (st : AnalysisState) :
    Extends store id st st where
  next_le := Nat.le_refl _
  analyses _ _ h := h
  frame _ _ _ := rfl
  fresh s a h hnone := by
    rw [hnone] at h
    cases h

variable {id} in
theorem Extends.enterCall {store : Store} (hid : id < st.next) :
    Extends store id st (st.enterCall l id i ins slot) :=
  (Extends.modify store st id _).trans hid (Extends.modify store _ id _)

end EnterCall

/-! ## The specification of `proc_analyze` -/

/-- What a call of `proc_analyze` on the analysis `id` does. -/
structure Analyzed (store : Store) (id : Nat) (l : List ProcInstruction) (ref : ProcRef)
    (st : AnalysisState) (ret : Int) (st' : AnalysisState) : Prop where
  wf : st'.Wf store
  grows : Extends store id st st'
  ok : NodeOk store st' id l ref
  ret_eq : ret = if AllOccupied store (callSlots l) then 0 else -1

/-- What the loop does for the instructions `rest` from index `i` on, when the
analysis `id` has been filled in as far as `i`. -/
structure LoopDone (store : Store) (id : Nat) (l : List ProcInstruction) (i : Nat)
    (rest : List ProcInstruction) (st : AnalysisState) (ret : Int) (st' : AnalysisState) :
    Prop where
  wf : st'.Wf store
  grows : Extends store id st st'
  proc : (st'.node id).proc = (st.node id).proc
  slots : (st'.node id).procedureSlots =
    (st.node id).procedureSlots ++ enteredSlots store (callSlots rest)
  subs : (st'.node id).subAnalyses.map some =
    (st.node id).subAnalyses.map some ++ (fetchedSlots store (callSlots rest)).map st'.analyses
  instrs : AllOccupied store (callSlots rest) → ∀ as bs, as.length = i →
    bs.length = rest.length → (st.node id).instructionAnalyses = as ++ bs →
    (st'.node id).instructionAnalyses = as ++ instructionAnalysesFrom l i rest
  ret_eq : ret = if AllOccupied store (callSlots rest) then 0 else -1

/-- Setting the first element of the second part. -/
theorem set_append_cons {α : Type} (as bs : List α) (b x : α) :
    (as ++ b :: bs).set as.length x = (as ++ [x]) ++ bs := by
  simp

theorem callSlots_cons_call {ins : ProcInstruction} {slot : UInt8}
    (h : ins.instruction = .call slot) (rest : List ProcInstruction) :
    callSlots (ins :: rest) = slot :: callSlots rest := by
  simp [callSlots, h, Instruction.callSlot]

theorem callSlots_cons_other {ins : ProcInstruction}
    (h : ins.instruction.callSlot = none) (rest : List ProcInstruction) :
    callSlots (ins :: rest) = callSlots rest := by
  simp [callSlots, h]

/-- Filling in the instruction at index `i`. -/
theorem instrs_cons {l rest : List ProcInstruction} {ins : ProcInstruction} {i : Nat}
    {old new final : List InstructionAnalysis}
    (hnew : new = old.set i (analyzeInstruction l i ins))
    (hfinal : ∀ as bs, as.length = i + 1 → bs.length = rest.length → new = as ++ bs →
      final = as ++ instructionAnalysesFrom l (i + 1) rest)
    (as bs : List InstructionAnalysis) (has : as.length = i)
    (hbs : bs.length = (ins :: rest).length) (hold : old = as ++ bs) :
    final = as ++ instructionAnalysesFrom l i (ins :: rest) := by
  cases bs with
  | nil => cases hbs
  | cons b bs =>
      subst has
      have hset : new = (as ++ [analyzeInstruction l as.length ins]) ++ bs := by
        rw [hnew, hold, set_append_cons]
      rw [hfinal _ bs (by simp) (by simpa using hbs) hset, instructionAnalysesFrom]
      simp

namespace LoopDone

variable {store : Store} {l : List ProcInstruction} {id : Nat} {i : Nat} {ret : Int}
variable {ins : ProcInstruction} {rest : List ProcInstruction} {st st₁ st' : AnalysisState}

/-- The end of the loop. -/
theorem nil (hwf : st.Wf store) : LoopDone store id l i [] st 0 st where
  wf := hwf
  grows := .refl store id st
  proc := rfl
  slots := by simp [callSlots, enteredSlots]
  subs := by simp [callSlots, fetchedSlots]
  instrs _ as bs _ hbs h := by
    rw [List.length_eq_zero_iff.mp hbs] at h
    simpa [instructionAnalysesFrom] using h
  ret_eq := by simp [callSlots, AllOccupied]

/-- An instruction that is no call. -/
theorem cons_other (hid : id < st.next) (hins : ins.instruction.callSlot = none)
    (h : LoopDone store id l (i + 1) rest
      (st.modify id fun a => a.setInstruction i (analyzeInstruction l i ins)) ret st') :
    LoopDone store id l i (ins :: rest) st ret st' where
  wf := h.wf
  grows := (Extends.modify store st id _).trans hid h.grows
  proc := by simpa [Analysis.setInstruction] using h.proc
  slots := by simpa [callSlots_cons_other hins, Analysis.setInstruction] using h.slots
  subs := by simpa [callSlots_cons_other hins, Analysis.setInstruction] using h.subs
  instrs hall as bs has hbs hold := by
    rw [callSlots_cons_other hins] at hall
    exact instrs_cons (by simp [Analysis.setInstruction]) (h.instrs hall) as bs has hbs hold
  ret_eq := by
    rw [callSlots_cons_other hins]
    exact h.ret_eq

/-- A call of an empty slot, which ends the loop. -/
theorem empty {slot : UInt8} (hid : id < st.next) (hins : ins.instruction = .call slot)
    (hocc : store.occupied slot = false) (hwf : st.Wf store) :
    LoopDone store id l i (ins :: rest) st (-1) (st.enterCall l id i ins slot) where
  wf := hwf.enterCall l id i ins slot
  grows := .enterCall l i ins slot hid
  proc := by simp
  slots := by
    rw [callSlots_cons_call hins, enteredSlots, hocc]
    simp
  subs := by
    rw [callSlots_cons_call hins, fetchedSlots, hocc]
    simp
  instrs hall := by
    rw [callSlots_cons_call hins] at hall
    have hslot := hall slot List.mem_cons_self
    rw [hocc] at hslot
    cases hslot
  ret_eq := by
    rw [if_neg]
    intro hall
    rw [callSlots_cons_call hins] at hall
    have hslot := hall slot List.mem_cons_self
    rw [hocc] at hslot
    cases hslot

/-- A call of an occupied slot, whose sub-analysis is `sub`. In `st₁` it is
entered for the slot, and nothing else has changed in the analysis `id`. -/
theorem cons_call {slot : UInt8} {sub : Nat} (hid : id < st.next)
    (hins : ins.instruction = .call slot) (hocc : store.occupied slot = true)
    (hgrows : Extends store id (st.enterCall l id i ins slot) st₁)
    (hnode : st₁.node id = (st.enterCall l id i ins slot).node id)
    (hsub : st₁.analyses slot = some sub)
    (h : LoopDone store id l (i + 1) rest (st₁.modify id fun a => a.addSub sub) ret st') :
    LoopDone store id l i (ins :: rest) st ret st' where
  wf := h.wf
  grows := ((Extends.enterCall l i ins slot hid).trans hid
    (hgrows.trans hid (Extends.modify store st₁ id _))).trans hid h.grows
  proc := by
    rw [h.proc]
    simp [hnode, Analysis.addSub]
  slots := by
    rw [h.slots, callSlots_cons_call hins, enteredSlots, if_pos hocc]
    simp [hnode, Analysis.addSub]
  subs := by
    rw [h.subs, callSlots_cons_call hins, fetchedSlots, if_pos hocc, List.map_cons,
      h.grows.analyses slot sub hsub]
    simp [hnode, Analysis.addSub]
  instrs hall as bs has hbs hold := by
    rw [callSlots_cons_call hins] at hall
    have hrest : AllOccupied store (callSlots rest) :=
      fun s hs => hall s (List.mem_cons_of_mem slot hs)
    exact instrs_cons (by simp [hnode, Analysis.addSub]) (h.instrs hrest) as bs has hbs hold
  ret_eq := by
    have hiff : AllOccupied store (slot :: callSlots rest) ↔
        AllOccupied store (callSlots rest) := by
      simp only [AllOccupied, List.mem_cons, forall_eq_or_imp, hocc, true_and]
    rw [h.ret_eq, callSlots_cons_call hins]
    exact if_congr hiff.symm rfl rfl

end LoopDone

section Loop

variable {store : Store} {l : List ProcInstruction} {id : Nat} {depth : Nat}
variable (recur : Proc → ProcRef → Nat → AnalysisState → Option (Int × AnalysisState))

variable {recur} in
/-- The loop at a call. -/
theorem analyzeInstructions_call {ins : ProcInstruction} {slot : UInt8}
    (rest : List ProcInstruction) {i : Nat} {st : AnalysisState}
    (hcall : ins.instruction = .call slot) :
    analyzeInstructions store l id recur (ins :: rest) i st =
      match store.getProc true slot with
      | .found subProc =>
          match st.analyses slot with
          | some sub =>
              analyzeInstructions store l id recur rest (i + 1)
                ((st.enterCall l id i ins slot).modify id fun a => a.addSub sub)
          | none =>
              (recur subProc (.slot slot) st.next ((st.enterCall l id i ins slot).mark slot)).bind
                fun r => analyzeInstructions store l id recur rest (i + 1)
                  (r.2.modify id fun a => a.addSub st.next)
      | _ => some (-1, st.enterCall l id i ins slot) := by
  rw [analyzeInstructions]
  simp only [hcall]
  rfl

/-- The loop keeps the invariant, given that the recursive call does. By
induction on the remaining instructions; the cases are those of the loop. -/
theorem analyzeInstructions_spec
    (hrec : ∀ proc ref a st, st.Wf store → a < st.next → st.unmarked < depth →
      ∃ ret st', recur proc ref a st = some (ret, st') ∧
        Analyzed store a proc.instructions ref st ret st')
    (rest : List ProcInstruction) (i : Nat) (st : AnalysisState) (hwf : st.Wf store)
    (hid : id < st.next) (hdepth : st.unmarked ≤ depth) :
    ∃ ret st', analyzeInstructions store l id recur rest i st = some (ret, st') ∧
      LoopDone store id l i rest st ret st' := by
  induction rest generalizing i st with
  | nil => exact ⟨0, st, rfl, .nil hwf⟩
  | cons ins rest ih =>
      cases hins : ins.instruction.callSlot with
      | none =>
          obtain ⟨ret, st', hrun, hdone⟩ := ih (i + 1)
            (st.modify id fun a => a.setInstruction i (analyzeInstruction l i ins))
            (hwf.modify id _) hid hdepth
          refine ⟨ret, st', ?_, hdone.cons_other hid hins⟩
          rw [analyzeInstructions]
          split
          · rename_i hcall
            simp [hcall, Instruction.callSlot] at hins
          · exact hrun
      | some slot =>
          have hcall := Instruction.eq_call hins
          have hwf₁ := hwf.enterCall l id i ins slot
          cases hocc : store.occupied slot with
          | false =>
              -- an empty slot ends the loop
              have hget : store.getProc true slot = .null := by
                rw [Store.getProc_ok, if_pos (Store.occupied_eq_false.mp hocc)]
              refine ⟨-1, _, ?_, .empty hid hcall hocc hwf⟩
              rw [analyzeInstructions_call _ hcall, hget]
          | true =>
              have hget : store.getProc true slot = .found (store slot) := by
                rw [Store.getProc_ok, if_neg (Store.occupied_eq_true.mp hocc)]
              rw [analyzeInstructions_call _ hcall, hget]
              cases hentry : st.analyses slot with
              | some sub =>
                  -- a slot with an entry: its analysis is shared
                  obtain ⟨ret, st', hrun, hdone⟩ := ih (i + 1)
                    ((st.enterCall l id i ins slot).modify id fun a => a.addSub sub)
                    (hwf₁.modify id _) hid hdepth
                  exact ⟨ret, st', hrun, hdone.cons_call hid hcall hocc (.refl _ _ _) rfl hentry⟩
              | none =>
                  -- a slot without an entry: it gets one, and is analyzed
                  obtain ⟨ret₂, st₂, hrun₂, hsub⟩ := hrec (store slot) (.slot slot) st.next
                    ((st.enterCall l id i ins slot).mark slot) (hwf₁.mark hocc)
                    (Nat.lt_succ_self _)
                    ((AnalysisState.unmarked_mark (by simpa using hentry)).trans_le hdepth)
                  have hgrows : Extends store id (st.enterCall l id i ins slot) st₂ :=
                    .of_mark id hentry hsub.grows hsub.ok
                  have hnode : st₂.node id = (st.enterCall l id i ins slot).node id :=
                    hsub.grows.frame id (Nat.lt_succ_of_lt hid) (Nat.ne_of_lt hid)
                  have hsubEntry : st₂.analyses slot = some st.next :=
                    hsub.grows.analyses slot st.next (by simp [AnalysisState.mark])
                  obtain ⟨ret, st', hrun, hdone⟩ := ih (i + 1)
                    (st₂.modify id fun a => a.addSub st.next) (hsub.wf.modify id _)
                    (Nat.lt_of_lt_of_le hid hgrows.next_le)
                    ((AnalysisState.unmarked_le hgrows.analyses).trans hdepth)
                  refine ⟨ret, st', ?_, hdone.cons_call hid hcall hocc hgrows hnode hsubEntry⟩
                  simp [hrun₂, hrun]

end Loop

/-- `proc_analyze` on an allocated analysis, with a depth of more than the
number of slots that have no entry yet. -/
theorem procAnalyze_spec (store : Store) (depth : Nat) (proc : Proc) (ref : ProcRef) (id : Nat)
    (st : AnalysisState) (hwf : st.Wf store) (hid : id < st.next) (hdepth : st.unmarked < depth) :
    ∃ ret st', procAnalyze store depth proc ref id st = some (ret, st') ∧
      Analyzed store id proc.instructions ref st ret st' := by
  induction depth generalizing proc ref id st with
  | zero => omega
  | succ depth ih =>
      obtain ⟨ret, st', hrun, hdone⟩ := analyzeInstructions_spec (procAnalyze store depth) ih
        proc.instructions 0 (st.modify id fun _ =>
          ⟨ref, [], [], List.replicate proc.instructions.length .zero⟩)
        (hwf.modify id _) hid (Nat.le_of_lt_succ hdepth)
      refine ⟨ret, st', hrun, hdone.wf, (Extends.modify store st id _).trans hid hdone.grows,
        ⟨?_, ?_, ?_, ?_⟩, hdone.ret_eq⟩
      · simpa using hdone.proc
      · simpa using hdone.slots
      · simpa using hdone.subs
      · intro hall
        exact hdone.instrs hall [] (List.replicate proc.instructions.length .zero) rfl (by simp)
          (by simp)

theorem AnalysisState.init_wf (store : Store) : AnalysisState.init.Wf store where
  next_pos := Nat.one_pos
  bound _ _ h := by cases h
  inj _ _ _ h := by cases h
  occupied _ _ h := by cases h

/-- What a run's analysis leaves: the root's own analysis, and one for each
slot that was entered. -/
structure AnalysisDone (store : Store) (p : Proc) (st : AnalysisState) : Prop where
  wf : st.Wf store
  root : NodeOk store st 0 p.instructions .root
  slots : ∀ s a, st.analyses s = some a → NodeOk store st a (store s).instructions (.slot s)

/-- The analysis always ends. It fails exactly when the procedure itself calls
an empty slot. -/
theorem runAnalysis_spec (store : Store) (p : Proc) :
    ∃ st, runAnalysis store p =
        some (if AllOccupied store (callSlots p.instructions) then 0 else -1, st) ∧
      AnalysisDone store p st := by
  -- each recursive call uses up a slot, and there are `MAX_PROC_SLOT + 1`
  have hunmarked : AnalysisState.init.unmarked < maxProcSlot + 2 := by
    refine Nat.lt_succ_of_le ((Finset.card_filter_le _ _).trans ?_)
    simp [maxProcSlot]
  obtain ⟨ret, st, hrun, hdone⟩ := procAnalyze_spec store (maxProcSlot + 2) p .root 0 .init
    (AnalysisState.init_wf store) Nat.one_pos hunmarked
  refine ⟨st, ?_, hdone.wf, hdone.ok, fun s a ha => (hdone.grows.fresh s a ha rfl).2.2⟩
  rw [runAnalysis, hrun, hdone.ret_eq]

theorem AnalysisDone.of_run {store : Store} {p : Proc} {ret : Int} {st : AnalysisState}
    (h : runAnalysis store p = some (ret, st)) : AnalysisDone store p st := by
  rcases runAnalysis_spec store p with ⟨st', hrun, hdone⟩
  rw [h] at hrun
  rcases Prod.mk.inj (Option.some.inj hrun) with ⟨-, rfl⟩
  exact hdone

/-! ## Closed stores -/

/-- The procedure in slot `s` calls slot `t`. -/
def Calls (store : Store) (s t : UInt8) : Prop := t ∈ callSlots (store s).instructions

/-- A slot that a procedure calls, directly or through other calls. -/
def ReachableSlot (store : Store) (p : Proc) (s : UInt8) : Prop :=
  ∃ t ∈ callSlots p.instructions, Relation.ReflTransGen (Calls store) t s

/-- Every reachable slot is occupied. -/
def Closed (store : Store) (p : Proc) : Prop :=
  ∀ s, ReachableSlot store p s → store.occupied s = true

theorem ReachableSlot.direct {store : Store} {p : Proc} {s : UInt8}
    (h : s ∈ callSlots p.instructions) : ReachableSlot store p s :=
  ⟨s, h, .refl⟩

theorem ReachableSlot.tail {store : Store} {p : Proc} {s t : UInt8}
    (h : ReachableSlot store p s) (hst : Calls store s t) : ReachableSlot store p t := by
  rcases h with ⟨u, hu, hus⟩
  exact ⟨u, hu, hus.tail hst⟩

/-- The slots that a procedure calls, and those that the procedures in the
slots of the list call, are in the list. -/
def coversCalls (store : Store) (p : Proc) (ss : List UInt8) : Bool :=
  (p :: ss.map store).all fun q => (callSlots q.instructions).all ss.contains

/-- Such a list contains the reachable slots. -/
theorem ReachableSlot.mem {store : Store} {p : Proc} {ss : List UInt8}
    (hcovers : coversCalls store p ss = true) {s : UInt8} (h : ReachableSlot store p s) :
    s ∈ ss := by
  simp only [coversCalls, List.all_cons, Bool.and_eq_true, List.all_map, List.all_eq_true,
    Function.comp_apply, List.contains_iff_mem] at hcovers
  rcases hcovers with ⟨hdirect, hcalls⟩
  rcases h with ⟨t, ht, hts⟩
  induction hts with
  | refl => exact hdirect t ht
  | tail _ hcall ih => exact hcalls _ ih _ hcall

/-- When no slot of such a list is empty, the procedure is closed. -/
theorem Closed.of_covers {store : Store} {p : Proc} (ss : List UInt8)
    (hcovers : coversCalls store p ss = true) (hocc : AllOccupied store ss) : Closed store p :=
  fun s hs => hocc s (hs.mem hcovers)

/-- The slots that a procedure of the graph calls: the root, or one reached
from it. -/
theorem Closed.allOccupied {store : Store} {p : Proc} (h : Closed store p) :
    AllOccupied store (callSlots p.instructions) :=
  fun s hs => h s (.direct hs)

theorem Closed.allOccupied_of_reachable {store : Store} {p : Proc} (h : Closed store p)
    {s : UInt8} (hs : ReachableSlot store p s) :
    AllOccupied store (callSlots (store s).instructions) :=
  fun t ht => h t (hs.tail ht)

/-! ## The call graph -/

/-- One analysis is a sub-analysis of another. -/
def SubAnalysis (st : AnalysisState) (a b : Nat) : Prop := b ∈ (st.node a).subAnalyses

/-- The analyses that can be reached from the root's. -/
def ReachableAnalysis (st : AnalysisState) (a : Nat) : Prop :=
  Relation.ReflTransGen (SubAnalysis st) 0 a

/-- The instructions of the procedure that an analysis points to. -/
def analysedInstructions (store : Store) (p : Proc) (st : AnalysisState) (a : Nat) :
    List ProcInstruction :=
  ((st.node a).proc.deref p store).instructions

/-- The analyses reachable from the root's are the call graph of `p`. -/
structure IsCallGraph (store : Store) (p : Proc) (st : AnalysisState) : Prop where
  /-- The root's analysis is that of the run's own copy of `p`. -/
  root : (st.node 0).proc = .root
  /-- As many slots as sub-analyses. -/
  counts : ∀ a, ReachableAnalysis st a →
    (st.node a).procedureSlots.length = (st.node a).subAnalyses.length
  /-- The slots are those of the calls, in order. -/
  slots : ∀ a, ReachableAnalysis st a →
    (st.node a).procedureSlots = callSlots (analysedInstructions store p st a)
  /-- The sub-analysis at an index is that of the slot at this index. -/
  subs : ∀ a, ReachableAnalysis st a → ∀ (j : Nat) (s : UInt8),
    (st.node a).procedureSlots[j]? = some s →
    ∃ b, (st.node a).subAnalyses[j]? = some b ∧ (st.node b).proc = .slot s
  /-- The procedures of the graph are the root and the reachable slots. -/
  nodes : ∀ a, ReachableAnalysis st a →
    a = 0 ∨ ∃ s, ReachableSlot store p s ∧ (st.node a).proc = .slot s
  /-- Every reachable slot has just one analysis. -/
  shared : ∀ s, ReachableSlot store p s →
    ∃! a, ReachableAnalysis st a ∧ (st.node a).proc = .slot s
  /-- A call's search finds an entry, and there the analysis of its slot. -/
  lookup : ∀ a, ReachableAnalysis st a → ∀ ins ∈ analysedInstructions store p st a,
    ∀ s, ins.instruction = .call s →
    ∃ j b, Interp.findSlot (st.node a) s = some j ∧ (st.node a).subAnalyses[j]? = some b ∧
      ReachableAnalysis st b ∧ (st.node b).proc = .slot s

/-- Two lists that agree after `map`, element by element. -/
theorem getElem?_of_map_some {as : List Nat} {ss : List UInt8} {f : UInt8 → Option Nat}
    (h : as.map some = ss.map f) {j : Nat} {s : UInt8} (hj : ss[j]? = some s) :
    ∃ b, as[j]? = some b ∧ f s = some b := by
  have hget := congrArg (fun l => l[j]?) h
  simp only [List.getElem?_map, hj, Option.map_some, Option.map_eq_some_iff] at hget
  rcases hget with ⟨b, hb, hfs⟩
  exact ⟨b, hb, hfs.symm⟩

/-- The search finds the first entry of a slot that is entered. -/
theorem findSlot_of_mem {a : Analysis} {s : UInt8} (h : s ∈ a.procedureSlots) :
    ∃ j, Interp.findSlot a s = some j ∧ a.procedureSlots[j]? = some s := by
  unfold Interp.findSlot
  cases hfind : a.procedureSlots.findIdx? fun t => t = s with
  | none =>
      rw [List.findIdx?_eq_none_iff] at hfind
      have hne := hfind s h
      simp at hne
  | some j =>
      rcases List.findIdx?_eq_some_iff_getElem.mp hfind with ⟨hlt, hj, -⟩
      refine ⟨j, rfl, ?_⟩
      rw [List.getElem?_eq_getElem hlt]
      simpa using hj

namespace AnalysisDone

variable {store : Store} {p : Proc} {st : AnalysisState}

/-- A sub-analysis is the entry of a slot that its parent's procedure calls. -/
theorem sub_entry {a b : Nat} {l : List ProcInstruction} {ref : ProcRef}
    (hok : NodeOk store st a l ref) (hocc : AllOccupied store (callSlots l))
    (hb : SubAnalysis st a b) : ∃ s ∈ callSlots l, st.analyses s = some b := by
  have hmem : some b ∈ (callSlots l).map st.analyses := by
    rw [← fetchedSlots_of_allOccupied hocc, ← hok.subs]
    exact List.mem_map_of_mem hb
  rcases List.mem_map.mp hmem with ⟨s, hs, hsb⟩
  exact ⟨s, hs, hsb⟩

/-- An analysis that can be reached is the root's or the entry of a reachable
slot. -/
theorem entry_of_reachable (h : AnalysisDone store p st) (hc : Closed store p) {a : Nat}
    (ha : ReachableAnalysis st a) :
    a = 0 ∨ ∃ s, ReachableSlot store p s ∧ st.analyses s = some a := by
  induction ha with
  | refl => exact .inl rfl
  | tail _ hab ih =>
      right
      rcases ih with rfl | ⟨s, hs, hsa⟩
      · rcases sub_entry h.root hc.allOccupied hab with ⟨t, ht, htb⟩
        exact ⟨t, .direct ht, htb⟩
      · rcases sub_entry (h.slots s _ hsa) (hc.allOccupied_of_reachable hs) hab with ⟨t, ht, htb⟩
        exact ⟨t, hs.tail ht, htb⟩

/-- Every analysis that can be reached is that of the procedure it points to. -/
theorem nodeOk (h : AnalysisDone store p st) (hc : Closed store p) {a : Nat}
    (ha : ReachableAnalysis st a) :
    NodeOk store st a (analysedInstructions store p st a) (st.node a).proc ∧
      AllOccupied store (callSlots (analysedInstructions store p st a)) := by
  rcases h.entry_of_reachable hc ha with rfl | ⟨s, hs, hsa⟩
  · have hroot := h.root
    rw [analysedInstructions, hroot.proc]
    exact ⟨hroot, hc.allOccupied⟩
  · have hok := h.slots s a hsa
    rw [analysedInstructions, hok.proc]
    exact ⟨hok, hc.allOccupied_of_reachable hs⟩

/-- A slot that a reachable analysis calls has its entry there, as a
sub-analysis. -/
theorem sub_of_slot (h : AnalysisDone store p st) (hc : Closed store p) {a : Nat}
    (ha : ReachableAnalysis st a) {j : Nat} {s : UInt8}
    (hj : (st.node a).procedureSlots[j]? = some s) :
    ∃ b, (st.node a).subAnalyses[j]? = some b ∧ st.analyses s = some b ∧
      ReachableAnalysis st b ∧ (st.node b).proc = .slot s := by
  rcases h.nodeOk hc ha with ⟨hok, hocc⟩
  have hsubs := hok.subs
  rw [fetchedSlots_of_allOccupied hocc, ← enteredSlots_of_allOccupied hocc, ← hok.slots] at hsubs
  rcases getElem?_of_map_some hsubs hj with ⟨b, hb, hsb⟩
  exact ⟨b, hb, hsb, ha.tail (List.mem_of_getElem? hb), (h.slots s b hsb).proc⟩

/-- Every reachable slot has an entry, and its analysis can be reached. -/
theorem entry_of_slot (h : AnalysisDone store p st) (hc : Closed store p) {s : UInt8}
    (hs : ReachableSlot store p s) : ∃ a, st.analyses s = some a ∧ ReachableAnalysis st a := by
  have hcalled : ∀ (a : Nat) (t : UInt8), ReachableAnalysis st a →
      t ∈ callSlots (analysedInstructions store p st a) →
      ∃ b, st.analyses t = some b ∧ ReachableAnalysis st b := by
    intro a t ha ht
    rcases h.nodeOk hc ha with ⟨hok, hocc⟩
    rw [← enteredSlots_of_allOccupied hocc, ← hok.slots] at ht
    rcases List.getElem?_of_mem ht with ⟨j, hj⟩
    rcases h.sub_of_slot hc ha hj with ⟨b, -, htb, hb, -⟩
    exact ⟨b, htb, hb⟩
  rcases hs with ⟨t, ht, hts⟩
  induction hts with
  | refl =>
      refine hcalled 0 t .refl ?_
      rw [analysedInstructions, h.root.proc]
      exact ht
  | tail _ hcall ih =>
      rcases ih with ⟨a, hua, ha⟩
      refine hcalled a _ ha ?_
      rw [analysedInstructions, (h.slots _ a hua).proc]
      exact hcall

/-- On a closed store the heap is the call graph. -/
theorem isCallGraph (h : AnalysisDone store p st) (hc : Closed store p) :
    IsCallGraph store p st where
  root := h.root.proc
  counts a ha := by
    rcases h.nodeOk hc ha with ⟨hok, hocc⟩
    have hsubs := congrArg List.length hok.subs
    simp only [List.length_map] at hsubs
    rw [hok.slots, hsubs, enteredSlots_of_allOccupied hocc, fetchedSlots_of_allOccupied hocc]
  slots a ha := by
    rcases h.nodeOk hc ha with ⟨hok, hocc⟩
    rw [hok.slots, enteredSlots_of_allOccupied hocc]
  subs a ha j s hj := by
    rcases h.sub_of_slot hc ha hj with ⟨b, hb, -, -, hproc⟩
    exact ⟨b, hb, hproc⟩
  nodes a ha := by
    rcases h.entry_of_reachable hc ha with rfl | ⟨s, hs, hsa⟩
    · exact .inl rfl
    · exact .inr ⟨s, hs, (h.slots s a hsa).proc⟩
  shared s hs := by
    rcases h.entry_of_slot hc hs with ⟨a, hsa, ha⟩
    refine ⟨a, ⟨ha, (h.slots s a hsa).proc⟩, ?_⟩
    rintro b ⟨hb, hproc⟩
    -- another analysis of the slot is its entry as well
    rcases h.entry_of_reachable hc hb with rfl | ⟨t, -, htb⟩
    · rw [h.root.proc] at hproc
      cases hproc
    · rw [(h.slots t b htb).proc] at hproc
      cases hproc
      rw [hsa] at htb
      exact (Option.some.inj htb).symm
  lookup a ha ins hins s hcall := by
    rcases h.nodeOk hc ha with ⟨hok, hocc⟩
    have hmem : s ∈ (st.node a).procedureSlots := by
      rw [hok.slots, enteredSlots_of_allOccupied hocc]
      exact List.mem_filterMap.mpr ⟨ins, hins, by rw [hcall]; rfl⟩
    rcases findSlot_of_mem hmem with ⟨j, hfind, hj⟩
    rcases h.sub_of_slot hc ha hj with ⟨b, hb, -, hreach, hproc⟩
    exact ⟨j, b, hfind, hb, hreach, hproc⟩

end AnalysisDone

/-- Where all reachable slots are occupied, the analysis succeeds. -/
theorem runAnalysis_of_closed {store : Store} {p : Proc} (hc : Closed store p) :
    ∃ st, runAnalysis store p = some (0, st) ∧ AnalysisDone store p st := by
  rcases runAnalysis_spec store p with ⟨st, hrun, hdone⟩
  rw [if_pos hc.allOccupied] at hrun
  exact ⟨st, hrun, hdone⟩

/-- For a procedure all of whose reachable slots are occupied, the analysis
succeeds and what it has built is the call graph. -/
theorem runAnalysis_isCallGraph (store : Store) (p : Proc) (hc : Closed store p) :
    ∃ st, runAnalysis store p = some (0, st) ∧ IsCallGraph store p st := by
  rcases runAnalysis_of_closed hc with ⟨st, hrun, hdone⟩
  exact ⟨st, hrun, hdone.isCallGraph hc⟩

/-- Two procedures that call themselves and each other. -/
def mutualStore : Store := fun s =>
  if s = 1 then ⟨[⟨0, .call 2⟩, ⟨0, .call 1⟩], by decide⟩
  else if s = 2 then ⟨[⟨0, .call 1⟩, ⟨0, .noop⟩], by decide⟩
  else Proc.empty

/-- A procedure that calls both, one of them twice. -/
def mutualRoot : Proc := ⟨[⟨0, .call 1⟩, ⟨0, .call 2⟩, ⟨0, .call 1⟩], by decide⟩

theorem mutualRoot_closed : Closed mutualStore mutualRoot :=
  .of_covers [1, 2] (by decide) (by decide)

theorem runAnalysis_mutualRoot :
    ∃ st, runAnalysis mutualStore mutualRoot = some (0, st) ∧
      IsCallGraph mutualStore mutualRoot st :=
  runAnalysis_isCallGraph mutualStore mutualRoot mutualRoot_closed

end CspProc
