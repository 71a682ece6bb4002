import CspProc.CallGraph
import CspProc.Lib.Walk

/-! # Collecting the slots of an analysis

`collect_proc_slots` walks over the analyses that `proc_analyze` has built and
appends the slots of each. Unlike `free_proc_analysis` it marks none of them, so
it comes back to an analysis as often as a way leads there, and does not end
when the ways go on for ever.

* `reaches_iff` — the analyses that can be reached from one are those of the
  slots that its procedure reaches;
* `collectsReachable_iff` — the walk ends with these slots, unless one of their
  procedures calls itself.
-/

namespace CspProc

open Relation

/-! ## The walk -/

/-- `collect_proc_slots`, with the slots that are collected already. The first
argument bounds the depth of the recursion; there is no result when it runs out. -/
def collectProcSlots (st : AnalysisState) : Nat → Nat → List UInt8 → Option (List UInt8)
  | 0, _, _ => none
  | depth + 1, analysis, slots =>
      (st.node analysis).subAnalyses.foldlM
        (fun slots sub => collectProcSlots st depth sub slots)
        (slots ++ (st.node analysis).procedureSlots)

/-- It is the walk that marks nothing, over the sub-analyses. -/
theorem collectProcSlots_eq (st : AnalysisState) (depth analysis : Nat) (slots : List UInt8) :
    collectProcSlots st depth analysis slots =
      Walk.collect (fun a => (st.node a).subAnalyses) (fun a => (st.node a).procedureSlots)
        depth analysis slots := by
  induction depth generalizing analysis slots with
  | zero => rfl
  | succ depth ih =>
      unfold collectProcSlots Walk.collect
      simp only [ih]

/-! ## Analyses and slots -/

/-- The procedure of an analysis. -/
def analysedProc (store : Store) (p : Proc) (st : AnalysisState) (a : Nat) : Proc :=
  (st.node a).proc.deref p store

/-- The slot `t` is reached from the procedure in slot `s` by calls. -/
theorem reachableSlot_slot {store : Store} {s t : UInt8} :
    ReachableSlot store (store s) t ↔ TransGen (Calls store) s t := by
  rw [TransGen.head'_iff]
  rfl

theorem ReachableSlot.trans {store : Store} {q : Proc} {s t : UInt8}
    (h : ReachableSlot store q s) (hst : ReachableSlot store (store s) t) :
    ReachableSlot store q t := by
  rcases h with ⟨u, hu, hus⟩
  exact ⟨u, hu, hus.trans (reachableSlot_slot.mp hst).to_reflTransGen⟩

theorem reachableSlot_iff {store : Store} {q : Proc} {s : UInt8} :
    ReachableSlot store q s ↔
      s ∈ callSlots q.instructions ∨ ∃ t, ReachableSlot store q t ∧ Calls store t s := by
  constructor
  · rintro ⟨t, ht, hts⟩
    rcases hts.cases_tail with rfl | ⟨u, htu, hus⟩
    · exact .inl ht
    · exact .inr ⟨u, ⟨t, ht, htu⟩, hus⟩
  · rintro (hs | ⟨t, ht, hts⟩)
    · exact .direct hs
    · exact ht.tail hts

namespace AnalysisDone

variable {store : Store} {p : Proc} {st : AnalysisState}

theorem analysedProc_of_entry (h : AnalysisDone store p st) {s : UInt8} {a : Nat}
    (hsa : st.analyses s = some a) : analysedProc store p st a = store s := by
  rw [analysedProc, (h.slots s a hsa).proc]
  rfl

/-- The slots of a reachable analysis are those of the calls of its procedure. -/
theorem procedureSlots_eq (h : AnalysisDone store p st) (hc : Closed store p) {a : Nat}
    (ha : ReachableAnalysis st a) :
    (st.node a).procedureSlots = callSlots (analysedProc store p st a).instructions := by
  rcases h.nodeOk hc ha with ⟨hok, hocc⟩
  rw [hok.slots, enteredSlots_of_allOccupied hocc]
  rfl

/-- Its sub-analyses are the entries of these slots. -/
theorem subAnalysis_iff (h : AnalysisDone store p st) (hc : Closed store p) {a b : Nat}
    (ha : ReachableAnalysis st a) :
    SubAnalysis st a b ↔
      ∃ s ∈ callSlots (analysedProc store p st a).instructions, st.analyses s = some b := by
  rcases h.nodeOk hc ha with ⟨hok, hocc⟩
  constructor
  · exact sub_entry hok hocc
  · rintro ⟨s, hs, hsb⟩
    rw [← h.procedureSlots_eq hc ha] at hs
    rcases List.getElem?_of_mem hs with ⟨j, hj⟩
    rcases h.sub_of_slot hc ha hj with ⟨c, hsub, hsc, -⟩
    rw [hsb] at hsc
    rw [Option.some.inj hsc]
    exact List.mem_of_getElem? hsub

/-- What the procedure of a reachable analysis reaches, the analysed one does. -/
theorem reachableSlot_root (h : AnalysisDone store p st) (hc : Closed store p) {a : Nat}
    (ha : ReachableAnalysis st a) {s : UInt8}
    (hs : ReachableSlot store (analysedProc store p st a) s) : ReachableSlot store p s := by
  rcases h.entry_of_reachable hc ha with rfl | ⟨t, ht, hta⟩
  · rw [analysedProc, h.root.proc] at hs
    exact hs
  · rw [h.analysedProc_of_entry hta] at hs
    exact ht.trans hs

/-- The analyses behind an analysis are the entries of the slots that its
procedure reaches. -/
theorem reaches_iff (h : AnalysisDone store p st) (hc : Closed store p) {a b : Nat}
    (ha : ReachableAnalysis st a) :
    TransGen (SubAnalysis st) a b ↔
      ∃ s, ReachableSlot store (analysedProc store p st a) s ∧ st.analyses s = some b := by
  constructor
  · intro hab
    induction hab with
    | single hsub =>
        rcases (h.subAnalysis_iff hc ha).mp hsub with ⟨s, hs, hsb⟩
        exact ⟨s, .direct hs, hsb⟩
    | tail hab hsub ih =>
        rcases ih with ⟨s, hs, hsb⟩
        rcases (h.subAnalysis_iff hc (ha.trans hab.to_reflTransGen)).mp hsub with ⟨t, ht, htc⟩
        rw [h.analysedProc_of_entry hsb] at ht
        exact ⟨t, hs.tail ht, htc⟩
  · rintro ⟨s, ⟨t, ht, hts⟩, hsb⟩
    induction hts generalizing b with
    | refl => exact .single ((h.subAnalysis_iff hc ha).mpr ⟨t, ht, hsb⟩)
    | @tail u s htu hus ih =>
        -- the slot that calls it has an analysis as well
        rcases h.entry_of_slot hc (h.reachableSlot_root hc ha ⟨t, ht, htu⟩) with ⟨c, huc, hcreach⟩
        have hcalled : s ∈ callSlots (analysedProc store p st c).instructions := by
          rw [h.analysedProc_of_entry huc]
          exact hus
        exact (ih huc).tail ((h.subAnalysis_iff hc hcreach).mpr ⟨s, hcalled, hsb⟩)

/-- Only analyses that have been made can be reached. -/
theorem finite_reachable (h : AnalysisDone store p st) (hc : Closed store p) {a : Nat}
    (ha : ReachableAnalysis st a) : {b | ReflTransGen (SubAnalysis st) a b}.Finite := by
  refine (Set.finite_lt_nat st.next).subset ?_
  intro b hab
  rcases h.entry_of_reachable hc (ha.trans hab) with rfl | ⟨s, -, hsb⟩
  · exact h.wf.next_pos
  · exact (h.wf.bound s b hsb).2

/-- A cycle of analyses is one of calls. -/
theorem acyclic_iff (h : AnalysisDone store p st) (hc : Closed store p) {a : Nat}
    (ha : ReachableAnalysis st a) :
    (∀ b, ReflTransGen (SubAnalysis st) a b → ¬ TransGen (SubAnalysis st) b b) ↔
      ∀ s, ReachableSlot store (analysedProc store p st a) s →
        ¬ ReachableSlot store (store s) s := by
  constructor
  · intro hacyclic s hs hcycle
    rcases h.entry_of_slot hc (h.reachableSlot_root hc ha hs) with ⟨b, hsb, hb⟩
    have hab := (h.reaches_iff hc ha).mpr ⟨s, hs, hsb⟩
    refine hacyclic b hab.to_reflTransGen ((h.reaches_iff hc hb).mpr ⟨s, ?_, hsb⟩)
    rwa [h.analysedProc_of_entry hsb]
  · intro hacyclic b hab hcycle
    -- the analysis on the cycle is that of a slot, which calls itself
    rcases (h.reaches_iff hc ha).mp (hcycle.trans_right hab) with ⟨s, hs, hsb⟩
    rcases (h.reaches_iff hc (ha.trans hab)).mp hcycle with ⟨t, ht, htb⟩
    rw [h.analysedProc_of_entry hsb] at ht
    rw [h.wf.inj t s b htb hsb] at ht
    exact hacyclic s hs ht

/-- The slots of the reachable analyses are those that the procedure reaches. -/
theorem slots_iff (h : AnalysisDone store p st) (hc : Closed store p) {a : Nat}
    (ha : ReachableAnalysis st a) (s : UInt8) :
    (∃ b, ReflTransGen (SubAnalysis st) a b ∧ s ∈ (st.node b).procedureSlots) ↔
      ReachableSlot store (analysedProc store p st a) s := by
  constructor
  · rintro ⟨b, hab, hs⟩
    rw [h.procedureSlots_eq hc (ha.trans hab)] at hs
    rcases reflTransGen_iff_eq_or_transGen.mp hab with rfl | htrans
    · exact .direct hs
    · rcases (h.reaches_iff hc ha).mp htrans with ⟨t, ht, htb⟩
      rw [h.analysedProc_of_entry htb] at hs
      exact ht.tail hs
  · intro hs
    rcases reachableSlot_iff.mp hs with hdirect | ⟨t, ht, hts⟩
    · exact ⟨a, .refl, (h.procedureSlots_eq hc ha).symm ▸ hdirect⟩
    · rcases h.entry_of_slot hc (h.reachableSlot_root hc ha ht) with ⟨b, htb, hb⟩
      refine ⟨b, ((h.reaches_iff hc ha).mpr ⟨t, ht, htb⟩).to_reflTransGen, ?_⟩
      rw [h.procedureSlots_eq hc hb, h.analysedProc_of_entry htb]
      exact hts

end AnalysisDone

/-! ## What the walk comes to -/

/-- From an empty result `collect_proc_slots` ends, with just the slots that are
reachable from the procedure of the analysis. -/
def CollectsReachable (store : Store) (p : Proc) (st : AnalysisState) (a : Nat) : Prop :=
  ∃ depth slots, collectProcSlots st depth a [] = some slots ∧
    ∀ s, s ∈ slots ↔ ReachableSlot store (analysedProc store p st a) s

namespace AnalysisDone

variable {store : Store} {p : Proc} {st : AnalysisState}

/-- The walk does not end where a procedure that it comes to calls itself. -/
theorem acyclic_of_collects (h : AnalysisDone store p st) (hc : Closed store p) {a : Nat}
    (ha : ReachableAnalysis st a) {depth : Nat} {slots : List UInt8}
    (hwalk : collectProcSlots st depth a [] = some slots) :
    ∀ s, ReachableSlot store (analysedProc store p st a) s → ¬ ReachableSlot store (store s) s := by
  rw [collectProcSlots_eq] at hwalk
  have hends := Walk.acc_of_collect hwalk
  exact (h.acyclic_iff hc ha).mp ((Walk.acc_iff (h.finite_reachable hc ha)).mp hends)

/-- Where it ends it has collected the reachable slots. -/
theorem collects_of_acyclic (h : AnalysisDone store p st) (hc : Closed store p) {a : Nat}
    (ha : ReachableAnalysis st a) (hacyclic : ∀ s,
      ReachableSlot store (analysedProc store p st a) s → ¬ ReachableSlot store (store s) s) :
    CollectsReachable store p st a := by
  have hends := (Walk.acc_iff (h.finite_reachable hc ha)).mpr ((h.acyclic_iff hc ha).mpr hacyclic)
  rcases Walk.exists_collect hends with ⟨depth, hdepth⟩
  rcases hdepth [] with ⟨slots, hwalk⟩
  refine ⟨depth, slots, (collectProcSlots_eq st depth a []).trans hwalk, ?_⟩
  intro s
  rw [Walk.mem_collect hwalk, ← h.slots_iff hc ha]
  simp only [List.not_mem_nil, false_or]
  rfl

end AnalysisDone

/-- Of any analysis that `proc_analyze` has built over a closed store,
`collect_proc_slots` collects the reachable slots if and only if none of their
procedures calls itself, directly or through others. -/
theorem collectsReachable_iff {store : Store} {p : Proc} {st : AnalysisState} {a : Nat}
    (hc : Closed store p) (hrun : runAnalysis store p = some (0, st))
    (ha : ReachableAnalysis st a) :
    CollectsReachable store p st a ↔
      ∀ s, ReachableSlot store (analysedProc store p st a) s →
        ¬ ReachableSlot store (store s) s := by
  have hdone := AnalysisDone.of_run hrun
  constructor
  · rintro ⟨depth, slots, hwalk, -⟩
    exact hdone.acyclic_of_collects hc ha hwalk
  · exact hdone.collects_of_acyclic hc ha

/-- A procedure that calls two others, the first of which calls the second as well. -/
def layeredStore : Store := fun s =>
  if s = 1 then ⟨[⟨0, .call 2⟩, ⟨0, .noop⟩], by decide⟩
  else if s = 2 then ⟨[⟨1, .noop⟩], by decide⟩
  else Proc.empty

def layeredRoot : Proc := ⟨[⟨0, .call 1⟩, ⟨0, .call 2⟩], by decide⟩

theorem layeredRoot_closed : Closed layeredStore layeredRoot :=
  .of_covers [1, 2] (by decide) (by decide)

/-- Its slots are collected. -/
theorem collectsReachable_layeredRoot :
    ∃ st, runAnalysis layeredStore layeredRoot = some (0, st) ∧
      CollectsReachable layeredStore layeredRoot st 0 := by
  rcases runAnalysis_of_closed layeredRoot_closed with ⟨st, hrun, hdone⟩
  refine ⟨st, hrun, (collectsReachable_iff layeredRoot_closed hrun .refl).mpr ?_⟩
  intro s hs hself
  -- slot 1 reaches slot 2 only, and slot 2 nothing
  have hreached := hdone.reachableSlot_root layeredRoot_closed .refl hs
  have hcovers : coversCalls layeredStore layeredRoot [1, 2] = true := by decide
  have hone : coversCalls layeredStore (layeredStore 1) [2] = true := by decide
  have htwo : coversCalls layeredStore (layeredStore 2) [] = true := by decide
  have hmem := hreached.mem hcovers
  simp only [List.mem_cons, List.not_mem_nil, or_false] at hmem
  rcases hmem with rfl | rfl
  · exact absurd (hself.mem hone) (by decide)
  · exact absurd (hself.mem htwo) (by decide)

/-- From two procedures that call themselves and each other the walk does not
come back, whatever depth it is given. -/
theorem mutualRoot_not_collected :
    ∃ st, runAnalysis mutualStore mutualRoot = some (0, st) ∧
      ¬ CollectsReachable mutualStore mutualRoot st 0 := by
  rcases runAnalysis_of_closed mutualRoot_closed with ⟨st, hrun, hdone⟩
  refine ⟨st, hrun, ?_⟩
  rintro ⟨depth, slots, hwalk, -⟩
  have hacyclic := hdone.acyclic_of_collects mutualRoot_closed .refl hwalk
  have hroot : analysedProc mutualStore mutualRoot st 0 = mutualRoot := by
    rw [analysedProc, hdone.root.proc]
    rfl
  rw [hroot] at hacyclic
  exact hacyclic 1 (.direct (by decide)) (.direct (by decide))

end CspProc
