import CspProc.AnalyzerParts
import Mathlib.Data.Finset.Insert

/-! # The graph of analyses in memory

The analyses that `proc_analyze` has made are the nodes of a graph (`Graph`):
each has its own arrays, its mark is not set, and its sub-analyses are nodes. A
failed allocation may have lost an array.
-/

namespace CspProc

/-- The elements of `sub_analyses`. -/
def subElements (bs : List Nat) : List (Option Element) :=
  bs.map fun b => some (.subAnalysis (some b))

@[simp] theorem length_subElements (bs : List Nat) : (subElements bs).length = bs.length :=
  List.length_map _

/-- The analysis in block `a` with its sub-analyses `bs`, which are `nodes`, and
the room behind them. -/
structure Node (heap : Heap AnalysisBlock) (nodes : Finset Nat) (a : Nat) (sa : StoredAnalysis)
    (instrs slots : List (Option Element)) (bs : List Nat) (room : List (Option Element)) :
    Prop where
  owns : Owns heap a sa instrs slots (subElements bs ++ room)
  mark : sa.deallocationMark = false
  count : sa.subAnalyses ≠ none → sa.subAnalysisCount = bs.length
  subs : ∀ b ∈ bs, b ∈ nodes

namespace Analyzer

/-- The analyses of `nodes` are a graph, and those of the marked slots are in
it. -/
structure Graph (nodes : Finset Nat) (m : Analyzer) : Prop where
  node : ∀ a ∈ nodes, ∃ sa instrs slots bs room, Node m.heap nodes a sa instrs slots bs room
  disjoint : ∀ a ∈ nodes, ∀ b ∈ nodes, ∀ sa sb, analysisAt m.heap a = some sa →
    analysisAt m.heap b = some sb → ∀ c, sa.HasArray c → sb.HasArray c → a = b
  config : ∀ s, m.analyzedProcs s = true → ∃ b ∈ nodes, m.analyses s = some b

end Analyzer

section Graph

variable {heap heap' : Heap AnalysisBlock} {nodes nodes' : Finset Nat} {a b : Nat}
variable {sa : StoredAnalysis} {instrs slots room : List (Option Element)} {bs : List Nat}

namespace Node

theorem mono (h : Node heap nodes a sa instrs slots bs room) (hsub : nodes ⊆ nodes') :
    Node heap nodes' a sa instrs slots bs room :=
  { h with subs := fun b hb => hsub (h.subs b hb) }

/-- A node whose blocks are left alone stays as it is. -/
theorem congr (h : Node heap nodes a sa instrs slots bs room)
    (hkept : ∀ c, c < heap.calls → heap'.blocks c = heap.blocks c) :
    Node heap' nodes a sa instrs slots bs room :=
  { h with
    owns := h.owns.congr (hkept a h.owns.lt_calls) fun c hc => hkept c (h.owns.array_lt_calls hc) }

end Node

theorem analysisAt_eq_some : analysisAt heap a = some sa ↔ heap.blocks a = some (.analysis sa) := by
  constructor
  · intro h
    unfold analysisAt at h
    split at h
    case h_1 sa' hblock => rw [hblock, Option.some.inj h]
    case h_2 => cases h
  · exact analysisAt_of_block

/-- What is touched of one analysis is nothing of another one. -/
theorem Touches.owns_other {sa' sb : StoredAnalysis} {instrs' slots' subs' : List (Option Element)}
    {subs : List (Option Element)} (h : Touches a sa sa' heap heap')
    (ha : Owns heap a sa instrs slots subs) (hb : Owns heap b sb instrs' slots' subs') (hne : b ≠ a)
    (hdisjoint : ∀ c, sa.HasArray c → ¬ sb.HasArray c) :
    Owns heap' b sb instrs' slots' subs' := by
  refine hb.congr (h.kept b hne ?_ hb.lt_calls) fun c hc => h.kept c ?_ ?_ (hb.array_lt_calls hc)
  · intro harray
    rcases ha.array_live harray with ⟨l, hl⟩
    rw [hb.analysis] at hl
    cases hl
  · rintro rfl
    rcases hb.array_live hc with ⟨l, hl⟩
    rw [ha.analysis] at hl
    cases hl
  · exact fun harray => hdisjoint c harray hc

namespace Analyzer.Graph

variable {m : Analyzer}

theorem mem_lt_calls (h : Graph nodes m) (ha : a ∈ nodes) : a < m.heap.calls := by
  rcases h.node a ha with ⟨sa, instrs, slots, bs, room, hnode⟩
  exact hnode.owns.lt_calls

/-- Before a slot is marked there is one node. -/
theorem single (hnode : Node m.heap {a} a sa instrs slots bs room)
    (hmarks : ∀ s, m.analyzedProcs s ≠ true) : Graph {a} m where
  node b hb := by
    obtain rfl := Finset.mem_singleton.mp hb
    exact ⟨sa, instrs, slots, bs, room, hnode⟩
  disjoint b hb d hd _ _ _ _ _ _ _ := by
    rw [Finset.mem_singleton.mp hb, Finset.mem_singleton.mp hd]
  config s hs := absurd hs (hmarks s)

/-- A graph whose blocks are left alone stays as it is. -/
theorem congr (h : Graph nodes m)
    (hkept : ∀ c, c < m.heap.calls → heap.blocks c = m.heap.blocks c) :
    Graph nodes { m with heap := heap } where
  node b hb := by
    rcases h.node b hb with ⟨sb, instrs, slots, bs, room, hnb⟩
    exact ⟨sb, instrs, slots, bs, room, hnb.congr hkept⟩
  disjoint := by
    have hold : ∀ b ∈ nodes, ∀ sb, analysisAt heap b = some sb → analysisAt m.heap b = some sb := by
      intro b hb sb hsb
      rw [analysisAt_eq_some, hkept b (h.mem_lt_calls hb)] at hsb
      exact analysisAt_of_block hsb
    intro b hb d hd sb sd hsb hsd
    exact h.disjoint b hb d hd sb sd (hold b hb sb hsb) (hold d hd sd hsd)
  config := h.config

/-- A step on one analysis keeps the graph. -/
theorem touch (h : Graph nodes m) (ha : a ∈ nodes) {sa' : StoredAnalysis}
    {instrs' slots' room' subs : List (Option Element)} {bs' : List Nat}
    (howns : Owns m.heap a sa instrs slots subs)
    (htouches : Touches a sa sa' m.heap heap)
    (hnode : Node heap nodes a sa' instrs' slots' bs' room') :
    Graph nodes { m with heap := heap } := by
  have hother : ∀ b ∈ nodes, b ≠ a → ∃ sb instrs slots bs room,
      Node m.heap nodes b sb instrs slots bs room ∧ Node heap nodes b sb instrs slots bs room := by
    intro b hb hne
    rcases h.node b hb with ⟨sb, instrs, slots, bs, room, hnb⟩
    refine ⟨sb, instrs, slots, bs, room, hnb, { hnb with owns := ?_ }⟩
    refine htouches.owns_other howns hnb.owns hne fun c hca hcb => hne.symm ?_
    exact h.disjoint a ha b hb sa sb (analysisAt_of_block howns.analysis)
      (analysisAt_of_block hnb.owns.analysis) c hca hcb
  -- the arrays of `a` that are new are not older than the heap was
  have hself : ∀ b ∈ nodes, b ≠ a → ∀ sb, analysisAt heap b = some sb →
      ∀ c, sa'.HasArray c → ¬ sb.HasArray c := by
    intro b hb hne sb hsb c hca hcb
    rcases hother b hb hne with ⟨sb', _, _, _, _, hold, hnb⟩
    obtain rfl := Option.some.inj ((analysisAt_of_block hnb.owns.analysis).symm.trans hsb)
    rcases htouches.new c hca with hin | ⟨hge, -⟩
    · exact hne.symm (h.disjoint a ha b hb sa sb' (analysisAt_of_block howns.analysis)
        (analysisAt_of_block hold.owns.analysis) c hin hcb)
    · exact absurd (hold.owns.array_lt_calls hcb) (Nat.not_lt.mpr hge)
  refine ⟨?_, ?_, h.config⟩
  · intro b hb
    by_cases hne : b = a
    · subst hne
      exact ⟨_, _, _, _, _, hnode⟩
    · rcases hother b hb hne with ⟨sb, instrs, slots, bs, room, -, hnb⟩
      exact ⟨sb, instrs, slots, bs, room, hnb⟩
  · intro b hb d hd sb sd hsb hsd c hcb hcd
    have ha' := analysisAt_of_block hnode.owns.analysis
    by_cases hba : b = a <;> by_cases hda : d = a
    · rw [hba, hda]
    · subst hba
      obtain rfl := Option.some.inj (ha'.symm.trans hsb)
      exact absurd hcd (hself d hd hda sd hsd c hcb)
    · subst hda
      obtain rfl := Option.some.inj (ha'.symm.trans hsd)
      exact absurd hcb (hself b hb hba sb hsb c hcd)
    · rcases hother b hb hba with ⟨sb', _, _, _, _, hold, hnb⟩
      rcases hother d hd hda with ⟨sd', _, _, _, _, hold', hnd⟩
      obtain rfl := Option.some.inj ((analysisAt_of_block hnb.owns.analysis).symm.trans hsb)
      obtain rfl := Option.some.inj ((analysisAt_of_block hnd.owns.analysis).symm.trans hsd)
      exact h.disjoint b hb d hd _ _ (analysisAt_of_block hold.owns.analysis)
        (analysisAt_of_block hold'.owns.analysis) c hcb hcd

/-- An analysis in fresh blocks is a further node, for a slot that gets marked. -/
theorem insert (h : Graph nodes m) {sub : Nat} (s : UInt8) (hsub : m.heap.calls ≤ sub)
    (hkept : ∀ c, c < m.heap.calls → heap.blocks c = m.heap.blocks c)
    (hnode : Node heap nodes sub sa instrs slots bs room)
    (harrays : ∀ c, sa.HasArray c → m.heap.calls ≤ c) :
    Graph (Insert.insert sub nodes) ({ m with heap := heap }.mark s sub) := by
  have hself := analysisAt_of_block hnode.owns.analysis
  have hne : ∀ b ∈ nodes, b ≠ sub := fun b hb => ((h.mem_lt_calls hb).trans_le hsub).ne
  -- the old analyses are where they were, and their arrays are old blocks
  have hold : ∀ b ∈ nodes, ∀ sb, analysisAt heap b = some sb →
      analysisAt m.heap b = some sb ∧ ∀ c, sb.HasArray c → c < m.heap.calls := by
    intro b hb sb hsb
    rcases h.node b hb with ⟨sb', _, _, _, _, hnb⟩
    have hblock := (hkept b hnb.owns.lt_calls).trans hnb.owns.analysis
    obtain rfl := Option.some.inj ((analysisAt_of_block hblock).symm.trans hsb)
    exact ⟨analysisAt_of_block hnb.owns.analysis, fun c hc => hnb.owns.array_lt_calls hc⟩
  refine ⟨?_, ?_, ?_⟩
  · intro b hb
    rcases Finset.mem_insert.mp hb with rfl | hb
    · exact ⟨_, _, _, _, _, hnode.mono (Finset.subset_insert _ _)⟩
    · rcases h.node b hb with ⟨sb, instrs, slots, bs, room, hnb⟩
      exact ⟨sb, instrs, slots, bs, room, (hnb.congr hkept).mono (Finset.subset_insert _ _)⟩
  · intro b hb d hd sb sd hsb hsd c hcb hcd
    -- an array of the new analysis is a new block
    rcases Finset.mem_insert.mp hb with rfl | hbn <;>
      rcases Finset.mem_insert.mp hd with rfl | hdn
    · rfl
    · obtain rfl := Option.some.inj (hself.symm.trans hsb)
      exact absurd ((hold d hdn sd hsd).2 c hcd) (Nat.not_lt.mpr (harrays c hcb))
    · obtain rfl := Option.some.inj (hself.symm.trans hsd)
      exact absurd ((hold b hbn sb hsb).2 c hcb) (Nat.not_lt.mpr (harrays c hcd))
    · exact h.disjoint b hbn d hdn sb sd (hold b hbn sb hsb).1 (hold d hdn sd hsd).1 c hcb hcd
  · intro t ht
    by_cases heq : t = s
    · subst heq
      exact ⟨sub, Finset.mem_insert_self _ _, Function.update_self ..⟩
    · simp only [mark, Function.update_of_ne heq] at ht ⊢
      rcases h.config t ht with ⟨b, hb, hanalysis⟩
      exact ⟨b, Finset.mem_insert_of_mem hb, hanalysis⟩

end Analyzer.Graph

end Graph

end CspProc
