import CspProc.Ending
import CspProc.Lib.DepthFirst

/-! # Releasing an analysis

`free_proc_analysis` in memory. The mark that is to keep it from visiting an
analysis twice is in the analysis itself, which is freed when the visit is over:
the release goes through exactly when it is a depth-first visit that never meets
an analysis that it has finished.

A block that is not live can be neither freed nor read, so a release without a
fault frees each block at most once and reads none that it has freed.
-/

namespace CspProc

/-- What goes wrong in a release. -/
inductive ReleaseFault where
  | outOfFuel
  | notLive (b : Nat)
  | invalid
deriving DecidableEq, Repr

/-! ## `free_proc_analysis` -/

/-- An analysis is read. -/
def readAnalysis (heap : Heap AnalysisBlock) (a : Nat) : Except ReleaseFault StoredAnalysis :=
  match heap.blocks a with
  | some (.analysis sa) => .ok sa
  | some _ => .error .invalid
  | none => .error (.notLive a)

/-- `sub_analyses[i]` is read. -/
def readSubAnalysis (heap : Heap AnalysisBlock) (subAnalyses : Ptr) (i : Nat) :
    Except ReleaseFault Ptr :=
  match subAnalyses with
  | none => .error .invalid
  | some b =>
      match heap.blocks b with
      | some (.array elements) =>
          match elements[i]? with
          | some (some (.subAnalysis p)) => .ok p
          | _ => .error .invalid
      | some _ => .error .invalid
      | none => .error (.notLive b)

/-- `proc_free`. -/
def procFree (heap : Heap AnalysisBlock) : Ptr → Except ReleaseFault (Heap AnalysisBlock)
  | none => .ok heap
  | some b =>
      match heap.free (some b) with
      | some heap => .ok heap
      | none => .error (.notLive b)

/-- `analysis->deallocation_mark = 1`. -/
def setDeallocationMark (heap : Heap AnalysisBlock) (a : Nat) :
    Except ReleaseFault (Heap AnalysisBlock) := do
  let sa ← readAnalysis heap a
  match heap.store (some a) (.analysis { sa with deallocationMark := true }) with
  | some heap => return heap
  | none => throw (.notLive a)

/-- The end of `free_proc_analysis`: the arrays and the analysis are freed. -/
def freeBlocks (heap : Heap AnalysisBlock) (a : Nat) :
    Except ReleaseFault (Heap AnalysisBlock) := do
  let sa ← readAnalysis heap a
  let heap ← procFree heap sa.subAnalyses
  let heap ← procFree heap sa.procedureSlots
  let heap ← procFree heap sa.instructionAnalyses
  procFree heap (some a)

/-- The loop of `free_proc_analysis` over the sub-analyses from index `i` on. The
recursive call is a mark, a loop of its own and the end. -/
def freeSubAnalyses : Nat → Nat → Nat → Heap AnalysisBlock →
    Except ReleaseFault (Heap AnalysisBlock)
  | 0, _, _, _ => .error .outOfFuel
  | fuel + 1, a, i, heap => do
      let sa ← readAnalysis heap a
      if i < sa.subAnalysisCount then
        match ← readSubAnalysis heap sa.subAnalyses i with
        | none => freeSubAnalyses fuel a (i + 1) heap
        | some b =>
            if b = a then freeSubAnalyses fuel a (i + 1) heap
            else
              let sb ← readAnalysis heap b
              if sb.deallocationMark then freeSubAnalyses fuel a (i + 1) heap
              else
                let heap ← setDeallocationMark heap b
                let heap ← freeSubAnalyses fuel b 0 heap
                let heap ← freeBlocks heap b
                freeSubAnalyses fuel a (i + 1) heap
      else return heap

/-- `free_proc_analysis`. -/
def freeProcAnalysis (fuel : Nat) (heap : Heap AnalysisBlock) (a : Nat) :
    Except ReleaseFault (Heap AnalysisBlock) := do
  let heap ← setDeallocationMark heap a
  let heap ← freeSubAnalyses fuel a 0 heap
  freeBlocks heap a

/-! ## What is to be released -/

/-- The analyses that `sub_analyses` of an analysis points to. -/
def subAnalysesAt (heap : Heap AnalysisBlock) (a : Nat) : List Nat :=
  match analysisAt heap a with
  | none => []
  | some sa =>
      (((arrayAt heap sa.subAnalyses).getD []).take sa.subAnalysisCount).filterMap fun
        | some (.subAnalysis p) => p
        | _ => none

/-- An analysis can be reached from another one. -/
def ReachableFrom (heap : Heap AnalysisBlock) : Nat → Nat → Prop :=
  Relation.ReflTransGen fun a b => b ∈ subAnalysesAt heap a

/-- The block of an analysis, or of one of its arrays. -/
def BlockOf (heap : Heap AnalysisBlock) (a c : Nat) : Prop :=
  c = a ∨ ∃ sa, analysisAt heap a = some sa ∧ sa.HasArray c

/-- The release of an analysis ends without a fault, and has freed the analyses
that can be reached and their arrays, and nothing else. -/
def ReleasedOnce (heap : Heap AnalysisBlock) (a : Nat) : Prop :=
  ∃ fuel heap', freeProcAnalysis fuel heap a = .ok heap' ∧
    ∀ c, ((∃ b, ReachableFrom heap a b ∧ BlockOf heap b c) → heap'.blocks c = none) ∧
      ((¬ ∃ b, ReachableFrom heap a b ∧ BlockOf heap b c) → heap'.blocks c = heap.blocks c)

/-- The array of the sub-analyses has not been lost for want of memory. -/
def KeepsSubAnalyses (heap : Heap AnalysisBlock) (a : Nat) : Prop :=
  ∀ sa, analysisAt heap a = some sa → sa.subAnalyses = none → sa.subAnalysisCount = 0

/-! ## Reading -/

section Reading

variable {heap : Heap AnalysisBlock} {nodes : Finset Nat} {a b c : Nat} {sa : StoredAnalysis}
variable {instrs slots room : List (Option Element)} {bs : List Nat}

theorem readAnalysis_of_block (h : heap.blocks a = some (.analysis sa)) :
    readAnalysis heap a = .ok sa := by
  rw [readAnalysis, h]

theorem readAnalysis_of_dead (h : heap.blocks a = none) :
    readAnalysis heap a = .error (.notLive a) := by
  rw [readAnalysis, h]

theorem procFree_of_block {v : AnalysisBlock} (h : heap.blocks b = some v) :
    ∃ heap', procFree heap (some b) = .ok heap' ∧ heap'.blocks b = none ∧
      ∀ c, c ≠ b → heap'.blocks c = heap.blocks c := by
  rcases Heap.free_spec h with ⟨heap', hfree, -, hspec⟩
  refine ⟨heap', ?_, hspec⟩
  simp only [procFree, hfree]

/-- An array, or the null pointer, is freed. -/
theorem procFree_spec {p : Ptr} {l : List (Option Element)} (h : arrayAt heap p = some l) :
    ∃ heap', procFree heap p = .ok heap' ∧ (∀ c, p = some c → heap'.blocks c = none) ∧
      ∀ c, p ≠ some c → heap'.blocks c = heap.blocks c := by
  cases p with
  | none => exact ⟨heap, rfl, nofun, fun _ _ => rfl⟩
  | some b =>
      rcases procFree_of_block (live_of_arrayAt h) with ⟨heap', hfree, hself, hother⟩
      refine ⟨heap', hfree, ?_, fun c hc => hother c fun heq => hc (congrArg some heq.symm)⟩
      intro c hc
      rw [← Option.some.inj hc]
      exact hself

theorem setDeallocationMark_spec (h : heap.blocks a = some (.analysis sa)) :
    ∃ heap', setDeallocationMark heap a = .ok heap' ∧
      heap'.blocks a = some (.analysis { sa with deallocationMark := true }) ∧
      ∀ c, c ≠ a → heap'.blocks c = heap.blocks c := by
  obtain ⟨heap', hstore, -, hspec⟩ :=
    Heap.store_spec h (.analysis { sa with deallocationMark := true })
  refine ⟨heap', ?_, hspec⟩
  rw [setDeallocationMark, readAnalysis_of_block h]
  simp only [bind, Except.bind, hstore, pure, Except.pure]

namespace Node

/-- The sub-analyses of a node. -/
theorem subAnalysesAt_eq (h : Node heap nodes a sa instrs slots bs room) :
    subAnalysesAt heap a = bs := by
  have hfilter : ∀ bs : List Nat, (subElements bs).filterMap (fun
      | some (.subAnalysis p) => p
      | _ => none) = bs := by
    intro bs
    induction bs with
    | nil => rfl
    | cons b bs ih => exact congrArg (b :: ·) ih
  simp only [subAnalysesAt, analysisAt_of_block h.owns.analysis, h.owns.subs, Option.getD_some]
  by_cases hlost : sa.subAnalyses = none
  · have hnil := h.owns.subs
    rw [hlost] at hnil
    rcases List.append_eq_nil_iff.mp (Option.some.inj hnil).symm with ⟨hbs, hroom⟩
    obtain rfl := List.map_eq_nil_iff.mp hbs
    rw [hbs, hroom]
    simp
  · rw [h.count hlost, ← length_subElements bs, List.take_left]
    exact hfilter bs

/-- An element of the array of the sub-analyses. -/
theorem readSubAnalysis_eq (h : Node heap nodes a sa instrs slots bs room) {i : Nat}
    (hi : bs[i]? = some b) : readSubAnalysis heap sa.subAnalyses i = .ok (some b) := by
  have helement : (subElements bs ++ room)[i]? = some (some (.subAnalysis (some b))) := by
    have hlt : i < (subElements bs).length := by
      rw [length_subElements]
      exact (List.getElem?_eq_some_iff.mp hi).1
    rw [List.getElem?_append_left hlt, subElements, List.getElem?_map, hi]
    rfl
  obtain ⟨c, hc, hblock⟩ := exists_of_arrayAt h.owns.subs
    (List.getElem?_eq_some_iff.mp helement).1
  rw [hc, readSubAnalysis, hblock]
  simp only [helement]

end Node

end Reading

/-! ## The state of a release -/

/-- In the release of a graph the analyses of `stack` are being released, with
their marks set, those of `done` have been freed with their arrays, and the
others are as they were. -/
structure Releasing (heap₀ : Heap AnalysisBlock) (nodes : Finset Nat) (stack done : List Nat)
    (heap : Heap AnalysisBlock) : Prop where
  stack_nodes : ∀ a ∈ stack, a ∈ nodes
  apart : ∀ a ∈ stack, a ∉ done
  done_nodes : ∀ a ∈ done, a ∈ nodes
  freed : ∀ a ∈ done, ∀ c, BlockOf heap₀ a c → heap.blocks c = none
  pending : ∀ a ∈ stack, ∀ sa, analysisAt heap₀ a = some sa →
    heap.blocks a = some (.analysis { sa with deallocationMark := true })
  kept : ∀ c, (∀ a ∈ done, ¬ BlockOf heap₀ a c) → c ∉ stack → heap.blocks c = heap₀.blocks c

theorem releasing_nil (heap : Heap AnalysisBlock) (nodes : Finset Nat) :
    Releasing heap nodes [] [] heap :=
  ⟨nofun, nofun, nofun, nofun, nofun, fun _ _ _ => rfl⟩

section Steps

open Analyzer (Graph)

variable {m : Analyzer} {nodes : Finset Nat} {stack done : List Nat} {heap : Heap AnalysisBlock}
variable {a b c : Nat} {sa : StoredAnalysis} {instrs slots room : List (Option Element)}
variable {bs : List Nat}

/-- No block belongs to two analyses of a graph. -/
theorem Analyzer.Graph.eq_of_blockOf (h : Graph nodes m) (ha : a ∈ nodes) (hb : b ∈ nodes)
    (hca : BlockOf m.heap a c) (hcb : BlockOf m.heap b c) : a = b := by
  -- an analysis is not in a block with an array
  have hnot : ∀ a ∈ nodes, ∀ b ∈ nodes, ∀ sb, analysisAt m.heap b = some sb → ¬ sb.HasArray a := by
    intro a ha b hb sb hsb harray
    rcases h.node a ha with ⟨sa, _, _, _, _, hna⟩
    rcases h.node b hb with ⟨sb', _, _, _, _, hnb⟩
    obtain rfl := Option.some.inj ((analysisAt_of_block hnb.owns.analysis).symm.trans hsb)
    rcases hnb.owns.array_live harray with ⟨l, hl⟩
    rw [hna.owns.analysis] at hl
    cases hl
  rcases hca with rfl | ⟨sa, hsa, hca⟩ <;> rcases hcb with rfl | ⟨sb, hsb, hcb⟩
  · rfl
  · exact absurd hcb (hnot c ha b hb sb hsb)
  · exact absurd hca (hnot c hb a ha sa hsa)
  · exact h.disjoint a ha b hb sa sb hsa hsb c hca hcb

namespace Releasing

/-- The blocks of an analysis that is not done are not touched, but for the mark. -/
theorem block_eq (h : Releasing m.heap nodes stack done heap) (hgraph : Graph nodes m)
    (ha : a ∈ nodes) (hdone : a ∉ done) (hc : BlockOf m.heap a c) (hstack : c ∉ stack) :
    heap.blocks c = m.heap.blocks c := by
  refine h.kept c (fun d hd hcd => hdone ?_) hstack
  rwa [hgraph.eq_of_blockOf ha (h.done_nodes d hd) hc hcd]

/-- The arrays of an analysis that is not done are as they were. -/
theorem array_eq (h : Releasing m.heap nodes stack done heap) (hgraph : Graph nodes m)
    (ha : a ∈ nodes) (hdone : a ∉ done) (hnode : Node m.heap nodes a sa instrs slots bs room)
    (hc : sa.HasArray c) : heap.blocks c = m.heap.blocks c := by
  have hblock : BlockOf m.heap a c := .inr ⟨sa, analysisAt_of_block hnode.owns.analysis, hc⟩
  refine h.block_eq hgraph ha hdone hblock fun hstack => ?_
  have heq := hgraph.eq_of_blockOf ha (h.stack_nodes c hstack) hblock (.inl rfl)
  exact hnode.owns.not_hasArray (heq ▸ hc)

/-- An analysis that is entered gets its mark. -/
theorem enter (h : Releasing m.heap nodes stack done heap) (hgraph : Graph nodes m)
    (hb : b ∈ nodes) (hstack : b ∉ stack) (hdone : b ∉ done) :
    ∃ heap', setDeallocationMark heap b = .ok heap' ∧
      Releasing m.heap nodes (b :: stack) done heap' := by
  rcases hgraph.node b hb with ⟨sb, _, _, _, _, hnb⟩
  have hblock := (h.block_eq hgraph hb hdone (.inl rfl) hstack).trans hnb.owns.analysis
  rcases setDeallocationMark_spec hblock with ⟨heap', hmark, hself, hother⟩
  refine ⟨heap', hmark, ?_, ?_, h.done_nodes, ?_, ?_, ?_⟩
  · intro a ha
    rcases List.mem_cons.mp ha with rfl | ha
    · exact hb
    · exact h.stack_nodes a ha
  · intro a ha
    rcases List.mem_cons.mp ha with rfl | ha
    · exact hdone
    · exact h.apart a ha
  · intro a ha c hc
    rw [hother c, h.freed a ha c hc]
    rintro rfl
    exact hdone (hgraph.eq_of_blockOf hb (h.done_nodes a ha) (.inl rfl) hc ▸ ha)
  · intro a ha sa hsa
    rcases List.mem_cons.mp ha with rfl | hin
    · obtain rfl := Option.some.inj ((analysisAt_of_block hnb.owns.analysis).symm.trans hsa)
      exact hself
    · rw [hother a fun heq => hstack (heq ▸ hin), h.pending a hin sa hsa]
  · intro c hc hnot
    rw [hother c (fun heq => hnot (heq ▸ List.mem_cons_self)),
      h.kept c hc fun hin => hnot (List.mem_cons_of_mem _ hin)]

/-- An analysis that is left is freed with its arrays. -/
theorem leave (h : Releasing m.heap nodes (b :: stack) done heap) (hgraph : Graph nodes m)
    (hstack : b ∉ stack) :
    ∃ heap', freeBlocks heap b = .ok heap' ∧ Releasing m.heap nodes stack (done ++ [b]) heap' := by
  have hb := h.stack_nodes b List.mem_cons_self
  have hdone := h.apart b List.mem_cons_self
  rcases hgraph.node b hb with ⟨sb, instrs, slots, bs, room, hnb⟩
  have hsb := analysisAt_of_block hnb.owns.analysis
  have hself := h.pending b List.mem_cons_self sb hsb
  have howns := hnb.owns
  have harray : ∀ c, sb.HasArray c → heap.blocks c = m.heap.blocks c :=
    fun c hc => h.array_eq hgraph hb hdone hnb hc
  have hne : ∀ c, sb.HasArray c → c ≠ b := fun c hc => howns.array_ne hc
  -- the three arrays and the analysis, one after the other
  have hsubs := arrayAt_congr howns.subs fun c hc => harray c (.inr (.inr hc))
  rcases procFree_spec hsubs with ⟨heap₁, hfree₁, hgone₁, hother₁⟩
  have hslots : arrayAt heap₁ sb.procedureSlots = some slots :=
    arrayAt_congr (arrayAt_congr howns.slots fun c hc => harray c (.inr (.inl hc)))
      fun c hc => hother₁ c fun hc' => howns.slots_ne_subs c hc hc'
  rcases procFree_spec hslots with ⟨heap₂, hfree₂, hgone₂, hother₂⟩
  have hinstrs : arrayAt heap₂ sb.instructionAnalyses = some instrs := by
    refine arrayAt_congr (arrayAt_congr howns.instrs fun c hc => harray c (.inl hc)) ?_
    intro c hc
    rw [hother₂ c (howns.instrs_ne_slots c hc), hother₁ c (howns.instrs_ne_subs c hc)]
  rcases procFree_spec hinstrs with ⟨heap₃, hfree₃, hgone₃, hother₃⟩
  have hlast : heap₃.blocks b = some (.analysis { sb with deallocationMark := true }) := by
    rw [hother₃ b fun hc => hne b (.inl hc) rfl, hother₂ b fun hc => hne b (.inr (.inl hc)) rfl,
      hother₁ b fun hc => hne b (.inr (.inr hc)) rfl, hself]
  rcases procFree_of_block hlast with ⟨heap', hfree', hgone', hother'⟩
  have hrest : ∀ c, ¬ BlockOf m.heap b c → heap'.blocks c = heap.blocks c := by
    intro c hc
    have hno : ¬ sb.HasArray c := fun hin => hc (.inr ⟨sb, hsb, hin⟩)
    rw [hother' c fun heq => hc (.inl heq), hother₃ c fun hin => hno (.inl hin),
      hother₂ c fun hin => hno (.inr (.inl hin)), hother₁ c fun hin => hno (.inr (.inr hin))]
  have hall : ∀ c, BlockOf m.heap b c → heap'.blocks c = none := by
    rintro c (rfl | ⟨sb', hsb', hc⟩)
    · exact hgone'
    · obtain rfl := Option.some.inj (hsb.symm.trans hsb')
      rw [hother' c (hne c hc)]
      rcases hc with hc | hc | hc
      · exact hgone₃ c hc
      · rw [hother₃ c fun hc' => howns.instrs_ne_slots c hc' hc]
        exact hgone₂ c hc
      · rw [hother₃ c fun hc' => howns.instrs_ne_subs c hc' hc,
          hother₂ c fun hc' => howns.slots_ne_subs c hc' hc]
        exact hgone₁ c hc
  refine ⟨heap', ?_, ?_, ?_, ?_, ?_, ?_, ?_⟩
  · rw [freeBlocks, readAnalysis_of_block hself]
    simp only [bind, Except.bind, hfree₁, hfree₂, hfree₃, hfree']
  · exact fun a ha => h.stack_nodes a (List.mem_cons_of_mem _ ha)
  · intro a ha hin
    rcases List.mem_append.mp hin with hin | hin
    · exact h.apart a (List.mem_cons_of_mem _ ha) hin
    · exact hstack (List.mem_singleton.mp hin ▸ ha)
  · intro a ha
    rcases List.mem_append.mp ha with ha | ha
    · exact h.done_nodes a ha
    · rwa [List.mem_singleton.mp ha]
  · intro a ha c hc
    rcases List.mem_append.mp ha with ha | ha
    · rw [hrest c, h.freed a ha c hc]
      exact fun hbc => hdone (hgraph.eq_of_blockOf hb (h.done_nodes a ha) hbc hc ▸ ha)
    · rw [List.mem_singleton.mp ha] at hc
      exact hall c hc
  · intro a ha sa hsa
    rw [hrest a, h.pending a (List.mem_cons_of_mem _ ha) sa hsa]
    intro hba
    have heq := hgraph.eq_of_blockOf hb (h.stack_nodes a (List.mem_cons_of_mem _ ha)) hba (.inl rfl)
    exact hstack (heq ▸ ha)
  · intro c hc hnot
    have hcb : ¬ BlockOf m.heap b c := hc b (List.mem_append_right _ (List.mem_singleton_self b))
    rw [hrest c hcb, h.kept c (fun a ha => hc a (List.mem_append_left _ ha))]
    exact fun hin => (List.mem_cons.mp hin).elim (fun heq => hcb (.inl heq)) hnot

/-! ### The loop over the sub-analyses -/

variable {i fuel : Nat}

theorem readAnalysis_pending (h : Releasing m.heap nodes stack done heap) (ha : a ∈ stack)
    (hnode : Node m.heap nodes a sa instrs slots bs room) :
    readAnalysis heap a = .ok { sa with deallocationMark := true } :=
  readAnalysis_of_block (h.pending a ha sa (analysisAt_of_block hnode.owns.analysis))

theorem loop_end (h : Releasing m.heap nodes stack done heap) (ha : a ∈ stack)
    (hnode : Node m.heap nodes a sa instrs slots bs room) (hi : ¬ i < sa.subAnalysisCount) :
    freeSubAnalyses (fuel + 1) a i heap = .ok heap := by
  rw [freeSubAnalyses, h.readAnalysis_pending ha hnode]
  simp only [bind, Except.bind, if_neg hi, pure, Except.pure]

/-- An array that has been lost is not read. -/
theorem loop_lost (h : Releasing m.heap nodes stack done heap) (ha : a ∈ stack)
    (hnode : Node m.heap nodes a sa instrs slots bs room) (hi : i < sa.subAnalysisCount)
    (hlost : sa.subAnalyses = none) :
    freeSubAnalyses (fuel + 1) a i heap = .error .invalid := by
  rw [freeSubAnalyses, h.readAnalysis_pending ha hnode]
  simp only [bind, Except.bind, if_pos hi, hlost, readSubAnalysis]

/-- An element of the array is read. -/
theorem loop_element (h : Releasing m.heap nodes stack done heap) (hgraph : Graph nodes m)
    (ha : a ∈ stack) (hnode : Node m.heap nodes a sa instrs slots bs room)
    (hi : bs[i]? = some b) :
    i < sa.subAnalysisCount ∧ readSubAnalysis heap sa.subAnalyses i = .ok (some b) := by
  have hread := hnode.readSubAnalysis_eq hi
  cases hsubs : sa.subAnalyses with
  | none =>
      rw [hsubs] at hread
      cases hread
  | some c =>
      constructor
      · rw [hnode.count (by rw [hsubs]; exact Option.some_ne_none c)]
        exact (List.getElem?_eq_some_iff.mp hi).1
      · rw [hsubs] at hread
        have hkept := h.array_eq hgraph (h.stack_nodes a ha) (h.apart a ha) hnode
          (.inr (.inr hsubs))
        simpa only [readSubAnalysis, hkept] using hread

theorem loop_skip (h : Releasing m.heap nodes stack done heap) (hgraph : Graph nodes m)
    (ha : a ∈ stack) (hnode : Node m.heap nodes a sa instrs slots bs room)
    (hi : bs[i]? = some b) (hb : b ∈ stack) :
    freeSubAnalyses (fuel + 1) a i heap = freeSubAnalyses fuel a (i + 1) heap := by
  rcases h.loop_element hgraph ha hnode hi with ⟨hlt, hread⟩
  rcases hgraph.node b (h.stack_nodes b hb) with ⟨sb, _, _, _, _, hnb⟩
  rw [freeSubAnalyses, h.readAnalysis_pending ha hnode]
  simp only [bind, Except.bind, if_pos hlt, hread, h.readAnalysis_pending hb hnb, if_true, ite_self]

theorem loop_finished (h : Releasing m.heap nodes stack done heap) (hgraph : Graph nodes m)
    (ha : a ∈ stack) (hnode : Node m.heap nodes a sa instrs slots bs room)
    (hi : bs[i]? = some b) (hb : b ∈ done) :
    freeSubAnalyses (fuel + 1) a i heap = .error (.notLive b) := by
  rcases h.loop_element hgraph ha hnode hi with ⟨hlt, hread⟩
  have hne : b ≠ a := fun heq => h.apart a ha (heq ▸ hb)
  rw [freeSubAnalyses, h.readAnalysis_pending ha hnode]
  simp only [bind, Except.bind, if_pos hlt, hread, if_neg hne,
    readAnalysis_of_dead (h.freed b hb b (.inl rfl))]

theorem loop_enter (h : Releasing m.heap nodes stack done heap) (hgraph : Graph nodes m)
    (ha : a ∈ stack) (hnode : Node m.heap nodes a sa instrs slots bs room)
    (hi : bs[i]? = some b) (hb : b ∉ stack) (hdone : b ∉ done) :
    ∃ heap', Releasing m.heap nodes (b :: stack) done heap' ∧ ∀ fuel,
      freeSubAnalyses (fuel + 1) a i heap =
        (do
          let heap ← freeSubAnalyses fuel b 0 heap'
          let heap ← freeBlocks heap b
          freeSubAnalyses fuel a (i + 1) heap) := by
  rcases h.loop_element hgraph ha hnode hi with ⟨hlt, hread⟩
  have hne : b ≠ a := fun heq => hb (heq ▸ ha)
  have hmem := hnode.subs b (List.mem_of_getElem? hi)
  rcases h.enter hgraph hmem hb hdone with ⟨heap', hmark, hentered⟩
  rcases hgraph.node b hmem with ⟨sb, _, _, _, _, hnb⟩
  have hblock := (h.block_eq hgraph hmem hdone (.inl rfl) hb).trans hnb.owns.analysis
  refine ⟨heap', hentered, fun fuel => ?_⟩
  rw [freeSubAnalyses, h.readAnalysis_pending ha hnode]
  simp only [bind, Except.bind, if_pos hlt, hread, if_neg hne, readAnalysis_of_block hblock,
    hnb.mark, Bool.false_eq_true, if_false, hmark]

/-- The rest of a list from an index on, element by element. -/
theorem drop_eq_cons {l bs' : List Nat} (h : b :: bs' = l.drop i) :
    l[i]? = some b ∧ bs' = l.drop (i + 1) := by
  constructor
  · rw [← List.head?_drop, ← h]
    rfl
  · rw [← List.tail_drop, ← h]
    rfl

/-- A visit that is possible is a release that goes through. -/
theorem of_visits {bs' done' : List Nat} (hgraph : Graph nodes m)
    (hkeeps : ∀ c, ReachableFrom m.heap b c → KeepsSubAnalyses m.heap c)
    (hvisits : DepthFirst.Visits (subAnalysesAt m.heap) stack done bs' done')
    (h : Releasing m.heap nodes stack done heap) (ha : a ∈ stack)
    (hreach : ReachableFrom m.heap b a)
    (hbs : bs' = (subAnalysesAt m.heap a).drop i) :
    ∃ enough heap', (∀ fuel, enough ≤ fuel → freeSubAnalyses fuel a i heap = .ok heap') ∧
      Releasing m.heap nodes stack done' heap' := by
  induction hvisits generalizing a i heap with
  | nil =>
      -- no element is left, and as the array is not lost, no count either
      rcases hgraph.node a (h.stack_nodes a ha) with ⟨sa, _, _, bs, _, hna⟩
      rw [hna.subAnalysesAt_eq] at hbs
      have hle : sa.subAnalysisCount ≤ i := by
        by_cases hlost : sa.subAnalyses = none
        · rw [hkeeps a hreach sa (analysisAt_of_block hna.owns.analysis) hlost]
          exact Nat.zero_le i
        · rw [hna.count hlost]
          exact List.drop_eq_nil_iff.mp hbs.symm
      refine ⟨1, heap, fun fuel hfuel => ?_, h⟩
      rcases Nat.exists_eq_add_of_le' hfuel with ⟨fuel, rfl⟩
      exact h.loop_end ha hna (Nat.not_lt.mpr hle)
  | skip hb _ ih =>
      -- marked already: the pass does nothing
      rcases hgraph.node a (h.stack_nodes a ha) with ⟨sa, _, _, bs, _, hna⟩
      rcases drop_eq_cons hbs with ⟨hi, hrest⟩
      rcases ih h ha hreach hrest with ⟨enough, heap', hrun, hdone⟩
      refine ⟨enough + 1, heap', fun fuel hfuel => ?_, hdone⟩
      rcases Nat.exists_eq_add_of_le' (Nat.le_of_add_left_le hfuel) with ⟨fuel, rfl⟩
      rw [hna.subAnalysesAt_eq] at hi
      rw [h.loop_skip hgraph ha hna hi hb]
      exact hrun fuel (by omega)
  | enter hb hnew _ _ ih ih' =>
      -- the loop of the element, the release of its blocks, and the rest of this loop
      rcases hgraph.node a (h.stack_nodes a ha) with ⟨sa, _, _, bs, _, hna⟩
      rcases drop_eq_cons hbs with ⟨hi, hrest⟩
      have hedge := List.mem_of_getElem? hi
      rw [hna.subAnalysesAt_eq] at hi
      rcases h.loop_enter hgraph ha hna hi hb hnew with ⟨heap₁, h₁, hstep⟩
      obtain ⟨enough₁, heap₂, hrun₁, h₂⟩ := ih h₁ List.mem_cons_self (hreach.tail hedge)
        List.drop_zero.symm
      rcases h₂.leave hgraph hb with ⟨heap₃, hfree, h₃⟩
      rcases ih' h₃ ha hreach hrest with ⟨enough₂, heap', hrun₂, hdone⟩
      refine ⟨max enough₁ enough₂ + 1, heap', fun fuel hfuel => ?_, hdone⟩
      rcases Nat.exists_eq_add_of_le' (Nat.le_of_add_left_le hfuel) with ⟨fuel, rfl⟩
      rw [hstep, hrun₁ fuel (by omega)]
      simp only [bind, Except.bind, hfree]
      exact hrun₂ fuel (by omega)

/-- A release that goes through is a visit, and has lost no array. -/
theorem visits_of_ok {heap' : Heap AnalysisBlock} (hgraph : Graph nodes m)
    (h : Releasing m.heap nodes stack done heap) (ha : a ∈ stack)
    (hrun : freeSubAnalyses fuel a i heap = .ok heap') :
    ∃ done', DepthFirst.Visits (subAnalysesAt m.heap) stack done ((subAnalysesAt m.heap a).drop i)
        done' ∧ Releasing m.heap nodes stack done' heap' ∧
      (∀ sa, analysisAt m.heap a = some sa → sa.subAnalyses = none → sa.subAnalysisCount ≤ i) ∧
      ∀ c ∈ done', c ∈ done ∨ KeepsSubAnalyses m.heap c := by
  induction fuel generalizing stack done a i heap heap' with
  | zero => cases hrun
  | succ fuel ih =>
      rcases hgraph.node a (h.stack_nodes a ha) with ⟨sa, _, _, bs, _, hna⟩
      have hsa := analysisAt_of_block hna.owns.analysis
      rw [hna.subAnalysesAt_eq]
      by_cases hlt : i < sa.subAnalysisCount
      case neg =>
        -- the end of the loop
        rw [h.loop_end ha hna hlt] at hrun
        obtain rfl := Except.ok.inj hrun
        have hnil : bs.drop i = [] := by
          by_cases hlost : sa.subAnalyses = none
          · have hempty := hna.owns.subs
            rw [hlost] at hempty
            have hbs := (List.append_eq_nil_iff.mp (Option.some.inj hempty).symm).1
            rw [List.map_eq_nil_iff.mp hbs, List.drop_nil]
          · refine List.drop_eq_nil_of_le ?_
            rw [← hna.count hlost]
            exact Nat.le_of_not_lt hlt
        rw [hnil]
        refine ⟨done, .nil, h, ?_, fun c hc => .inl hc⟩
        intro sa' hsa' _
        obtain rfl := Option.some.inj (hsa.symm.trans hsa')
        exact Nat.le_of_not_lt hlt
      by_cases hlost : sa.subAnalyses = none
      case pos =>
        -- an element would be read from an array that there is not
        rw [h.loop_lost ha hna hlt hlost] at hrun
        cases hrun
      have hkept : ∀ sa', analysisAt m.heap a = some sa' → sa'.subAnalyses = none →
          sa'.subAnalysisCount ≤ i := by
        intro sa' hsa' hnone
        obtain rfl := Option.some.inj (hsa.symm.trans hsa')
        exact absurd hnone hlost
      have hlen : i < bs.length := by rwa [← hna.count hlost]
      have hi : bs[i]? = some bs[i] := List.getElem?_eq_getElem hlen
      rw [List.drop_eq_getElem_cons hlen]
      by_cases hstack : bs[i] ∈ stack
      case pos =>
        rw [h.loop_skip hgraph ha hna hi hstack] at hrun
        rcases ih h ha hrun with ⟨done', hvisits, hdone, -, hkeeps⟩
        rw [hna.subAnalysesAt_eq] at hvisits
        exact ⟨done', .skip hstack hvisits, hdone, hkept, hkeeps⟩
      by_cases hfinished : bs[i] ∈ done
      case pos =>
        -- the mark of a block that has been freed would be read
        rw [h.loop_finished hgraph ha hna hi hfinished] at hrun
        cases hrun
      rcases h.loop_enter hgraph ha hna hi hstack hfinished with ⟨heap₁, h₁, hstep⟩
      rw [hstep] at hrun
      cases hinner : freeSubAnalyses fuel bs[i] 0 heap₁ with
      | error e =>
          rw [hinner] at hrun
          cases hrun
      | ok heap₂ =>
          rw [hinner] at hrun
          rcases ih h₁ List.mem_cons_self hinner with ⟨done₁, hvisits₁, h₂, hkept₁, hkeeps₁⟩
          rcases h₂.leave hgraph hstack with ⟨heap₃, hfree, h₃⟩
          simp only [bind, Except.bind, hfree] at hrun
          rcases ih h₃ ha hrun with ⟨done', hvisits, hdone, -, hkeeps⟩
          rw [hna.subAnalysesAt_eq] at hvisits
          refine ⟨done', .enter hstack hfinished hvisits₁ hvisits, hdone, hkept, ?_⟩
          -- what is freed was freed in the inner loop, is the element itself, or comes after
          intro c hc
          rcases hkeeps c hc with hin | hkeep
          · rcases List.mem_append.mp hin with hin | hin
            · exact hkeeps₁ c hin
            · rw [List.mem_singleton.mp hin]
              exact .inr fun sb hsb hnone => Nat.le_zero.mp (hkept₁ sb hsb hnone)
          · exact .inr hkeep

end Releasing

end Steps

/-! ## When the release goes through -/

section Release

open Analyzer (Graph)

variable {m : Analyzer} {nodes : Finset Nat} {a : Nat}

/-- The sub-analyses of a node are nodes. -/
theorem Analyzer.Graph.subAnalyses_mem (h : Graph nodes m) :
    ∀ a ∈ nodes, ∀ b ∈ subAnalysesAt m.heap a, b ∈ nodes := by
  intro a ha b hb
  rcases h.node a ha with ⟨sa, _, _, bs, _, hna⟩
  rw [hna.subAnalysesAt_eq] at hb
  exact hna.subs b hb

/-- The release of a graph from a node goes through exactly when each analysis is
reached along one chain only, and has its array. -/
theorem releasedOnce_iff_of_graph (h : Graph nodes m) (ha : a ∈ nodes) :
    ReleasedOnce m.heap a ↔
      (∀ b, ReachableFrom m.heap a b → KeepsSubAnalyses m.heap b) ∧
        DepthFirst.UniqueChains (subAnalysesAt m.heap) [a] (subAnalysesAt m.heap a) := by
  obtain ⟨heap₁, hmark, h₁⟩ := (releasing_nil m.heap nodes).enter h ha List.not_mem_nil
    List.not_mem_nil
  constructor
  · -- a release that goes through has visited all of the graph
    rintro ⟨fuel, heap', hrun, -⟩
    rw [freeProcAnalysis, hmark] at hrun
    cases hloop : freeSubAnalyses fuel a 0 heap₁ with
    | error e =>
        simp only [bind, Except.bind, hloop] at hrun
        cases hrun
    | ok heap₂ =>
        rcases h₁.visits_of_ok h List.mem_cons_self hloop with ⟨done, hvisits, -, hkept, hkeeps⟩
        rw [List.drop_zero] at hvisits
        refine ⟨fun b hb => ?_, (DepthFirst.visits_iff h.subAnalyses_mem ha).mp ⟨done, hvisits⟩⟩
        rcases hvisits.mem_iff.mpr hb with hin | rfl
        · exact (hkeeps b hin).resolve_left List.not_mem_nil
        · exact fun sb hsb hnone => Nat.le_zero.mp (hkept sb hsb hnone)
  · -- where chains are unique there is a visit, which a release follows
    rintro ⟨hkeeps, hunique⟩
    rcases (DepthFirst.visits_iff h.subAnalyses_mem ha).mpr hunique with ⟨done, hvisits⟩
    obtain ⟨enough, heap₂, hloop, h₂⟩ := Releasing.of_visits h hkeeps hvisits h₁
      List.mem_cons_self .refl List.drop_zero.symm
    rcases h₂.leave h List.not_mem_nil with ⟨heap', hfree, h'⟩
    have hmem : ∀ b, b ∈ done ++ [a] ↔ ReachableFrom m.heap a b := by
      intro b
      rw [List.mem_append, List.mem_singleton]
      exact hvisits.mem_iff
    refine ⟨enough, heap', ?_, fun c => ⟨?_, fun hno => ?_⟩⟩
    · rw [freeProcAnalysis, hmark]
      simp only [bind, Except.bind, hloop enough (Nat.le_refl _), hfree]
    · rintro ⟨b, hb, hc⟩
      exact h'.freed b ((hmem b).mpr hb) c hc
    · exact h'.kept c (fun b hb hc => hno ⟨b, (hmem b).mp hb, hc⟩) List.not_mem_nil

end Release

/-- The release of what an analysis has built, whether there was memory or not,
goes through exactly when each analysis is reached from the root's along one
chain of calls only, in which no analysis comes twice, and none of them has lost
its array of sub-analyses. -/
theorem released_once_iff (alloc : Nat → Bool) (store : Store) (proc : Proc) :
    ∃ enough, ∀ fuel, enough ≤ fuel →
      ∃ ret m, Analyzer.run alloc store fuel proc = some (ret, m) ∧
        (ReleasedOnce m.heap 0 ↔
          (∀ b, ReachableFrom m.heap 0 b → KeepsSubAnalyses m.heap b) ∧
            DepthFirst.UniqueChains (subAnalysesAt m.heap) [0] (subAnalysesAt m.heap 0)) := by
  refine ⟨258 * 256 + 257, fun fuel hfuel => ?_⟩
  rcases Analyzer.run_ends alloc store proc hfuel with ⟨ret, m, nodes, hrun, -, hroot, hgraph⟩
  exact ⟨ret, m, hrun, releasedOnce_iff_of_graph hgraph hroot⟩

/-! ## A procedure that is called twice -/

/-- A store with a procedure that calls nothing in slot 1. -/
def leafStore : Store := fun s => if s = 1 then ⟨[⟨0, .noop⟩], by decide⟩ else Proc.empty

/-- A procedure that calls slot 1 twice. -/
def callsTwice : Proc := ⟨[⟨0, .call 1⟩, ⟨0, .call 1⟩], by decide⟩

theorem callsTwice_closed : Closed leafStore callsTwice :=
  .of_covers [1] (by decide) (by decide)

/-- There is memory, but the second call leads to an analysis that is freed
already. -/
theorem callsTwice_not_released :
    Closed leafStore callsTwice ∧
      ∃ fuel ret m, Analyzer.run (fun _ => true) leafStore fuel callsTwice = some (ret, m) ∧
        ret = 0 ∧ ¬ ReleasedOnce m.heap 0 := by
  refine ⟨callsTwice_closed, 258 * 256 + 257, ?_⟩
  obtain ⟨ret, m, nodes, hrun, -, hroot, hgraph⟩ :=
    Analyzer.run_ends (fun _ => true) leafStore callsTwice (Nat.le_refl _)
  have heval : (Analyzer.run (fun _ => true) leafStore (258 * 256 + 257) callsTwice).map
      (fun r => (r.1, subAnalysesAt r.2.heap 0)) = some (0, [4, 4]) := by decide +kernel
  rw [hrun, Option.map_some, Option.some.injEq, Prod.mk.injEq] at heval
  refine ⟨ret, m, hrun, heval.1, fun hreleased => ?_⟩
  have hunique := ((releasedOnce_iff_of_graph hgraph hroot).mp hreleased).2
  rw [heval.2] at hunique
  have hsame := hunique [0] [1] 4 (.stop rfl (by decide)) (.stop rfl (by decide))
  cases hsame

end CspProc
