import CspProc.AnalysisGraph
import CspProc.CallGraph

/-! # The analysis ends

The recursion of `proc_analyze` uses up the slots that are not marked, and its
loops run no further than the instruction count, which 8 bits hold: it ends on
every store, whether there is memory or not. What it has made then is a graph.
-/

namespace CspProc

namespace Analyzer

/-! ## Marks -/

/-- The number of slots that are not marked. -/
def unmarked (m : Analyzer) : Nat :=
  (Finset.univ.filter fun i : Fin 256 => m.analyzedProcs (UInt8.ofNat i) = false).card

theorem unmarked_le {m m' : Analyzer}
    (h : ∀ s, m.analyzedProcs s = true → m'.analyzedProcs s = true) :
    m'.unmarked ≤ m.unmarked := by
  refine card_slots_le (P := fun s => m.analyzedProcs s = false)
    (Q := fun s => m'.analyzedProcs s = false) ?_
  intro s hfalse
  cases hs : m.analyzedProcs s with
  | false => rfl
  | true => rw [h s hs] at hfalse; cases hfalse

theorem unmarked_le_slots (m : Analyzer) : m.unmarked ≤ 256 :=
  (Finset.card_filter_le _ _).trans_eq (Finset.card_fin 256)

theorem unmarked_congr {m m' : Analyzer} (h : m'.analyzedProcs = m.analyzedProcs) :
    m'.unmarked = m.unmarked := by
  simp only [unmarked, h]

theorem unmarked_mark {m : Analyzer} {s : UInt8} (h : m.analyzedProcs s = false) (sub : Nat) :
    (m.mark s sub).unmarked < m.unmarked := by
  refine card_slots_lt (P := fun s => m.analyzedProcs s = false)
    (Q := fun t => (m.mark s sub).analyzedProcs t = false) ?_ h ?_
  · intro t ht
    by_cases heq : t = s
    · rw [heq, h]
    · simpa only [mark, Function.update_of_ne heq] using ht
  · simp [mark]

/-- What the analysis in block `a` leaves when it ends: the blocks before `base`
but its own are as they were, no index has wrapped, and the recursive calls were
for different slots that were not marked before and are so now. -/
structure Ended (base a : Nat) (m m' : Analyzer) : Prop where
  calls_le : m.heap.calls ≤ m'.heap.calls
  kept : ∀ c, c < base → c ≠ a → m'.heap.blocks c = m.heap.blocks c
  marks : ∀ s, m.analyzedProcs s = true → m'.analyzedProcs s = true
  wrapped : m'.wrapped = m.wrapped
  invocations : ∃ calls : List (UInt8 × Bool), m'.invocations = m.invocations ++ calls ∧
    (calls.map Prod.fst).Nodup ∧
    ∀ call ∈ calls, call.2 = false ∧ m.analyzedProcs call.1 = false ∧
      m'.analyzedProcs call.1 = true

namespace Ended

variable {base a : Nat} {m m' m'' : Analyzer}

/-- Only the heap has changed. -/
theorem of_heap {heap : Heap AnalysisBlock} (hcalls : m.heap.calls ≤ heap.calls)
    (hkept : ∀ c, c < base → c ≠ a → heap.blocks c = m.heap.blocks c) :
    Ended base a m { m with heap := heap } where
  calls_le := hcalls
  kept := hkept
  marks _ h := h
  wrapped := rfl
  invocations := ⟨[], by simp⟩

theorem trans (h : Ended base a m m') (h' : Ended base a m' m'') : Ended base a m m'' where
  calls_le := h.calls_le.trans h'.calls_le
  kept c hc hne := (h'.kept c hc hne).trans (h.kept c hc hne)
  marks s hs := h'.marks s (h.marks s hs)
  wrapped := h'.wrapped.trans h.wrapped
  invocations := by
    rcases h.invocations with ⟨calls, heq, hnodup, hcalls⟩
    rcases h'.invocations with ⟨calls', heq', hnodup', hcalls'⟩
    refine ⟨calls ++ calls', by rw [heq', heq, List.append_assoc], ?_, ?_⟩
    · rw [List.map_append, List.nodup_append]
      refine ⟨hnodup, hnodup', ?_⟩
      -- the later calls are for slots that the earlier ones have not marked
      intro s hs t ht hst
      rcases List.mem_map.mp hs with ⟨call, hcall, rfl⟩
      rcases List.mem_map.mp ht with ⟨call', hcall', rfl⟩
      have hmarked := (hcalls call hcall).2.2
      rw [hst, (hcalls' call' hcall').2.1] at hmarked
      cases hmarked
    · intro call hcall
      rcases List.mem_append.mp hcall with hold | hnew
      · rcases hcalls call hold with ⟨h1, h2, h3⟩
        exact ⟨h1, h2, h'.marks _ h3⟩
      · rcases hcalls' call hnew with ⟨h1, h2, h3⟩
        refine ⟨h1, ?_, h3⟩
        cases hs : m.analyzedProcs call.1 with
        | false => rfl
        | true =>
            rw [h.marks _ hs] at h2
            cases h2

end Ended

/-- The loop can go on: the analysis in block `a` is a node, its arrays are not
before `base` and have the lengths that the counts tell, and there is `room` for
more sub-analyses. -/
structure Looping (base a n room : Nat) (nodes : Finset Nat) (m : Analyzer) : Prop where
  lt_base : a < base
  base_le : base ≤ m.heap.calls
  graph : Graph nodes m
  mem : a ∈ nodes
  node : ∃ sa instrs slots bs tail, Node m.heap nodes a sa instrs slots bs tail ∧
    instrs.length = n ∧ slots.length = sa.procedureSlotCount ∧ sa.subAnalysisCount = bs.length ∧
    tail.length = room ∧ ∀ c, sa.HasArray c → base ≤ c

section Loop

variable {base a n : Nat} {nodes nodes' : Finset Nat} {m m' : Analyzer} {alloc : Nat → Bool}

/-- What is touched before `base` is the analysis at most. -/
theorem ended_of_touches {sa sa' : StoredAnalysis} {heap : Heap AnalysisBlock}
    (h : Touches a sa sa' m.heap heap) (hbase : base ≤ m.heap.calls)
    (harrays : ∀ c, sa.HasArray c → base ≤ c) :
    Ended base a m { m with heap := heap } ∧ ∀ c, sa'.HasArray c → base ≤ c := by
  refine ⟨.of_heap h.calls_le fun c hc hne => h.kept c hne ?_ (hc.trans_le hbase), ?_⟩
  · exact fun harray => absurd (harrays c harray) (Nat.not_le.mpr hc)
  · intro c hc
    rcases h.new c hc with hold | ⟨hle, -⟩
    · exact harrays c hold
    · exact hbase.trans hle

theorem Looping.enterInstruction {room : Nat} (h : Looping base a n room nodes m) (proc : Proc)
    {fuel i : Nat} (hi : i < proc.instructions.length)
    (hfuel : proc.instructions.length < fuel + i) (hn : proc.instructions.length = n)
    (ins : ProcInstruction) :
    ∃ m', m.enterInstruction fuel proc a (UInt8.ofNat i) ins = some m' ∧
      Looping base a n room nodes m' ∧ Ended base a m m' ∧
      m'.analyzedProcs = m.analyzedProcs := by
  obtain ⟨hlt, hle, hgraph, hmem, sa, instrs, slots, bs, tail, hnode, hinstrs, hslots, hcount,
    htail, harrays⟩ := h
  obtain ⟨heap, hrun, howns, htouches⟩ := enterInstruction_spec hnode.owns proc hi hfuel
    (hinstrs.trans hn.symm) ins
  rcases ended_of_touches htouches hle harrays with ⟨hended, harrays'⟩
  have hnode' : Node heap nodes a sa _ slots bs tail := { hnode with owns := howns }
  refine ⟨_, hrun, ⟨hlt, hle.trans htouches.calls_le, hgraph.touch hmem hnode.owns htouches hnode',
    hmem, sa, _, slots, bs, tail, hnode', ?_, hslots, hcount, htail, harrays'⟩, hended, rfl⟩
  rw [List.length_set]
  exact hinstrs

theorem Looping.addSlot (alloc : Nat → Bool) (h : Looping base a n 0 nodes m) (s : UInt8) :
    ∃ ok m', m.addSlot alloc a s = some (ok, m') ∧ (ok = true → Looping base a n 0 nodes m') ∧
      Graph nodes m' ∧ Ended base a m m' ∧ m'.analyzedProcs = m.analyzedProcs := by
  obtain ⟨hlt, hle, hgraph, hmem, sa, instrs, slots, bs, tail, hnode, hinstrs, hslots, hcount,
    htail, harrays⟩ := h
  cases hok : alloc m.heap.calls with
  | false =>
      rcases addSlot_failed hnode.owns hok s with ⟨heap, hrun, howns, htouches⟩
      have hgraph' := hgraph.touch hmem hnode.owns htouches
        (⟨howns, hnode.mark, hnode.count, hnode.subs⟩ : Node heap nodes a _ instrs [] bs tail)
      exact ⟨false, _, hrun, nofun, hgraph', (ended_of_touches htouches hle harrays).1, rfl⟩
  | true =>
      rcases addSlot_spec hnode.owns hok hslots s with ⟨heap, hrun, howns, htouches⟩
      rcases ended_of_touches htouches hle harrays with ⟨hended, harrays'⟩
      have hnode' : Node heap nodes a _ instrs _ bs tail :=
        ⟨howns, hnode.mark, hnode.count, hnode.subs⟩
      have hgraph' := hgraph.touch hmem hnode.owns htouches hnode'
      refine ⟨true, _, hrun, fun _ => ⟨hlt, hle.trans htouches.calls_le, hgraph', hmem, _, _, _, _,
        _, hnode', hinstrs, ?_, hcount, htail, harrays'⟩, hgraph', hended, rfl⟩
      rw [List.length_append, hslots]
      rfl

theorem Looping.growSubAnalyses (alloc : Nat → Bool) (h : Looping base a n 0 nodes m) :
    ∃ ok m', m.growSubAnalyses alloc a = some (ok, m') ∧
      (ok = true → Looping base a n 1 nodes m') ∧ Graph nodes m' ∧ Ended base a m m' ∧
      m'.analyzedProcs = m.analyzedProcs := by
  obtain ⟨hlt, hle, hgraph, hmem, sa, instrs, slots, bs, tail, hnode, hinstrs, hslots, hcount,
    htail, harrays⟩ := h
  obtain rfl := List.length_eq_zero_iff.mp htail
  have hsubs : (subElements bs ++ []).length = sa.subAnalysisCount := by
    rw [List.append_nil, length_subElements, hcount]
  cases hok : alloc m.heap.calls with
  | false =>
      rcases growSubAnalyses_failed hnode.owns hok with ⟨heap, hrun, howns, htouches⟩
      have hgraph' := hgraph.touch hmem hnode.owns htouches
        (⟨howns, hnode.mark, fun hne => absurd rfl hne, nofun⟩ : Node heap nodes a _ instrs slots
          [] [])
      exact ⟨false, _, hrun, nofun, hgraph', (ended_of_touches htouches hle harrays).1, rfl⟩
  | true =>
      rcases growSubAnalyses_spec hnode.owns hok hsubs with ⟨heap, hrun, howns, htouches⟩
      rcases ended_of_touches htouches hle harrays with ⟨hended, harrays'⟩
      rw [List.append_nil] at howns
      have hnode' : Node heap nodes a _ instrs slots bs [none] :=
        ⟨howns, hnode.mark, fun _ => hcount, hnode.subs⟩
      have hgraph' := hgraph.touch hmem hnode.owns htouches hnode'
      exact ⟨true, _, hrun, fun _ => ⟨hlt, hle.trans htouches.calls_le, hgraph', hmem,
        _, _, _, _, _, hnode', hinstrs, hslots, hcount, rfl, harrays'⟩, hgraph', hended, rfl⟩

theorem Looping.addSubAnalysis (h : Looping base a n 1 nodes m) {sub : Nat} (hsub : sub ∈ nodes) :
    ∃ m', m.addSubAnalysis a (some sub) = some m' ∧ Looping base a n 0 nodes m' ∧
      Ended base a m m' := by
  obtain ⟨hlt, hle, hgraph, hmem, sa, instrs, slots, bs, tail, hnode, hinstrs, hslots, hcount,
    htail, harrays⟩ := h
  rcases List.length_eq_one_iff.mp htail with ⟨x, rfl⟩
  have hroom : sa.subAnalysisCount < (subElements bs ++ [x]).length := by
    rw [hcount, List.length_append, length_subElements]
    exact Nat.lt_succ_self _
  rcases addSubAnalysis_spec hnode.owns hroom (some sub) with ⟨heap, hrun, howns, htouches⟩
  rcases ended_of_touches htouches hle harrays with ⟨hended, harrays'⟩
  have hset : (subElements bs ++ [x]).set sa.subAnalysisCount
      (some (.subAnalysis (some sub))) = subElements (bs ++ [sub]) ++ [] := by
    rw [hcount, ← length_subElements bs, List.set_append_right _ _ (Nat.le_refl _), Nat.sub_self]
    simp [subElements]
  rw [hset] at howns
  have hcount' : sa.subAnalysisCount + 1 = (bs ++ [sub]).length := by
    rw [List.length_append, hcount]
    rfl
  have hnode' : Node heap nodes a { sa with subAnalysisCount := sa.subAnalysisCount + 1 } instrs
      slots (bs ++ [sub]) [] := by
    refine ⟨howns, hnode.mark, fun _ => hcount', ?_⟩
    intro b hb
    rcases List.mem_append.mp hb with hb | hb
    · exact hnode.subs b hb
    · rwa [List.mem_singleton.mp hb]
  exact ⟨_, hrun, ⟨hlt, hle.trans htouches.calls_le, hgraph.touch hmem hnode.owns htouches hnode',
    hmem, _, _, _, _, _, hnode', hinstrs, hslots, hcount', rfl, harrays'⟩, hended⟩

/-- An analysis whose blocks are left alone is still good for its loop, in a
larger graph. -/
theorem Looping.congr {room : Nat} (h : Looping base a n room nodes m) {m' : Analyzer}
    (hcalls : m.heap.calls ≤ m'.heap.calls)
    (hkept : ∀ c, c < m.heap.calls → m'.heap.blocks c = m.heap.blocks c)
    (hsub : nodes ⊆ nodes') (hgraph : Graph nodes' m') : Looping base a n room nodes' m' := by
  rcases h with ⟨hlt, hle, -, hmem, sa, instrs, slots, bs, tail, hnode, hlens⟩
  exact ⟨hlt, hle.trans hcalls, hgraph, hsub hmem, sa, instrs, slots, bs, tail,
    (hnode.congr hkept).mono hsub, hlens⟩

/-- A fresh block is no block of another analysis. -/
theorem Ended.outside {sub : Nat} (h : Ended m.heap.calls sub m m') (hsub : m.heap.calls ≤ sub)
    (hbase : base ≤ m.heap.calls) : Ended base a m m' where
  calls_le := h.calls_le
  kept c hc _ := h.kept c (hc.trans_le hbase) ((hc.trans_le (hbase.trans hsub)).ne)
  marks := h.marks
  wrapped := h.wrapped
  invocations := h.invocations

/-- A recursive call, up to its loop. -/
theorem ended_mark {heap : Heap AnalysisBlock} {s : UInt8} (hs : m.analyzedProcs s = false)
    (hcalls : m.heap.calls ≤ heap.calls)
    (hkept : ∀ c, c < base → c ≠ a → heap.blocks c = m.heap.blocks c) (sub : Nat) :
    Ended base a m ({ m with heap := heap }.mark s sub) where
  calls_le := hcalls
  kept := hkept
  marks t ht := by
    by_cases heq : t = s
    · rw [heq, hs] at ht
      cases ht
    · simpa [mark, heq] using ht
  wrapped := rfl
  invocations := by
    refine ⟨[(s, false)], ?_, by simp, ?_⟩
    · show m.invocations ++ [(s, m.analyzedProcs s)] = _
      rw [hs]
    · simp [hs, mark]

/-- An analysis is a node as soon as it has begun. -/
theorem Graph.insert_begun (hgraph : Graph nodes m) (s : UInt8) {heap' : Heap AnalysisBlock}
    {sa : StoredAnalysis} {instrs : List (Option Element)}
    (howns : Owns heap' m.heap.calls sa instrs [] []) (hmark : sa.deallocationMark = false)
    (hsubs : sa.subAnalyses = none) (harrays : ∀ c, sa.HasArray c → m.heap.calls ≤ c)
    (hkept : ∀ c, c < m.heap.calls → heap'.blocks c = m.heap.blocks c) :
    Graph (Insert.insert m.heap.calls nodes) ({ m with heap := heap' }.mark s m.heap.calls) :=
  hgraph.insert s (Nat.le_refl _) hkept
    (⟨howns, hmark, fun hne => absurd hsubs hne, nofun⟩ :
      Node heap' nodes m.heap.calls sa instrs [] [] []) harrays

/-- Whole loops end with this fuel, if it is enough for the slots that are not
marked. -/
def LoopsEnd (alloc : Nat → Bool) (store : Store) (fuel : Nat) : Prop :=
  ∀ (proc : Proc) (base a : Nat) (nodes : Finset Nat) (m : Analyzer),
    Looping base a proc.instructions.length 0 nodes m →
    258 * m.unmarked + proc.instructions.length + 2 ≤ fuel →
    ∃ ret m' nodes', analyzeLoop alloc store fuel proc a 0 m = some (ret, m') ∧
      Ended base a m m' ∧ nodes ⊆ nodes' ∧ Graph nodes' m'

/-- The recursive call for a slot that is not marked, if all shorter loops end. -/
theorem descend_ends {store : Store} {fuel : Nat} (hrec : LoopsEnd alloc store fuel)
    (hgraph : Graph nodes m)
    {heap : Heap AnalysisBlock} {s : UInt8} (hs : m.analyzedProcs s = false)
    (hcalls : heap.calls = m.heap.calls + 1) (hself : heap.blocks m.heap.calls = some .fresh)
    (hkept : ∀ c, c ≠ m.heap.calls → heap.blocks c = m.heap.blocks c)
    (hfuel : 258 * m.unmarked ≤ fuel) (proc : Proc) (ref : ProcRef) :
    ∃ ok m₁ ret m₂ nodes',
      ({ m with heap := heap }.mark s m.heap.calls).begin alloc proc ref m.heap.calls =
        some (ok, m₁) ∧
      (if ok then analyzeLoop alloc store fuel proc m.heap.calls 0 m₁ else some (-1, m₁)) =
        some (ret, m₂) ∧
      Ended m.heap.calls m.heap.calls m m₂ ∧
      nodes ⊆ nodes' ∧ m.heap.calls ∈ nodes' ∧ Graph nodes' m₂ := by
  have hlen := proc.length_le
  unfold maxInstructions at hlen
  -- with or without its array, the new analysis is a node
  have hinsert : ∀ (heap' : Heap AnalysisBlock) sa instrs,
      Owns heap' m.heap.calls sa instrs [] [] → sa.deallocationMark = false →
      sa.subAnalyses = none → (∀ c, sa.HasArray c → m.heap.calls ≤ c) →
      (∀ c, c < m.heap.calls → heap'.blocks c = heap.blocks c) →
      Graph (Insert.insert m.heap.calls nodes)
        ({ m with heap := heap' }.mark s m.heap.calls) := by
    intro heap' sa instrs howns hmark hsubs harrays hkept'
    apply hgraph.insert_begun s howns hmark hsubs harrays
    intro c hc
    exact (hkept' c hc).trans (hkept c hc.ne)
  have hmark : Ended m.heap.calls m.heap.calls m ({ m with heap := heap }.mark s m.heap.calls) :=
    ended_mark hs (by omega) (fun c hc _ => hkept c hc.ne) _
  -- one slot more is marked, which pays for the loop of the call
  have hunmarked : ({ m with heap := heap }.mark s m.heap.calls).unmarked < m.unmarked := by
    have hlt : ({ m with heap := heap }.mark s m.heap.calls).unmarked <
        ({ m with heap := heap } : Analyzer).unmarked := unmarked_mark hs m.heap.calls
    exact hlt.trans_eq (unmarked_congr rfl)
  generalize hmk : ({ m with heap := heap } : Analyzer).mark s m.heap.calls = mk at *
  obtain rfl : heap = mk.heap := by rw [← hmk]; rfl
  have hwith : ∀ heap' : Heap AnalysisBlock, ({ mk with heap := heap' } : Analyzer) =
      ({ m with heap := heap' } : Analyzer).mark s m.heap.calls := by
    intro heap'
    rw [← hmk]
    rfl
  cases hok : alloc mk.heap.calls with
  | false =>
      -- the array of the new analysis is not allocated, and it has no loop
      rcases begin_failed hself hok proc ref with ⟨heap', hbegin, hcalls', howns, hkept'⟩
      refine ⟨false, _, -1, _, _, hbegin, rfl, hmark.trans (.of_heap (by omega) ?_),
        Finset.subset_insert _ _, Finset.mem_insert_self _ _, ?_⟩
      · exact fun c hc hne => hkept' c hne
      · rw [hwith]
        refine hinsert heap' _ _ howns rfl rfl ?_ fun c hc => hkept' c hc.ne
        rintro c (hc | hc | hc) <;> cases hc
  | true =>
      rcases begin_spec hself hok proc ref with ⟨heap', hbegin, hcalls', howns, hkept'⟩
      have harrays : ∀ c, StoredAnalysis.HasArray ⟨ref, none, 0, none, 0, some mk.heap.calls, false⟩
          c → m.heap.calls + 1 ≤ c := by
        rintro c (hc | hc | hc)
        · obtain rfl := Option.some.inj hc
          exact hcalls.ge
        · cases hc
        · cases hc
      have hgraph' := hinsert heap' _ _ howns rfl rfl
        (fun c hc => Nat.le_of_succ_le (harrays c hc)) fun c hc => hkept' c hc.ne (by omega)
      rw [← hwith] at hgraph'
      have hloop : Looping (m.heap.calls + 1) m.heap.calls proc.instructions.length 0
          (Insert.insert m.heap.calls nodes) { mk with heap := heap' } := by
        refine ⟨Nat.lt_succ_self _, ?_, hgraph', Finset.mem_insert_self _ _, _, _, _, [], [],
          ⟨howns, rfl, fun _ => rfl, nofun⟩, List.length_replicate .., rfl, rfl, rfl, harrays⟩
        show m.heap.calls + 1 ≤ heap'.calls
        omega
      have hmarked : ({ mk with heap := heap' } : Analyzer).unmarked < m.unmarked :=
        (unmarked_congr rfl).trans_lt hunmarked
      have hbound : 258 * ({ mk with heap := heap' } : Analyzer).unmarked +
          proc.instructions.length + 2 ≤ fuel := by
        omega
      rcases hrec proc _ _ _ _ hloop hbound with ⟨ret, m₂, nodes', hrun, hended, hsub, hgraph₂⟩
      have hstart : Ended m.heap.calls m.heap.calls mk { mk with heap := heap' } := by
        refine .of_heap (by omega) fun c hc hne => hkept' c hne ?_
        omega
      refine ⟨true, _, ret, m₂, nodes', hbegin, hrun, hmark.trans (hstart.trans ?_),
        (Finset.subset_insert _ _).trans hsub, hsub (Finset.mem_insert_self _ _), hgraph₂⟩
      exact { hended with kept := fun c hc hne => hended.kept c (Nat.lt_succ_of_lt hc) hne }

/-- The recursive call for a slot, and the entry that its analysis then gets. -/
theorem descend_enters {store : Store} {fuel : Nat} (hrec : LoopsEnd alloc store fuel)
    (hloop : Looping base a n 1 nodes m) {heap : Heap AnalysisBlock} {s : UInt8}
    (hs : m.analyzedProcs s = false) (hcalls : heap.calls = m.heap.calls + 1)
    (hself : heap.blocks m.heap.calls = some .fresh)
    (hkept : ∀ c, c ≠ m.heap.calls → heap.blocks c = m.heap.blocks c)
    (hfuel : 258 * m.unmarked ≤ fuel) (proc : Proc) (ref : ProcRef) :
    ∃ ok m₁ ret m₂ m₃ nodes',
      ({ m with heap := heap }.mark s m.heap.calls).begin alloc proc ref m.heap.calls =
        some (ok, m₁) ∧
      (if ok then analyzeLoop alloc store fuel proc m.heap.calls 0 m₁ else some (-1, m₁)) =
        some (ret, m₂) ∧
      m₂.addSubAnalysis a (some m.heap.calls) = some m₃ ∧
      nodes ⊆ nodes' ∧ Looping base a n 0 nodes' m₃ ∧ Ended base a m m₃ := by
  obtain ⟨ok, m₁, ret, m₂, nodes', hbegin, hrun, hended, hsub, hmem, hgraph⟩ :=
    descend_ends hrec hloop.graph hs hcalls hself hkept hfuel proc ref
  -- the caller's blocks are older than those of the call
  have hloop₂ := hloop.congr hended.calls_le (fun c hc => hended.kept c hc hc.ne) hsub hgraph
  rcases hloop₂.addSubAnalysis hmem with ⟨m₃, hadd, hloop₃, hended₃⟩
  have hended' : Ended base a m m₂ := hended.outside (Nat.le_refl _) hloop.base_le
  exact ⟨ok, m₁, ret, m₂, m₃, nodes', hbegin, hrun, hadd, hsub, hloop₃, hended'.trans hended₃⟩

/-- The loop of an analysis ends, with fuel for the slots that are not marked,
and leaves a graph. -/
theorem analyzeLoop_ends (store : Store) (fuel : Nat) (proc : Proc) (base a i : Nat)
    (nodes : Finset Nat) (m : Analyzer) (hi : i ≤ proc.instructions.length)
    (hloop : Looping base a proc.instructions.length 0 nodes m)
    (hfuel : 258 * m.unmarked + (proc.instructions.length - i) + 2 ≤ fuel) :
    ∃ ret m' nodes', analyzeLoop alloc store fuel proc a (UInt8.ofNat i) m = some (ret, m') ∧
      Ended base a m m' ∧ nodes ⊆ nodes' ∧ Graph nodes' m' := by
  induction fuel generalizing proc base a i nodes m with
  | zero => omega
  | succ fuel ih =>
      have hle := proc.length_le
      have htoNat := toNat_ofNat_of_le (hi.trans hle)
      have hcount : UInt8.ofNat i < proc.instructionCount ↔ i < proc.instructions.length := by
        rw [UInt8.lt_iff_toNat_lt, htoNat, proc.instructionCount_toNat]
      by_cases hlt : i < proc.instructions.length
      case neg =>
        -- the end of the instructions
        refine ⟨0, m, nodes, ?_, .of_heap (Nat.le_refl _) fun _ _ _ => rfl, subset_rfl, hloop.graph⟩
        rw [analyzeLoop, if_neg (mt hcount.mp hlt)]
      rw [analyzeLoop, if_pos (hcount.mpr hlt), htoNat, List.getElem?_eq_getElem hlt]
      have henough : proc.instructions.length < fuel + i := by omega
      obtain ⟨m₁, henter, hloop₁, hended₁, hmarks₁⟩ :=
        hloop.enterInstruction proc hlt henough rfl proc.instructions[i]
      have hwrap : (UInt8.ofNat i).toNat + 1 < 256 := by
        unfold maxInstructions at hle
        omega
      simp only [Option.bind_eq_bind, Option.bind_some, henter, addIndex_eq hwrap, htoNat,
        Bool.or_false]
      -- what follows the instruction, in a graph that may have grown
      have hnext : ∀ m₂ nodes₂, nodes ⊆ nodes₂ →
          Looping base a proc.instructions.length 0 nodes₂ m₂ → Ended base a m m₂ →
          ∃ ret m' nodes', analyzeLoop alloc store fuel proc a (UInt8.ofNat (i + 1)) m₂ =
            some (ret, m') ∧ Ended base a m m' ∧ nodes ⊆ nodes' ∧ Graph nodes' m' := by
        intro m₂ nodes₂ hsub hloop₂ hended₂
        have hunmarked := unmarked_le hended₂.marks
        obtain ⟨ret, m', nodes', hrun, hended', hsub', hgraph⟩ :=
          ih proc base a (i + 1) nodes₂ m₂ hlt hloop₂ (by omega)
        exact ⟨ret, m', nodes', hrun, hended₂.trans hended', hsub.trans hsub', hgraph⟩
      cases proc.instructions[i].instruction with
      | call s =>
          dsimp only
          rcases hloop₁.addSlot alloc s with ⟨ok, m₂, hslot, hloop₂, hgraph₂, hended₂, hmarks₂⟩
          have hended₂' := hended₁.trans hended₂
          rw [hslot, Option.bind_some]
          cases ok with
          | false => exact ⟨-1, m₂, nodes, rfl, hended₂', subset_rfl, hgraph₂⟩
          | true =>
          obtain ⟨ok, m₃, hgrow, hloop₃, hgraph₃, hended₃, hmarks₃⟩ :=
            (hloop₂ rfl).growSubAnalyses alloc
          have hended₃' := hended₂'.trans hended₃
          have hmarks₃' := (hmarks₃.trans hmarks₂).trans hmarks₁
          simp only [Bool.true_eq_false, if_false, hgrow, Option.bind_some]
          cases ok with
          | false => exact ⟨-1, m₃, nodes, rfl, hended₃', subset_rfl, hgraph₃⟩
          | true =>
          replace hloop₃ := hloop₃ rfl
          simp only [Bool.true_eq_false, if_false]
          cases store.getProc true s with
          | null => exact ⟨-1, m₃, nodes, rfl, hended₃', subset_rfl, hgraph₃⟩
          | mutexErr => exact ⟨-1, m₃, nodes, rfl, hended₃', subset_rfl, hgraph₃⟩
          | found subProc =>
          cases hs : m₃.analyzedProcs s with
          | true =>
              -- the slot has an analysis, which is entered again
              rcases hgraph₃.config s hs with ⟨sub, hsub, hanalysis⟩
              rcases hloop₃.addSubAnalysis hsub with ⟨m₄, hadd, hloop₄, hended₄⟩
              simp only [if_true, hanalysis, hadd, Option.bind_some]
              exact hnext m₄ nodes subset_rfl hloop₄ (hended₃'.trans hended₄)
          | false =>
          simp only [Bool.false_eq_true, if_false]
          cases hok : alloc m₃.heap.calls with
          | false =>
              rcases Heap.alloc_failed hok .fresh with ⟨heap, halloc, hcalls, hkept⟩
              rw [halloc]
              exact ⟨-1, _, nodes, rfl, hended₃'.trans (.of_heap (by omega) fun c _ _ => hkept c),
                subset_rfl, hgraph₃.congr fun c _ => hkept c⟩
          | true =>
          rcases Heap.alloc_spec hok .fresh with ⟨heap, halloc, hcalls, hself, hkept⟩
          have hunmarked : m₃.unmarked = m.unmarked := unmarked_congr hmarks₃'
          have hbound : 258 * m₃.unmarked ≤ fuel := by omega
          have hrec : LoopsEnd alloc store fuel := by
            intro proc base a nodes m hloop hfuel
            exact ih proc base a 0 nodes m (Nat.zero_le _) hloop hfuel
          obtain ⟨ok, m₄, ret, m₅, m₆, nodes₅, hbegin, hrun, hadd, hsub₅, hloop₆, hended₆⟩ :=
            descend_enters hrec hloop₃ hs hcalls hself hkept hbound subProc (.slot s)
          rw [halloc]
          dsimp only
          rw [hbegin]
          have hlast := hnext m₆ nodes₅ hsub₅ hloop₆ (hended₃'.trans hended₆)
          -- the return value of the call is dropped
          cases ok with
          | false =>
              rcases Prod.mk.inj (Option.some.inj hrun) with ⟨-, rfl⟩
              simpa only [Option.bind_some, Bool.false_eq_true, if_false, hadd] using hlast
          | true =>
              simp only [if_true] at hrun
              simpa only [Option.bind_some, if_true, hrun, hadd] using hlast
      | _ => exact hnext m₁ nodes subset_rfl hloop₁ hended₁

/-- A run of the analysis ends, and leaves a graph with the root's analysis. -/
theorem run_ends (alloc : Nat → Bool) (store : Store) (proc : Proc) {fuel : Nat}
    (hfuel : 258 * 256 + 257 ≤ fuel) :
    ∃ ret m nodes, run alloc store fuel proc = some (ret, m) ∧ Ended 0 0 init m ∧
      0 ∈ nodes ∧ Graph nodes m := by
  have hself : init.heap.blocks 0 = some .fresh := rfl
  have hbase : ∀ {c : Nat} {p : Prop}, c < 0 → p := fun hc => absurd hc (Nat.not_lt_zero _)
  rw [run, procAnalyze]
  cases hok : alloc init.heap.calls with
  | false =>
      -- the root's analysis stays without arrays, and its loop is not entered
      rcases begin_failed hself hok proc .root with ⟨heap, hbegin, hcalls, howns, -⟩
      rw [hbegin]
      have hnode : Node heap {0} 0 _ [] [] [] [] := ⟨howns, rfl, fun _ => rfl, nofun⟩
      refine ⟨-1, _, {0}, rfl, .of_heap (by omega) fun c hc => hbase hc,
        Finset.mem_singleton_self 0, .single hnode nofun⟩
  | true =>
      rcases begin_spec hself hok proc .root with ⟨heap, hbegin, hcalls, howns, -⟩
      have hnode : Node heap {0} 0 _ _ [] [] [] := ⟨howns, rfl, fun _ => rfl, nofun⟩
      have hloop : Looping 1 0 proc.instructions.length 0 {0} { init with heap := heap } := by
        refine ⟨Nat.one_pos, ?_, .single hnode nofun, Finset.mem_singleton_self 0, _, _, _, _, _,
          hnode, List.length_replicate .., rfl, rfl, rfl, ?_⟩
        · show 1 ≤ heap.calls
          omega
        · rintro c (hc | hc | hc)
          · obtain rfl := Option.some.inj hc
            exact Nat.le_refl _
          · cases hc
          · cases hc
      -- 256 slots, each with a loop over 255 instructions at most
      have hlen := proc.length_le
      unfold maxInstructions at hlen
      have hmarked := unmarked_le_slots { init with heap := heap }
      obtain ⟨ret, m, nodes, hrun, hended, hsub, hgraph⟩ :=
        analyzeLoop_ends store fuel proc _ _ 0 _ _ (Nat.zero_le _) hloop (by omega)
      have hstart : Ended 0 0 init { init with heap := heap } :=
        .of_heap (by omega) fun c hc => hbase hc
      refine ⟨ret, m, nodes, ?_, hstart.trans { hended with kept := fun c hc => hbase hc },
        hsub (Finset.mem_singleton_self 0), hgraph⟩
      rw [hbegin]
      exact hrun

end Loop

end Analyzer

/-- The analysis of every procedure on every store ends, with memory and without:
no 8-bit index wraps, and the recursive calls are for different slots, each of
which is not marked yet. -/
theorem analysis_ends (alloc : Nat → Bool) (store : Store) (proc : Proc) :
    ∃ enough, ∀ fuel, enough ≤ fuel →
      ∃ ret m, Analyzer.run alloc store fuel proc = some (ret, m) ∧ m.wrapped = false ∧
        (m.invocations.map Prod.fst).Nodup ∧ ∀ call ∈ m.invocations, call.2 = false := by
  refine ⟨258 * 256 + 257, fun fuel hfuel => ?_⟩
  rcases Analyzer.run_ends alloc store proc hfuel with ⟨ret, m, nodes, hrun, hended, -⟩
  rcases hended.invocations with ⟨calls, heq, hnodup, hcalls⟩
  obtain rfl : m.invocations = calls := heq
  exact ⟨ret, m, hrun, hended.wrapped, hnodup, fun call h => (hcalls call h).1⟩

end CspProc
