import CspProc.Analyzer
import Mathlib.Tactic.ByContra

/-! # The parts of an analysis in memory

What the parts of `proc_analyze` do to their analysis and its arrays (`Owns`),
with memory and without, and that they touch no other block (`Touches`). The
8-bit indices of `analyze_tail_call` compute the same mark as numbers do.
-/

namespace CspProc

/-! ## Indices -/

theorem addIndex_eq {i : UInt8} {k : Nat} (h : i.toNat + k < 256) :
    addIndex i k = (UInt8.ofNat (i.toNat + k), false) := by
  have hk : k % 2 ^ 8 = k := Nat.mod_eq_of_lt (by omega)
  unfold addIndex
  congr 1
  · apply UInt8.toNat_inj.mp
    rw [UInt8.toNat_add, UInt8.toNat_ofNat', UInt8.toNat_ofNat', hk]
  · simpa using h

theorem toNat_ofNat_of_le {n : Nat} (h : n ≤ maxInstructions) : (UInt8.ofNat n).toNat = n := by
  rw [UInt8.toNat_ofNat']
  unfold maxInstructions at h
  omega

namespace Analyzer

/-- The loop sees whether only `noop`s are left. -/
theorem noopLoop_eq (proc : Proc) (fuel j : Nat) (hj : j ≤ proc.instructions.length)
    (hfuel : proc.instructions.length < fuel + j) (wrapped : Bool) :
    noopLoop proc fuel (UInt8.ofNat j) wrapped =
      some ((proc.instructions.drop j).all fun ins => ins.instruction.isNoop, wrapped) := by
  induction fuel generalizing j with
  | zero => omega
  | succ fuel ih =>
      have hle := proc.length_le
      have htoNat := toNat_ofNat_of_le (hj.trans hle)
      by_cases hlt : j < proc.instructions.length
      · have hcount : UInt8.ofNat j < proc.instructionCount := by
          rw [UInt8.lt_iff_toNat_lt, htoNat, proc.instructionCount_toNat]
          exact hlt
        have hwrap : (UInt8.ofNat j).toNat + 1 < 256 := by
          unfold maxInstructions at hle
          omega
        rw [noopLoop, if_pos hcount, htoNat, List.getElem?_eq_getElem hlt,
          List.drop_eq_getElem_cons hlt, List.all_cons, Option.bind_eq_bind, Option.bind_some]
        cases hnoop : proc.instructions[j].instruction.isNoop with
        | false => rfl
        | true =>
            rw [addIndex_eq hwrap, htoNat, if_pos rfl]
            simpa using ih (j + 1) hlt (by omega)
      · have hcount : ¬ UInt8.ofNat j < proc.instructionCount := by
          rw [UInt8.lt_iff_toNat_lt, htoNat, proc.instructionCount_toNat]
          exact hlt
        rw [noopLoop, if_neg hcount, List.drop_eq_nil_of_le (Nat.le_of_not_lt hlt)]
        rfl

/-- With 8-bit indices the mark of a call is the same, and no index wraps. -/
theorem analyzeTailCall_eq (proc : Proc) {fuel i : Nat} (hi : i < proc.instructions.length)
    (hfuel : proc.instructions.length < fuel + i) :
    analyzeTailCall fuel proc (UInt8.ofNat i) =
      some (CspProc.analyzeTailCall proc.instructions i, false) := by
  have hle := proc.length_le
  have htoNat := toNat_ofNat_of_le (hi.le.trans hle)
  unfold maxInstructions at hle
  unfold analyzeTailCall CspProc.analyzeTailCall
  simp only [htoNat, proc.instructionCount_toNat, UInt8.lt_iff_toNat_lt, UInt8.toNat_zero,
    ← UInt8.toNat_inj]
  split
  case isTrue hclause =>
    -- an instruction follows, so two more still fit
    simp only [Bool.and_eq_true, decide_eq_true_eq] at hclause
    rw [addIndex_eq (by omega), htoNat]
    exact noopLoop_eq proc fuel (i + 2) (by omega) (by omega) false
  case isFalse =>
    split
    · rw [addIndex_eq (by omega), htoNat]
      exact noopLoop_eq proc fuel (i + 1) (by omega) (by omega) false
    · rfl

theorem analyzeInstruction_eq (proc : Proc) {fuel i : Nat} (hi : i < proc.instructions.length)
    (hfuel : proc.instructions.length < fuel + i) (ins : ProcInstruction) :
    analyzeInstruction fuel proc (UInt8.ofNat i) ins =
      some ((CspProc.analyzeInstruction proc.instructions i ins).isTailCall, false) := by
  unfold analyzeInstruction CspProc.analyzeInstruction
  cases ins.instruction with
  | call => exact analyzeTailCall_eq proc hi hfuel
  | _ => rfl

end Analyzer

/-! ## Arrays -/

section Arrays

variable {heap : Heap AnalysisBlock}

/-- A block with an array is live. -/
theorem live_of_arrayAt {b : Nat} {l : List (Option Element)} (h : arrayAt heap (some b) = some l) :
    heap.blocks b = some (.array l) := by
  unfold arrayAt at h
  dsimp only at h
  split at h
  · rw [← Option.some.inj h]
    assumption
  · cases h

theorem arrayAt_of_block {b : Nat} {l : List (Option Element)}
    (h : heap.blocks b = some (.array l)) : arrayAt heap (some b) = some l := by
  simp only [arrayAt, h]

/-- An array with elements is in a block. -/
theorem exists_of_arrayAt {p : Ptr} {l : List (Option Element)} {i : Nat}
    (h : arrayAt heap p = some l) (hi : i < l.length) :
    ∃ b, p = some b ∧ heap.blocks b = some (.array l) := by
  cases p with
  | none =>
      obtain rfl := Option.some.inj h
      exact absurd hi (Nat.not_lt_zero i)
  | some b => exact ⟨b, rfl, live_of_arrayAt h⟩

/-- An array depends on its own block only. -/
theorem arrayAt_congr {heap' : Heap AnalysisBlock} {p : Ptr} {l : List (Option Element)}
    (h : arrayAt heap p = some l) (hp : ∀ b, p = some b → heap'.blocks b = heap.blocks b) :
    arrayAt heap' p = some l := by
  cases p with
  | none => exact h
  | some b =>
      apply arrayAt_of_block
      rw [hp b rfl]
      exact live_of_arrayAt h

theorem analysisAt_of_block {a : Nat} {sa : StoredAnalysis}
    (h : heap.blocks a = some (.analysis sa)) : analysisAt heap a = some sa := by
  simp only [analysisAt, h]

/-- An element of an array is written. -/
theorem writeElement_spec {b i : Nat} {l : List (Option Element)}
    (h : heap.blocks b = some (.array l)) (hi : i < l.length) (x : Element) :
    ∃ heap', writeElement heap (some b) i x = some heap' ∧ heap'.calls = heap.calls ∧
      heap'.blocks b = some (.array (l.set i (some x))) ∧
      ∀ c, c ≠ b → heap'.blocks c = heap.blocks c := by
  rcases Heap.store_spec h (.array (l.set i (some x))) with ⟨heap', hstore, hspec⟩
  refine ⟨heap', ?_, hspec⟩
  rw [writeElement, arrayAt_of_block h, Option.bind_eq_bind, Option.bind_some, if_pos hi, hstore]

theorem resize_succ (l : List (Option Element)) : resize l (l.length + 1) = l ++ [none] := by
  rw [resize, List.take_of_length_le (Nat.le_succ _), Nat.add_sub_cancel_left]
  rfl

end Arrays

/-! ## The blocks of an analysis -/

/-- A block holds one of the three arrays. -/
def StoredAnalysis.HasArray (sa : StoredAnalysis) (c : Nat) : Prop :=
  sa.instructionAnalyses = some c ∨ sa.procedureSlots = some c ∨ sa.subAnalyses = some c

/-- The analysis in block `a`, with the elements of its arrays, which are three
different blocks. -/
structure Owns (heap : Heap AnalysisBlock) (a : Nat) (sa : StoredAnalysis)
    (instrs slots subs : List (Option Element)) : Prop where
  analysis : heap.blocks a = some (.analysis sa)
  instrs : arrayAt heap sa.instructionAnalyses = some instrs
  slots : arrayAt heap sa.procedureSlots = some slots
  subs : arrayAt heap sa.subAnalyses = some subs
  instrs_ne_slots : ∀ c, sa.instructionAnalyses = some c → sa.procedureSlots ≠ some c
  instrs_ne_subs : ∀ c, sa.instructionAnalyses = some c → sa.subAnalyses ≠ some c
  slots_ne_subs : ∀ c, sa.procedureSlots = some c → sa.subAnalyses ≠ some c

/-- From `heap` to `heap'` the analysis in block `a` and its arrays are changed,
and the new arrays are new blocks; no other block is touched. -/
structure Touches (a : Nat) (sa sa' : StoredAnalysis) (heap heap' : Heap AnalysisBlock) :
    Prop where
  calls_le : heap.calls ≤ heap'.calls
  kept : ∀ c, c ≠ a → ¬ sa.HasArray c → c < heap.calls → heap'.blocks c = heap.blocks c
  new : ∀ c, sa'.HasArray c → sa.HasArray c ∨ heap.calls ≤ c ∧ c < heap'.calls

namespace Owns

variable {heap heap' : Heap AnalysisBlock} {a : Nat} {sa : StoredAnalysis}
variable {instrs slots subs : List (Option Element)}

/-- An array is in a live block. -/
theorem array_live (h : Owns heap a sa instrs slots subs) {c : Nat} (hc : sa.HasArray c) :
    ∃ l, heap.blocks c = some (.array l) := by
  rcases hc with hc | hc | hc
  · have hinstrs := h.instrs
    rw [hc] at hinstrs
    exact ⟨_, live_of_arrayAt hinstrs⟩
  · have hslots := h.slots
    rw [hc] at hslots
    exact ⟨_, live_of_arrayAt hslots⟩
  · have hsubs := h.subs
    rw [hc] at hsubs
    exact ⟨_, live_of_arrayAt hsubs⟩

theorem lt_calls (h : Owns heap a sa instrs slots subs) : a < heap.calls := by
  by_contra hle
  have hdead := heap.fresh a (Nat.le_of_not_lt hle)
  rw [h.analysis] at hdead
  cases hdead

theorem array_lt_calls (h : Owns heap a sa instrs slots subs) {c : Nat} (hc : sa.HasArray c) :
    c < heap.calls := by
  by_contra hle
  rcases h.array_live hc with ⟨l, hl⟩
  rw [heap.fresh c (Nat.le_of_not_lt hle)] at hl
  cases hl

/-- The analysis is in none of its arrays. -/
theorem not_hasArray (h : Owns heap a sa instrs slots subs) : ¬ sa.HasArray a := by
  intro hc
  rcases h.array_live hc with ⟨l, hl⟩
  rw [h.analysis] at hl
  cases hl

theorem array_ne (h : Owns heap a sa instrs slots subs) {c : Nat} (hc : sa.HasArray c) : c ≠ a := by
  intro heq
  rw [heq] at hc
  exact h.not_hasArray hc

/-- An analysis whose blocks are left alone stays as it is. -/
theorem congr (h : Owns heap a sa instrs slots subs) (ha : heap'.blocks a = heap.blocks a)
    (hc : ∀ c, sa.HasArray c → heap'.blocks c = heap.blocks c) :
    Owns heap' a sa instrs slots subs where
  analysis := ha.trans h.analysis
  instrs := arrayAt_congr h.instrs fun b hb => hc b (.inl hb)
  slots := arrayAt_congr h.slots fun b hb => hc b (.inr (.inl hb))
  subs := arrayAt_congr h.subs fun b hb => hc b (.inr (.inr hb))
  instrs_ne_slots := h.instrs_ne_slots
  instrs_ne_subs := h.instrs_ne_subs
  slots_ne_subs := h.slots_ne_subs

end Owns

/-! ## What the parts of `proc_analyze` do -/

namespace Analyzer

variable {m : Analyzer} {a : Nat} {sa : StoredAnalysis} {alloc : Nat → Bool}
variable {instrs slots subs : List (Option Element)}

/-- An instruction is entered in the array of the instruction analyses. -/
theorem enterInstruction_spec (h : Owns m.heap a sa instrs slots subs) (proc : Proc) {fuel i : Nat}
    (hi : i < proc.instructions.length) (hfuel : proc.instructions.length < fuel + i)
    (hlen : instrs.length = proc.instructions.length) (ins : ProcInstruction) :
    ∃ heap, m.enterInstruction fuel proc a (UInt8.ofNat i) ins = some { m with heap := heap } ∧
      Owns heap a sa (instrs.set i (some (.instruction ⟨ins.instruction.type,
        (CspProc.analyzeInstruction proc.instructions i ins).isTailCall⟩))) slots subs ∧
      Touches a sa sa m.heap heap := by
  have htoNat := toNat_ofNat_of_le (hi.le.trans proc.length_le)
  have hroom : i < instrs.length := by rwa [hlen]
  rcases exists_of_arrayAt h.instrs hroom with ⟨b, hb, hblock⟩
  obtain ⟨heap, hwrite, hcalls, hself, hother⟩ := writeElement_spec hblock hroom
    (.instruction ⟨ins.instruction.type,
      (CspProc.analyzeInstruction proc.instructions i ins).isTailCall⟩)
  -- the other arrays are in other blocks
  have hne : ∀ c, sa.procedureSlots = some c ∨ sa.subAnalyses = some c → c ≠ b := by
    rintro c (hc | hc) rfl
    · exact h.instrs_ne_slots c hb hc
    · exact h.instrs_ne_subs c hb hc
  have hab : a ≠ b := (h.array_ne (.inl hb)).symm
  refine ⟨heap, ?_, ?_, ?_⟩
  · rw [enterInstruction, analysisAt_of_block h.analysis, analyzeInstruction_eq proc hi hfuel]
    simp only [Option.bind_eq_bind, Option.bind_some, hb, htoNat, hwrite, Bool.or_false]
    rfl
  · exact {
      analysis := (hother a hab).trans h.analysis
      instrs := by
        rw [hb]
        exact arrayAt_of_block hself
      slots := arrayAt_congr h.slots fun c hc => hother c (hne c (.inl hc))
      subs := arrayAt_congr h.subs fun c hc => hother c (hne c (.inr hc))
      instrs_ne_slots := h.instrs_ne_slots
      instrs_ne_subs := h.instrs_ne_subs
      slots_ne_subs := h.slots_ne_subs }
  · refine ⟨hcalls.ge, fun c _ hc _ => hother c ?_, fun c hc => .inl hc⟩
    rintro rfl
    exact hc (.inl hb)

/-- Another array grows by an element: it is in a new block, and the old one is
gone. -/
theorem growArray_spec {heap : Heap AnalysisBlock} (hok : alloc heap.calls = true) {p : Ptr}
    {l : List (Option Element)} (h : arrayAt heap p = some l) :
    ∃ heap', growArray alloc heap p (l.length + 1) = some (some heap.calls, heap') ∧
      heap'.calls = heap.calls + 1 ∧
      heap'.blocks heap.calls = some (.array (l ++ [none])) ∧
      ∀ c, c ≠ heap.calls → p ≠ some c → heap'.blocks c = heap.blocks c := by
  have hlive : ∀ b, p = some b → (heap.blocks b).isSome = true := by
    rintro b rfl
    rw [live_of_arrayAt h]
    rfl
  obtain ⟨heap', hrealloc, hcalls, hself, -, hother⟩ :=
    Heap.realloc_spec hok (.array (l ++ [none])) hlive
  refine ⟨heap', ?_, hcalls, hself, hother⟩
  rw [growArray, h, Option.bind_eq_bind, Option.bind_some, resize_succ, hrealloc]

theorem growArray_failed {heap : Heap AnalysisBlock} (hok : alloc heap.calls = false) {p : Ptr}
    {l : List (Option Element)} (h : arrayAt heap p = some l) (n : Nat) :
    ∃ heap', growArray alloc heap p n = some (none, heap') ∧ heap'.calls = heap.calls + 1 ∧
      ∀ c, heap'.blocks c = heap.blocks c := by
  rcases Heap.realloc_failed hok p (.array (resize l n)) with ⟨heap', hrealloc, hspec⟩
  refine ⟨heap', ?_, hspec⟩
  rw [growArray, h, Option.bind_eq_bind, Option.bind_some, hrealloc]

/-- The slot of a call is appended. -/
theorem addSlot_spec (h : Owns m.heap a sa instrs slots subs)
    (hok : alloc m.heap.calls = true) (hlen : slots.length = sa.procedureSlotCount) (s : UInt8) :
    ∃ heap, m.addSlot alloc a s = some (true, { m with heap := heap }) ∧
      Owns heap a { sa with
          procedureSlots := some m.heap.calls
          procedureSlotCount := sa.procedureSlotCount + 1 }
        instrs (slots ++ [some (.slot s)]) subs ∧
      Touches a sa { sa with
          procedureSlots := some m.heap.calls
          procedureSlotCount := sa.procedureSlotCount + 1 } m.heap heap := by
  rcases growArray_spec hok h.slots with ⟨heap₁, hgrow, hcalls₁, hnew₁, hother₁⟩
  obtain ⟨heap₂, hwrite, hcalls₂, hnew₂, hother₂⟩ := writeElement_spec hnew₁
    (i := slots.length) (by simp) (.slot s)
  have ha : a ≠ m.heap.calls := h.lt_calls.ne
  have haslots : sa.procedureSlots ≠ some a := fun heq => h.not_hasArray (.inr (.inl heq))
  have hanalysis : heap₂.blocks a = some (.analysis sa) := by
    rw [hother₂ a ha, hother₁ a ha haslots]
    exact h.analysis
  obtain ⟨heap, hstore, hcalls, hself, hother⟩ := Heap.store_spec hanalysis
    (.analysis { sa with
      procedureSlots := some m.heap.calls
      procedureSlotCount := sa.procedureSlotCount + 1 })
  -- the other arrays are where they were
  have hkept : ∀ c, c ≠ a → c ≠ m.heap.calls → sa.procedureSlots ≠ some c →
      heap.blocks c = m.heap.blocks c := by
    intro c hca hcn hcs
    rw [hother c hca, hother₂ c hcn, hother₁ c hcn hcs]
  have hinstr : ∀ c, sa.instructionAnalyses = some c → heap.blocks c = m.heap.blocks c := by
    intro c hc
    exact hkept c (h.array_ne (.inl hc)) (h.array_lt_calls (.inl hc)).ne (h.instrs_ne_slots c hc)
  have hsub : ∀ c, sa.subAnalyses = some c → heap.blocks c = m.heap.blocks c := by
    intro c hc
    exact hkept c (h.array_ne (.inr (.inr hc))) (h.array_lt_calls (.inr (.inr hc))).ne
      fun hs => h.slots_ne_subs c hs hc
  refine ⟨heap, ?_, ?_, ?_⟩
  · rw [addSlot, analysisAt_of_block h.analysis]
    simp only [Option.bind_eq_bind, Option.bind_some, ← hlen, hgrow, hwrite, Option.isNone_some,
      Bool.false_eq_true, if_false]
    rw [hlen]
    simp only [hstore, Option.bind_some]
    rfl
  · exact {
      analysis := hself
      instrs := arrayAt_congr h.instrs hinstr
      slots := by
        apply arrayAt_of_block
        rw [hother _ ha.symm, hnew₂]
        simp
      subs := arrayAt_congr h.subs hsub
      instrs_ne_slots := fun c hc heq =>
        (h.array_lt_calls (.inl hc)).ne (Option.some.inj heq).symm
      instrs_ne_subs := h.instrs_ne_subs
      slots_ne_subs := fun c hc heq =>
        (h.array_lt_calls (.inr (.inr heq))).ne (Option.some.inj hc).symm }
  · refine ⟨by omega, fun c hca hc hlt => hkept c hca hlt.ne fun hs => hc (.inr (.inl hs)), ?_⟩
    rintro c (hc | hc | hc)
    · exact .inl (.inl hc)
    · obtain rfl := Option.some.inj hc
      exact .inr ⟨Nat.le_refl _, by omega⟩
    · exact .inl (.inr (.inr hc))

/-- Without memory the array of the slots is lost, and nothing else is changed. -/
theorem addSlot_failed (h : Owns m.heap a sa instrs slots subs)
    (hok : alloc m.heap.calls = false) (s : UInt8) :
    ∃ heap, m.addSlot alloc a s = some (false, { m with heap := heap }) ∧
      Owns heap a { sa with procedureSlots := none } instrs [] subs ∧
      Touches a sa { sa with procedureSlots := none } m.heap heap := by
  obtain ⟨heap₁, hgrow, hcalls₁, hother₁⟩ :=
    growArray_failed hok h.slots (sa.procedureSlotCount + 1)
  obtain ⟨heap, hstore, hcalls, hself, hother⟩ := Heap.store_spec ((hother₁ a).trans h.analysis)
    (.analysis { sa with procedureSlots := none })
  have harray : ∀ c, sa.HasArray c → heap.blocks c = m.heap.blocks c := by
    intro c hc
    exact (hother c (h.array_ne hc)).trans (hother₁ c)
  refine ⟨heap, ?_, ?_, by omega, ?_, ?_⟩
  · rw [addSlot, analysisAt_of_block h.analysis]
    simp only [Option.bind_eq_bind, Option.bind_some, hgrow, Option.isNone_none, if_true, hstore]
    rfl
  · exact {
      analysis := hself
      instrs := arrayAt_congr h.instrs fun c hc => harray c (.inl hc)
      slots := rfl
      subs := arrayAt_congr h.subs fun c hc => harray c (.inr (.inr hc))
      instrs_ne_slots := nofun
      instrs_ne_subs := h.instrs_ne_subs
      slots_ne_subs := nofun }
  · intro c hca _ _
    rw [hother c hca, hother₁]
  · rintro c (hc | hc | hc)
    · exact .inl (.inl hc)
    · cases hc
    · exact .inl (.inr (.inr hc))

/-- The array of the sub-analyses gets room for one more. -/
theorem growSubAnalyses_spec (h : Owns m.heap a sa instrs slots subs)
    (hok : alloc m.heap.calls = true) (hlen : subs.length = sa.subAnalysisCount) :
    ∃ heap, m.growSubAnalyses alloc a = some (true, { m with heap := heap }) ∧
      Owns heap a { sa with subAnalyses := some m.heap.calls } instrs slots (subs ++ [none]) ∧
      Touches a sa { sa with subAnalyses := some m.heap.calls } m.heap heap := by
  -- the array moves, and the analysis is written with its new place
  rcases growArray_spec hok h.subs with ⟨heap₁, hgrow, hcalls₁, hnew₁, hother₁⟩
  have ha : a ≠ m.heap.calls := h.lt_calls.ne
  have hasubs : sa.subAnalyses ≠ some a := fun heq => h.not_hasArray (.inr (.inr heq))
  obtain ⟨heap, hstore, hcalls, hself, hother⟩ := Heap.store_spec
    ((hother₁ a ha hasubs).trans h.analysis)
    (.analysis { sa with subAnalyses := some m.heap.calls })
  have hkept : ∀ c, c ≠ a → c ≠ m.heap.calls → sa.subAnalyses ≠ some c →
      heap.blocks c = m.heap.blocks c := by
    intro c hca hcn hcs
    rw [hother c hca, hother₁ c hcn hcs]
  have harray : ∀ c, sa.HasArray c → sa.subAnalyses ≠ some c →
      heap.blocks c = m.heap.blocks c := by
    intro c hc hne
    exact hkept c (h.array_ne hc) (h.array_lt_calls hc).ne hne
  refine ⟨heap, ?_, ?_, ?_⟩
  · rw [growSubAnalyses, analysisAt_of_block h.analysis]
    simp only [Option.bind_eq_bind, Option.bind_some, ← hlen, hgrow]
    rw [hlen]
    simp only [hstore, Option.bind_some]
    rfl
  · exact {
      analysis := hself
      instrs := arrayAt_congr h.instrs fun c hc => harray c (.inl hc) (h.instrs_ne_subs c hc)
      slots := arrayAt_congr h.slots fun c hc => harray c (.inr (.inl hc)) (h.slots_ne_subs c hc)
      subs := by
        apply arrayAt_of_block
        rw [hother _ ha.symm, hnew₁]
      instrs_ne_slots := h.instrs_ne_slots
      instrs_ne_subs := fun c hc heq =>
        (h.array_lt_calls (.inl hc)).ne (Option.some.inj heq).symm
      slots_ne_subs := fun c hc heq =>
        (h.array_lt_calls (.inr (.inl hc))).ne (Option.some.inj heq).symm }
  · refine ⟨by omega, fun c hca hc hlt => hkept c hca hlt.ne fun hs => hc (.inr (.inr hs)), ?_⟩
    rintro c (hc | hc | hc)
    · exact .inl (.inl hc)
    · exact .inl (.inr (.inl hc))
    · obtain rfl := Option.some.inj hc
      exact .inr ⟨Nat.le_refl _, by omega⟩

theorem growSubAnalyses_failed (h : Owns m.heap a sa instrs slots subs)
    (hok : alloc m.heap.calls = false) :
    ∃ heap, m.growSubAnalyses alloc a = some (false, { m with heap := heap }) ∧
      Owns heap a { sa with subAnalyses := none } instrs slots [] ∧
      Touches a sa { sa with subAnalyses := none } m.heap heap := by
  rcases growArray_failed hok h.subs (sa.subAnalysisCount + 1) with ⟨heap₁, hgrow, hcalls₁, hother₁⟩
  obtain ⟨heap, hstore, hcalls, hself, hother⟩ := Heap.store_spec ((hother₁ a).trans h.analysis)
    (.analysis { sa with subAnalyses := none })
  have harray : ∀ c, sa.HasArray c → heap.blocks c = m.heap.blocks c := by
    intro c hc
    exact (hother c (h.array_ne hc)).trans (hother₁ c)
  refine ⟨heap, ?_, ?_, by omega, ?_, ?_⟩
  · rw [growSubAnalyses, analysisAt_of_block h.analysis]
    simp only [Option.bind_eq_bind, Option.bind_some, hgrow, hstore]
    rfl
  · exact {
      analysis := hself
      instrs := arrayAt_congr h.instrs fun c hc => harray c (.inl hc)
      slots := arrayAt_congr h.slots fun c hc => harray c (.inr (.inl hc))
      subs := rfl
      instrs_ne_slots := h.instrs_ne_slots
      instrs_ne_subs := nofun
      slots_ne_subs := nofun }
  · intro c hca _ _
    rw [hother c hca, hother₁]
  · rintro c (hc | hc | hc)
    · exact .inl (.inl hc)
    · exact .inl (.inr (.inl hc))
    · cases hc

/-- A sub-analysis is entered in the room that was made for it. -/
theorem addSubAnalysis_spec (h : Owns m.heap a sa instrs slots subs)
    (hlen : sa.subAnalysisCount < subs.length) (sub : Ptr) :
    ∃ heap, m.addSubAnalysis a sub = some { m with heap := heap } ∧
      Owns heap a { sa with subAnalysisCount := sa.subAnalysisCount + 1 } instrs slots
        (subs.set sa.subAnalysisCount (some (.subAnalysis sub))) ∧
      Touches a sa { sa with subAnalysisCount := sa.subAnalysisCount + 1 } m.heap heap := by
  rcases exists_of_arrayAt h.subs hlen with ⟨b, hb, hblock⟩
  -- first the element is written, then the count
  obtain ⟨heap₁, hwrite, hcalls₁, hself₁, hother₁⟩ :=
    writeElement_spec hblock hlen (.subAnalysis sub)
  have hab : a ≠ b := (h.array_ne (.inr (.inr hb))).symm
  obtain ⟨heap, hstore, hcalls, hself, hother⟩ := Heap.store_spec
    ((hother₁ a hab).trans h.analysis)
    (.analysis { sa with subAnalysisCount := sa.subAnalysisCount + 1 })
  have hkept : ∀ c, c ≠ a → c ≠ b → heap.blocks c = m.heap.blocks c := by
    intro c hca hcb
    rw [hother c hca, hother₁ c hcb]
  have harray : ∀ c, sa.HasArray c → sa.subAnalyses ≠ some c →
      heap.blocks c = m.heap.blocks c := by
    intro c hc hne
    exact hkept c (h.array_ne hc) fun heq => hne (heq ▸ hb)
  refine ⟨heap, ?_, ?_, ?_⟩
  · rw [addSubAnalysis, analysisAt_of_block h.analysis]
    simp only [Option.bind_eq_bind, Option.bind_some, hb, hwrite]
    rw [← hb, hstore]
    rfl
  · exact {
      analysis := hself
      instrs := arrayAt_congr h.instrs fun c hc => harray c (.inl hc) (h.instrs_ne_subs c hc)
      slots := arrayAt_congr h.slots fun c hc => harray c (.inr (.inl hc)) (h.slots_ne_subs c hc)
      subs := by
        show arrayAt heap sa.subAnalyses = _
        rw [hb]
        apply arrayAt_of_block
        rw [hother b hab.symm, hself₁]
      instrs_ne_slots := h.instrs_ne_slots
      instrs_ne_subs := h.instrs_ne_subs
      slots_ne_subs := h.slots_ne_subs }
  · refine ⟨by omega, fun c hca hc _ => hkept c hca ?_, fun c hc => .inl hc⟩
    rintro rfl
    exact hc (.inr (.inr hb))

/-- The beginning of an analysis, with memory for the instruction analyses. -/
theorem begin_spec {w : AnalysisBlock} (ha : m.heap.blocks a = some w)
    (hok : alloc m.heap.calls = true) (proc : Proc) (ref : ProcRef) :
    ∃ heap, m.begin alloc proc ref a = some (true, { m with heap := heap }) ∧
      heap.calls = m.heap.calls + 1 ∧
      Owns heap a ⟨ref, none, 0, none, 0, some m.heap.calls, false⟩
        (List.replicate proc.instructions.length (some (.instruction .zero))) [] [] ∧
      ∀ c, c ≠ a → c ≠ m.heap.calls → heap.blocks c = m.heap.blocks c := by
  have hne : a ≠ m.heap.calls := Heap.ne_calls ha
  obtain ⟨heap₁, halloc, hcalls₁, hself₁, hother₁⟩ := Heap.alloc_spec hok
    (.array (List.replicate proc.instructions.length (some (.instruction .zero))))
  obtain ⟨heap, hstore, hcalls, hself, hother⟩ := Heap.store_spec ((hother₁ a hne).trans ha)
    (.analysis ⟨ref, none, 0, none, 0, some m.heap.calls, false⟩)
  refine ⟨heap, ?_, hcalls.trans hcalls₁, ?_, ?_⟩
  · simp only [begin, proc.instructionCount_toNat, halloc, Option.bind_eq_bind, hstore,
      Option.bind_some]
    rfl
  · exact {
      analysis := hself
      instrs := arrayAt_of_block ((hother _ hne.symm).trans hself₁)
      slots := rfl
      subs := rfl
      instrs_ne_slots := nofun
      instrs_ne_subs := nofun
      slots_ne_subs := nofun }
  · intro c hca hcn
    exact (hother c hca).trans (hother₁ c hcn)

theorem begin_failed {w : AnalysisBlock} (ha : m.heap.blocks a = some w)
    (hok : alloc m.heap.calls = false) (proc : Proc) (ref : ProcRef) :
    ∃ heap, m.begin alloc proc ref a = some (false, { m with heap := heap }) ∧
      heap.calls = m.heap.calls + 1 ∧ Owns heap a ⟨ref, none, 0, none, 0, none, false⟩ [] [] [] ∧
      ∀ c, c ≠ a → heap.blocks c = m.heap.blocks c := by
  obtain ⟨heap₁, halloc, hcalls₁, hother₁⟩ := Heap.alloc_failed hok
    (.array (List.replicate proc.instructions.length (some (.instruction .zero))))
  obtain ⟨heap, hstore, hcalls, hself, hother⟩ := Heap.store_spec ((hother₁ a).trans ha)
    (.analysis ⟨ref, none, 0, none, 0, none, false⟩)
  refine ⟨heap, ?_, hcalls.trans hcalls₁, ⟨hself, rfl, rfl, rfl, nofun, nofun, nofun⟩, ?_⟩
  · simp only [begin, proc.instructionCount_toNat, halloc, Option.bind_eq_bind, hstore,
      Option.bind_some]
    rfl
  · intro c hca
    exact (hother c hca).trans (hother₁ c)

end Analyzer

end CspProc
