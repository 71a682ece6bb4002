import Mathlib.Data.List.Nodup
import Mathlib.Data.List.ReduceOption
import Mathlib.Data.List.Perm.Basic
import Mathlib.Logic.Function.Basic

/-! # A heap of numbered blocks

A block has the number of the allocator's call that made it, so that no number
is used twice, and `none` is the null pointer. To free a block that is not
live has no result.

`Heap.Holds l` says that the live blocks are those of the list `l`, each once.
It is kept by `Holds.alloc`, `Holds.allocAll`, `Holds.free` and
`Holds.freeAll`, which say besides that the other blocks keep their contents.
-/

/-- A pointer to a block, or null. -/
abbrev Ptr : Type := Option Nat

/-- The blocks of the heap, and how often the allocator has been called. -/
structure Heap (β : Type) where
  calls : Nat
  blocks : Nat → Option β
  fresh : ∀ b, calls ≤ b → blocks b = none

namespace Heap

variable {β : Type}

/-- The heap before the first allocation. -/
def empty : Heap β := ⟨0, fun _ => none, fun _ _ => rfl⟩

/-- The contents of the block behind a pointer. -/
def load (h : Heap β) (p : Ptr) : Option β := p.bind h.blocks

/-- A call of the allocator; `ok` tells which of its calls succeed. -/
def alloc (h : Heap β) (ok : Nat → Bool) (v : β) : Ptr × Heap β :=
  if ok h.calls = true then
    (some h.calls, {
      calls := h.calls + 1
      blocks := Function.update h.blocks h.calls (some v)
      fresh := fun b hb => by
        rw [Function.update_of_ne (Nat.ne_of_gt hb)]
        exact h.fresh b (Nat.le_of_succ_le hb) })
  else (none, { h with
    calls := h.calls + 1
    fresh := fun b hb => h.fresh b (Nat.le_of_succ_le hb) })

theorem alloc_fst_of_ok (h : Heap β) {ok : Nat → Bool} (hok : ok h.calls = true) (v : β) :
    (h.alloc ok v).1 = some h.calls := by
  rw [alloc, if_pos hok]

theorem alloc_fst_of_failed (h : Heap β) {ok : Nat → Bool} (hok : ok h.calls = false) (v : β) :
    (h.alloc ok v).1 = none := by
  rw [alloc, hok, if_neg Bool.false_ne_true]

/-- Calls of the allocator one after the other. -/
def allocAll (h : Heap β) (ok : Nat → Bool) : List β → List Ptr × Heap β
  | [] => ([], h)
  | v :: vs =>
      let (p, h) := h.alloc ok v
      let (ps, h) := h.allocAll ok vs
      (p :: ps, h)

/-- A block is freed. The null pointer is left alone. -/
def free (h : Heap β) : Ptr → Option (Heap β)
  | none => some h
  | some b =>
      if (h.blocks b).isSome = true then
        some { h with
          blocks := Function.update h.blocks b none
          fresh := fun c hc => by
            by_cases heq : c = b
            · rw [heq, Function.update_self]
            · rw [Function.update_of_ne heq, h.fresh c hc] }
      else none

/-- A value is written to a block. -/
def store (h : Heap β) : Ptr → β → Option (Heap β)
  | none, _ => none
  | some b, v =>
      if hb : (h.blocks b).isSome = true then
        some { h with
          blocks := Function.update h.blocks b (some v)
          fresh := fun c hc => by
            by_cases heq : c = b
            · rw [← heq, h.fresh c hc] at hb
              cases hb
            · rw [Function.update_of_ne heq, h.fresh c hc] }
      else none

/-- `realloc`: a new block with a value, in place of an old one or of none. When
there is no memory the old block stays. -/
def realloc (h : Heap β) (ok : Nat → Bool) (p : Ptr) (v : β) : Option (Ptr × Heap β) :=
  match h.alloc ok v with
  | (none, h') => some (none, h')
  | (some b, h') => (h'.free p).map fun h'' => (some b, h'')

/-- Pointers are freed one after the other. -/
def freeAll (h : Heap β) (ps : List Ptr) : Option (Heap β) := ps.foldlM free h

/-- The live blocks are those of the list, each once. -/
structure Holds (h : Heap β) (l : List Nat) : Prop where
  nodup : l.Nodup
  live : ∀ b, (h.blocks b).isSome = true ↔ b ∈ l

variable {h : Heap β} {l : List Nat}

theorem holds_empty : (empty : Heap β).Holds [] where
  nodup := List.nodup_nil
  live b := by simp [empty]

/-! ## Allocation -/

/-- A block that is live is not the next one. -/
theorem ne_calls {b : Nat} {v : β} (hb : h.blocks b = some v) : b ≠ h.calls := by
  intro heq
  rw [heq, h.fresh h.calls (Nat.le_refl _)] at hb
  cases hb

/-- An allocation changes no live block. -/
theorem blocks_alloc (ok : Nat → Bool) (v : β) {b : Nat} {w : β} (hb : h.blocks b = some w) :
    (h.alloc ok v).2.blocks b = some w := by
  unfold alloc
  split
  · show Function.update h.blocks h.calls (some v) b = some w
    rw [Function.update_of_ne (ne_calls hb)]
    exact hb
  · exact hb

theorem blocks_allocAll (ok : Nat → Bool) (vs : List β) {h : Heap β} {b : Nat} {w : β}
    (hb : h.blocks b = some w) : (h.allocAll ok vs).2.blocks b = some w := by
  induction vs generalizing h with
  | nil => exact hb
  | cons v vs ih => exact ih (blocks_alloc ok v hb)

/-- The pointer that an allocation returns is null, or its block holds the value. -/
theorem load_alloc (ok : Nat → Bool) (v : β) :
    (h.alloc ok v).1 = none ∨ (h.alloc ok v).2.load (h.alloc ok v).1 = some v := by
  unfold alloc
  split
  · right
    show Function.update h.blocks h.calls (some v) h.calls = some v
    exact Function.update_self ..
  · exact .inl rfl

/-- Allocations give each value its pointer, and some may be null. -/
theorem load_allocAll (ok : Nat → Bool) (vs : List β) (h : Heap β) :
    List.Forall₂ (fun p v => p = none ∨ (h.allocAll ok vs).2.load p = some v)
      (h.allocAll ok vs).1 vs := by
  induction vs generalizing h with
  | nil => exact .nil
  | cons v vs ih =>
      refine .cons ?_ (ih (h.alloc ok v).2)
      rcases h.load_alloc ok v with hnull | hload
      · exact .inl hnull
      · right
        rcases Option.bind_eq_some_iff.mp hload with ⟨b, hb, hblock⟩
        show ((h.alloc ok v).2.allocAll ok vs).2.load (h.alloc ok v).1 = some v
        rw [load, hb]
        exact blocks_allocAll ok vs hblock

theorem allocAll_append (ok : Nat → Bool) (vs ws : List β) (h : Heap β) :
    h.allocAll ok (vs ++ ws) =
      ((h.allocAll ok vs).1 ++ ((h.allocAll ok vs).2.allocAll ok ws).1,
        ((h.allocAll ok vs).2.allocAll ok ws).2) := by
  induction vs generalizing h with
  | nil => rfl
  | cons v vs ih => simp [allocAll, ih]

/-- A pointer that allocations return is to one of the values. -/
theorem exists_of_mem_allocAll (ok : Nat → Bool) (vs : List β) {h : Heap β} {b : Nat}
    (hb : some b ∈ (h.allocAll ok vs).1) : ∃ v ∈ vs, (h.allocAll ok vs).2.blocks b = some v := by
  have hloads := load_allocAll ok vs h
  rcases List.forall₂_iff_get.mp hloads with ⟨hlen, hget⟩
  rcases List.mem_iff_get.mp hb with ⟨i, hi⟩
  have hlt : i < vs.length := hlen ▸ i.isLt
  have hload := hget i i.isLt hlt
  rw [hi] at hload
  rcases hload with hnull | hload
  · cases hnull
  · exact ⟨_, List.get_mem _ _, hload⟩

/-- An allocator that always succeeds returns no null pointer. -/
theorem none_not_mem_allocAll {ok : Nat → Bool} (hok : ∀ n, ok n = true) (vs : List β)
    (h : Heap β) : none ∉ (h.allocAll ok vs).1 := by
  induction vs generalizing h with
  | nil => exact List.not_mem_nil
  | cons v vs ih =>
      have hnew : (h.alloc ok v).1 = some h.calls := by rw [alloc, if_pos (hok h.calls)]
      intro hmem
      rcases List.mem_cons.mp hmem with hhead | htail
      · cases hhead.trans hnew
      · exact ih _ htail

/-! ## Block by block -/

/-- With memory, an allocation fills the next block, and changes no other. -/
theorem alloc_spec {ok : Nat → Bool} (hok : ok h.calls = true) (v : β) :
    ∃ h', h.alloc ok v = (some h.calls, h') ∧ h'.calls = h.calls + 1 ∧
      h'.blocks h.calls = some v ∧ ∀ c, c ≠ h.calls → h'.blocks c = h.blocks c := by
  refine ⟨_, if_pos hok, rfl, Function.update_self .., ?_⟩
  intro c hc
  exact Function.update_of_ne hc ..

/-- Without memory, an allocation changes nothing. -/
theorem alloc_failed {ok : Nat → Bool} (hok : ok h.calls = false) (v : β) :
    ∃ h', h.alloc ok v = (none, h') ∧ h'.calls = h.calls + 1 ∧
      ∀ c, h'.blocks c = h.blocks c := by
  have hno : ¬ ok h.calls = true := by simp [hok]
  exact ⟨_, if_neg hno, rfl, fun _ => rfl⟩

/-- A live block is written, and no other. -/
theorem store_spec {b : Nat} {w : β} (hb : h.blocks b = some w) (v : β) :
    ∃ h', h.store (some b) v = some h' ∧ h'.calls = h.calls ∧ h'.blocks b = some v ∧
      ∀ c, c ≠ b → h'.blocks c = h.blocks c := by
  have hlive : (h.blocks b).isSome = true := by rw [hb]; rfl
  refine ⟨_, dif_pos hlive, rfl, Function.update_self .., ?_⟩
  intro c hc
  exact Function.update_of_ne hc ..

/-- A live block is freed, and no other. -/
theorem free_spec {b : Nat} {w : β} (hb : h.blocks b = some w) :
    ∃ h', h.free (some b) = some h' ∧ h'.calls = h.calls ∧ h'.blocks b = none ∧
      ∀ c, c ≠ b → h'.blocks c = h.blocks c := by
  have hlive : (h.blocks b).isSome = true := by rw [hb]; rfl
  refine ⟨_, if_pos hlive, rfl, Function.update_self .., ?_⟩
  intro c hc
  exact Function.update_of_ne hc ..

/-- With memory, `realloc` puts the value in the next block and frees the old one. -/
theorem realloc_spec {ok : Nat → Bool} (hok : ok h.calls = true) {p : Ptr} (v : β)
    (hp : ∀ b, p = some b → (h.blocks b).isSome = true) :
    ∃ h', h.realloc ok p v = some (some h.calls, h') ∧ h'.calls = h.calls + 1 ∧
      h'.blocks h.calls = some v ∧ (∀ b, p = some b → h'.blocks b = none) ∧
      ∀ c, c ≠ h.calls → p ≠ some c → h'.blocks c = h.blocks c := by
  rcases alloc_spec hok v with ⟨h', halloc, hcalls, hself, hother⟩
  unfold realloc
  rw [halloc]
  cases p with
  | none => exact ⟨h', rfl, hcalls, hself, nofun, fun c hc _ => hother c hc⟩
  | some b =>
      have hb : b ≠ h.calls := by
        intro heq
        have hlive := hp b rfl
        rw [heq, h.fresh h.calls (Nat.le_refl _)] at hlive
        cases hlive
      rcases Option.isSome_iff_exists.mp (hp b rfl) with ⟨w, hw⟩
      rcases free_spec ((hother b hb).trans hw) with ⟨h'', hfree, hcalls', hgone, hkept⟩
      refine ⟨h'', ?_, hcalls'.trans hcalls, ?_, ?_, ?_⟩
      · simp only [hfree, Option.map_some]
      · rw [hkept _ hb.symm]
        exact hself
      · intro c hc
        rw [← Option.some.inj hc]
        exact hgone
      · intro c hc hne
        rw [hkept c (fun heq => hne (congrArg some heq.symm)), hother c hc]

/-- Without memory, `realloc` changes nothing. -/
theorem realloc_failed {ok : Nat → Bool} (hok : ok h.calls = false) (p : Ptr) (v : β) :
    ∃ h', h.realloc ok p v = some (none, h') ∧ h'.calls = h.calls + 1 ∧
      ∀ c, h'.blocks c = h.blocks c := by
  rcases alloc_failed hok v with ⟨h', halloc, hspec⟩
  exact ⟨h', by rw [realloc, halloc], hspec⟩

/-! ## Ownership -/

namespace Holds

/-- The order of the list does not matter. -/
theorem perm (hh : h.Holds l) {l' : List Nat} (hp : l.Perm l') : h.Holds l' where
  nodup := hp.nodup_iff.mp hh.nodup
  live b := by rw [hh.live b, hp.mem_iff]

/-- A heap holds one list, up to its order. -/
theorem unique (hh : h.Holds l) {l' : List Nat} (hh' : h.Holds l') : l.Perm l' :=
  (List.perm_ext_iff_of_nodup hh.nodup hh'.nodup).mpr fun b => by rw [← hh.live, hh'.live]

theorem alloc (hh : h.Holds l) (ok : Nat → Bool) (v : β) :
    (h.alloc ok v).2.Holds ((h.alloc ok v).1.toList ++ l) := by
  unfold Heap.alloc
  split
  · have hnew : h.calls ∉ l := by
      rw [← hh.live, h.fresh h.calls (Nat.le_refl _)]
      exact Bool.false_ne_true
    constructor
    · exact List.nodup_cons.mpr ⟨hnew, hh.nodup⟩
    · intro b
      show (Function.update h.blocks h.calls (some v) b).isSome = true ↔ b ∈ h.calls :: l
      by_cases heq : b = h.calls
      · simp [heq]
      · rw [Function.update_of_ne heq, hh.live b]
        simp [heq]
  · exact ⟨hh.nodup, hh.live⟩

theorem allocAll (hh : h.Holds l) (ok : Nat → Bool) (vs : List β) :
    (h.allocAll ok vs).2.Holds ((h.allocAll ok vs).1.reduceOption ++ l) := by
  induction vs generalizing h l with
  | nil => exact hh
  | cons v vs ih =>
      have hrest := ih (hh.alloc ok v)
      show ((h.alloc ok v).2.allocAll ok vs).2.Holds
        (((h.alloc ok v).1 :: ((h.alloc ok v).2.allocAll ok vs).1).reduceOption ++ l)
      refine hrest.perm ?_
      cases (h.alloc ok v).1 with
      | none => exact .refl _
      | some b => exact List.perm_middle

theorem free {p : Ptr} (hh : h.Holds (p.toList ++ l)) :
    ∃ h', h.free p = some h' ∧ h'.Holds l ∧ ∀ b ∈ l, h'.blocks b = h.blocks b := by
  cases p with
  | none => exact ⟨h, rfl, hh, fun _ _ => rfl⟩
  | some c =>
      have hlive : (h.blocks c).isSome = true := (hh.live c).mpr (List.mem_cons_self ..)
      have hcons : (c :: l).Nodup := hh.nodup
      rcases List.nodup_cons.mp hcons with ⟨hnot, hnodup⟩
      refine ⟨_, if_pos hlive, ⟨hnodup, fun b => ?_⟩, fun b hb => ?_⟩
      · show (Function.update h.blocks c none b).isSome = true ↔ b ∈ l
        by_cases heq : b = c
        · simp [heq, hnot]
        · rw [Function.update_of_ne heq, hh.live b]
          simp [heq]
      · show Function.update h.blocks c none b = h.blocks b
        rw [Function.update_of_ne]
        intro heq
        exact hnot (heq ▸ hb)

theorem freeAll {ps : List Ptr} (hh : h.Holds (ps.reduceOption ++ l)) :
    ∃ h', h.freeAll ps = some h' ∧ h'.Holds l ∧ ∀ b ∈ l, h'.blocks b = h.blocks b := by
  induction ps generalizing h with
  | nil => exact ⟨h, rfl, hh, fun _ _ => rfl⟩
  | cons p ps ih =>
      have hhead : h.Holds (p.toList ++ (ps.reduceOption ++ l)) := by
        cases p with
        | none => exact hh
        | some b => exact hh
      rcases hhead.free with ⟨h', hfree, hh', hkept⟩
      rcases ih hh' with ⟨h'', hfreeAll, hh'', hkept'⟩
      refine ⟨h'', ?_, hh'', fun b hb => ?_⟩
      · rw [Heap.freeAll, List.foldlM_cons, hfree]
        exact hfreeAll
      · rw [hkept' b hb, hkept b (List.mem_append_right _ hb)]

end Holds

end Heap
