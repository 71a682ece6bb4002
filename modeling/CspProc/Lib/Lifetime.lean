import Mathlib.Data.List.Count

/-! # Lifetimes of resources

A trace of what a program does to resources: it acquires them, uses them and
releases them. `Lifetime.Sound` asks that what is acquired is released once and
not used afterwards. The rules put together a trace from the lifetimes of single
resources that follow each other.
-/

/-- What is done to a resource. -/
inductive Lifetime.Event (ι : Type) where
  | acquire (i : ι)
  | use (i : ι)
  | release (i : ι)
deriving DecidableEq, Repr

namespace Lifetime

variable {ι : Type}

/-- The resource. -/
def Event.resource : Event ι → ι
  | acquire i | use i | release i => i

/-- The second event is no use of what the first one releases. -/
def Event.Allows (e e' : Event ι) : Prop := ∀ i, e = .release i → e' ≠ .use i

variable [DecidableEq ι]

/-- Every resource that is acquired is released exactly once, and nothing is
used after its release. -/
structure Sound (trace : List (Event ι)) : Prop where
  released : ∀ i, .acquire i ∈ trace → trace.count (.release i) = 1
  unused : trace.Pairwise Event.Allows

variable {i : ι} {uses rest : List (Event ι)}

theorem sound_nil : Sound ([] : List (Event ι)) where
  released _ h := absurd h List.not_mem_nil
  unused := .nil

/-- A resource that is not released makes a trace unsound. -/
theorem not_sound_of_kept (hkept : .release i ∉ rest) : ¬ Sound (.acquire i :: rest) := by
  intro h
  have hcount := h.released i List.mem_cons_self
  have hnone : (Event.acquire i :: rest).count (.release i) = 0 := by
    rw [List.count_eq_zero]
    intro hmem
    rcases List.mem_cons.mp hmem with heq | hmem
    · cases heq
    · exact hkept hmem
  rw [hnone] at hcount
  cases hcount

/-- A use behind the release makes a trace unsound. -/
theorem not_sound_of_used {trace : List (Event ι)} (hused : [.release i, .use i].Sublist trace) :
    ¬ Sound trace := by
  intro h
  have hpair := h.unused.sublist hused
  exact (List.pairwise_cons.mp hpair).1 _ List.mem_cons_self i rfl rfl

/-- The lifetime of one resource in front of those of others. -/
theorem sound_lifetime_iff (huses : ∀ e ∈ uses, e = .use i) (hrest : ∀ e ∈ rest, e.resource ≠ i) :
    Sound (.acquire i :: uses ++ .release i :: rest) ↔ Sound rest := by
  have hfirst : ∀ e ∈ Event.acquire i :: uses, e = .acquire i ∨ e = .use i := by
    intro e he
    rcases List.mem_cons.mp he with he | he
    · exact .inl he
    · exact .inr (huses e he)
  -- the releases are all in the second part
  have hcount : ∀ j, (Event.acquire i :: uses ++ .release i :: rest).count (.release j) =
      (Event.release i :: rest).count (.release j) := by
    intro j
    rw [List.count_append, List.count_eq_zero.mpr, Nat.zero_add]
    intro hmem
    rcases hfirst _ hmem with heq | heq <;> cases heq
  constructor
  · intro h
    constructor
    · intro j hj
      have hne : j ≠ i := hrest _ hj
      have hone := h.released j (List.mem_append_right _ (List.mem_cons_of_mem _ hj))
      rwa [hcount, List.count_cons_of_ne (by simpa using hne.symm)] at hone
    · exact h.unused.sublist ((List.sublist_cons_self _ _).trans (List.sublist_append_right _ _))
  · intro h
    constructor
    · intro j hj
      rw [hcount]
      by_cases heq : j = i
      · subst heq
        rw [List.count_cons_self, List.count_eq_zero.mpr fun hmem => hrest _ hmem rfl]
      · rw [List.count_cons_of_ne (by simpa using Ne.symm heq)]
        refine h.released j ?_
        rcases List.mem_append.mp hj with hj | hj
        · rcases hfirst _ hj with he | he
          · exact absurd (Event.acquire.inj he) heq
          · cases he
        · rcases List.mem_cons.mp hj with he | hj
          · cases he
          · exact hj
    · -- nothing is released in the first part, where all uses of this resource are
      refine List.pairwise_append.mpr ⟨?_, List.pairwise_cons.mpr ⟨?_, h.unused⟩, ?_⟩
      · refine List.pairwise_of_forall_mem_list ?_
        intro e he e' _ j hj
        rcases hfirst e he with heq | heq <;> rw [heq] at hj <;> cases hj
      · -- the others do not use this resource
        intro e he j hj hused
        cases hj
        exact hrest e he (by rw [hused]; rfl)
      · intro e he e' _ j hj
        rcases hfirst e he with heq | heq <;> rw [heq] at hj <;> cases hj

end Lifetime
