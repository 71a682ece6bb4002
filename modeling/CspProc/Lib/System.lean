import Mathlib.Data.List.Induction

/-! # Systems that take inputs

A system is a partial function from states and inputs to states. `Reaches`
follows it over sequences of inputs each of which meets a condition where it is
taken; `Reaches.invariant` is the rule for what then holds at the end, with the
inputs so far at hand.
-/

section System

variable {σ ι : Type} (next : σ → ι → Option σ) (ok : σ → ι → Prop) (s : σ)

/-- From `s` the inputs lead to a state, and each meets `ok` where it is taken. -/
inductive Reaches : List ι → σ → Prop where
  | start : Reaches [] s
  | snoc {is : List ι} {t u : σ} {i : ι} :
      Reaches is t → ok t i → next t i = some u → Reaches (is ++ [i]) u

variable {next ok s}

/-- What holds at the start and is kept by every input that meets the
condition, holds in every state that is reached. -/
theorem Reaches.invariant {P : List ι → σ → Prop} (hstart : P [] s)
    (hnext : ∀ is t i u, P is t → ok t i → next t i = some u → P (is ++ [i]) u)
    {is : List ι} {t : σ} (h : Reaches next ok s is t) : P is t := by
  induction h with
  | start => exact hstart
  | snoc _ hok hstep ih => exact hnext _ _ _ _ ih hok hstep

/-- A weaker condition on the inputs. -/
theorem Reaches.mono {ok' : σ → ι → Prop} (hok : ∀ s i, ok s i → ok' s i) {is : List ι} {t : σ}
    (h : Reaches next ok s is t) : Reaches next ok' s is t := by
  induction h with
  | start => exact .start
  | snoc _ hi hstep ih => exact .snoc ih (hok _ _ hi) hstep

/-- An input before a run. -/
theorem Reaches.cons {i : ι} {is : List ι} {t u : σ} (h : Reaches next ok t is u) (hok : ok s i)
    (hstep : next s i = some t) : Reaches next ok s (i :: is) u := by
  induction h with
  | start => exact @Reaches.snoc _ _ _ _ _ [] _ _ _ .start hok hstep
  | snoc _ hok' hstep' ih => exact .snoc ih hok' hstep'

/-- One run after another. -/
theorem Reaches.trans {is js : List ι} {t u : σ} (h : Reaches next ok s is t)
    (h' : Reaches next ok t js u) : Reaches next ok s (is ++ js) u := by
  induction h' with
  | start =>
      rw [List.append_nil]
      exact h
  | snoc _ hok hstep ih =>
      rw [← List.append_assoc]
      exact .snoc ih hok hstep

/-- The last input of a run. -/
theorem Reaches.snoc_inv {is : List ι} {i : ι} {u : σ} (h : Reaches next ok s (is ++ [i]) u) :
    ∃ t, Reaches next ok s is t ∧ ok t i ∧ next t i = some u := by
  generalize his : is ++ [i] = inputs at h
  cases h with
  | start => exact absurd his (by simp)
  | snoc hreach hok hstep =>
      rcases List.append_inj' his rfl with ⟨rfl, hi⟩
      cases hi
      exact ⟨_, hreach, hok, hstep⟩

/-- A sequence of inputs leads to one state, whatever is asked of them. -/
theorem Reaches.unique {ok' : σ → ι → Prop} {is : List ι} {t t' : σ}
    (h : Reaches next ok s is t) (h' : Reaches next ok' s is t') : t = t' := by
  induction h generalizing t' with
  | start =>
      generalize his : ([] : List ι) = inputs at h'
      cases h' with
      | start => rfl
      | snoc => exact absurd his (by simp)
  | snoc _ _ hstep ih =>
      rcases h'.snoc_inv with ⟨u, hu, -, hstep'⟩
      obtain rfl := ih hu
      exact Option.some.inj (hstep.symm.trans hstep')

/-- What inputs leave behind adds up: nothing has been left behind at the end exactly
when every input on the way has met the condition under which it leaves nothing. -/
theorem Reaches.ledger {α : Type} {P : σ → List α → Prop} (hstart : P s [])
    (hnext : ∀ t left i u, P t left → next t i = some u →
      ∃ more, P u (more ++ left) ∧ (more = [] ↔ ok t i))
    {is : List ι} {t : σ} (h : Reaches next (fun _ _ => True) s is t) :
    ∃ left, P t left ∧ (left = [] ↔ Reaches next ok s is t) := by
  induction h with
  | start => exact ⟨[], hstart, iff_of_true rfl .start⟩
  | snoc hreach _ hstep ih =>
      rcases ih with ⟨left, hleft, hiff⟩
      rcases hnext _ _ _ _ hleft hstep with ⟨more, hmore, hok⟩
      refine ⟨more ++ left, hmore, ?_⟩
      rw [List.append_eq_nil_iff, hok, hiff]
      constructor
      · rintro ⟨hlast, hreach'⟩
        exact .snoc hreach' hlast hstep
      · intro hreach'
        -- the inputs before lead to one state
        rcases hreach'.snoc_inv with ⟨u, hu, hlast, -⟩
        cases hreach.unique hu
        exact ⟨hlast, hu⟩

/-- The system as far as its inputs meet the condition. -/
def guarded (next : σ → ι → Option σ) (ok : σ → ι → Prop) [∀ s i, Decidable (ok s i)] (s : σ)
    (i : ι) : Option σ :=
  if ok s i then next s i else none

/-- Where a sequence of inputs leads can be computed. -/
theorem Reaches.of_foldlM [∀ s i, Decidable (ok s i)] {is : List ι} {t : σ}
    (h : is.foldlM (guarded next ok) s = some t) : Reaches next ok s is t := by
  induction is using List.reverseRecOn generalizing t with
  | nil =>
      obtain rfl := Option.some.inj h
      exact .start
  | append_singleton is i ih =>
      rw [List.foldlM_append] at h
      rcases Option.bind_eq_some_iff.mp h with ⟨u, hu, hlast⟩
      have hnext : guarded next ok u i = some t := by simpa using hlast
      unfold guarded at hnext
      split at hnext
      · exact .snoc (ih hu) ‹_› hnext
      · cases hnext

end System
