import Mathlib.Data.List.Forall2

/-! # Machines with inputs and outputs

A deterministic machine takes an input in a state and answers with an output
and a new state, or has no defined behaviour. A `Refinement` relates its states
to those of an abstract machine that always answers, input by input; the run
rule carries this over to sequences of inputs. A `Simulation` does so for an
abstract machine whose own behaviour may be undefined.
-/

/-- A machine whose step may be undefined. -/
structure Machine (σ ι ο : Type) where
  step : σ → ι → Option (σ × ο)

/-- A machine that always answers. -/
structure TotalMachine (σ ι ο : Type) where
  step : σ → ι → σ × ο

namespace Machine

variable {σ ι ο τ κ π : Type}

/-- The last state and all outputs. -/
def run (m : Machine σ ι ο) : σ → List ι → Option (σ × List ο)
  | s, [] => some (s, [])
  | s, i :: is => do
      let (s, o) ← m.step s i
      let (s, os) ← run m s is
      return (s, o :: os)

theorem run_cons_of_step {m : Machine σ ι ο} {s s' s'' : σ} {i : ι} {o : ο} {is : List ι}
    {os : List ο} (h : m.step s i = some (s', o)) (hrun : m.run s' is = some (s'', os)) :
    m.run s (i :: is) = some (s'', o :: os) := by
  simp [run, h, hrun, pure]

end Machine

namespace TotalMachine

variable {σ ι ο : Type}

/-- The last state and all outputs. -/
def run (m : TotalMachine σ ι ο) : σ → List ι → σ × List ο
  | s, [] => (s, [])
  | s, i :: is =>
      let (s, o) := m.step s i
      let (s, os) := run m s is
      (s, o :: os)

end TotalMachine

/-- `concrete` refines `abstract`: in related states, a related input has a
step, to related states, and its output is one that the abstract output allows. -/
structure Refinement {σ ι ο τ κ π : Type} (concrete : Machine σ ι ο)
    (abstract : TotalMachine τ κ π) where
  Rel : σ → τ → Prop
  In : ι → κ → Prop
  Out : ο → π → Prop
  step : ∀ s t i k, Rel s t → In i k →
    ∃ s' o, concrete.step s i = some (s', o) ∧ Rel s' (abstract.step t k).1 ∧
      Out o (abstract.step t k).2

/-- Refinement carries over to runs: the concrete run is defined, ends in a
related state, and its outputs are allowed one by one. -/
theorem Refinement.run {σ ι ο τ κ π : Type} {concrete : Machine σ ι ο}
    {abstract : TotalMachine τ κ π} (r : Refinement concrete abstract) {s : σ} {t : τ}
    {is : List ι} {ks : List κ} (hrel : r.Rel s t) (hin : List.Forall₂ r.In is ks) :
    ∃ s' os, concrete.run s is = some (s', os) ∧ r.Rel s' (abstract.run t ks).1 ∧
      List.Forall₂ r.Out os (abstract.run t ks).2 := by
  induction hin generalizing s t with
  | nil => exact ⟨s, [], rfl, hrel, .nil⟩
  | @cons i k is ks hik _ ih =>
      rcases r.step s t i k hrel hik with ⟨s', o, hstep, hrel', hout⟩
      rcases ih hrel' with ⟨s'', os, hrun, hrel'', houts⟩
      exact ⟨s'', o :: os, Machine.run_cons_of_step hstep hrun, hrel'', .cons hout houts⟩

/-- The first step of a run. -/
theorem Machine.run_cons_inv {σ ι ο : Type} {m : Machine σ ι ο} {s s'' : σ} {i : ι} {is : List ι}
    {os : List ο} (h : m.run s (i :: is) = some (s'', os)) :
    ∃ s' o os', m.step s i = some (s', o) ∧ m.run s' is = some (s'', os') ∧ os = o :: os' := by
  simp only [Machine.run, Option.bind_eq_bind, Option.bind_eq_some_iff, pure,
    Option.some.injEq, Prod.mk.injEq] at h
  rcases h with ⟨⟨s', o⟩, hstep, ⟨t, os'⟩, hrun, rfl, rfl⟩
  exact ⟨s', o, os', hstep, hrun, rfl⟩

/-- `concrete` simulates `abstract`: in related states, a related input that has a step
in the abstract machine has one, to related states and with related outputs. -/
structure Simulation {σ ι ο τ κ π : Type} (concrete : Machine σ ι ο)
    (abstract : Machine τ κ π) where
  Rel : σ → τ → Prop
  In : ι → κ → Prop
  Out : ο → π → Prop
  step : ∀ s t i k t' p, Rel s t → In i k → abstract.step t k = some (t', p) →
    ∃ s' o, concrete.step s i = some (s', o) ∧ Rel s' t' ∧ Out o p

/-- Simulation carries over to runs that the abstract machine has. -/
theorem Simulation.run {σ ι ο τ κ π : Type} {concrete : Machine σ ι ο}
    {abstract : Machine τ κ π} (r : Simulation concrete abstract) {s : σ} {t t' : τ}
    {is : List ι} {ks : List κ} {ps : List π} (hrel : r.Rel s t) (hin : List.Forall₂ r.In is ks)
    (h : abstract.run t ks = some (t', ps)) :
    ∃ s' os, concrete.run s is = some (s', os) ∧ r.Rel s' t' ∧ List.Forall₂ r.Out os ps := by
  induction hin generalizing s t ps with
  | nil =>
      cases h
      exact ⟨s, [], rfl, hrel, .nil⟩
  | @cons i k is ks hik _ ih =>
      rcases Machine.run_cons_inv h with ⟨u, p, ps', hstep, hrun, rfl⟩
      rcases r.step s t i k u p hrel hik hstep with ⟨s', o, hstep', hrel', hout⟩
      rcases ih hrel' hrun with ⟨s'', os, hrun', hrel'', houts⟩
      exact ⟨s'', o :: os, Machine.run_cons_of_step hstep' hrun', hrel'', .cons hout houts⟩
