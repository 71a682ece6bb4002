import Mathlib.Algebra.Order.Group.Abs

/-! # Comparisons with a tolerance

Two numbers are near when their distance is below a tolerance, and a number is
at most another one when it is below or near it. Being below, and being at most,
exclude each other only where no two different numbers are near:

* `Resolves.lt_iff` — there, `a < b` just when `b` is not at most `a`;
* `resolves_iff` — nowhere else;
* `lt_and_atMost` — elsewhere both hold, in a band as wide as the tolerance.
-/

namespace Tolerance

variable {K : Type*} [AddCommGroup K] [LinearOrder K] {ε a b : K}

/-- The distance is below the tolerance. -/
def Near (ε a b : K) : Prop := |a - b| < ε

/-- Below, or near. -/
def AtMost (ε a b : K) : Prop := a < b ∨ Near ε a b

/-- Of the two numbers, only equal ones are near. -/
def Resolves (ε a b : K) : Prop := Near ε a b ↔ a = b

theorem near_comm : Near ε a b ↔ Near ε b a := by
  unfold Near
  rw [abs_sub_comm]

theorem Resolves.symm (h : Resolves ε a b) : Resolves ε b a := by
  unfold Resolves
  rw [near_comm, eq_comm]
  exact h

theorem Resolves.lt_iff (h : Resolves ε a b) : a < b ↔ ¬ AtMost ε b a := by
  constructor
  · intro hlt hle
    rcases hle with hgt | hnear
    · exact lt_asymm hlt hgt
    · exact hlt.ne (h.mp (near_comm.mp hnear))
  · intro hle
    rcases lt_trichotomy a b with hlt | heq | hgt
    · exact hlt
    · exact absurd (.inr (near_comm.mp (h.mpr heq))) hle
    · exact absurd (.inl hgt) hle

/-- Comparisons are opposed to each other just where the tolerance resolves. -/
theorem resolves_iff :
    Resolves ε a b ↔ (a < b ↔ ¬ AtMost ε b a) ∧ (b < a ↔ ¬ AtMost ε a b) := by
  constructor
  · intro h
    exact ⟨h.lt_iff, h.symm.lt_iff⟩
  · rintro ⟨hlt, hgt⟩
    constructor
    · intro hnear
      apply le_antisymm
      · exact not_lt.mp fun h => hgt.mp h (.inr hnear)
      · exact not_lt.mp fun h => hlt.mp h (.inr (near_comm.mp hnear))
    · rintro rfl
      by_contra hfar
      refine lt_irrefl a (hlt.mpr ?_)
      rintro (h | hnear)
      · exact lt_irrefl a h
      · exact hfar hnear

variable [IsOrderedAddMonoid K]

/-- The band in which a number is below another one that is at most it. -/
theorem lt_and_atMost : a < b ∧ AtMost ε b a ↔ a < b ∧ b < a + ε := by
  refine and_congr_right fun hlt => ?_
  have hdist : |b - a| = b - a := abs_of_pos (sub_pos.mpr hlt)
  unfold AtMost Near
  rw [hdist, sub_lt_iff_lt_add']
  exact or_iff_right hlt.asymm

end Tolerance
