import Mathlib.Data.List.Perm.Basic

/-! # Removal by swapping

An element is removed from an array by moving the last one to its place. Up to
the order this erases the element.
-/

namespace List

variable {α : Type}

/-- `l` without the element at index `i`, which the last one replaces. -/
def swapRemove (l : List α) (i : Nat) : List α :=
  match l.getLast? with
  | some last => (l.set i last).dropLast
  | none => []

theorem swapRemove_concat (l : List α) (x : α) (i : Nat) :
    (l ++ [x]).swapRemove i = if i < l.length then l.set i x else l := by
  simp only [swapRemove, getLast?_concat]
  by_cases hlt : i < l.length
  · rw [if_pos hlt, set_append_left _ _ hlt, dropLast_concat]
  · rw [if_neg hlt, set_append_right _ _ (Nat.le_of_not_lt hlt)]
    cases i - l.length with
    | zero => exact dropLast_concat
    | succ k => exact dropLast_concat

/-- Up to the order, the element is erased. -/
theorem swapRemove_perm (l : List α) {i : Nat} (h : i < l.length) :
    (l.swapRemove i).Perm (l.eraseIdx i) := by
  obtain ⟨init, x, rfl⟩ : ∃ init x, l = init ++ [x] := by
    have hne : l ≠ [] := fun heq => by simp [heq] at h
    exact ⟨l.dropLast, l.getLast hne, (dropLast_append_getLast hne).symm⟩
  rw [swapRemove_concat]
  split
  case isTrue hlt =>
    -- the last element moves to the front part
    rw [eraseIdx_append_of_lt_length hlt, set_eq_take_cons_drop x hlt,
      eraseIdx_eq_take_drop_succ, append_assoc]
    refine Perm.append_left _ ?_
    exact (perm_append_singleton x _).symm
  case isFalse hge =>
    simp only [length_append, length_singleton] at h
    obtain rfl : i = init.length := by omega
    rw [eraseIdx_append_of_length_le (Nat.le_refl _)]
    simp

end List
