import Mathlib.Logic.Function.Iterate

/-! # Commands with exit codes, and machines that run to a state

A command takes a state to an exit code and a state. In a sequence the first
code other than 0 ends everything, and is the code of the sequence. Where every
command of a sequence simulates one of another, the sequences do (`Simulates.block`).
`Succeeds P Q c` is total correctness, with the rules of its logic.

`Runs step s t` says that a deterministic machine gets from `s` to `t`; runs
compose, and that is how a big-step meaning is connected to a machine. A machine
with a variant stops (`exists_stop`).
`RunsUnless` leaves out what happens once a state is bad.
`Follows step step' R rank` relates two machines of which the second has steps of its
own in between.
-/

/-- A command over states `σ`. -/
abbrev Cmd (σ : Type) : Type := σ → Int × σ

namespace Cmd

variable {σ : Type}

/-- Nothing, successfully. -/
def skip : Cmd σ := fun s => (0, s)

/-- One command, and when it exits with 0 the other. -/
def seq (a b : Cmd σ) : Cmd σ := fun s =>
  if (a s).1 = 0 then b (a s).2 else a s

/-- Commands one after the other, up to the first exit code other than 0. -/
def block : List (Cmd σ) → Cmd σ
  | [] => skip
  | c :: cs => seq c (block cs)

theorem seq_of_zero {a : Cmd σ} (b : Cmd σ) {s : σ} (h : (a s).1 = 0) :
    seq a b s = b (a s).2 := if_pos h

theorem seq_of_ne_zero {a : Cmd σ} (b : Cmd σ) {s : σ} (h : (a s).1 ≠ 0) :
    seq a b s = a s := if_neg h

/-- A second command that always does nothing can be left out. -/
theorem seq_of_idle {a b : Cmd σ} (hb : ∀ s, b s = (0, s)) (s : σ) : seq a b s = a s := by
  by_cases hret : (a s).1 = 0
  · rw [seq_of_zero b hret, hb, ← hret]
  · exact seq_of_ne_zero b hret

theorem block_cons (c : Cmd σ) (cs : List (Cmd σ)) : block (c :: cs) = seq c (block cs) := rfl

/-- From related states a command ends with the code of the other, in related
states. -/
def Simulates {τ : Type} (R : σ → τ → Prop) (c : Cmd σ) (a : Cmd τ) : Prop :=
  ∀ s t, R s t → (c s).1 = (a t).1 ∧ R (c s).2 (a t).2

namespace Simulates

variable {τ : Type} {R : σ → τ → Prop}

theorem skip : Simulates R Cmd.skip Cmd.skip := by
  intro s t h
  exact ⟨rfl, h⟩

theorem seq {c c' : Cmd σ} {a a' : Cmd τ} (h : Simulates R c a) (h' : Simulates R c' a') :
    Simulates R (Cmd.seq c c') (Cmd.seq a a') := by
  intro s t hst
  rcases h s t hst with ⟨hret, hnext⟩
  by_cases hzero : (c s).1 = 0
  · rw [seq_of_zero _ hzero, seq_of_zero _ (hret ▸ hzero)]
    exact h' _ _ hnext
  · rw [seq_of_ne_zero _ hzero, seq_of_ne_zero _ (hret ▸ hzero)]
    exact ⟨hret, hnext⟩

/-- Sequences simulate each other command by command. -/
theorem block {ι : Type} {c : ι → Cmd σ} {a : ι → Cmd τ} {is : List ι}
    (h : ∀ i ∈ is, Simulates R (c i) (a i)) :
    Simulates R (Cmd.block (is.map c)) (Cmd.block (is.map a)) := by
  induction is with
  | nil => exact skip
  | cons i is ih =>
      exact seq (h i List.mem_cons_self) (ih fun j hj => h j (List.mem_cons_of_mem i hj))

end Simulates

/-! ## Total correctness -/

/-- From every state with `P` the command exits with 0, in a state with `Q`. -/
def Succeeds (P Q : σ → Prop) (c : Cmd σ) : Prop := ∀ s, P s → (c s).1 = 0 ∧ Q (c s).2

namespace Succeeds

variable {P P' Q R : σ → Prop} {c : Cmd σ} {cs : List (Cmd σ)}

theorem skip : Succeeds P P Cmd.skip := by
  intro s hs
  exact ⟨rfl, hs⟩

theorem seq {c' : Cmd σ} (h : Succeeds P Q c) (h' : Succeeds Q R c') :
    Succeeds P R (Cmd.seq c c') := by
  intro s hs
  rcases h s hs with ⟨hret, hnext⟩
  rw [seq_of_zero _ hret]
  exact h' _ hnext

theorem nil : Succeeds P P (Cmd.block []) := skip

theorem cons (h : Succeeds P Q c) (h' : Succeeds Q R (Cmd.block cs)) :
    Succeeds P R (Cmd.block (c :: cs)) := seq h h'

/-- A precondition may be strengthened. -/
theorem of_imp (h : Succeeds P Q c) (hP : ∀ s, P' s → P s) : Succeeds P' Q c := by
  intro s hs
  exact h s (hP s hs)

end Succeeds

end Cmd

/-- The machine with the given step gets from `s` to `t`. -/
def Runs {σ : Type} (step : σ → σ) (s t : σ) : Prop := ∃ n, step^[n] s = t

namespace Runs

variable {σ : Type} {step : σ → σ} {s t u : σ}

theorem refl : Runs step s s := ⟨0, rfl⟩

theorem single : Runs step s (step s) := ⟨1, rfl⟩

theorem trans (h : Runs step s t) (h' : Runs step t u) : Runs step s u := by
  rcases h with ⟨n, rfl⟩
  rcases h' with ⟨k, rfl⟩
  exact ⟨k + n, Function.iterate_add_apply step k n s⟩

/-- A first step and then the rest. -/
theorem head (h : Runs step (step s) t) : Runs step s t := single.trans h

/-- What every step keeps, every run keeps. -/
theorem preserves {P : σ → Prop} (hstep : ∀ s, P s → P (step s)) (h : Runs step s t)
    (hs : P s) : P t := by
  rcases h with ⟨n, rfl⟩
  induction n with
  | zero => exact hs
  | succ n ih =>
      rw [Function.iterate_succ_apply']
      exact hstep _ ih

/-- A machine that comes to rest comes to rest from everywhere on its way. -/
theorem to_halted (h : Runs step s t) (ht : step t = t) (h' : Runs step s u) :
    Runs step u t := by
  rcases h with ⟨n, rfl⟩
  rcases h' with ⟨k, rfl⟩
  rcases Nat.le_total n k with hle | hle
  · rcases Nat.exists_eq_add_of_le' hle with ⟨d, rfl⟩
    rw [Function.iterate_add_apply, Function.iterate_fixed ht d]
    exact .refl
  · rcases Nat.exists_eq_add_of_le' hle with ⟨d, rfl⟩
    exact ⟨d, (Function.iterate_add_apply step d k s).symm⟩

end Runs

/-- A machine with a variant stops: while it has not stopped, every step makes the
variant smaller. -/
theorem exists_stop {σ : Type} {step : σ → σ} {inv : σ → Prop} (stop : σ → Prop) (μ : σ → Nat)
    (hstep : ∀ s, inv s → ¬ stop s → inv (step s) ∧ μ (step s) < μ s) {s : σ} (hs : inv s) :
    ∃ n ≤ μ s, stop (step^[n] s) := by
  induction hμ : μ s using Nat.strongRecOn generalizing s with
  | ind k ih =>
      by_cases hstop : stop s
      · exact ⟨0, Nat.zero_le k, hstop⟩
      · rcases hstep s hs hstop with ⟨hnext, hlt⟩
        rw [hμ] at hlt
        rcases ih _ hlt hnext rfl with ⟨n, hn, hend⟩
        exact ⟨n + 1, by omega, hend⟩

/-- The machine gets from `s` to `t`, unless the end `t` is lost or a state on
the way is bad. -/
def RunsUnless {σ : Type} (lost bad : σ → Prop) (step : σ → σ) (s t : σ) : Prop :=
  lost t ∨ (∃ u, Runs step s u ∧ bad u) ∨ Runs step s t

namespace RunsUnless

variable {σ : Type} {lost bad : σ → Prop} {step : σ → σ} {s t u : σ}

theorem of_lost (h : lost t) : RunsUnless lost bad step s t := .inl h

theorem of_bad (hs : Runs step s u) (h : bad u) : RunsUnless lost bad step s t :=
  .inr (.inl ⟨u, hs, h⟩)

theorem of_runs (h : Runs step s t) : RunsUnless lost bad step s t := .inr (.inr h)

/-- First a run that is known, then one that may go wrong. -/
theorem runs_trans (h : Runs step s t) (h' : RunsUnless lost bad step t u) :
    RunsUnless lost bad step s u := by
  rcases h' with hlost | ⟨v, hv, hbad⟩ | hrun
  · exact .of_lost hlost
  · exact .of_bad (h.trans hv) hbad
  · exact .of_runs (h.trans hrun)

theorem head (h : RunsUnless lost bad step (step s) t) : RunsUnless lost bad step s t :=
  runs_trans .single h

/-- Two runs, when the second end is lost with the first. -/
theorem trans (h : RunsUnless lost bad step s t) (h' : RunsUnless lost bad step t u)
    (hlost : lost t → lost u) : RunsUnless lost bad step s u := by
  rcases h with ht | ⟨v, hv, hbad⟩ | hrun
  · exact .of_lost (hlost ht)
  · exact .of_bad hv hbad
  · exact runs_trans hrun h'

/-- Where nothing goes wrong the machine gets there. -/
theorem runs (h : RunsUnless lost bad step s t) (ht : ¬ lost t)
    (hs : ∀ u, Runs step s u → ¬ bad u) : Runs step s t := by
  rcases h with hlost | ⟨u, hu, hbad⟩ | hrun
  · exact absurd hlost ht
  · exact absurd hbad (hs u hu)
  · exact hrun

end RunsUnless

/-! ## Stuttering -/

/-- The second machine follows the first one: each of its steps is a step of the first,
or leaves that where it is and makes the rank smaller. -/
structure Follows {σ τ : Type} (step : σ → σ) (step' : τ → τ) (R : σ → τ → Prop)
    (rank : τ → Nat) : Prop where
  follow : ∀ s t, R s t → R (step s) (step' t) ∨ (R s (step' t) ∧ rank (step' t) < rank t)

namespace Follows

variable {σ τ : Type} {step : σ → σ} {step' : τ → τ} {R : σ → τ → Prop} {rank : τ → Nat}

/-- Where the second machine gets, the first one has been. -/
theorem reached (h : Follows step step' R rank) {s : σ} {t : τ} (hR : R s t) (n : Nat) :
    ∃ k ≤ n, R (step^[k] s) (step'^[n] t) := by
  induction n with
  | zero => exact ⟨0, Nat.le_refl 0, hR⟩
  | succ n ih =>
      rcases ih with ⟨k, hk, hrel⟩
      rw [Function.iterate_succ_apply']
      rcases h.follow _ _ hrel with hstep | ⟨hstay, -⟩
      · refine ⟨k + 1, Nat.succ_le_succ hk, ?_⟩
        rw [Function.iterate_succ_apply']
        exact hstep
      · exact ⟨k, Nat.le_succ_of_le hk, hstay⟩

/-- The second machine gets to the next step of the first. -/
theorem next (h : Follows step step' R rank) {s : σ} {t : τ} (hR : R s t) :
    ∃ k, 0 < k ∧ R (step s) (step'^[k] t) := by
  induction hrank : rank t using Nat.strongRecOn generalizing t with
  | ind r ih =>
      rcases h.follow s t hR with hstep | ⟨hstay, hlt⟩
      · exact ⟨1, Nat.one_pos, hstep⟩
      · rcases ih _ (hrank ▸ hlt) hstay rfl with ⟨k, -, hrel⟩
        exact ⟨k + 1, Nat.succ_pos k, hrel⟩

/-- Where the first machine gets, the second one gets, in no fewer steps. -/
theorem reaches (h : Follows step step' R rank) {s : σ} {t : τ} (hR : R s t) (n : Nat) :
    ∃ k, n ≤ k ∧ R (step^[n] s) (step'^[k] t) := by
  induction n with
  | zero => exact ⟨0, Nat.le_refl 0, hR⟩
  | succ n ih =>
      rcases ih with ⟨k, hk, hrel⟩
      rcases h.next hrel with ⟨j, hj, hnext⟩
      refine ⟨j + k, by omega, ?_⟩
      rw [Function.iterate_succ_apply', Function.iterate_add_apply]
      exact hnext

end Follows
