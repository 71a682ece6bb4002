import Mathlib.Logic.Function.Iterate
import Mathlib.Order.Monotone.Basic

/-! # Loops that poll

A loop polls a condition as long as a test passes, and waits after each poll. A
poll lets the loop go on, ends it, or aborts the program; at the end of the loop
a last check says whether the time is up. Test, poll, wait and check are
functions of a state of which nothing is known.

`Polling.run` follows the program step by step. `Polling.round` is one round of
the loop whatever the test says, so that `Polling.round` iterated gives the
polls that there would be without a deadline.
-/

/-- What a poll says about the loop. -/
inductive Polling.Verdict where
  | again
  | done
  | abort
deriving DecidableEq, Repr

/-- How the program ends. -/
inductive Polling.Ending where
  | aborted
  | finished
  | timedOut
deriving DecidableEq, Repr

/-- Where the program is. -/
inductive Polling.Phase where
  | test
  | poll
  | wait
  | check
  | ended (ending : Polling.Ending)
deriving DecidableEq, Repr

/-- A state of the program. -/
structure Polling.Config (σ : Type) where
  phase : Polling.Phase
  state : σ

/-- The parts of a loop that polls. -/
structure Polling (σ : Type) where
  test : σ → Bool × σ
  poll : σ → Polling.Verdict × σ
  wait : σ → σ
  check : σ → Bool × σ

namespace Polling

variable {σ : Type} (m : Polling σ)

/-- One step. -/
def step (c : Config σ) : Config σ :=
  match c.phase with
  | .test => ⟨if (m.test c.state).1 then .poll else .check, (m.test c.state).2⟩
  | .poll =>
      match (m.poll c.state).1 with
      | .again => ⟨.wait, (m.poll c.state).2⟩
      | .done => ⟨.check, (m.poll c.state).2⟩
      | .abort => ⟨.ended .aborted, (m.poll c.state).2⟩
  | .wait => ⟨.test, m.wait c.state⟩
  | .check =>
      ⟨.ended (if (m.check c.state).1 then .timedOut else .finished), (m.check c.state).2⟩
  | .ended _ => c

/-- After a number of steps. -/
def run (n : Nat) (s : σ) : Config σ := m.step^[n] ⟨.test, s⟩

/-- The state after the test and the poll of a round. -/
def polled (s : σ) : σ := (m.poll (m.test s).2).2

/-- What the poll of a round says. -/
def verdict (s : σ) : Verdict := (m.poll (m.test s).2).1

/-- The state after a round. -/
def round (s : σ) : σ := m.wait (m.polled s)

/-! ## Steps -/

variable {m} {s : σ} {n : Nat}

theorem run_succ : m.run (n + 1) s = m.step (m.run n s) := Function.iterate_succ_apply' ..

@[simp] theorem step_ended (ending : Ending) (s : σ) :
    m.step ⟨.ended ending, s⟩ = ⟨.ended ending, s⟩ := rfl

/-- A program that has ended stays as it is. -/
theorem run_ended {ending : Ending} {t : σ} (h : m.run n s = ⟨.ended ending, t⟩) {k : Nat}
    (hk : n ≤ k) : m.run k s = ⟨.ended ending, t⟩ := by
  induction k, hk using Nat.le_induction with
  | base => exact h
  | succ k _ ih => rw [run_succ, ih, step_ended]

theorem run_one : m.run 1 s = ⟨if (m.test s).1 then .poll else .check, (m.test s).2⟩ := rfl

/-- A test that passes is followed by the poll. -/
theorem run_two (htest : (m.test s).1 = true) :
    m.run 2 s = match m.verdict s with
      | .again => ⟨.wait, m.polled s⟩
      | .done => ⟨.check, m.polled s⟩
      | .abort => ⟨.ended .aborted, m.polled s⟩ := by
  rw [run_succ, run_one, htest]
  rfl

/-- A test that fails is followed by the check. -/
theorem run_two_check (htest : (m.test s).1 = false) :
    m.run 2 s = ⟨.ended (if (m.check (m.test s).2).1 then .timedOut else .finished),
      (m.check (m.test s).2).2⟩ := by
  rw [run_succ, run_one, htest]
  rfl

/-- The loop is back at its test after three steps. -/
theorem run_round (htest : (m.test s).1 = true) (hagain : m.verdict s = .again) :
    m.run (n + 3) s = m.run n (m.round s) := by
  have hthree : m.run 3 s = ⟨.test, m.round s⟩ := by
    rw [run_succ, run_two htest, hagain]
    rfl
  rw [run, Function.iterate_add_apply]
  exact congrArg (m.step^[n]) hthree

/-- A poll that succeeds is followed by the check. -/
theorem run_done (htest : (m.test s).1 = true) (hdone : m.verdict s = .done) :
    m.run 3 s = ⟨.ended (if (m.check (m.polled s)).1 then .timedOut else .finished),
      (m.check (m.polled s)).2⟩ := by
  rw [run_succ, run_two htest, hdone]
  rfl

/-- A poll aborts the program at once exactly if it says so. -/
theorem step_poll_ended_iff {ending : Ending} :
    (m.step ⟨.poll, s⟩).phase = .ended ending ↔
      (m.poll s).1 = .abort ∧ ending = .aborted := by
  unfold step
  dsimp only
  cases (m.poll s).1 with
  | again => simp
  | done => simp
  | abort => simp [eq_comm]

/-! ## Runs -/

/-- The program finishes when a poll succeeds, no poll before it aborts, and the
tests before it pass. The check behind the first poll that succeeds decides, so
it is asked for all of them. -/
theorem exists_finished {k : Nat} (hdone : m.verdict (m.round^[k] s) = .done)
    (hgoes : ∀ j < k, m.verdict (m.round^[j] s) ≠ .abort)
    (htest : ∀ j ≤ k, (m.test (m.round^[j] s)).1 = true)
    (hcheck : ∀ j ≤ k, (m.check (m.polled (m.round^[j] s))).1 = false) :
    ∃ n t, m.run n s = ⟨.ended .finished, t⟩ := by
  induction k generalizing s with
  | zero =>
      have hintime : (m.check (m.polled s)).1 = false := hcheck 0 le_rfl
      refine ⟨3, (m.check (m.polled s)).2, ?_⟩
      have hpass : (m.test s).1 = true := htest 0 le_rfl
      have hfirst : m.verdict s = .done := hdone
      rw [run_done hpass hfirst, hintime]
      rfl
  | succ k ih =>
      have hpass : (m.test s).1 = true := htest 0 (Nat.zero_le _)
      cases hverdict : m.verdict s with
      | abort => exact absurd hverdict (hgoes 0 (Nat.succ_pos k))
      | done =>
          have hintime : (m.check (m.polled s)).1 = false := hcheck 0 (Nat.zero_le _)
          refine ⟨3, (m.check (m.polled s)).2, ?_⟩
          rw [run_done hpass hverdict, hintime]
          rfl
      | again =>
          -- the rounds from the second one on are those of a shorter run
          rcases ih hdone (fun j hj => hgoes (j + 1) (Nat.succ_lt_succ hj))
            (fun j hj => htest (j + 1) (Nat.succ_le_succ hj))
            (fun j hj => hcheck (j + 1) (Nat.succ_le_succ hj)) with ⟨n, t, hrun⟩
          exact ⟨n + 3, t, by rw [run_round hpass hverdict, hrun]⟩

/-! ## Time -/

section Time

variable {τ : Type} [Preorder τ]

/-- No part of the loop takes the time back. -/
structure Forward (m : Polling σ) (time : σ → τ) : Prop where
  test : ∀ s, time s ≤ time (m.test s).2
  poll : ∀ s, time s ≤ time (m.poll s).2
  wait : ∀ s, time s ≤ time (m.wait s)

namespace Forward

variable {time : σ → τ}

theorem polled (h : Forward m time) (s : σ) : time s ≤ time (m.polled s) :=
  (h.test s).trans (h.poll _)

/-- The polls are in the order of the time. -/
theorem polled_mono (h : Forward m time) (s : σ) :
    Monotone fun k => time (m.polled (m.round^[k] s)) := by
  refine monotone_nat_of_le_succ ?_
  intro k
  rw [Function.iterate_succ_apply']
  exact (h.wait _).trans (h.polled _)

end Forward

end Time

end Polling
