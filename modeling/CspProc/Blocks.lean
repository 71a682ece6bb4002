import CspProc.Arithmetic
import CspProc.Lib.Polling

/-! # Blocks

`proc_runtime_block` as a loop that polls, followed step by step without a bound
on the number of polls. `block_returns` is the connection to
`procRuntimeBlock`, which follows a block for a number of polls only.

An instruction that is a condition fails for both kinds of error. A block ends
for one of them only, and polls on after the other.
-/

namespace CspProc

open Polling (Verdict Ending)

/-- `_if_else_flag <= IF_ELSE_FLAG_ERR`: `proc_instructions_exec` fails for this
result of a condition. -/
def Condition.IsError (c : Condition) : Prop := c.flag.code ≤ IfElseFlag.err.code

instance (c : Condition) : Decidable c.IsError :=
  inferInstanceAs (Decidable (c.flag.code ≤ IfElseFlag.err.code))

theorem Condition.isError_iff {c : Condition} : c.IsError ↔ c = .err ∨ c = .errType := by
  cases c <;> decide

/-- What `proc_runtime_block` makes of a result: only `IF_ELSE_FLAG_ERR` and
`IF_ELSE_FLAG_TRUE` are asked for. -/
def Condition.verdict : Condition → Verdict
  | .err => .abort
  | .holds => .done
  | .fails | .errType => .again

theorem Condition.verdict_abort_iff {c : Condition} : c.verdict = .abort ↔ c = .err := by
  cases c <;> decide

theorem Condition.verdict_done_iff {c : Condition} : c.verdict = .done ↔ c = .holds := by
  cases c <;> decide

/-- The return values of `proc_runtime_block`. -/
def blockRet : Ending → Int
  | .aborted | .timedOut => -1
  | .finished => 0

namespace RuntimeHost

variable {P F T : Type} (h : RuntimeHost P F T) (ifelse : ProcInstruction)

/-- The loop of a block with the condition of an instruction and a deadline. -/
def polling (deadline : T) : Polling P where
  test := h.clock.before deadline
  poll s := (((h.procRuntimeIfelse ifelse).run s).value.verdict,
    ((h.procRuntimeIfelse ifelse).run s).state)
  wait := h.clock.sleep
  check := h.clock.reached deadline

/-- A block after a number of steps, the first of which comes after its deadline
is computed. -/
def blockRun (s : P) (n : Nat) : Polling.Config P :=
  (h.polling ifelse (h.clock.deadline s).1).run n (h.clock.deadline s).2

/-- The result of the condition where the block is after a number of steps. -/
def pollResult (s : P) (n : Nat) : Condition :=
  ((h.procRuntimeIfelse ifelse).run (h.blockRun ifelse s n).state).value

/-! ## The function -/

variable {h ifelse}

theorem polling_verdict (deadline : T) (s : P) : (h.polling ifelse deadline).verdict s =
    ((h.procRuntimeIfelse ifelse).run (h.clock.before deadline s).2).value.verdict := rfl

/-- The part of `proc_runtime_block` behind its loop. -/
def afterLoop (h : RuntimeHost P F T) (deadline : T) : Option Int → Traced Access P Int
  | some ret => return ret
  | none => do
      let reached ← Traced.tick (h.clock.reached deadline)
      return if reached then -1 else 0

theorem procRuntimeBlock_eq (node : UInt16) (a : CStr) (op : UInt32) (b : CStr) :
    h.procRuntimeBlock ⟨node, .block a op b⟩ =
      Traced.tick h.clock.deadline >>= fun deadline =>
        h.blockLoop (h.procRuntimeIfelse ⟨node, .ifelse a op b⟩) deadline h.maxPolls >>=
          h.afterLoop deadline := by
  unfold procRuntimeBlock
  congr

section Rounds

variable {deadline : T} {polls : Nat} {s t : P} {ret : Option Int}

theorem blockLoop_test (htest : (h.clock.before deadline s).1 = false) :
    (h.blockLoop (h.procRuntimeIfelse ifelse) deadline (polls + 1)).Returns s none
      (h.clock.before deadline s).2 := by
  refine (Traced.returns_tick _ s).bind ?_
  rw [htest]
  exact Traced.returns_pure none _

/-- A round whose poll is made, by the result of the poll. -/
theorem blockLoop_poll (htest : (h.clock.before deadline s).1 = true)
    (hrest : match (h.polling ifelse deadline).verdict s with
      | .abort => ret = some (-1) ∧ (h.polling ifelse deadline).polled s = t
      | .done => ret = none ∧ (h.polling ifelse deadline).polled s = t
      | .again => (h.blockLoop (h.procRuntimeIfelse ifelse) deadline polls).Returns
          ((h.polling ifelse deadline).round s) ret t) :
    (h.blockLoop (h.procRuntimeIfelse ifelse) deadline (polls + 1)).Returns s ret t := by
  refine (Traced.returns_tick _ s).bind ?_
  rw [htest, if_pos rfl]
  refine Traced.Returns.bind ⟨rfl, rfl⟩ ?_
  rw [polling_verdict] at hrest
  cases hresult : ((h.procRuntimeIfelse ifelse).run (h.clock.before deadline s).2).value with
  | err =>
      rw [hresult] at hrest
      exact ⟨hrest.1.symm, hrest.2⟩
  | holds =>
      rw [hresult] at hrest
      exact ⟨hrest.1.symm, hrest.2⟩
  | fails =>
      rw [hresult] at hrest
      exact (Traced.returns_tick _ _).bind hrest
  | errType =>
      rw [hresult] at hrest
      exact (Traced.returns_tick _ _).bind hrest

/-- What comes behind a loop that has not returned. -/
theorem afterLoop_none : (h.afterLoop deadline none).Returns s
    (if (h.clock.reached deadline s).1 then -1 else 0) (h.clock.reached deadline s).2 :=
  (Traced.returns_tick _ s).bind (Traced.returns_pure _ _)

end Rounds

theorem blockRet_check (reached : Bool) :
    blockRet (if reached then .timedOut else .finished) = if reached then -1 else 0 := by
  cases reached <;> rfl

/-- A loop whose program ends within the polls that it is followed for, and what
comes behind it. -/
theorem blockLoop_returns {deadline : T} {polls n : Nat} {s t : P} {ending : Ending}
    (hn : n ≤ 3 * polls) (hrun : (h.polling ifelse deadline).run n s = ⟨.ended ending, t⟩) :
    (h.blockLoop (h.procRuntimeIfelse ifelse) deadline polls >>= h.afterLoop deadline).Returns s
      (blockRet ending) t := by
  induction polls generalizing n s with
  | zero =>
      obtain rfl : n = 0 := by omega
      cases hrun
  | succ polls ih =>
      -- the end lasts, so the program can be looked at where a round is over
      have hlast : (h.polling ifelse deadline).run (n + 3) s = ⟨.ended ending, t⟩ :=
        Polling.run_ended hrun (Nat.le_add_right n 3)
      cases htest : (h.clock.before deadline s).1 with
      | false =>
          have hend := Polling.run_ended (Polling.run_two_check (m := h.polling ifelse deadline)
            htest) (k := n + 3) (by omega)
          rw [hlast] at hend
          cases hend
          rw [blockRet_check]
          exact (blockLoop_test htest).bind afterLoop_none
      | true =>
          cases hverdict : (h.polling ifelse deadline).verdict s with
          | abort =>
              have htwo := Polling.run_two (m := h.polling ifelse deadline) htest
              rw [hverdict] at htwo
              have hend := Polling.run_ended htwo (k := n + 3) (by omega)
              rw [hlast] at hend
              cases hend
              have hloop : (h.blockLoop (h.procRuntimeIfelse ifelse) deadline (polls + 1)).Returns s
                  (some (-1)) ((h.polling ifelse deadline).polled s) := by
                refine blockLoop_poll htest ?_
                rw [hverdict]
                exact ⟨rfl, rfl⟩
              exact hloop.bind (Traced.returns_pure _ _)
          | done =>
              have hend := Polling.run_ended (Polling.run_done htest hverdict) (k := n + 3)
                (by omega)
              rw [hlast] at hend
              cases hend
              have hloop : (h.blockLoop (h.procRuntimeIfelse ifelse) deadline (polls + 1)).Returns s
                  none ((h.polling ifelse deadline).polled s) := by
                refine blockLoop_poll htest ?_
                rw [hverdict]
                exact ⟨rfl, rfl⟩
              rw [blockRet_check]
              exact hloop.bind afterLoop_none
          | again =>
              -- an end has not been reached within the first round
              have hthree : 3 ≤ n := by
                by_contra hlt
                have htwo := Polling.run_two (m := h.polling ifelse deadline) htest
                rw [hverdict, Polling.run_ended hrun (Nat.lt_succ_iff.mp (not_le.mp hlt))] at htwo
                cases htwo
              obtain ⟨k, rfl⟩ := Nat.exists_eq_add_of_le' hthree
              rw [Polling.run_round htest hverdict] at hrun
              have hrest := ih (by omega) hrun
              refine Traced.Returns.bind (blockLoop_poll htest ?_) hrest
              rw [hverdict]
              exact ⟨rfl, rfl⟩

/-- `proc_runtime_block` returns what its program ends with, if the program ends
within the polls that the block is followed for. -/
theorem block_returns {node : UInt16} {a b : CStr} {op : UInt32} {s t : P} {n : Nat}
    {ending : Ending} (hn : n ≤ 3 * h.maxPolls)
    (hrun : h.blockRun ⟨node, .ifelse a op b⟩ s n = ⟨.ended ending, t⟩) :
    (h.procRuntimeBlock ⟨node, .block a op b⟩).Returns s (blockRet ending) t := by
  rw [procRuntimeBlock_eq]
  exact (Traced.returns_tick h.clock.deadline s).bind (blockLoop_returns hn hrun)

/-! ## Errors -/

/-- After this number of steps the block makes its first poll with an error. -/
structure FirstError (h : RuntimeHost P F T) (ifelse : ProcInstruction) (s : P) (n : Nat) :
    Prop where
  polls : (h.blockRun ifelse s n).phase = .poll
  error : (h.pollResult ifelse s n).IsError
  first : ∀ m < n, (h.blockRun ifelse s m).phase = .poll → ¬ (h.pollResult ifelse s m).IsError

/-- The block returns something other than zero right behind its poll, and does
nothing afterwards. -/
def FailsAtOnce (h : RuntimeHost P F T) (ifelse : ProcInstruction) (s : P) (n : Nat) : Prop :=
  ∃ ending, blockRet ending ≠ 0 ∧ ∀ m > n, h.blockRun ifelse s m =
    ⟨.ended ending, ((h.procRuntimeIfelse ifelse).run (h.blockRun ifelse s n).state).state⟩

theorem blockRun_succ (s : P) (n : Nat) : h.blockRun ifelse s (n + 1) =
    (h.polling ifelse (h.clock.deadline s).1).step (h.blockRun ifelse s n) := Polling.run_succ

/-- A block fails at its first error exactly if that is `IF_ELSE_FLAG_ERR`. -/
theorem fails_at_once_iff {s : P} {n : Nat} (hfirst : h.FirstError ifelse s n) :
    h.FailsAtOnce ifelse s n ↔ h.pollResult ifelse s n = .err := by
  obtain ⟨u, hu⟩ : ∃ u, h.blockRun ifelse s n = ⟨.poll, u⟩ :=
    ⟨_, congrArg (Polling.Config.mk · _) hfirst.polls⟩
  have hnext : h.blockRun ifelse s (n + 1) =
      (h.polling ifelse (h.clock.deadline s).1).step ⟨.poll, u⟩ := by rw [← hu, blockRun_succ]
  rw [FailsAtOnce, pollResult, hu]
  constructor
  · rintro ⟨ending, -, hended⟩
    -- the step behind the poll ends the program only for a poll that aborts it
    have hphase := congrArg Polling.Config.phase (hended (n + 1) (Nat.lt_succ_self n))
    rw [hnext, Polling.step_poll_ended_iff] at hphase
    exact Condition.verdict_abort_iff.mp hphase.1
  · intro herr
    have hended : h.blockRun ifelse s (n + 1) =
        ⟨.ended .aborted, ((h.procRuntimeIfelse ifelse).run u).state⟩ := by
      rw [hnext]
      simp only [Polling.step, polling, herr, Condition.verdict]
    refine ⟨.aborted, by decide, ?_⟩
    intro m hm
    exact Polling.run_ended hended hm

end RuntimeHost

/-- The node with the address 1 under the other runtime. -/
def hostTicks : RuntimeHost (List (Param × UInt64)) Float UInt32 where
  toHost := hostOne.toHost
  clock := .freertos (fun s => (0, s)) id 5000000
  maxPolls := 1

/-- `proc block k < `, with the name of no parameter. -/
def waitingForNone : ProcInstruction := ⟨0, .ifelse nameK 2 .nil⟩

theorem fails_at_once_waitingForNone :
    hostTicks.FirstError waitingForNone smallNumbers 1 ∧
      hostTicks.FailsAtOnce waitingForNone smallNumbers 1 := by
  have hfirst : hostTicks.FirstError waitingForNone smallNumbers 1 := by
    refine ⟨by decide, by decide, ?_⟩
    intro m hm hpoll
    obtain rfl := Nat.lt_one_iff.mp hm
    cases hpoll
  exact ⟨hfirst, (RuntimeHost.fails_at_once_iff hfirst).mpr (by decide)⟩

/-- `proc block k < l`. -/
def waitingForLess : ProcInstruction := ⟨0, .ifelse nameK 2 nameL⟩

/-- An unsigned and a signed number. -/
def clashingNumbers : List (Param × UInt64) := numbers (.uint8, 1) (.int8, 2) (.uint8, 0)

/-- The two numbers cannot be compared, and the block polls again, on both
runtimes. -/
theorem type_error_polls_again :
    (hostOne.FirstError waitingForLess clashingNumbers 1 ∧
      (hostOne.blockRun waitingForLess clashingNumbers 4).phase = .poll ∧
      ¬ hostOne.FailsAtOnce waitingForLess clashingNumbers 1) ∧
    (hostTicks.FirstError waitingForLess clashingNumbers 1 ∧
      (hostTicks.blockRun waitingForLess clashingNumbers 4).phase = .poll ∧
      ¬ hostTicks.FailsAtOnce waitingForLess clashingNumbers 1) := by
  have hposix : (hostOne.blockRun waitingForLess clashingNumbers 4).phase = .poll := by decide
  have hticks : (hostTicks.blockRun waitingForLess clashingNumbers 4).phase = .poll := by decide
  refine ⟨⟨⟨by decide, by decide, ?_⟩, hposix, ?_⟩, ⟨by decide, by decide, ?_⟩, hticks, ?_⟩
  · intro m hm hpoll
    obtain rfl := Nat.lt_one_iff.mp hm
    cases hpoll
  · rintro ⟨ending, -, hended⟩
    rw [hended 4 (by decide)] at hposix
    cases hposix
  · intro m hm hpoll
    obtain rfl := Nat.lt_one_iff.mp hm
    cases hpoll
  · rintro ⟨ending, -, hended⟩
    rw [hended 4 (by decide)] at hticks
    cases hticks

end CspProc
