import CspProc.Registry
import CspProc.Stopping

/-! # The limit on concurrent runs

`proc_runtime_run` for any number of calls, interleaved step by step with each
other and with the runs that finish, on both platforms. The count is tested at
the beginning of a call, without the registry's mutex, and changed at its end;
the procedure is fetched and copied, the mutex taken and a thread (or task)
created in between, and none of this looks at the count again.

* `next_taken` — a call that has passed its test takes up a place until it
  is added or gives up;
* `limit_kept` — the limit holds where a test is passed only while there is a
  place for the call and for all that have passed before it.
-/

namespace CspProc

/-! ## State -/

/-- Where a call of `proc_runtime_run` is:
* `tested` — behind the test of the count;
* `fetched` — with the procedure of its slot, which has instructions;
* `copied` — with its own copy, at the lock of the registry's mutex;
* `locked` — in its critical section;
* `created` — in it, with a thread that is not in the registry yet;
* `added` — in it, behind the addition;
* `returned` — with its result. -/
inductive CallPhase where
  | tested (procSlot : UInt8)
  | fetched (storedProc : Proc)
  | copied (detachedProc : Proc)
  | locked (detachedProc : Proc)
  | created (detachedProc : Proc) (thread : Nat)
  | added
  | returned (ret : Int)
deriving DecidableEq, Repr

/-- The call has passed its test and may still be added. -/
def CallPhase.isInFlight : CallPhase → Bool
  | tested _ | fetched _ | copied _ | locked _ | created .. => true
  | added | returned _ => false

/-- Where a thread is in `runtime_thread` (a task in `runtime_task`): before its
clean-up, in its critical section, behind the removal of its entry there, or
ended. -/
inductive CleanUpPhase where
  | running
  | locked
  | removed
  | ended
deriving DecidableEq, Repr

/-- Who holds the registry's mutex. -/
inductive RegistryHolder where
  | call (id : Nat)
  | thread (id : Nat)
deriving DecidableEq, Repr

/-- The registry next to the store, with all calls that were made and all
threads that were started, by number. -/
structure Admission where
  store : Store
  runningThreads : List RunningThread
  runningThreadsCount : Nat
  mutex : Option RegistryHolder
  calls : List CallPhase
  threads : List CleanUpPhase

namespace Admission

/-- After `proc_runtime_init`. -/
def init (store : Store) : Admission := ⟨store, [], 0, none, [], []⟩

/-- The call is in another phase. -/
def setCall (a : Admission) (id : Nat) (phase : CallPhase) : Admission :=
  { a with calls := a.calls.set id phase }

/-- The thread is in another phase. -/
def setThread (a : Admission) (id : Nat) (phase : CleanUpPhase) : Admission :=
  { a with threads := a.threads.set id phase }

/-- The mutex is given back. -/
def unlock (a : Admission) : Admission := { a with mutex := none }

/-! ## Steps -/

/-- A step: a call with its test, the steps of a call after it, those of a thread
from its clean-up on, or a change of the store. `lockFails` is a take of the
mutex that fails, for which only the tasks have a branch, and `fail` an end
without a clean-up. -/
inductive Input where
  | test (procSlot : UInt8)
  | getProc (call : Nat) (mutexTake : Bool)
  | copy (call : Nat) (copyOk : Bool)
  | lock (call : Nat)
  | lockFails (call : Nat)
  | create (call : Nat) (createOk : Bool)
  | add (call : Nat)
  | unlock (call : Nat)
  | fail (thread : Nat)
  | lockThread (thread : Nat)
  | lockThreadFails (thread : Nat)
  | remove (thread : Nat)
  | unlockThread (thread : Nat)
  | edit (store : Store)

/-- `proc_runtime_run` begins: it returns at once where the limit is reached. -/
def test (maxProcConcurrent : Nat) (a : Admission) (procSlot : UInt8) : Admission :=
  { a with
    calls := a.calls ++
      [if a.runningThreadsCount ≥ maxProcConcurrent then .returned (-1) else .tested procSlot] }

/-- `get_proc`, and the checks of what it returns. The error number that it
returns for the store's mutex is dereferenced. -/
def fetch (a : Admission) (call : Nat) (procSlot : UInt8) (mutexTake : Bool) : Option Admission :=
  match a.store.getProc mutexTake procSlot with
  | .null => some (a.setCall call (.returned (-1)))
  | .mutexErr => none
  | .found storedProc =>
      if storedProc.instructionCount = 0 then some (a.setCall call (.returned (-1)))
      else some (a.setCall call (.fetched storedProc))

/-- The new thread is added to the array. -/
def addThread (a : Admission) (detachedProc : Proc) (thread : Nat) : Admission :=
  { a with
    runningThreads := a.runningThreads ++ [⟨detachedProc, thread⟩]
    runningThreadsCount := a.runningThreadsCount + 1 }

/-- A thread removes its entry from the array. -/
def removeThread (a : Admission) (thread : Nat) : Admission :=
  match (a.runningThreads.take a.runningThreadsCount).findIdx? fun r => r.thread = thread with
  | some i =>
      { a with
        runningThreads := a.runningThreads.swapRemove i
        runningThreadsCount := a.runningThreadsCount - 1 }
  | none => a

/-- One step. There is none for a call or a thread that is somewhere else, or that
has to wait for the mutex. -/
def next (platform : Platform) (maxProcConcurrent : Nat) (a : Admission) :
    Input → Option Admission
  | .test procSlot => some (a.test maxProcConcurrent procSlot)
  | .getProc call mutexTake =>
      match a.calls[call]? with
      | some (.tested procSlot) => a.fetch call procSlot mutexTake
      | _ => none
  | .copy call copyOk =>
      match a.calls[call]? with
      | some (.fetched storedProc) =>
          some (a.setCall call (if copyOk then .copied storedProc else .returned (-1)))
      | _ => none
  | .lock call =>
      match a.calls[call]?, a.mutex with
      | some (.copied detachedProc), none =>
          some { a.setCall call (.locked detachedProc) with mutex := some (.call call) }
      | _, _ => none
  | .lockFails call =>
      match platform, a.calls[call]? with
      | .freertos, some (.copied _) => some (a.setCall call (.returned (-1)))
      | _, _ => none
  | .create call createOk =>
      match a.calls[call]? with
      | some (.locked detachedProc) =>
          if createOk then
            some { a.setCall call (.created detachedProc a.threads.length) with
              threads := a.threads ++ [.running] }
          else some (a.setCall call (.returned (-1))).unlock
      | _ => none
  | .add call =>
      match a.calls[call]? with
      | some (.created detachedProc thread) =>
          some ((a.addThread detachedProc thread).setCall call .added)
      | _ => none
  | .unlock call =>
      match a.calls[call]? with
      | some .added => some (a.setCall call (.returned 0)).unlock
      | _ => none
  | .fail thread =>
      match a.threads[thread]? with
      | some .running => some (a.setThread thread .ended)
      | _ => none
  | .lockThread thread =>
      match a.threads[thread]?, a.mutex with
      | some .running, none =>
          some { a.setThread thread .locked with mutex := some (.thread thread) }
      | _, _ => none
  | .lockThreadFails thread =>
      match platform, a.threads[thread]? with
      | .freertos, some .running => some (a.setThread thread .ended)
      | _, _ => none
  | .remove thread =>
      match a.threads[thread]? with
      | some .locked => some ((a.removeThread thread).setThread thread .removed)
      | _ => none
  | .unlockThread thread =>
      match a.threads[thread]? with
      | some .removed => some (a.setThread thread .ended).unlock
      | _ => none
  | .edit store => some { a with store := store }

/-! ## Calls in flight -/

/-- The number of calls that have passed their test and may still be added. -/
def inFlight (a : Admission) : Nat := a.calls.countP CallPhase.isInFlight

/-- A call that comes to another phase counts there. -/
theorem inFlight_setCall {a : Admission} {id : Nat} {old : CallPhase}
    (hold : a.calls[id]? = some old) (new : CallPhase) :
    (a.setCall id new).inFlight + old.isInFlight.toNat = a.inFlight + new.isInFlight.toNat := by
  rcases List.getElem?_eq_some_iff.mp hold with ⟨hlt, rfl⟩
  have hcounted : a.calls[id].isInFlight.toNat ≤ a.calls.countP CallPhase.isInFlight := by
    cases hin : a.calls[id].isInFlight with
    | false => exact Nat.zero_le _
    | true => exact List.countP_pos_iff.mpr ⟨_, List.getElem_mem hlt, hin⟩
  have htoNat : ∀ b : Bool, (if b = true then 1 else 0) = b.toNat := by
    intro b
    cases b with
    | false => rfl
    | true => rfl
  rw [inFlight, setCall, List.countP_set hlt, htoNat, htoNat, inFlight]
  omega

/-- The places that are taken: by the threads of the registry, and by the calls
that may still be added. -/
def taken (a : Admission) : Nat := a.runningThreadsCount + a.inFlight

variable {platform : Platform} {maxProcConcurrent : Nat} {a a' : Admission}

/-- Where a call goes on, or gives up, no place is taken. -/
theorem taken_setCall_le {id : Nat} {old new : CallPhase} (hold : a.calls[id]? = some old)
    (hle : new.isInFlight.toNat ≤ old.isInFlight.toNat) : (a.setCall id new).taken ≤ a.taken := by
  have hflight := inFlight_setCall hold new
  have hcount : (a.setCall id new).runningThreadsCount = a.runningThreadsCount := rfl
  unfold taken
  omega

theorem taken_removeThread_le (a : Admission) (thread : Nat) :
    (a.removeThread thread).taken ≤ a.taken := by
  unfold removeThread
  split
  · exact Nat.add_le_add_right (Nat.sub_le _ _) _
  · exact Nat.le_refl _

/-- What is fetched only changes where the call is. -/
theorem fetch_cases {call : Nat} {procSlot : UInt8} {mutexTake : Bool}
    (h : a.fetch call procSlot mutexTake = some a') : ∃ new, a' = a.setCall call new := by
  unfold fetch at h
  split at h
  · cases h
    exact ⟨_, rfl⟩
  · cases h
  · split at h
    · cases h
      exact ⟨_, rfl⟩
    · cases h
      exact ⟨_, rfl⟩

/-- A place is taken by a test that is passed, and by no other step: a call that
is added has had its place before. -/
theorem next_taken {i : Input} (h : a.next platform maxProcConcurrent i = some a') :
    a'.taken ≤ a.taken ∨
      ∃ procSlot, i = .test procSlot ∧ a.runningThreadsCount < maxProcConcurrent ∧
        a'.taken = a.taken + 1 := by
  cases i with
  | test procSlot =>
      cases h
      by_cases hfull : a.runningThreadsCount ≥ maxProcConcurrent
      · left
        simp [taken, inFlight, test, hfull, CallPhase.isInFlight]
      · right
        refine ⟨procSlot, rfl, by omega, ?_⟩
        simp [taken, inFlight, test, hfull, CallPhase.isInFlight]
        omega
  | getProc call mutexTake =>
      left
      simp only [next] at h
      split at h
      case h_1 procSlot hphase =>
        rcases fetch_cases h with ⟨new, rfl⟩
        exact taken_setCall_le hphase (Bool.toNat_le _)
      case h_2 => cases h
  | copy call copyOk =>
      left
      simp only [next] at h
      split at h
      case h_1 storedProc hphase =>
        cases h
        exact taken_setCall_le hphase (Bool.toNat_le _)
      case h_2 => cases h
  | lock call =>
      left
      simp only [next] at h
      split at h
      case h_1 detachedProc hphase _ =>
        cases h
        exact taken_setCall_le hphase (Nat.le_refl 1)
      case h_2 => cases h
  | lockFails call =>
      left
      simp only [next] at h
      split at h
      case h_1 detachedProc hphase =>
        cases h
        exact taken_setCall_le hphase (Nat.zero_le 1)
      case h_2 => cases h
  | create call createOk =>
      left
      simp only [next] at h
      split at h
      case h_1 detachedProc hphase =>
        split at h
        · cases h
          exact taken_setCall_le hphase (Nat.le_refl 1)
        · cases h
          exact taken_setCall_le hphase (Nat.zero_le 1)
      case h_2 => cases h
  | add call =>
      left
      simp only [next] at h
      split at h
      case h_1 detachedProc thread hphase =>
        cases h
        -- the place of the call becomes that of its thread
        have hflight := inFlight_setCall
          (show (a.addThread detachedProc thread).calls[call]? = _ from hphase) .added
        have hsame : (a.addThread detachedProc thread).inFlight = a.inFlight := rfl
        have hcount : ((a.addThread detachedProc thread).setCall call .added).runningThreadsCount =
            a.runningThreadsCount + 1 := rfl
        simp only [CallPhase.isInFlight, Bool.toNat_true, Bool.toNat_false] at hflight
        unfold taken
        omega
      case h_2 => cases h
  | unlock call =>
      left
      simp only [next] at h
      split at h
      case h_1 hphase =>
        cases h
        exact taken_setCall_le hphase (Nat.le_refl 0)
      case h_2 => cases h
  | fail thread =>
      left
      simp only [next] at h
      split at h
      · cases h
        exact Nat.le_refl _
      · cases h
  | lockThread thread =>
      left
      simp only [next] at h
      split at h
      · cases h
        exact Nat.le_refl _
      · cases h
  | lockThreadFails thread =>
      left
      simp only [next] at h
      split at h
      · cases h
        exact Nat.le_refl _
      · cases h
  | remove thread =>
      left
      simp only [next] at h
      split at h
      · cases h
        exact taken_removeThread_le a thread
      · cases h
  | unlockThread thread =>
      left
      simp only [next] at h
      split at h
      · cases h
        exact Nat.le_refl _
      · cases h
  | edit store =>
      cases h
      exact .inl (Nat.le_refl _)

/-! ## The limit -/

/-- A test is passed only while there is a place for the call next to the threads
of the registry and the calls that are in flight. -/
def Admits (maxProcConcurrent : Nat) (a : Admission) : Input → Prop
  | .test _ => a.runningThreadsCount < maxProcConcurrent → a.taken < maxProcConcurrent
  | _ => True

instance (maxProcConcurrent : Nat) (a : Admission) (i : Input) :
    Decidable (Admits maxProcConcurrent a i) := by
  cases i with
  | test => exact inferInstanceAs (Decidable (_ → _))
  | _ => exact inferInstanceAs (Decidable True)

/-- In every run of any number of calls and threads whose tests are passed only
while there is a place, the count never exceeds the limit. -/
theorem limit_kept (platform : Platform) (maxProcConcurrent : Nat) (store : Store)
    {inputs : List Input} {a : Admission}
    (h : Reaches (next platform maxProcConcurrent) (Admits maxProcConcurrent) (init store) inputs
      a) : a.runningThreadsCount ≤ maxProcConcurrent := by
  have htaken : a.taken ≤ maxProcConcurrent := by
    refine h.invariant (P := fun _ a => a.taken ≤ maxProcConcurrent) (Nat.zero_le _) ?_
    intro _ a i a' ha hadmits hnext
    rcases next_taken hnext with hle | ⟨procSlot, rfl, hpassed, htaken⟩
    · exact hle.trans ha
    · have := hadmits hpassed
      omega
  exact (Nat.le_add_right _ _).trans htaken

/-- `MAX_PROC_CONCURRENT` where it is not configured. -/
def defaultMaxProcConcurrent : Nat := 16

/-- What a call does when all goes well, from its second step on. -/
def restOfCall (call : Nat) : List Input :=
  [.getProc call true, .copy call true, .lock call, .create call true, .add call, .unlock call]

/-- 17 calls, each of which goes on when all have passed their tests. -/
def crowd : List Input :=
  List.replicate 17 (.test 2) ++ (List.range 17).flatMap restOfCall

/-- Two runs one after the other, the first of which finishes in between. -/
def queue : List Input :=
  .test 2 :: restOfCall 0 ++ [.lockThread 0, .remove 0, .unlockThread 0] ++
    (.test 2 :: restOfCall 1)

theorem limit_kept_queue : ∃ a,
    Reaches (next .posix defaultMaxProcConcurrent) (Admits defaultMaxProcConcurrent)
      (init Runtime.callsEmptyStore) queue a ∧
    a.runningThreadsCount ≤ defaultMaxProcConcurrent := by
  have htaken : (queue.foldlM (guarded (next .posix defaultMaxProcConcurrent)
      (Admits defaultMaxProcConcurrent)) (init Runtime.callsEmptyStore)).isSome = true := by
    decide +kernel
  have hreaches := Reaches.of_foldlM (Option.some_get htaken).symm
  exact ⟨_, hreaches, limit_kept .posix defaultMaxProcConcurrent Runtime.callsEmptyStore hreaches⟩

/-- Of 17 calls that have all found no run in the registry, every one starts its run. -/
theorem crowd_exceeds_limit :
    (∃ a, Reaches (next .posix defaultMaxProcConcurrent) (fun _ _ => True)
        (init Runtime.callsEmptyStore) crowd a ∧
      a.runningThreadsCount = 17 ∧ defaultMaxProcConcurrent < a.runningThreadsCount) ∧
    ∃ a, Reaches (next .freertos defaultMaxProcConcurrent) (fun _ _ => True)
        (init Runtime.callsEmptyStore) crowd a ∧
      a.runningThreadsCount = 17 ∧ defaultMaxProcConcurrent < a.runningThreadsCount := by
  have hended : ∀ platform : Platform,
      (crowd.foldlM (guarded (next platform defaultMaxProcConcurrent) fun _ _ => True)
        (init Runtime.callsEmptyStore)).map runningThreadsCount = some 17 := by
    intro platform
    cases platform with
    | posix => decide +kernel
    | freertos => decide +kernel
  have hexceeds : ∀ platform : Platform, ∃ a,
      Reaches (next platform defaultMaxProcConcurrent) (fun _ _ => True)
        (init Runtime.callsEmptyStore) crowd a ∧
      a.runningThreadsCount = 17 ∧ defaultMaxProcConcurrent < a.runningThreadsCount := by
    intro platform
    rcases Option.map_eq_some_iff.mp (hended platform) with ⟨a, ha, hcount⟩
    refine ⟨a, .of_foldlM ha, hcount, ?_⟩
    rw [hcount]
    decide
  exact ⟨hexceeds .posix, hexceeds .freertos⟩

end Admission

end CspProc
