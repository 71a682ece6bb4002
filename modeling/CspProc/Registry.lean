import CspProc.CallGraph
import CspProc.Lib.SwapRemove
import CspProc.Lib.System
import CspProc.Server
import Mathlib.Data.List.Nodup
import Mathlib.Data.List.Range

/-! # The registry of running threads

`proc_runtime_run` and `runtime_thread` of the POSIX runtime, for any number of
callers and threads whose steps interleave. A critical section of
`running_threads_mutex` is one step; the check of the count before it is not
part of it. Threads are never joined, so their identifiers are not used again,
and a thread's number is its place in the order of their creation.

What an execution does, and how it ends, does not matter to the registry: it
may end at any time. What a thread does after its last critical section is to
free its own memory, and counts as part of that step.
-/

namespace CspProc

variable {cfg : Config}

/-! ## State -/

/-- `thread_t`. -/
structure RunningThread where
  proc : Proc
  thread : Nat
deriving DecidableEq, Repr

/-- Where a thread is in `runtime_thread`: before the end of its analysis,
before `pthread_key_create`, in `proc_instructions_exec`, or returned. -/
inductive ThreadPhase where
  | analysing (proc : Proc)
  | analysed
  | executing
  | returned
deriving DecidableEq, Repr

/-- The places in the list of threads that have not returned. -/
def ThreadPhase.live (threads : List ThreadPhase) : List Nat :=
  (List.range threads.length).filter fun t => threads[t]? ≠ some .returned

/-- The runtime next to the store: all threads that were started, the number of
keys that were created and never deleted, and for each caller of
`proc_runtime_run` that has passed the checks the copy of its procedure. -/
structure Runtime where
  store : Store
  runningThreads : List RunningThread
  runningThreadsCount : Nat
  threads : List ThreadPhase
  keys : Nat
  callers : Nat → Option Proc

/-- `MAX_PROC_CONCURRENT`, and the number of keys that there can be. -/
structure RuntimeLimits where
  maxProcConcurrent : Nat
  keysMax : Nat

namespace Runtime

/-- After `proc_runtime_init`. -/
def init (store : Store) : Runtime := ⟨store, [], 0, [], 0, fun _ => none⟩

/-- The threads that were started and have not returned, by number. -/
def liveThreads (rt : Runtime) : List Nat := ThreadPhase.live rt.threads

/-! ## `proc_runtime_run` -/

/-- What comes of a call before its critical section. -/
inductive RunCheck where
  | concurrent
  | notFound
  | noInstructions
  | notCopied
  | copied (proc : Proc)
deriving DecidableEq, Repr

/-- `proc_runtime_run` up to its critical section, by whether the store's mutex
is taken and the copy succeeds. The error number that `get_proc` returns for
the mutex is dereferenced. -/
def procRuntimeRun (limits : RuntimeLimits) (rt : Runtime) (procSlot : UInt8)
    (mutexTake copyOk : Bool) : Option RunCheck :=
  if rt.runningThreadsCount ≥ limits.maxProcConcurrent then some .concurrent
  else
    match rt.store.getProc mutexTake procSlot with
    | .null => some .notFound
    | .mutexErr => none
    | .found storedProc =>
        if storedProc.instructionCount = 0 then some .noInstructions
        else if copyOk then some (.copied storedProc)
        else some .notCopied

/-- The critical section of `proc_runtime_run`, by whether the thread can be
created. -/
def spawn (rt : Runtime) (caller : Nat) (detachedProc : Proc) (createOk : Bool) : Runtime :=
  let rt := { rt with callers := Function.update rt.callers caller none }
  if createOk then
    { rt with
      runningThreads := rt.runningThreads ++ [⟨detachedProc, rt.threads.length⟩]
      runningThreadsCount := rt.runningThreadsCount + 1
      threads := rt.threads ++ [.analysing detachedProc] }
  else rt

/-! ## `runtime_thread` -/

/-- The thread is in another phase. -/
def setPhase (rt : Runtime) (thread : Nat) (phase : ThreadPhase) : Runtime :=
  { rt with threads := rt.threads.set thread phase }

/-- Whether the analysis has a result other than an error; it also has none when
an allocation fails. -/
def analysisOk (rt : Runtime) (proc : Proc) (allocOk : Bool) : Bool :=
  allocOk && (runAnalysis rt.store proc).any fun r => r.1 = 0

/-- The critical section of `runtime_thread`. -/
def cleanUp (rt : Runtime) (thread : Nat) : Runtime :=
  match (rt.runningThreads.take rt.runningThreadsCount).findIdx? fun r => r.thread = thread with
  | some i =>
      { rt with
        runningThreads := rt.runningThreads.swapRemove i
        runningThreadsCount := rt.runningThreadsCount - 1 }
  | none => rt

/-- A step of the server, of a caller of `proc_runtime_run` or of a thread. -/
inductive Input (cfg : Config) where
  | serve (env : Env) (packet : Packet cfg)
  | check (caller : Nat) (procSlot : UInt8) (mutexTake copyOk : Bool)
  | spawn (caller : Nat) (createOk : Bool)
  | analyze (thread : Nat) (allocOk : Bool)
  | createKey (thread : Nat)
  | finish (thread : Nat)

/-- One step. There is none for a caller or a thread that is somewhere else. -/
def next (limits : RuntimeLimits) (rt : Runtime) : Input cfg → Option Runtime
  | .serve env packet =>
      (procServe env rt.store packet).result.map fun r => { rt with store := r.store }
  | .check caller procSlot mutexTake copyOk =>
      match rt.callers caller with
      | some _ => none
      | none =>
          (rt.procRuntimeRun limits procSlot mutexTake copyOk).map fun
            | .copied proc => { rt with callers := Function.update rt.callers caller (some proc) }
            | _ => rt
  | .spawn caller createOk =>
      (rt.callers caller).map fun proc => rt.spawn caller proc createOk
  | .analyze thread allocOk =>
      match rt.threads[thread]? with
      | some (.analysing proc) =>
          some (rt.setPhase thread (if rt.analysisOk proc allocOk then .analysed else .returned))
      | _ => none
  | .createKey thread =>
      match rt.threads[thread]? with
      | some .analysed =>
          if rt.keys < limits.keysMax then
            some { rt.setPhase thread .executing with keys := rt.keys + 1 }
          else some (rt.setPhase thread .returned)
      | _ => none
  | .finish thread =>
      match rt.threads[thread]? with
      | some .executing => some ((rt.cleanUp thread).setPhase thread .returned)
      | _ => none

/-! ## Exactness -/

/-- The registry is exact: it holds each thread that was started and has not
returned once, and no other, and the count is their number. -/
structure RegistryExact (rt : Runtime) : Prop where
  threads : (rt.runningThreads.map RunningThread.thread).Perm rt.liveThreads
  count : rt.runningThreadsCount = rt.runningThreads.length

/-- The step does not let a thread return early: its allocations succeed, its
procedure calls no empty slot, and there is a key left. -/
def noEarlyReturn (limits : RuntimeLimits) (rt : Runtime) : Input cfg → Bool
  | .analyze thread allocOk =>
      match rt.threads[thread]? with
      | some (.analysing proc) =>
          allocOk && decide (AllOccupied rt.store (callSlots proc.instructions))
      | _ => true
  | .createKey _ => rt.keys < limits.keysMax
  | _ => true

/-! ## Live threads -/

section Live

variable {threads : List ThreadPhase} {thread : Nat}

theorem mem_live : thread ∈ ThreadPhase.live threads ↔
    ∃ phase, threads[thread]? = some phase ∧ phase ≠ .returned := by
  simp only [ThreadPhase.live, List.mem_filter, List.mem_range, decide_eq_true_eq]
  constructor
  · rintro ⟨hlt, hne⟩
    refine ⟨threads[thread], List.getElem?_eq_getElem hlt, fun heq => hne ?_⟩
    rw [List.getElem?_eq_getElem hlt, heq]
  · rintro ⟨phase, hphase, hne⟩
    rcases List.getElem?_eq_some_iff.mp hphase with ⟨hlt, -⟩
    exact ⟨hlt, by simpa [hphase] using hne⟩

/-- A thread that goes on is still live. -/
theorem live_set {phase : ThreadPhase} (hlive : thread ∈ ThreadPhase.live threads)
    (hne : phase ≠ .returned) :
    ThreadPhase.live (threads.set thread phase) = ThreadPhase.live threads := by
  rcases mem_live.mp hlive with ⟨old, hold, holdne⟩
  rcases List.getElem?_eq_some_iff.mp hold with ⟨hlt, -⟩
  simp only [ThreadPhase.live, List.length_set]
  refine List.filter_congr fun t _ => ?_
  by_cases heq : t = thread
  · subst heq
    rw [List.getElem?_set_self hlt, hold]
    simp [hne, holdne]
  · rw [List.getElem?_set_ne (Ne.symm heq)]

/-- A thread that returns is live no more. -/
theorem live_set_returned (hlive : thread ∈ ThreadPhase.live threads) :
    (ThreadPhase.live threads).Perm
      (thread :: ThreadPhase.live (threads.set thread .returned)) := by
  have herase : ThreadPhase.live (threads.set thread .returned) =
      (ThreadPhase.live threads).erase thread := by
    rcases mem_live.mp hlive with ⟨old, hold, -⟩
    rcases List.getElem?_eq_some_iff.mp hold with ⟨hlt, -⟩
    -- it is listed once, so filtering it out is erasing it
    have hnodup : (ThreadPhase.live threads).Nodup := List.nodup_range.filter _
    rw [hnodup.erase_eq_filter]
    simp only [ThreadPhase.live, List.length_set, List.filter_filter]
    refine List.filter_congr fun t _ => ?_
    by_cases heq : t = thread
    · subst heq
      rw [List.getElem?_set_self hlt]
      simp
    · rw [List.getElem?_set_ne (Ne.symm heq)]
      simp [heq]
  rw [herase]
  exact List.perm_cons_erase hlive

/-- A new thread is live, under the next number. -/
theorem live_append {phase : ThreadPhase} (hne : phase ≠ .returned) :
    ThreadPhase.live (threads ++ [phase]) = ThreadPhase.live threads ++ [threads.length] := by
  have hlast : (threads ++ [phase])[threads.length]? = some phase := by simp
  simp only [ThreadPhase.live, List.length_append, List.length_singleton, List.range_succ,
    List.filter_append]
  congr 1
  · refine List.filter_congr fun t ht => ?_
    rw [List.getElem?_append_left (List.mem_range.mp ht)]
  · rw [List.filter_singleton, hlast]
    simp [hne]

end Live

/-! ## What the steps keep -/

namespace RegistryExact

variable {rt : Runtime}

/-- The entries of the registry are those of the live threads. -/
theorem mem_iff (h : RegistryExact rt) {thread : Nat} :
    thread ∈ rt.runningThreads.map RunningThread.thread ↔ thread ∈ rt.liveThreads :=
  h.threads.mem_iff

theorem spawn (h : RegistryExact rt) (caller : Nat) (detachedProc : Proc) (createOk : Bool) :
    RegistryExact (rt.spawn caller detachedProc createOk) := by
  unfold Runtime.spawn
  cases createOk with
  | false => exact ⟨h.threads, h.count⟩
  | true =>
      constructor
      · simp only [if_true, liveThreads, List.map_append, List.map_singleton]
        have hne : ThreadPhase.analysing detachedProc ≠ .returned := nofun
        rw [live_append hne]
        exact h.threads.append_right _
      · simp [h.count]

theorem setPhase (h : RegistryExact rt) {thread : Nat} {phase : ThreadPhase}
    (hlive : thread ∈ rt.liveThreads) (hne : phase ≠ .returned) :
    RegistryExact (rt.setPhase thread phase) := by
  refine ⟨?_, h.count⟩
  rw [liveThreads, Runtime.setPhase, live_set hlive hne]
  exact h.threads

/-- A thread that cleans up before it returns takes its entry with it. -/
theorem cleanUp (h : RegistryExact rt) {thread : Nat} (hlive : thread ∈ rt.liveThreads) :
    RegistryExact ((rt.cleanUp thread).setPhase thread .returned) := by
  rcases List.mem_map.mp (h.mem_iff.mpr hlive) with ⟨entry, hentry, hthread⟩
  unfold Runtime.cleanUp
  rw [h.count, List.take_length]
  cases hfind : rt.runningThreads.findIdx? fun r => r.thread = thread with
  | none =>
      -- a live thread has an entry, and the search goes over all of them
      have hne := List.findIdx?_eq_none_iff.mp hfind entry hentry
      simp [hthread] at hne
  | some i =>
      rcases List.findIdx?_eq_some_iff_getElem.mp hfind with ⟨hlt, hi, -⟩
      have hi : rt.runningThreads[i].thread = thread := by simpa using hi
      constructor
      · -- without the entry, and without the thread, the two lists still agree
        have hentries : (rt.runningThreads.map RunningThread.thread).Perm
            (thread :: (rt.runningThreads.swapRemove i).map RunningThread.thread) := by
          have herase := (rt.runningThreads.getElem_cons_eraseIdx_perm hlt).symm
          have hmap := herase.map RunningThread.thread
          rw [List.map_cons, hi] at hmap
          exact hmap.trans (((rt.runningThreads.swapRemove_perm hlt).symm.map _).cons thread)
        exact ((hentries.symm.trans h.threads).trans (live_set_returned hlive)).cons_inv
      · have hlen := (rt.runningThreads.swapRemove_perm hlt).length_eq
        rw [List.length_eraseIdx_of_lt hlt] at hlen
        exact hlen.symm

end RegistryExact

/-- The analysis of a procedure fails for the empty slots it calls itself. -/
theorem analysisOk_eq (rt : Runtime) (proc : Proc) (allocOk : Bool) :
    rt.analysisOk proc allocOk =
      (allocOk && decide (AllOccupied rt.store (callSlots proc.instructions))) := by
  rcases runAnalysis_spec rt.store proc with ⟨st, hrun, -⟩
  rw [analysisOk, hrun]
  by_cases hall : AllOccupied rt.store (callSlots proc.instructions) <;> simp [hall]

/-- A step without an early return keeps the registry exact. -/
theorem next_exact {limits : RuntimeLimits} {rt rt' : Runtime} {i : Input cfg}
    (h : RegistryExact rt) (hok : rt.noEarlyReturn limits i = true)
    (hnext : rt.next limits i = some rt') : RegistryExact rt' := by
  cases i with
  | serve env packet =>
      rcases Option.map_eq_some_iff.mp hnext with ⟨r, -, rfl⟩
      exact ⟨h.threads, h.count⟩
  | check caller procSlot mutexTake copyOk =>
      simp only [next] at hnext
      split at hnext
      · cases hnext
      · rcases Option.map_eq_some_iff.mp hnext with ⟨check, -, rfl⟩
        cases check <;> exact ⟨h.threads, h.count⟩
  | spawn caller createOk =>
      rcases Option.map_eq_some_iff.mp hnext with ⟨proc, -, rfl⟩
      exact h.spawn caller proc createOk
  | analyze thread allocOk =>
      simp only [next] at hnext
      split at hnext
      case h_1 proc hphase =>
        cases hnext
        -- the analysis can fail only where `noEarlyReturn` does not hold
        simp only [noEarlyReturn, hphase] at hok
        rw [analysisOk_eq, hok]
        exact h.setPhase (mem_live.mpr ⟨_, hphase, nofun⟩) nofun
      case h_2 => cases hnext
  | createKey thread =>
      simp only [next] at hnext
      split at hnext
      case h_1 hphase =>
        have hkeys : rt.keys < limits.keysMax := by simpa [noEarlyReturn] using hok
        rw [if_pos hkeys] at hnext
        cases hnext
        have hset : RegistryExact (rt.setPhase thread .executing) :=
          h.setPhase (mem_live.mpr ⟨_, hphase, nofun⟩) nofun
        exact ⟨hset.threads, hset.count⟩
      case h_2 => cases hnext
  | finish thread =>
      simp only [next] at hnext
      split at hnext
      case h_1 hphase =>
        cases hnext
        exact h.cleanUp (mem_live.mpr ⟨_, hphase, nofun⟩)
      case h_2 => cases hnext

/-- As long as no thread returns early, the registry is exact in every state,
and a run is refused for concurrency only when that many threads are live. -/
theorem registry_exact (limits : RuntimeLimits) (store : Store) {inputs : List (Input cfg)}
    {rt : Runtime}
    (h : Reaches (next limits) (fun rt i => rt.noEarlyReturn limits i = true) (init store) inputs
      rt) :
    RegistryExact rt ∧ ∀ procSlot mutexTake copyOk,
      rt.procRuntimeRun limits procSlot mutexTake copyOk = some .concurrent →
        limits.maxProcConcurrent ≤ rt.liveThreads.length := by
  have hexact : RegistryExact rt := by
    refine h.invariant (P := fun _ rt => RegistryExact rt) ?_ ?_
    · exact ⟨.refl _, rfl⟩
    · exact fun _ _ _ _ hrt hok hnext => next_exact hrt hok hnext
  refine ⟨hexact, ?_⟩
  intro procSlot mutexTake copyOk hrefused
  have hlen := hexact.threads.length_eq
  rw [List.length_map, ← hexact.count] at hlen
  rw [← hlen]
  by_contra hlt
  rw [procRuntimeRun, if_neg (by omega)] at hrefused
  split at hrefused
  · cases hrefused
  · cases hrefused
  · split at hrefused
    · cases hrefused
    · split at hrefused <;> cases hrefused

/-- Slot 0 calls slot 1, which is empty, and slot 2 does nothing. -/
def callsEmptyStore : Store := fun s =>
  if s = 0 then ⟨[⟨7, .call 1⟩], Nat.le_of_ble_eq_true rfl⟩
  else if s = 2 then ⟨[⟨2, .noop⟩], Nat.le_of_ble_eq_true rfl⟩
  else Proc.empty

/-- Two runs of slot 2 at the same time, the first of which finishes first. -/
def goodInputs : List (Input .default) :=
  [.check 0 2 true true, .spawn 0 true, .analyze 0 true, .check 0 2 true true, .createKey 0,
    .spawn 0 true, .finish 0]

theorem registry_exact_goodInputs : ∃ rt,
    Reaches (next ⟨2, 8⟩) (fun rt i => rt.noEarlyReturn ⟨2, 8⟩ i = true) (init callsEmptyStore)
      goodInputs rt ∧
    RegistryExact rt ∧ ∀ procSlot mutexTake copyOk,
      rt.procRuntimeRun ⟨2, 8⟩ procSlot mutexTake copyOk = some .concurrent →
        2 ≤ rt.liveThreads.length := by
  have htaken : (goodInputs.foldlM (guarded (next ⟨2, 8⟩)
      fun rt i => rt.noEarlyReturn ⟨2, 8⟩ i = true) (init callsEmptyStore)).isSome = true := by
    decide +kernel
  have hreaches := Reaches.of_foldlM (Option.some_get htaken).symm
  exact ⟨_, hreaches, registry_exact ⟨2, 8⟩ callsEmptyStore hreaches⟩

/-- A run of slot 0, whose analysis fails. -/
def failingInputs : List (Input .default) :=
  [.check 0 0 true true, .spawn 0 true, .analyze 0 true]

theorem failingInputs_taken : (failingInputs.foldlM (guarded (next ⟨1, 8⟩) fun _ _ => True)
    (init callsEmptyStore)).isSome = true := by
  decide +kernel

/-- Its thread has returned and is still in the registry, so that with a limit
of one nothing can be run any more. -/
theorem registry_keeps_returned_thread : ∃ rt,
    Reaches (next ⟨1, 8⟩) (fun _ _ => True) (init callsEmptyStore) failingInputs rt ∧
    rt.liveThreads = [] ∧ ¬ RegistryExact rt ∧
    rt.procRuntimeRun ⟨1, 8⟩ 2 true true = some .concurrent := by
  refine ⟨_, Reaches.of_foldlM (Option.some_get failingInputs_taken).symm, by decide +kernel, ?_,
    by decide +kernel⟩
  intro h
  have hlen := h.threads.length_eq
  revert hlen
  decide +kernel

end Runtime

end CspProc
