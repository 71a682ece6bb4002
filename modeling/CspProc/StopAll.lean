import CspProc.Stopping

/-! # Stopping all runs

`proc_stop_all_runtime_threads` and `proc_stop_all_runtime_tasks`, alone with
the registry: no run starts or finishes meanwhile. Both stop the first entry
until the count is zero, and a guard ends the loop after 1000 calls.

The two copies differ in what they hand to the stop function. On POSIX it is the
thread of the first entry. On FreeRTOS it is the address of the first entry,
which is no task.
-/

namespace CspProc

/-- `thread_t` and `task_t`: where the detached procedure is, and the handle. -/
structure RegistryEntry where
  proc : Nat
  handle : Nat
deriving DecidableEq, Repr

/-- What a stop function is called with. -/
inductive StopTarget where
  /-- A `pthread_t`, or the control block of a task. -/
  | handle (handle : Nat)
  /-- `&running_tasks[0]`. -/
  | entryAddress
deriving DecidableEq, Repr

/-- What stopping does to threads, tasks and procedures. -/
inductive StopEvent where
  | cancel (handle : Nat)
  | join (handle : Nat)
  | delete (handle : Nat)
  | freeProc (proc : Nat)
deriving DecidableEq, Repr

/-- The thread that is cancelled, or the task that is deleted. -/
def StopEvent.stopped : StopEvent → Option Nat
  | cancel handle | delete handle => some handle
  | join _ | freeProc _ => none

/-- The procedure that is freed. -/
def StopEvent.freed : StopEvent → Option Nat
  | freeProc proc => some proc
  | cancel _ | join _ | delete _ => none

/-- The array and the count, and what has been done. The array is `NULL` when it
is empty, and when it could not be reallocated. -/
structure StopAll where
  entries : Option (List RegistryEntry)
  count : Nat
  log : List StopEvent
deriving DecidableEq, Repr

/-- What the environment answers during a call of a stop function: whether the
mutex is taken, and whether an array that is not empty is reallocated. -/
structure StopAnswer where
  taken : Bool
  reallocated : Bool

namespace Platform

/-- What is done for an entry that is found. -/
def stopEvents (platform : Platform) (entry : RegistryEntry) : List StopEvent :=
  match platform with
  | .posix => [.cancel entry.handle, .join entry.handle, .freeProc entry.proc]
  | .freertos => [.delete entry.handle, .freeProc entry.proc]

/-- What the loop hands to the stop function, by the first entry. -/
def stopTarget (platform : Platform) (entry : RegistryEntry) : StopTarget :=
  match platform with
  | .posix => .handle entry.handle
  | .freertos => .entryAddress

end Platform

namespace StopAll

/-- A registry. -/
def start (entries : List RegistryEntry) : StopAll :=
  ⟨if entries = [] then none else some entries, entries.length, []⟩

/-- `proc_stop_runtime_thread` and `proc_stop_runtime_task`, for an array that is
not `NULL`: the return value and the state afterwards. -/
def procStopRuntime (platform : Platform) (answer : StopAnswer) (target : StopTarget)
    (entries : List RegistryEntry) (s : StopAll) : Int × StopAll :=
  if answer.taken then
    match (entries.take s.count).findIdx? fun entry => .handle entry.handle = target with
    | none => (0, s)
    | some i =>
        let count := s.count - 1
        (0, {
          entries :=
            if count = 0 ∨ ¬ answer.reallocated then none else some (entries.swapRemove i)
          count := count
          log := s.log ++ entries[i]?.toList.flatMap platform.stopEvents })
  else (-1, s)

/-- The loop, for the calls that the guard leaves it. There is no result where
the first entry of an array is read that is `NULL`. -/
def loop (platform : Platform) (answers : Nat → StopAnswer) :
    Nat → StopAll → Option (Int × StopAll)
  | 0, s => some (-1, s)
  | left + 1, s =>
      if 0 < s.count then
        match s.entries with
        | some (first :: entries) =>
            let (ret, s) := procStopRuntime platform (answers 0) (platform.stopTarget first)
              (first :: entries) s
            if ret ≠ 0 then some (-1, s)
            else loop platform (fun k => answers (k + 1)) left s
        | _ => none
      else some (0, s)

/-- The bound of the guard. -/
def guardBound : Nat := 1000

/-- `proc_stop_all_runtime_threads` and `proc_stop_all_runtime_tasks`, with the
answers during each call. -/
def procStopAll (platform : Platform) (answers : Nat → StopAnswer) (s : StopAll) :
    Option (Int × StopAll) := loop platform answers guardBound s

/-- All runs of a registry are stopped, behind what has been done before: zero is
returned, the registry is empty, and every thread or task has been stopped once
and its procedure freed once. -/
def StopsAllAfter (log : List StopEvent) (entries : List RegistryEntry)
    (result : Option (Int × StopAll)) : Prop :=
  ∃ s, result = some (0, s) ∧ s.count = 0 ∧
    (s.log.filterMap StopEvent.stopped).Perm
      (log.filterMap StopEvent.stopped ++ entries.map RegistryEntry.handle) ∧
    (s.log.filterMap StopEvent.freed).Perm
      (log.filterMap StopEvent.freed ++ entries.map RegistryEntry.proc)

/-- Zero is returned, the registry is empty, and every thread or task of it has
been stopped once and its procedure freed once. -/
def StopsAll (entries : List RegistryEntry) (result : Option (Int × StopAll)) : Prop :=
  ∃ s, result = some (0, s) ∧ s.count = 0 ∧
    (s.log.filterMap StopEvent.stopped).Perm (entries.map RegistryEntry.handle) ∧
    (s.log.filterMap StopEvent.freed).Perm (entries.map RegistryEntry.proc)

/-! ## One call -/

variable {answers : Nat → StopAnswer} {left : Nat} {s : StopAll}

/-- On POSIX the first entry is found, and removed. -/
theorem procStopRuntime_posix {answer : StopAnswer} (htaken : answer.taken = true)
    (first : RegistryEntry) (rest : List RegistryEntry) (log : List StopEvent) :
    procStopRuntime .posix answer (.handle first.handle) (first :: rest)
        ⟨some (first :: rest), (first :: rest).length, log⟩ =
      (0, ⟨if rest = [] ∨ ¬ answer.reallocated then none else some ((first :: rest).swapRemove 0),
        rest.length, log ++ Platform.posix.stopEvents first⟩) := by
  simp [procStopRuntime, htaken, List.findIdx?_cons]

/-- On FreeRTOS no entry is found. -/
theorem procStopRuntime_freertos {answer : StopAnswer} (htaken : answer.taken = true)
    (entries : List RegistryEntry) :
    procStopRuntime .freertos answer .entryAddress entries s = (0, s) := by
  have hnone : (entries.take s.count).findIdx? (fun entry =>
      decide (StopTarget.handle entry.handle = .entryAddress)) = none := by
    rw [List.findIdx?_eq_none_iff]
    exact fun _ _ => rfl
  simp only [procStopRuntime, htaken, if_true, hnone]

/-! ## The loop -/

/-- On FreeRTOS the loop never returns 0 while there are tasks. -/
theorem loop_freertos (hcount : 0 < s.count) (s' : StopAll) :
    loop .freertos answers left s ≠ some (0, s') := by
  induction left generalizing answers with
  | zero => nofun
  | succ left ih =>
      rw [loop, if_pos hcount]
      rcases s.entries with _ | _ | ⟨first, entries⟩
      · nofun
      · nofun
      · cases htaken : (answers 0).taken with
        | false => simp [procStopRuntime, htaken]
        | true =>
            simp only [Platform.stopTarget, procStopRuntime_freertos htaken]
            exact ih

/-- If the mutex is always taken, the loop does nothing to the tasks. -/
theorem loop_freertos_eq (htaken : ∀ k, (answers k).taken = true) (hcount : 0 < s.count)
    {first : RegistryEntry} {entries : List RegistryEntry}
    (harray : s.entries = some (first :: entries)) :
    loop .freertos answers left s = some (-1, s) := by
  induction left generalizing answers with
  | zero => rfl
  | succ left ih =>
      rw [loop, if_pos hcount, harray]
      simp only [Platform.stopTarget, procStopRuntime_freertos (htaken 0)]
      exact ih fun k => htaken (k + 1)

/-- The mutex is taken in every call, and every array that is not empty is
reallocated. -/
structure Answered (answers : Nat → StopAnswer) (n : Nat) : Prop where
  taken : ∀ k < n, (answers k).taken = true
  reallocated : ∀ k, k + 1 < n → (answers k).reallocated = true

theorem answered_succ_iff {n : Nat} : Answered answers (n + 1) ↔
    (answers 0).taken = true ∧ (0 < n → (answers 0).reallocated = true) ∧
      Answered (fun k => answers (k + 1)) n := by
  constructor
  · intro h
    refine ⟨h.taken 0 (Nat.succ_pos n), fun hn => h.reallocated 0 (by omega), ?_⟩
    exact ⟨fun k hk => h.taken (k + 1) (by omega), fun k hk => h.reallocated (k + 1) (by omega)⟩
  · rintro ⟨htaken, hrealloc, hrest⟩
    constructor
    · intro k hk
      cases k with
      | zero => exact htaken
      | succ k => exact hrest.taken k (by omega)
    · intro k hk
      cases k with
      | zero => exact hrealloc (by omega)
      | succ k => exact hrest.reallocated k (by omega)

/-- The entry that is stopped first counts among those that were stopped before
the others. -/
theorem stopsAllAfter_cons_iff (first : RegistryEntry) {rest entries : List RegistryEntry}
    (hperm : entries.Perm rest) (log : List StopEvent) (result : Option (Int × StopAll)) :
    StopsAllAfter (log ++ Platform.posix.stopEvents first) entries result ↔
      StopsAllAfter log (first :: rest) result := by
  have hstopped : ((log ++ Platform.posix.stopEvents first).filterMap StopEvent.stopped ++
      entries.map RegistryEntry.handle).Perm
        (log.filterMap StopEvent.stopped ++ (first :: rest).map RegistryEntry.handle) := by
    rw [List.filterMap_append, List.append_assoc]
    exact ((hperm.map _).cons first.handle).append_left _
  have hfreed : ((log ++ Platform.posix.stopEvents first).filterMap StopEvent.freed ++
      entries.map RegistryEntry.proc).Perm
        (log.filterMap StopEvent.freed ++ (first :: rest).map RegistryEntry.proc) := by
    rw [List.filterMap_append, List.append_assoc]
    exact ((hperm.map _).cons first.proc).append_left _
  refine exists_congr fun s => and_congr_right fun _ => and_congr_right fun _ => and_congr ?_ ?_
  · exact ⟨fun h => h.trans hstopped, fun h => h.trans hstopped.symm⟩
  · exact ⟨fun h => h.trans hfreed, fun h => h.trans hfreed.symm⟩

/-- A call that stops the first thread leaves the others to the calls after it. -/
theorem loop_posix_cons (htaken : (answers 0).taken = true) (first : RegistryEntry)
    (rest : List RegistryEntry) (log : List StopEvent) :
    loop .posix answers (left + 1) ⟨some (first :: rest), (first :: rest).length, log⟩ =
      loop .posix (fun k => answers (k + 1)) left
        ⟨if rest = [] ∨ ¬ (answers 0).reallocated then none
          else some ((first :: rest).swapRemove 0),
          rest.length, log ++ Platform.posix.stopEvents first⟩ := by
  have hstop := procStopRuntime_posix htaken first rest log
  simp only [List.length_cons] at hstop
  simp [loop, Platform.stopTarget, hstop]

/-- Without the array there is no way to go on. -/
theorem loop_lost {platform : Platform} (n : Nat) (log : List StopEvent) (s' : StopAll) :
    loop platform answers left ⟨none, n + 1, log⟩ ≠ some (0, s') := by
  cases left with
  | zero => nofun
  | succ left => simp [loop]

/-- On POSIX the loop stops all threads exactly if there are fewer of them than
calls are left. -/
theorem loop_posix_iff (entries : List RegistryEntry) (log : List StopEvent) :
    StopsAllAfter log entries (loop .posix answers left
        ⟨if entries = [] then none else some entries, entries.length, log⟩) ↔
      entries.length < left ∧ Answered answers entries.length := by
  induction left generalizing answers entries log with
  | zero =>
      -- the guard is tested before the registry, even if that is empty
      refine iff_of_false ?_ (fun h => Nat.not_lt_zero _ h.1)
      rintro ⟨s, hs, -⟩
      cases hs
  | succ left ih =>
      cases entries with
      | nil =>
          refine iff_of_true ⟨⟨none, 0, log⟩, rfl, rfl, ?_, ?_⟩ ⟨Nat.succ_pos _, ⟨nofun, nofun⟩⟩
          · simp
          · simp
      | cons first rest =>
          rw [if_neg (List.cons_ne_nil first rest)]
          cases htaken : (answers 0).taken with
          | false =>
              -- a call that fails ends the loop
              refine iff_of_false ?_ (fun h => ?_)
              · rintro ⟨s, hs, -⟩
                simp [loop, procStopRuntime, htaken] at hs
              · rw [h.2.taken 0 (Nat.succ_pos _)] at htaken
                cases htaken
          | true =>
              rw [loop_posix_cons htaken, List.length_cons, Nat.succ_lt_succ_iff, answered_succ_iff]
              have hswap : ((first :: rest).swapRemove 0).Perm rest :=
                List.swapRemove_perm _ (Nat.succ_pos _)
              have hlen := hswap.length_eq
              have hnil : (first :: rest).swapRemove 0 = [] ↔ rest = [] := by
                rw [← List.length_eq_zero_iff, hlen, List.length_eq_zero_iff]
              rw [← stopsAllAfter_cons_iff first hswap]
              by_cases hlost : rest ≠ [] ∧ ¬ (answers 0).reallocated = true
              · -- the array is lost, while threads are left
                rw [if_pos (.inr hlost.2)]
                obtain ⟨n, hn⟩ := Nat.exists_eq_succ_of_ne_zero
                  (mt List.length_eq_zero_iff.mp hlost.1)
                rw [hn]
                refine iff_of_false ?_ (fun h => hlost.2 (h.2.2.1 (Nat.succ_pos n)))
                rintro ⟨s, hs, -⟩
                exact loop_lost n _ s hs
              · -- what is left is a registry again, with one entry less
                have harray : (if rest = [] ∨ ¬ (answers 0).reallocated = true then none
                      else some ((first :: rest).swapRemove 0)) =
                    if (first :: rest).swapRemove 0 = [] then none
                      else some ((first :: rest).swapRemove 0) := by
                  refine if_congr ?_ rfl rfl
                  rw [hnil]
                  tauto
                have hrealloc : 0 < rest.length → (answers 0).reallocated = true := by
                  intro hpos
                  by_contra hnot
                  exact hlost ⟨List.length_pos_iff.mp hpos, hnot⟩
                rw [harray, ← hlen, ih, hlen]
                tauto

/-! ## Both runtimes -/

/-- All runs are stopped exactly if there are none, or on POSIX if there are
fewer than 1000, every call takes the mutex, and every array that is left is
reallocated. -/
theorem stopsAll_iff (platform : Platform) (answers : Nat → StopAnswer)
    (entries : List RegistryEntry) :
    StopsAll entries (procStopAll platform answers (start entries)) ↔
      entries = [] ∨ platform = .posix ∧ entries.length < guardBound ∧
        Answered answers entries.length := by
  cases platform with
  | posix =>
      have hloop : StopsAllAfter [] entries (loop .posix answers guardBound
          ⟨if entries = [] then none else some entries, entries.length, []⟩) ↔
          entries.length < guardBound ∧ Answered answers entries.length :=
        loop_posix_iff entries []
      simp only [StopsAllAfter, List.filterMap_nil, List.nil_append] at hloop
      refine hloop.trans ?_
      constructor
      · intro h
        exact .inr ⟨rfl, h⟩
      · rintro (rfl | ⟨-, h⟩)
        · exact ⟨by decide, ⟨nofun, nofun⟩⟩
        · exact h
  | freertos =>
      cases entries with
      | nil => exact iff_of_true ⟨⟨none, 0, []⟩, rfl, rfl, .refl _, .refl _⟩ (.inl rfl)
      | cons first rest =>
          refine iff_of_false ?_ ?_
          · rintro ⟨s, hs, -⟩
            exact loop_freertos (Nat.succ_pos _) s hs
          · rintro (h | ⟨h, -⟩)
            · cases h
            · cases h

/-- With one task nothing is deleted and -1 is returned; with 1000 threads the
guard has run out when the last one is stopped. -/
theorem one_task_or_many_threads :
    (¬ StopsAll [⟨0, 0⟩] (procStopAll .freertos (fun _ => ⟨true, true⟩) (start [⟨0, 0⟩])) ∧
      procStopAll .freertos (fun _ => ⟨true, true⟩) (start [⟨0, 0⟩]) =
        some (-1, start [⟨0, 0⟩])) ∧
    ¬ StopsAll ((List.range 1000).map fun i => ⟨i, i⟩)
      (procStopAll .posix (fun _ => ⟨true, true⟩)
        (start ((List.range 1000).map fun i => ⟨i, i⟩))) := by
  refine ⟨⟨?_, ?_⟩, ?_⟩
  · rintro ⟨s, hs, -⟩
    exact loop_freertos (Nat.succ_pos 0) s hs
  · exact loop_freertos_eq (fun _ => rfl) (Nat.succ_pos 0) rfl
  · rintro ⟨s, hs, hcount, hstopped, hfreed⟩
    have hfew := ((loop_posix_iff _ []).mp ⟨s, hs, hcount, by simpa using hstopped,
      by simpa using hfreed⟩).1
    rw [List.length_map, List.length_range] at hfew
    exact Nat.lt_irrefl _ hfew

end StopAll

end CspProc
