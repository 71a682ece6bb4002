import CspProc.Lib.SwapRemove
import CspProc.Lib.System
import Mathlib.Data.List.Nodup
import Mathlib.Logic.Function.Basic

/-! # Stopping runs

`proc_stop_runtime_thread` and `proc_stop_runtime_task` against the threads (or
tasks) that they stop: any number of both, of callers of `proc_runtime_run`
and of requests to the server, interleaved step by step. The two mutexes have
owners: a thread takes the store's mutex for each procedure that it analyses
and the registry's mutex to clean up, and a stopper holds the registry's mutex
while it cancels and joins (POSIX) or deletes (FreeRTOS).

`stopping_safe` says which steps must not happen for stopping to be safe.
-/

namespace CspProc

/-! ## Parties -/

/-- The two implementations of the runtime. -/
inductive Platform where
  | posix
  | freertos
deriving DecidableEq, Repr

/-- Where a thread is in `runtime_thread` (a task in `runtime_task`):
* `analysing` — in the analysis, without the store's mutex;
* `holdsStore` — in `get_proc`, with it;
* `executing` — in `proc_instructions_exec`;
* `waitsRegistry` — at the lock of the registry's mutex for its clean-up;
* `holdsRegistry` — in that critical section;
* `unregistered` — behind it, its procedure not yet freed;
* `ended`, `failed` — returned, with its procedure freed or early, without;
* `cancelled`, `deleted` — ended by a stopper. -/
inductive WorkerPhase where
  | notCreated
  | analysing
  | holdsStore
  | executing
  | waitsRegistry
  | holdsRegistry
  | unregistered
  | ended
  | failed
  | cancelled
  | deleted
deriving DecidableEq, Repr

namespace WorkerPhase

/-- The thread has been created and has not passed its clean-up. -/
def isRegistered : WorkerPhase → Bool
  | analysing | holdsStore | executing | waitsRegistry | holdsRegistry => true
  | _ => false

/-- The thread runs no more, so that it can be joined. -/
def isTerminated : WorkerPhase → Bool
  | ended | failed | cancelled | deleted => true
  | _ => false

/-- Where there are cancellation points: outside of critical sections, and not
at a lock. -/
def isCancellable : WorkerPhase → Bool
  | analysing | executing | unregistered => true
  | _ => false

theorem isRegistered_of_isTerminated (phase : WorkerPhase) (h : phase.isTerminated = true) :
    phase.isRegistered = false := by
  cases phase <;> first | rfl | cases h

end WorkerPhase

/-- Where a caller of `proc_runtime_run` is: before its critical section, in it,
and in it with a thread that is not yet in the registry. -/
inductive RunPhase where
  | idle
  | locked
  | adds (thread : Nat)
deriving DecidableEq, Repr

/-- Where a call of a stop function for a thread is: at the lock of the
registry's mutex, before the search, in `pthread_join`, or before the entry's
procedure is freed. -/
inductive StopPhase where
  | idle
  | waits (thread : Nat)
  | searches (thread : Nat)
  | joins (thread : Nat)
  | disposes (thread : Nat)
deriving DecidableEq, Repr

/-- The stopper is in its critical section. -/
def StopPhase.inside : StopPhase → Bool
  | searches _ | joins _ | disposes _ => true
  | _ => false

/-- Who can hold a mutex. -/
inductive Party where
  | worker (thread : Nat)
  | stopper (id : Nat)
  | runner (id : Nat)
  | server
deriving DecidableEq, Repr

/-- The detached procedures are numbered in the order in which `proc_runtime_run`
gives them to a thread or frees them, `procs` so far, and a thread has the
number of its procedure. The registry lists the entries by their threads, and
`freed` the procedures that have been freed. -/
structure Stopping where
  procs : Nat
  phase : Nat → WorkerPhase
  cancelRequested : Nat → Bool
  registry : List Nat
  freed : List Nat
  registryOwner : Option Party
  storeOwner : Option Party
  runners : Nat → RunPhase
  stoppers : Nat → StopPhase

namespace Stopping

/-- Nothing has been run. -/
def init : Stopping where
  procs := 0
  phase _ := .notCreated
  cancelRequested _ := false
  registry := []
  freed := []
  registryOwner := none
  storeOwner := none
  runners _ := .idle
  stoppers _ := .idle

/-- The thread is in another phase. -/
def setPhase (s : Stopping) (t : Nat) (phase : WorkerPhase) : Stopping :=
  { s with phase := Function.update s.phase t phase }

/-- The caller of `proc_runtime_run` is in another phase. -/
def setRunner (s : Stopping) (id : Nat) (phase : RunPhase) : Stopping :=
  { s with runners := Function.update s.runners id phase }

/-- The stopper is in another phase. -/
def setStopper (s : Stopping) (id : Nat) (phase : StopPhase) : Stopping :=
  { s with stoppers := Function.update s.stoppers id phase }

/-- `free_proc` of a detached procedure. -/
def freeProc (s : Stopping) (t : Nat) : Stopping := { s with freed := t :: s.freed }

/-- The registry without the thread's entry, which the last one replaces. -/
def withoutEntry (registry : List Nat) (t : Nat) : List Nat :=
  match registry.idxOf? t with
  | some i => registry.swapRemove i
  | none => registry

theorem withoutEntry_perm (registry : List Nat) (t : Nat) :
    (withoutEntry registry t).Perm (registry.erase t) := by
  rw [withoutEntry, List.erase_eq_eraseIdx]
  cases hidx : registry.idxOf? t with
  | none => exact .refl _
  | some i =>
      rcases List.findIdx?_eq_some_iff_getElem.mp hidx with ⟨hlt, -⟩
      exact List.swapRemove_perm registry hlt

theorem nodup_withoutEntry {registry : List Nat} (h : registry.Nodup) (t : Nat) :
    (withoutEntry registry t).Nodup :=
  (withoutEntry_perm registry t).nodup_iff.mpr (h.erase t)

theorem mem_withoutEntry {registry : List Nat} (h : registry.Nodup) {t u : Nat} :
    u ∈ withoutEntry registry t ↔ u ≠ t ∧ u ∈ registry := by
  rw [(withoutEntry_perm registry t).mem_iff, h.mem_erase_iff]

/-! ## Steps -/

/-- The steps of a thread. `lockFails` is a take of the registry's mutex that
fails, for which only `runtime_task` has a branch. -/
inductive WorkerStep where
  | takeStore
  | giveStore
  | fail
  | analysed
  | finish
  | lockRegistry
  | lockFails
  | unregister
  | free
  | cancel
deriving DecidableEq, Repr

/-- The steps of a caller of `proc_runtime_run`, from its critical section on. -/
inductive RunStep where
  | lock
  | lockFails
  | create
  | createFails
  | add
deriving DecidableEq, Repr

/-- The steps of a stopper. `strike` is the search of the registry with the
call of `pthread_cancel` or `vTaskDelete`. -/
inductive StopStep where
  | call (thread : Nat)
  | lock
  | lockFails
  | strike
  | joined
  | dispose
deriving DecidableEq, Repr

/-- A step of one of the parties; the server takes and gives the store's mutex. -/
inductive Input where
  | worker (t : Nat) (step : WorkerStep)
  | runner (id : Nat) (step : RunStep)
  | stopper (id : Nat) (step : StopStep)
  | serverTake
  | serverGive
deriving DecidableEq, Repr

/-- A step of a thread. There is none when it is somewhere else, or when it has
to wait for a mutex. -/
def workerNext (platform : Platform) (s : Stopping) (t : Nat) : WorkerStep → Option Stopping
  | .takeStore =>
      if s.phase t = .analysing ∧ s.storeOwner = none then
        some { s.setPhase t .holdsStore with storeOwner := some (.worker t) }
      else none
  | .giveStore =>
      if s.phase t = .holdsStore then some { s.setPhase t .analysing with storeOwner := none }
      else none
  | .fail => if s.phase t = .analysing then some (s.setPhase t .failed) else none
  | .analysed => if s.phase t = .analysing then some (s.setPhase t .executing) else none
  | .finish => if s.phase t = .executing then some (s.setPhase t .waitsRegistry) else none
  | .lockRegistry =>
      if s.phase t = .waitsRegistry ∧ s.registryOwner = none then
        some { s.setPhase t .holdsRegistry with registryOwner := some (.worker t) }
      else none
  | .lockFails =>
      if platform = .freertos ∧ s.phase t = .waitsRegistry then
        some ((s.setPhase t .ended).freeProc t)
      else none
  | .unregister =>
      if s.phase t = .holdsRegistry then
        some { s.setPhase t .unregistered with
          registry := withoutEntry s.registry t
          registryOwner := none }
      else none
  | .free =>
      if s.phase t = .unregistered then some ((s.setPhase t .ended).freeProc t) else none
  | .cancel =>
      if platform = .posix ∧ s.cancelRequested t = true ∧ (s.phase t).isCancellable = true then
        some (s.setPhase t .cancelled)
      else none

/-- A step of a caller of `proc_runtime_run`. -/
def runnerNext (platform : Platform) (s : Stopping) (id : Nat) : RunStep → Option Stopping
  | .lock =>
      if s.runners id = .idle ∧ s.registryOwner = none then
        some { s.setRunner id .locked with registryOwner := some (.runner id) }
      else none
  | .lockFails =>
      if platform = .freertos ∧ s.runners id = .idle then
        some { s.freeProc s.procs with procs := s.procs + 1 }
      else none
  | .create =>
      if s.runners id = .locked then
        some { (s.setPhase s.procs .analysing).setRunner id (.adds s.procs) with
          procs := s.procs + 1 }
      else none
  | .createFails =>
      if s.runners id = .locked then
        some { (s.freeProc s.procs).setRunner id .idle with
          procs := s.procs + 1
          registryOwner := none }
      else none
  | .add =>
      match s.runners id with
      | .adds t =>
          some { s.setRunner id .idle with
            registry := s.registry ++ [t]
            registryOwner := none }
      | _ => none

/-- The stopper of a thread that has an entry strikes. -/
def strike (platform : Platform) (s : Stopping) (id t : Nat) : Stopping :=
  match platform with
  | .posix =>
      { s.setStopper id (.joins t) with
        cancelRequested := Function.update s.cancelRequested t true }
  | .freertos => (s.setPhase t .deleted).setStopper id (.disposes t)

/-- A step of a stopper. When it finds no entry it gives the mutex back. -/
def stopperNext (platform : Platform) (s : Stopping) (id : Nat) : StopStep → Option Stopping
  | .call t => if s.stoppers id = .idle then some (s.setStopper id (.waits t)) else none
  | .lock =>
      match s.stoppers id with
      | .waits t =>
          if s.registryOwner = none then
            some { s.setStopper id (.searches t) with registryOwner := some (.stopper id) }
          else none
      | _ => none
  | .lockFails =>
      match s.stoppers id with
      | .waits _ => some (s.setStopper id .idle)
      | _ => none
  | .strike =>
      match s.stoppers id with
      | .searches t =>
          if t ∈ s.registry then some (s.strike platform id t)
          else some { s.setStopper id .idle with registryOwner := none }
      | _ => none
  | .joined =>
      match s.stoppers id with
      | .joins t =>
          if (s.phase t).isTerminated = true then some (s.setStopper id (.disposes t)) else none
      | _ => none
  | .dispose =>
      match s.stoppers id with
      | .disposes t =>
          some { (s.freeProc t).setStopper id .idle with
            registry := withoutEntry s.registry t
            registryOwner := none }
      | _ => none

/-- One step of the system. -/
def next (platform : Platform) (s : Stopping) : Input → Option Stopping
  | .worker t step => s.workerNext platform t step
  | .runner id step => s.runnerNext platform id step
  | .stopper id step => s.stopperNext platform id step
  | .serverTake =>
      if s.storeOwner = none then some { s with storeOwner := some .server } else none
  | .serverGive =>
      if s.storeOwner = some .server then some { s with storeOwner := none } else none

/-! ## Safety -/

/-- No stopper holds the registry's mutex and joins a thread that waits for it,
no thread that has ended holds a mutex, and no detached procedure has been
freed twice. -/
structure Safe (s : Stopping) : Prop where
  no_deadlock : ∀ id t, s.registryOwner = some (.stopper id) → s.stoppers id = .joins t →
    s.phase t ≠ .waitsRegistry
  no_orphan : ∀ t, (s.phase t).isTerminated = true →
    s.storeOwner ≠ some (.worker t) ∧ s.registryOwner ≠ some (.worker t)
  freed_once : s.freed.Nodup

/-- The thread is being joined by the stopper that holds the registry's mutex. -/
def isJoined (s : Stopping) (t : Nat) : Bool :=
  match s.registryOwner with
  | some (.stopper id) => s.stoppers id = .joins t
  | _ => false

/-- The thread is where a stopper must not strike it: on POSIX where it waits
for the registry's mutex, and on FreeRTOS where it holds the store's mutex or
has ended with its entry still in the registry. -/
def isExposed (platform : Platform) (s : Stopping) (t : Nat) : Bool :=
  match platform with
  | .posix => s.phase t = .waitsRegistry
  | .freertos => s.phase t = .holdsStore ∨ s.phase t = .ended

/-- The steps that stopping is safe with: no stopper strikes an exposed thread,
and no thread that is being joined comes to its clean-up. -/
def StrikesSafely (platform : Platform) (s : Stopping) : Input → Bool
  | .worker t .finish => !s.isJoined t
  | .stopper id .strike =>
      match s.stoppers id with
      | .searches t => !(t ∈ s.registry && s.isExposed platform t)
      | _ => true
  | _ => true

/-! ## The invariant -/

/-- The thread has an entry, or its creator is about to add it. -/
def Listed (s : Stopping) (t : Nat) : Prop :=
  t ∈ s.registry ∨ ∃ id, s.runners id = .adds t

/-- What the steps keep. -/
structure Inv (platform : Platform) (s : Stopping) : Prop where
  registry_nodup : s.registry.Nodup
  freed_nodup : s.freed.Nodup
  unused : ∀ t, s.procs ≤ t → s.phase t = .notCreated ∧ ¬ s.Listed t ∧ t ∉ s.freed
  adds_new : ∀ id t, s.runners id = .adds t → t ∉ s.registry
  registered : ∀ t, (s.phase t).isRegistered = true → s.Listed t
  unregistered : ∀ t, s.phase t = .unregistered → ¬ s.Listed t ∧ t ∉ s.freed
  freed_listed : ∀ t, t ∈ s.freed → s.Listed t → platform = .freertos ∧ s.phase t = .ended
  worker_owner : ∀ t, s.registryOwner = some (.worker t) ↔ s.phase t = .holdsRegistry
  runner_owner : ∀ id, s.runners id ≠ .idle → s.registryOwner = some (.runner id)
  stopper_owner : ∀ id, (s.stoppers id).inside = true → s.registryOwner = some (.stopper id)
  store_owner : ∀ t, s.storeOwner = some (.worker t) → s.phase t = .holdsStore
  joined : ∀ id t, s.stoppers id = .joins t →
    platform = .posix ∧ t ∈ s.registry ∧ s.phase t ≠ .waitsRegistry
  disposed : ∀ id t, s.stoppers id = .disposes t →
    t ∈ s.registry ∧ t ∉ s.freed ∧ (s.phase t).isTerminated = true

variable {platform : Platform} {s s' : Stopping} {t id : Nat}

namespace Inv

/-- Who owns the registry's mutex is the only one in a critical section. -/
theorem runner_idle (h : Inv platform s) (howner : s.registryOwner ≠ some (.runner id)) :
    s.runners id = .idle := by
  by_contra hne
  exact howner (h.runner_owner id hne)

theorem stopper_outside (h : Inv platform s) (howner : s.registryOwner ≠ some (.stopper id)) :
    (s.stoppers id).inside = false := by
  by_contra hne
  exact howner (h.stopper_owner id (by simpa using hne))

theorem lt_of_created (h : Inv platform s) (hcreated : s.phase t ≠ .notCreated) :
    t < s.procs := by
  by_contra hle
  exact hcreated (h.unused t (Nat.le_of_not_lt hle)).1

theorem lt_of_listed (h : Inv platform s) (hl : s.Listed t) : t < s.procs := by
  by_contra hle
  exact (h.unused t (Nat.le_of_not_lt hle)).2.1 hl

/-- A thread comes to another phase, with what the phase asks of the registry,
the mutexes and the stoppers. -/
theorem changePhase (h : Inv platform s) {phase : WorkerPhase}
    {registryOwner storeOwner : Option Party} (hold : t < s.procs)
    (hregistered : phase.isRegistered = true → s.Listed t)
    (hunregistered : phase = .unregistered → ¬ s.Listed t ∧ t ∉ s.freed)
    (hfreed : t ∈ s.freed → s.Listed t → platform = .freertos ∧ phase = .ended)
    (hworker : ∀ u, registryOwner = some (.worker u) ↔
      Function.update s.phase t phase u = .holdsRegistry)
    (hrunner : ∀ id, s.runners id ≠ .idle → registryOwner = some (.runner id))
    (hstopper : ∀ id, (s.stoppers id).inside = true → registryOwner = some (.stopper id))
    (hstore : ∀ u, storeOwner = some (.worker u) →
      Function.update s.phase t phase u = .holdsStore)
    (hjoined : ∀ id, s.stoppers id = .joins t → phase ≠ .waitsRegistry)
    (hdisposed : ∀ id, s.stoppers id = .disposes t → phase.isTerminated = true) :
    Inv platform { s.setPhase t phase with
      registryOwner := registryOwner, storeOwner := storeOwner } := by
  -- for every other thread the phase is as it was
  refine { h with
    unused := ?unused
    registered := ?registered
    unregistered := ?unregistered
    freed_listed := ?freed_listed
    worker_owner := hworker
    runner_owner := hrunner
    stopper_owner := hstopper
    store_owner := hstore
    joined := ?joined
    disposed := ?disposed }
  all_goals simp only [setPhase]
  case unused =>
    intro u hu
    rw [Function.update_of_ne (Nat.ne_of_gt (Nat.lt_of_lt_of_le hold hu))]
    exact h.unused u hu
  case registered =>
    intro u hu
    rcases eq_or_ne u t with rfl | hne
    · rw [Function.update_self] at hu
      exact hregistered hu
    · rw [Function.update_of_ne hne] at hu
      exact h.registered u hu
  case unregistered =>
    intro u hu
    rcases eq_or_ne u t with rfl | hne
    · rw [Function.update_self] at hu
      exact hunregistered hu
    · rw [Function.update_of_ne hne] at hu
      exact h.unregistered u hu
  case freed_listed =>
    intro u hu hl
    rcases eq_or_ne u t with rfl | hne
    · rw [Function.update_self]
      exact hfreed hu hl
    · rw [Function.update_of_ne hne]
      exact h.freed_listed u hu hl
  case joined =>
    intro id u hid
    rcases eq_or_ne u t with rfl | hne
    · rw [Function.update_self]
      exact ⟨(h.joined id u hid).1, (h.joined id u hid).2.1, hjoined id hid⟩
    · rw [Function.update_of_ne hne]
      exact h.joined id u hid
  case disposed =>
    intro id u hid
    rcases eq_or_ne u t with rfl | hne
    · rw [Function.update_self]
      exact ⟨(h.disposed id u hid).1, (h.disposed id u hid).2.1, hdisposed id hid⟩
    · rw [Function.update_of_ne hne]
      exact h.disposed id u hid

/-- The registry's mutex is not the thread's, before or after it moves. -/
theorem worker_owner_update (h : Inv platform s) {phase : WorkerPhase}
    (howns : s.phase t ≠ .holdsRegistry) (hphase : phase ≠ .holdsRegistry) (u : Nat) :
    s.registryOwner = some (.worker u) ↔ Function.update s.phase t phase u = .holdsRegistry := by
  rcases eq_or_ne u t with rfl | hne
  · rw [Function.update_self, h.worker_owner]
    exact iff_of_false howns hphase
  · rw [Function.update_of_ne hne]
    exact h.worker_owner u

/-- The store's mutex is not the thread's. -/
theorem store_owner_update (h : Inv platform s) {phase : WorkerPhase}
    (hstore : s.phase t ≠ .holdsStore) (u : Nat) (hu : s.storeOwner = some (.worker u)) :
    Function.update s.phase t phase u = .holdsStore := by
  have hu := h.store_owner u hu
  have hne : u ≠ t := fun heq => hstore (heq ▸ hu)
  rwa [Function.update_of_ne hne]

/-- A thread that runs, and is not in its clean-up, moves. It gets the store's
mutex only for `get_proc`. -/
theorem move (h : Inv platform s) {phase : WorkerPhase} {owner : Option Party}
    (hcreated : s.phase t ≠ .notCreated) (hruns : (s.phase t).isTerminated = false)
    (howns : s.phase t ≠ .holdsRegistry)
    (hregistered : phase.isRegistered = true → (s.phase t).isRegistered = true)
    (hphase : phase ≠ .holdsRegistry ∧ phase ≠ .unregistered)
    (hjoined : phase = .waitsRegistry → ∀ id, s.stoppers id ≠ .joins t)
    (howner : ∀ u, owner = some (.worker u) → Function.update s.phase t phase u = .holdsStore) :
    Inv platform { s.setPhase t phase with storeOwner := owner } := by
  refine h.changePhase (h.lt_of_created hcreated) ?_ ?_ ?_
    (h.worker_owner_update howns hphase.1) h.runner_owner h.stopper_owner howner ?_ ?_
  · intro hp
    exact h.registered t (hregistered hp)
  · intro hp
    exact absurd hp hphase.2
  · intro hfreed hl
    rw [(h.freed_listed t hfreed hl).2] at hruns
    cases hruns
  · intro id hid hp
    exact hjoined hp id hid
  · intro id hid
    rw [(h.disposed id t hid).2.2] at hruns
    cases hruns

/-- A thread moves, and the store's mutex stays where it is. -/
theorem moveOutside (h : Inv platform s) {phase : WorkerPhase}
    (hcreated : s.phase t ≠ .notCreated) (hruns : (s.phase t).isTerminated = false)
    (howns : s.phase t ≠ .holdsRegistry) (hstore : s.phase t ≠ .holdsStore)
    (hregistered : phase.isRegistered = true → (s.phase t).isRegistered = true)
    (hphase : phase ≠ .holdsRegistry ∧ phase ≠ .unregistered)
    (hjoined : phase = .waitsRegistry → ∀ id, s.stoppers id ≠ .joins t) :
    Inv platform (s.setPhase t phase) := by
  exact h.move hcreated hruns howns hregistered hphase hjoined (h.store_owner_update hstore)

/-- A thread locks the registry's mutex, which nobody has. -/
theorem lockRegistry (h : Inv platform s) (hphase : s.phase t = .waitsRegistry)
    (hfree : s.registryOwner = none) :
    Inv platform { s.setPhase t .holdsRegistry with registryOwner := some (.worker t) } := by
  have hrunners (id : Nat) : s.runners id = .idle := h.runner_idle (by simp [hfree])
  have hstoppers (id : Nat) : (s.stoppers id).inside = false := h.stopper_outside (by simp [hfree])
  have hworker (u : Nat) : some (Party.worker t) = some (.worker u) ↔
      Function.update s.phase t .holdsRegistry u = .holdsRegistry := by
    have hinv := h.worker_owner u
    rcases eq_or_ne u t with rfl | hne
    · simp
    · rw [Function.update_of_ne hne, ← hinv]
      simp [hfree, Ne.symm hne]
  refine h.changePhase (h.lt_of_created (by simp [hphase])) ?_ nofun ?_ hworker ?_ ?_
    (h.store_owner_update (by simp [hphase])) nofun ?_
  · intro _
    exact h.registered t (by simp [hphase, WorkerPhase.isRegistered])
  · intro hfreed hl
    have hended := (h.freed_listed t hfreed hl).2
    simp [hphase] at hended
  · intro id hid
    exact absurd (hrunners id) hid
  · intro id hid
    rw [hstoppers id] at hid
    cases hid
  · intro id hid
    have hterminated := (h.disposed id t hid).2.2
    simp [hphase, WorkerPhase.isTerminated] at hterminated

/-- A thread in its critical section removes its entry. -/
theorem unregister (h : Inv platform s) (hphase : s.phase t = .holdsRegistry) :
    Inv platform { s.setPhase t .unregistered with
      registry := withoutEntry s.registry t
      registryOwner := none } := by
  have howner := (h.worker_owner t).mpr hphase
  -- the thread has the registry's mutex, so that nobody else is inside
  have hrunners (id : Nat) : s.runners id = .idle := h.runner_idle (by simp [howner])
  have hstoppers (id : Nat) : (s.stoppers id).inside = false := h.stopper_outside (by simp [howner])
  have hmem (u : Nat) := mem_withoutEntry h.registry_nodup (t := t) (u := u)
  refine {
    registry_nodup := nodup_withoutEntry h.registry_nodup t
    freed_nodup := h.freed_nodup
    unused := ?unused
    adds_new := fun id u hid => absurd hid (by simp [setPhase, hrunners])
    registered := ?registered
    unregistered := ?unregistered
    freed_listed := ?freed_listed
    worker_owner := ?worker_owner
    runner_owner := fun id hid => absurd (hrunners id) hid
    stopper_owner := fun id hid => absurd hid (by simp [setPhase, hstoppers])
    store_owner := ?store_owner
    joined := ?joined
    disposed := ?disposed }
  all_goals simp only [setPhase, Listed, Function.update_apply, hmem]
  case unused =>
    have hinv := h.unused
    grind [Listed]
  case registered =>
    have hinv := h.registered
    grind [Listed, WorkerPhase.isRegistered]
  case unregistered =>
    have hunregistered := h.unregistered
    have hfreed_listed := h.freed_listed
    have hregistered := h.registered
    grind [Listed, WorkerPhase.isRegistered]
  case freed_listed =>
    have hinv := h.freed_listed
    grind [Listed]
  case worker_owner =>
    have hinv := h.worker_owner
    grind
  case store_owner =>
    have hinv := h.store_owner
    grind
  case joined =>
    intro id u hid
    have hinside := hstoppers id
    grind [StopPhase.inside]
  case disposed =>
    intro id u hid
    have hinside := hstoppers id
    grind [StopPhase.inside]

/-- The procedure of a thread that has ended is freed. -/
theorem freeEnded (h : Inv platform s) (hended : s.phase t = .ended) (hnew : t ∉ s.freed)
    (hlisted : s.Listed t → platform = .freertos) (hdisposed : ∀ id, s.stoppers id ≠ .disposes t) :
    Inv platform (s.freeProc t) := by
  refine { h with
    freed_nodup := List.nodup_cons.mpr ⟨hnew, h.freed_nodup⟩
    unused := ?unused
    unregistered := ?unregistered
    freed_listed := ?freed_listed
    disposed := ?disposed }
  all_goals simp only [freeProc, List.mem_cons]
  case unused =>
    intro u hu
    rcases h.unused u hu with ⟨hphase, hl, hfreed⟩
    have hne : u ≠ t := fun heq => by simp [← heq, hphase] at hended
    exact ⟨hphase, hl, not_or.mpr ⟨hne, hfreed⟩⟩
  case unregistered =>
    intro u hu
    rcases h.unregistered u hu with ⟨hl, hfreed⟩
    have hne : u ≠ t := fun heq => by simp [← heq, hu] at hended
    exact ⟨hl, not_or.mpr ⟨hne, hfreed⟩⟩
  case freed_listed =>
    rintro u (rfl | hu) hl
    · exact ⟨hlisted hl, hended⟩
    · exact h.freed_listed u hu hl
  case disposed =>
    intro id u hid
    rcases h.disposed id u hid with ⟨hmem, hfreed, hterminated⟩
    have hne : u ≠ t := fun heq => hdisposed id (heq ▸ hid)
    exact ⟨hmem, not_or.mpr ⟨hne, hfreed⟩, hterminated⟩

/-- A thread that has unregistered, or cannot, frees its procedure. -/
theorem free (h : Inv platform s)
    (hphase : s.phase t = .unregistered ∨ platform = .freertos ∧ s.phase t = .waitsRegistry) :
    Inv platform ((s.setPhase t .ended).freeProc t) := by
  have hruns : (s.phase t).isTerminated = false ∧ s.phase t ≠ .holdsRegistry ∧
      s.phase t ≠ .holdsStore ∧ s.phase t ≠ .notCreated := by
    rcases hphase with hphase | ⟨-, hphase⟩
    · simp [hphase, WorkerPhase.isTerminated]
    · simp [hphase, WorkerPhase.isTerminated]
  rcases hruns with ⟨hruns, howns, hstore, hcreated⟩
  have hmoved : Inv platform (s.setPhase t .ended) :=
    h.moveOutside hcreated hruns howns hstore nofun ⟨nofun, nofun⟩ nofun
  refine hmoved.freeEnded (Function.update_self ..) ?_ ?_ ?_
  · -- it would be listed, or have ended
    rcases hphase with hphase | ⟨-, hphase⟩
    · exact (h.unregistered t hphase).2
    · intro hfreed
      have hl := h.registered t (by simp [hphase, WorkerPhase.isRegistered])
      have hended := (h.freed_listed t hfreed hl).2
      simp [hphase] at hended
  · intro hl
    rcases hphase with hphase | ⟨hplatform, -⟩
    · exact absurd hl (h.unregistered t hphase).1
    · exact hplatform
  · intro id hid
    have hterminated := (h.disposed id t hid).2.2
    rw [hruns] at hterminated
    cases hterminated

/-- The registry's mutex goes from nobody to a party that is not a thread. -/
theorem lock (h : Inv platform s) {owner : Party} (hfree : s.registryOwner = none)
    (hworker : ∀ t, owner ≠ .worker t) : Inv platform { s with registryOwner := some owner } := by
  have hrunners (id : Nat) : s.runners id = .idle := h.runner_idle (by simp [hfree])
  have hstoppers (id : Nat) : (s.stoppers id).inside = false := h.stopper_outside (by simp [hfree])
  refine { h with
    worker_owner := ?worker_owner
    runner_owner := fun id hid => absurd (hrunners id) hid
    stopper_owner := fun id hid => absurd hid (by simp [hstoppers]) }
  intro t
  have hinv := h.worker_owner t
  grind

/-- A party that is not a thread, and not in a critical section, gives the
registry's mutex back. -/
theorem unlock (h : Inv platform s) (hworker : ∀ t, s.registryOwner ≠ some (.worker t))
    (hrunner : ∀ id, s.registryOwner = some (.runner id) → s.runners id = .idle)
    (hstopper : ∀ id, s.registryOwner = some (.stopper id) → (s.stoppers id).inside = false) :
    Inv platform { s with registryOwner := none } := by
  refine { h with
    worker_owner := ?worker_owner
    runner_owner := ?runner_owner
    stopper_owner := ?stopper_owner }
  case worker_owner =>
    intro t
    have hinv := h.worker_owner t
    grind
  case runner_owner =>
    intro id hid
    exact absurd (hrunner id (h.runner_owner id hid)) hid
  case stopper_owner =>
    intro id hid
    have houtside := hstopper id (h.stopper_owner id hid)
    rw [houtside] at hid
    cases hid

/-- The owner of the registry's mutex goes on, without a new thread. -/
theorem setRunner (h : Inv platform s) {phase : RunPhase}
    (howner : s.registryOwner = some (.runner id)) (hold : ∀ t, s.runners id ≠ .adds t)
    (hphase : ∀ t, phase ≠ .adds t) : Inv platform (s.setRunner id phase) := by
  have hlisted (t : Nat) : (s.setRunner id phase).Listed t ↔ s.Listed t := by
    simp only [Stopping.setRunner, Listed, Function.update_apply]
    grind
  refine { h with
    unused := fun u hu => by rw [hlisted]; exact h.unused u hu
    adds_new := ?adds_new
    registered := fun u hu => (hlisted u).mpr (h.registered u hu)
    unregistered := fun u hu => by rw [hlisted]; exact h.unregistered u hu
    freed_listed := fun u hu hl => h.freed_listed u hu ((hlisted u).mp hl)
    runner_owner := ?runner_owner }
  all_goals simp only [Stopping.setRunner, Function.update_apply]
  case adds_new =>
    have hinv := h.adds_new
    grind
  case runner_owner =>
    have hinv := h.runner_owner
    grind

/-- A detached procedure that no thread gets is freed. -/
theorem freeNew (h : Inv platform s) :
    Inv platform { s.freeProc s.procs with procs := s.procs + 1 } := by
  rcases h.unused s.procs (Nat.le_refl _) with ⟨hphase, hlisted, hfreed⟩
  refine { h with
    freed_nodup := List.nodup_cons.mpr ⟨hfreed, h.freed_nodup⟩
    unused := ?unused
    unregistered := ?unregistered
    freed_listed := ?freed_listed
    disposed := ?disposed }
  all_goals simp only [freeProc, List.mem_cons]
  case unused =>
    intro t ht
    rcases h.unused t (Nat.le_of_succ_le ht) with ⟨hnot, hnew, hkept⟩
    have hne : t ≠ s.procs := Nat.ne_of_gt ht
    exact ⟨hnot, hnew, not_or.mpr ⟨hne, hkept⟩⟩
  case unregistered =>
    intro t ht
    rcases h.unregistered t ht with ⟨hnew, hkept⟩
    have hne : t ≠ s.procs := fun heq => by simp [heq, hphase] at ht
    exact ⟨hnew, not_or.mpr ⟨hne, hkept⟩⟩
  case freed_listed =>
    rintro t (rfl | ht) hl
    · exact absurd hl hlisted
    · exact h.freed_listed t ht hl
  case disposed =>
    intro id t hid
    rcases h.disposed id t hid with ⟨hmem, hkept, hterminated⟩
    have hne : t ≠ s.procs := fun heq => hlisted (.inl (heq ▸ hmem))
    exact ⟨hmem, not_or.mpr ⟨hne, hkept⟩, hterminated⟩

/-- A thread is created, and is still to be added to the registry. -/
theorem create (h : Inv platform s) (hlocked : s.runners id = .locked) :
    Inv platform { (s.setPhase s.procs .analysing).setRunner id (.adds s.procs) with
      procs := s.procs + 1 } := by
  have howner := h.runner_owner id (by simp [hlocked])
  -- the new thread has a number that nothing refers to yet
  have hnew := h.unused s.procs (Nat.le_refl _)
  refine { h with
    unused := ?unused
    adds_new := ?adds_new
    registered := ?registered
    unregistered := ?unregistered
    freed_listed := ?freed_listed
    worker_owner := ?worker_owner
    runner_owner := ?runner_owner
    store_owner := ?store_owner
    joined := ?joined
    disposed := ?disposed }
  all_goals simp only [setPhase, Stopping.setRunner, Listed, Function.update_apply]
  case unused =>
    intro t ht
    have hne : t ≠ s.procs := Nat.ne_of_gt ht
    have hinv := h.unused t (Nat.le_of_succ_le ht)
    grind [Listed]
  case adds_new =>
    have hinv := h.adds_new
    grind [Listed]
  case registered =>
    have hinv := h.registered
    grind [Listed]
  case unregistered =>
    have hinv := h.unregistered
    grind [Listed]
  case freed_listed =>
    have hinv := h.freed_listed
    grind [Listed]
  case worker_owner =>
    have hinv := h.worker_owner
    grind
  case runner_owner =>
    have hinv := h.runner_owner
    grind
  case store_owner =>
    have hinv := h.store_owner
    grind
  case joined =>
    have hinv := h.joined
    grind
  case disposed =>
    have hinv := h.disposed
    grind [Listed]

/-- The new thread's entry is added. -/
theorem add (h : Inv platform s) (hadds : s.runners id = .adds t) :
    Inv platform { s.setRunner id .idle with registry := s.registry ++ [t] } := by
  have howner := h.runner_owner id (by simp [hadds])
  have hnew := h.adds_new id t hadds
  -- its creator is the only one, so that the same threads are listed
  have hlisted (u : Nat) :
      { s.setRunner id .idle with registry := s.registry ++ [t] }.Listed u ↔ s.Listed u := by
    simp only [Stopping.setRunner, Listed, Function.update_apply, List.mem_append,
      List.mem_singleton]
    grind
  refine { h with
    registry_nodup := h.registry_nodup.append (List.nodup_singleton t) (by simpa using hnew)
    unused := fun u hu => by rw [hlisted]; exact h.unused u hu
    adds_new := ?adds_new
    registered := fun u hu => (hlisted u).mpr (h.registered u hu)
    unregistered := fun u hu => by rw [hlisted]; exact h.unregistered u hu
    freed_listed := fun u hu hl => h.freed_listed u hu ((hlisted u).mp hl)
    runner_owner := ?runner_owner
    joined := ?joined
    disposed := ?disposed }
  all_goals simp only [Stopping.setRunner, Function.update_apply, List.mem_append]
  case adds_new =>
    have hinv := h.runner_owner
    grind
  case runner_owner =>
    have hinv := h.runner_owner
    grind
  case joined =>
    have hinv := h.joined
    grind
  case disposed =>
    have hinv := h.disposed
    grind

/-- A stopper goes on, with what its new place needs. -/
theorem setStopper (h : Inv platform s) {phase : StopPhase}
    (hinside : phase.inside = true → s.registryOwner = some (.stopper id))
    (hjoins : ∀ t, phase = .joins t →
      platform = .posix ∧ t ∈ s.registry ∧ s.phase t ≠ .waitsRegistry)
    (hdisposes : ∀ t, phase = .disposes t →
      t ∈ s.registry ∧ t ∉ s.freed ∧ (s.phase t).isTerminated = true) :
    Inv platform (s.setStopper id phase) := by
  refine { h with
    stopper_owner := ?stopper_owner
    joined := ?joined
    disposed := ?disposed }
  all_goals simp only [Stopping.setStopper, Function.update_apply]
  case stopper_owner =>
    have hinv := h.stopper_owner
    grind
  case joined =>
    have hinv := h.joined
    grind
  case disposed =>
    have hinv := h.disposed
    grind

/-- A task that is not exposed is deleted. -/
theorem delete (h : Inv platform s) (howner : s.registryOwner = some (.stopper id))
    (hmem : t ∈ s.registry) (hstore : s.phase t ≠ .holdsStore) (hended : s.phase t ≠ .ended) :
    Inv platform (s.setPhase t .deleted) := by
  have howns : s.phase t ≠ .holdsRegistry := by
    intro hholds
    rw [(h.worker_owner t).mpr hholds] at howner
    cases howner
  refine h.changePhase (h.lt_of_listed (.inl hmem)) nofun nofun ?_
    (h.worker_owner_update howns nofun) h.runner_owner h.stopper_owner
    (h.store_owner_update hstore) nofun ?_
  · intro hfreed hl
    exact absurd (h.freed_listed t hfreed hl).2 hended
  · intro _ _
    rfl

/-- The procedure of a terminated thread is freed, and its entry removed. -/
theorem dispose (h : Inv platform s) (hrunners : ∀ id, s.runners id = .idle)
    (hstoppers : ∀ id, (s.stoppers id).inside = false) (hmem : t ∈ s.registry)
    (hfreed : t ∉ s.freed) (hterminated : (s.phase t).isTerminated = true) :
    Inv platform { s.freeProc t with registry := withoutEntry s.registry t } := by
  have hentry (u : Nat) := mem_withoutEntry h.registry_nodup (t := t) (u := u)
  refine { h with
    registry_nodup := nodup_withoutEntry h.registry_nodup t
    freed_nodup := List.nodup_cons.mpr ⟨hfreed, h.freed_nodup⟩
    unused := ?unused
    adds_new := fun id u hid => absurd hid (by simp [freeProc, hrunners])
    registered := ?registered
    unregistered := ?unregistered
    freed_listed := ?freed_listed
    joined := ?joined
    disposed := ?disposed }
  all_goals simp only [freeProc, Listed, List.mem_cons, hentry]
  case unused =>
    have hinv := h.unused
    grind [Listed]
  case registered =>
    have hinv := h.registered
    have := (s.phase t).isRegistered_of_isTerminated hterminated
    grind [Listed]
  case unregistered =>
    have hinv := h.unregistered
    grind [Listed]
  case freed_listed =>
    have hinv := h.freed_listed
    grind [Listed]
  case joined =>
    intro id u hid
    have hinside := hstoppers id
    grind [StopPhase.inside]
  case disposed =>
    intro id u hid
    have hinside := hstoppers id
    grind [StopPhase.inside]

/-- A thread that is not exposed is struck by the owner of the registry's mutex. -/
theorem strike (h : Inv platform s) (howner : s.registryOwner = some (.stopper id))
    (hmem : t ∈ s.registry) (hexposed : s.isExposed platform t = false) :
    Inv platform (s.strike platform id t) := by
  cases platform with
  | posix =>
      have hwaits : s.phase t ≠ .waitsRegistry := by simpa [isExposed] using hexposed
      have hset : Inv .posix (s.setStopper id (.joins t)) := by
        refine h.setStopper (fun _ => howner) ?_ nofun
        rintro _ ⟨⟩
        exact ⟨rfl, hmem, hwaits⟩
      exact { hset with }
  | freertos =>
      have hphase : s.phase t ≠ .holdsStore ∧ s.phase t ≠ .ended := by
        simpa [isExposed] using hexposed
      have hfreed : t ∉ s.freed := fun hfreed =>
        hphase.2 (h.freed_listed t hfreed (.inl hmem)).2
      refine (h.delete howner hmem hphase.1 hphase.2).setStopper (fun _ => howner) nofun ?_
      rintro _ ⟨⟩
      exact ⟨hmem, hfreed, by simp [setPhase, WorkerPhase.isTerminated]⟩

theorem init (platform : Platform) : Inv platform Stopping.init where
  registry_nodup := List.nodup_nil
  freed_nodup := List.nodup_nil
  unused t _ := ⟨rfl, by simp [Listed, Stopping.init], List.not_mem_nil⟩
  adds_new _ _ h := nomatch h
  registered _ h := nomatch h
  unregistered _ h := nomatch h
  freed_listed _ h := nomatch h
  worker_owner _ := ⟨nofun, nofun⟩
  runner_owner _ h := absurd rfl h
  stopper_owner _ h := nomatch h
  store_owner _ h := nomatch h
  joined _ _ h := nomatch h
  disposed _ _ h := nomatch h

/-- A thread that is being joined is so by the owner of the registry's mutex. -/
theorem isJoined (h : Inv platform s) (hjoins : s.stoppers id = .joins t) :
    s.isJoined t = true := by
  have howner := h.stopper_owner id (by simp [hjoins, StopPhase.inside])
  simp [Stopping.isJoined, howner, hjoins]

theorem workerNext (h : Inv platform s) {step : WorkerStep}
    (hok : s.StrikesSafely platform (.worker t step) = true)
    (hnext : s.workerNext platform t step = some s') : Inv platform s' := by
  -- each step is one of the moves above, under the guard of its case
  cases step
  all_goals
    simp only [Stopping.workerNext, Option.ite_none_right_eq_some, Option.some.injEq] at hnext
    rcases hnext with ⟨hguard, rfl⟩
  case takeStore =>
    rcases hguard with ⟨hphase, -⟩
    refine h.move ?_ ?_ ?_ ?_ ⟨nofun, nofun⟩ nofun ?_
    case refine_5 =>
      rintro u ⟨⟩
      exact Function.update_self ..
    all_goals simp [hphase, WorkerPhase.isTerminated, WorkerPhase.isRegistered]
  case giveStore =>
    refine h.move ?_ ?_ ?_ ?_ ⟨nofun, nofun⟩ nofun nofun
    all_goals simp [hguard, WorkerPhase.isTerminated, WorkerPhase.isRegistered]
  case fail =>
    refine h.moveOutside ?_ ?_ ?_ ?_ nofun ⟨nofun, nofun⟩ nofun
    all_goals simp [hguard, WorkerPhase.isTerminated]
  case analysed =>
    refine h.moveOutside ?_ ?_ ?_ ?_ ?_ ⟨nofun, nofun⟩ nofun
    all_goals simp [hguard, WorkerPhase.isTerminated, WorkerPhase.isRegistered]
  case finish =>
    -- nobody joins a thread that still runs, where stops strike safely
    refine h.moveOutside ?_ ?_ ?_ ?_ ?_ ⟨nofun, nofun⟩ ?_
    case refine_6 =>
      intro _ id hjoins
      simp [StrikesSafely, h.isJoined hjoins] at hok
    all_goals simp [hguard, WorkerPhase.isTerminated, WorkerPhase.isRegistered]
  case lockRegistry => exact h.lockRegistry hguard.1 hguard.2
  case lockFails => exact h.free (.inr hguard)
  case unregister => exact h.unregister hguard
  case free => exact h.free (.inl hguard)
  case cancel =>
    rcases hguard with ⟨-, -, hcancellable⟩
    refine h.moveOutside ?_ ?_ ?_ ?_ nofun ⟨nofun, nofun⟩ nofun
    all_goals
      revert hcancellable
      cases s.phase t <;> simp [WorkerPhase.isCancellable, WorkerPhase.isTerminated]

theorem runnerNext (h : Inv platform s) {step : RunStep}
    (hnext : s.runnerNext platform id step = some s') : Inv platform s' := by
  cases step
  case add =>
    simp only [Stopping.runnerNext] at hnext
    split at hnext
    case h_1 t hadds =>
      cases hnext
      have howner := h.runner_owner id (by simp [hadds])
      refine (h.add hadds).unlock ?_ ?_ ?_
      all_goals simp [Stopping.setRunner, howner]
    case h_2 => cases hnext
  all_goals
    simp only [Stopping.runnerNext, Option.ite_none_right_eq_some, Option.some.injEq] at hnext
    rcases hnext with ⟨hguard, rfl⟩
  case lock =>
    rcases hguard with ⟨hidle, hfree⟩
    have hlocked : Inv platform { s with registryOwner := some (.runner id) } :=
      h.lock hfree nofun
    exact hlocked.setRunner rfl (by simp [hidle]) nofun
  case lockFails => exact h.freeNew
  case create => exact h.create hguard
  case createFails =>
    have howner := h.runner_owner id (by simp [hguard])
    have hidle : Inv platform
        ({ s.freeProc s.procs with procs := s.procs + 1 }.setRunner id .idle) :=
      h.freeNew.setRunner howner (by simp [freeProc, hguard]) nofun
    refine hidle.unlock ?_ ?_ ?_
    all_goals simp [Stopping.setRunner, freeProc, howner]

theorem stopperNext (h : Inv platform s) {step : StopStep}
    (hok : s.StrikesSafely platform (.stopper id step) = true)
    (hnext : s.stopperNext platform id step = some s') : Inv platform s' := by
  have houtside : Inv platform (s.setStopper id .idle) := h.setStopper nofun nofun nofun
  cases step with
  | call t =>
      simp only [Stopping.stopperNext, Option.ite_none_right_eq_some, Option.some.injEq] at hnext
      rcases hnext with ⟨-, rfl⟩
      exact h.setStopper nofun nofun nofun
  | lock =>
      simp only [Stopping.stopperNext] at hnext
      split at hnext
      case h_1 t hwaits =>
        simp only [Option.ite_none_right_eq_some, Option.some.injEq] at hnext
        rcases hnext with ⟨hfree, rfl⟩
        have hlocked : Inv platform { s with registryOwner := some (.stopper id) } :=
          h.lock hfree nofun
        exact hlocked.setStopper (fun _ => rfl) nofun nofun
      case h_2 => cases hnext
  | lockFails =>
      simp only [Stopping.stopperNext] at hnext
      split at hnext
      case h_1 =>
        cases hnext
        exact houtside
      case h_2 => cases hnext
  | strike =>
      simp only [Stopping.stopperNext] at hnext
      split at hnext
      case h_1 t hsearches =>
        have howner := h.stopper_owner id (by simp [hsearches, StopPhase.inside])
        split at hnext
        case isTrue hmem =>
          cases hnext
          refine h.strike howner hmem ?_
          simpa [StrikesSafely, hsearches, hmem] using hok
        case isFalse =>
          cases hnext
          refine houtside.unlock ?_ ?_ ?_
          all_goals simp [Stopping.setStopper, howner, StopPhase.inside]
      case h_2 => cases hnext
  | joined =>
      simp only [Stopping.stopperNext] at hnext
      split at hnext
      case h_1 t hjoins =>
        simp only [Option.ite_none_right_eq_some, Option.some.injEq] at hnext
        rcases hnext with ⟨hterminated, rfl⟩
        rcases h.joined id t hjoins with ⟨rfl, hmem, -⟩
        have howner := h.stopper_owner id (by simp [hjoins, StopPhase.inside])
        -- only `runtime_task` frees a procedure and leaves its entry
        have hfreed : t ∉ s.freed := fun hfreed =>
          nomatch (h.freed_listed t hfreed (.inl hmem)).1
        refine h.setStopper (fun _ => howner) nofun ?_
        rintro _ ⟨⟩
        exact ⟨hmem, hfreed, hterminated⟩
      case h_2 => cases hnext
  | dispose =>
      simp only [Stopping.stopperNext] at hnext
      split at hnext
      case h_1 t hdisposes =>
        cases hnext
        rcases h.disposed id t hdisposes with ⟨hmem, hfreed, hterminated⟩
        have howner := h.stopper_owner id (by simp [hdisposes, StopPhase.inside])
        have hrunners (id' : Nat) : s.runners id' = .idle := h.runner_idle (by simp [howner])
        -- the stopper is the only one in its critical section, and leaves it
        have hothers (id' : Nat) : ((s.setStopper id .idle).stoppers id').inside = false := by
          by_cases heq : id' = id
          · simp [heq, Stopping.setStopper, StopPhase.inside]
          · exact houtside.stopper_outside (by simp [Stopping.setStopper, howner, Ne.symm heq])
        refine (houtside.dispose hrunners hothers hmem hfreed hterminated).unlock ?_ ?_ ?_
        all_goals simp [Stopping.setStopper, freeProc, howner, StopPhase.inside]
      case h_2 => cases hnext

theorem next (h : Inv platform s) {i : Input} (hok : s.StrikesSafely platform i = true)
    (hnext : s.next platform i = some s') : Inv platform s' := by
  cases i with
  | worker t step => exact h.workerNext hok hnext
  | runner id step => exact h.runnerNext hnext
  | stopper id step => exact h.stopperNext hok hnext
  | serverTake =>
      simp only [Stopping.next, Option.ite_none_right_eq_some, Option.some.injEq] at hnext
      rcases hnext with ⟨-, rfl⟩
      exact { h with store_owner := nofun }
  | serverGive =>
      simp only [Stopping.next, Option.ite_none_right_eq_some, Option.some.injEq] at hnext
      rcases hnext with ⟨-, rfl⟩
      exact { h with store_owner := nofun }

theorem safe (h : Inv platform s) : s.Safe where
  no_deadlock id t _ hjoins := (h.joined id t hjoins).2.2
  no_orphan t hterminated := by
    refine ⟨fun hstore => ?_, fun hregistry => ?_⟩
    · rw [h.store_owner t hstore] at hterminated
      cases hterminated
    · rw [(h.worker_owner t).mp hregistry] at hterminated
      cases hterminated
  freed_once := h.freed_nodup

end Inv

/-- As long as no stopper strikes an exposed thread, and no thread that is being
joined comes to its clean-up, every state is safe. -/
theorem stopping_safe {inputs : List Input}
    (h : Reaches (next platform) (fun s i => s.StrikesSafely platform i = true) init inputs s) :
    s.Safe := by
  have hinv : Inv platform s := by
    refine h.invariant (P := fun _ s => Inv platform s) ?_ ?_
    · exact .init platform
    · exact fun _ _ _ _ hinv hok hnext => hinv.next hok hnext
  exact hinv.safe

/-- A thread, or a task, that is stopped while it executes. -/
def stoppedInputs : Platform → List Input
  | .posix =>
      [.runner 0 .lock, .runner 0 .create, .runner 0 .add, .worker 0 .takeStore,
        .worker 0 .giveStore, .worker 0 .analysed, .stopper 0 (.call 0), .stopper 0 .lock,
        .stopper 0 .strike, .worker 0 .cancel, .stopper 0 .joined, .stopper 0 .dispose]
  | .freertos =>
      [.runner 0 .lock, .runner 0 .create, .runner 0 .add, .worker 0 .takeStore,
        .worker 0 .giveStore, .worker 0 .analysed, .stopper 0 (.call 0), .stopper 0 .lock,
        .stopper 0 .strike, .stopper 0 .dispose]

theorem stopping_safe_stoppedInputs :
    (∃ s, Reaches (next .posix) (fun s i => s.StrikesSafely .posix i = true) init
      (stoppedInputs .posix) s ∧ s.Safe) ∧
    ∃ s, Reaches (next .freertos) (fun s i => s.StrikesSafely .freertos i = true) init
      (stoppedInputs .freertos) s ∧ s.Safe := by
  have htaken (platform : Platform) : ((stoppedInputs platform).foldlM (guarded (next platform)
      fun s i => s.StrikesSafely platform i = true) init).isSome = true := by
    cases platform <;> decide +kernel
  have hposix := Reaches.of_foldlM (Option.some_get (htaken .posix)).symm
  have hfreertos := Reaches.of_foldlM (Option.some_get (htaken .freertos)).symm
  exact ⟨⟨_, hposix, stopping_safe hposix⟩, _, hfreertos, stopping_safe hfreertos⟩

/-- The thread is cancelled as it executes, and comes to its clean-up before
there is a cancellation point. -/
def hangingInputs : List Input :=
  [.runner 0 .lock, .runner 0 .create, .runner 0 .add, .worker 0 .analysed,
    .stopper 0 (.call 0), .stopper 0 .lock, .stopper 0 .strike, .worker 0 .finish]

/-- The task is deleted in `get_proc`. -/
def orphaningInputs : List Input :=
  [.runner 0 .lock, .runner 0 .create, .runner 0 .add, .worker 0 .takeStore,
    .stopper 0 (.call 0), .stopper 0 .lock, .stopper 0 .strike]

theorem stopping_not_safe :
    (∃ s, Reaches (next .posix) (fun _ _ => True) init hangingInputs s ∧ ¬ s.Safe) ∧
    ∃ s, Reaches (next .freertos) (fun _ _ => True) init orphaningInputs s ∧ ¬ s.Safe := by
  have hhanging : (hangingInputs.foldlM (guarded (next .posix) fun _ _ => True) init).any
      (fun s => s.registryOwner = some (.stopper 0) ∧ s.stoppers 0 = .joins 0 ∧
        s.phase 0 = .waitsRegistry) = true := by
    decide +kernel
  have horphaning : (orphaningInputs.foldlM (guarded (next .freertos) fun _ _ => True) init).any
      (fun s => (s.phase 0).isTerminated = true ∧ s.storeOwner = some (.worker 0)) = true := by
    decide +kernel
  rw [Option.any_eq_true] at hhanging horphaning
  rcases hhanging with ⟨s, hs, hhangs⟩
  rcases horphaning with ⟨s', hs', horphans⟩
  rcases of_decide_eq_true hhangs with ⟨howner, hjoins, hwaits⟩
  rcases of_decide_eq_true horphans with ⟨hterminated, hstore⟩
  refine ⟨⟨s, .of_foldlM hs, fun h => ?_⟩, s', .of_foldlM hs', fun h => ?_⟩
  · exact h.no_deadlock 0 0 howner hjoins hwaits
  · exact (h.no_orphan 0 hterminated).1 hstore

end Stopping

end CspProc
