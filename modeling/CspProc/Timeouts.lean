import CspProc.Blocks

/-! # Timeouts

How long `proc_runtime_block` waits. The time that has passed since a block
started is a function of the state, and the clock tells it: ticks on one
runtime, with a counter that wraps, and normalised seconds and nanoseconds on
the other. A block should not report a timeout early, and should return 0 for a
condition that turns out to be true in time.

Both runtimes compute the deadline once and compare readings with it. The sum
wraps in one of them, and is not normalised in the other.
-/

namespace CspProc

namespace RuntimeHost

variable {P F T : Type} (h : RuntimeHost P F T) (ifelse : ProcInstruction) (s : P)

/-- The loop of the block that starts in a state. -/
def blockPolling : Polling P := h.polling ifelse (h.clock.deadline s).1

/-- The state before a round of its loop, if there were no deadline. -/
def roundStart (k : Nat) : P := (h.blockPolling ifelse s).round^[k] (h.clock.deadline s).2

/-- The state behind the poll of a round, in which the clock is read again. -/
def roundPolled (k : Nat) : P := (h.blockPolling ifelse s).polled (h.roundStart ifelse s k)

/-- The result of the condition in a round. -/
def roundResult (k : Nat) : Condition :=
  ((h.procRuntimeIfelse ifelse).run
    (h.clock.before (h.clock.deadline s).1 (h.roundStart ifelse s k)).2).value

/-- The block waits its whole timeout. -/
structure WaitsWholeTimeout (elapsed : P → Nat) (timeout : Nat) : Prop where
  finishes : ∀ k, h.roundResult ifelse s k = .holds →
    (∀ j < k, ¬ (h.roundResult ifelse s j).IsError) →
    elapsed (h.roundPolled ifelse s k) < timeout →
    ∃ n t, h.blockRun ifelse s n = ⟨.ended .finished, t⟩
  timesOut : ∀ n u t, h.blockRun ifelse s n = ⟨.check, u⟩ →
    h.blockRun ifelse s (n + 1) = ⟨.ended .timedOut, t⟩ → timeout ≤ elapsed u

variable {h ifelse s} {elapsed : P → Nat} {timeout : Nat}

/-- Behind the loop, only a clock that has reached the deadline is a timeout. -/
theorem reached_of_timedOut {n : Nat} {u t : P} (hcheck : h.blockRun ifelse s n = ⟨.check, u⟩)
    (hended : h.blockRun ifelse s (n + 1) = ⟨.ended .timedOut, t⟩) :
    (h.clock.reached (h.clock.deadline s).1 u).1 = true := by
  rw [blockRun_succ, hcheck] at hended
  cases hreached : (h.clock.reached (h.clock.deadline s).1 u).1 with
  | true => rfl
  | false =>
      simp only [Polling.step, polling, hreached] at hended
      cases hended

/-- It is enough that the clock passes every test in time, and that it has
reached the deadline only when the time is up. -/
theorem WaitsWholeTimeout.of_clock (hforward : (h.blockPolling ifelse s).Forward elapsed)
    (hbefore : ∀ u, elapsed u < timeout → (h.clock.before (h.clock.deadline s).1 u).1 = true)
    (hreached : ∀ u, (h.clock.reached (h.clock.deadline s).1 u).1 = true → timeout ≤ elapsed u) :
    h.WaitsWholeTimeout ifelse s elapsed timeout := by
  constructor
  · intro k hholds hgoes hintime
    -- every reading up to the last one is in time
    have hpolled : ∀ j ≤ k, elapsed (h.roundPolled ifelse s j) < timeout :=
      fun j hj => (hforward.polled_mono _ hj).trans_lt hintime
    apply Polling.exists_finished (m := h.blockPolling ifelse s) (k := k)
    · exact Condition.verdict_done_iff.mpr hholds
    · intro j hj habort
      have herr : h.roundResult ifelse s j = .err := Condition.verdict_abort_iff.mp habort
      exact hgoes j hj (Condition.isError_iff.mpr (.inl herr))
    · intro j hj
      exact hbefore _ ((hforward.polled _).trans_lt (hpolled j hj))
    · intro j hj
      refine Bool.eq_false_iff.mpr ?_
      intro hlate
      exact absurd (hreached _ hlate) (not_le.mpr (hpolled j hj))
  · intro n u t hcheck hended
    exact hreached u (reached_of_timedOut hcheck hended)

/-- A block does not wait if its first test fails and the deadline counts as
reached too early. -/
theorem not_waitsWholeTimeout (deadline : T) (u v : P)
    (hdeadline : h.clock.deadline s = (deadline, u))
    (hbefore : h.clock.before deadline u = (false, v))
    (hreached : (h.clock.reached deadline v).1 = true) (hearly : elapsed v < timeout) :
    ¬ h.WaitsWholeTimeout ifelse s elapsed timeout := by
  intro hwaits
  have hone : h.blockRun ifelse s 1 = ⟨.check, v⟩ := by
    rw [blockRun, hdeadline, Polling.run_one]
    simp only [polling, hbefore]
    rfl
  have htwo : h.blockRun ifelse s 2 = ⟨.ended .timedOut, (h.clock.reached deadline v).2⟩ := by
    rw [blockRun_succ, hone, hdeadline]
    simp only [Polling.step, polling, hreached]
    rfl
  exact absurd (hwaits.timesOut 1 v _ hone htwo) (not_le.mpr hearly)

end RuntimeHost

/-! ## The tick counter -/

/-- Blocks that start at a reading of the tick counter wait their whole timeout,
whatever else happens: the counter goes on from its reading and wraps, and
neither a poll nor a delay takes the time back. -/
def FreertosWaits (start timeoutTicks : UInt32) : Prop :=
  ∀ (P F : Type) (host : Host P F) (xTaskGetTickCount : P → UInt32 × P) (vTaskDelay : P → P)
    (maxPolls : Nat) (elapsed : P → Nat) (node : UInt16) (a : CStr) (op : UInt32) (b : CStr)
    (s : P),
    let h : RuntimeHost P F UInt32 :=
      ⟨host, .freertos xTaskGetTickCount vTaskDelay timeoutTicks, maxPolls⟩
    (∀ u, (xTaskGetTickCount u).1 = start + .ofNat (elapsed u)) → elapsed s = 0 →
    (h.blockPolling ⟨node, .ifelse a op b⟩ s).Forward elapsed →
    h.WaitsWholeTimeout ⟨node, .ifelse a op b⟩ s elapsed timeoutTicks.toNat

theorem freertosWaits_of_lt {start timeoutTicks : UInt32}
    (hlt : start.toNat + timeoutTicks.toNat < 2 ^ 32) : FreertosWaits start timeoutTicks := by
  intro P F host xTaskGetTickCount vTaskDelay maxPolls elapsed node a op b s h htick hstart hforward
  have hdeadline : (h.clock.deadline s).1 = start + timeoutTicks := by
    show (xTaskGetTickCount s).1 + timeoutTicks = start + timeoutTicks
    rw [htick, hstart]
    simp
  apply RuntimeHost.WaitsWholeTimeout.of_clock hforward
  · intro u hu
    rw [hdeadline]
    show decide ((xTaskGetTickCount u).1 < start + timeoutTicks) = true
    rw [htick, decide_eq_true_eq, UInt32.lt_iff_toNat_lt]
    simp only [UInt32.toNat_add, UInt32.toNat_ofNat']
    omega
  · intro u hu
    rw [hdeadline] at hu
    have hle : start + timeoutTicks ≤ start + .ofNat (elapsed u) := by
      have hle : decide (start + timeoutTicks ≤ (xTaskGetTickCount u).1) = true := hu
      rw [htick] at hle
      exact of_decide_eq_true hle
    rw [UInt32.le_iff_toNat_le] at hle
    simp only [UInt32.toNat_add, UInt32.toNat_ofNat'] at hle
    omega

/-- Where the sum wraps, a block whose clock stands still times out at once. -/
theorem not_freertosWaits {start timeoutTicks : UInt32}
    (hwraps : 2 ^ 32 ≤ start.toNat + timeoutTicks.toNat) : ¬ FreertosWaits start timeoutTicks := by
  intro hwaits
  have hstart := start.toNat_lt
  have hticks := timeoutTicks.toNat_lt
  have hlt : start + timeoutTicks < start := by
    rw [UInt32.lt_iff_toNat_lt, UInt32.toNat_add]
    omega
  have hstands := hwaits (List (Param × UInt64)) Float hostOne.toHost (fun s => (start, s)) id 1
    (fun _ => 0) 0 .nil 0 .nil [] (fun u => by simp) rfl
    ⟨fun _ => le_rfl, fun _ => le_rfl, fun _ => le_rfl⟩
  refine RuntimeHost.not_waitsWholeTimeout (start + timeoutTicks) [] [] rfl ?_ ?_ ?_ hstands
  · show (decide (start < start + timeoutTicks), []) = (false, [])
    rw [decide_eq_false (UInt32.not_lt.mpr (UInt32.le_of_lt hlt))]
  · exact decide_eq_true (UInt32.le_of_lt hlt)
  · show 0 < timeoutTicks.toNat
    omega

/-! ## The time of day -/

/-- The nanoseconds are fewer than a second. -/
structure Timespec.Normalised (t : Timespec) : Prop where
  nonneg : 0 ≤ t.nsec
  lt : t.nsec < 1000000000

/-- The time in nanoseconds. -/
def Timespec.nanoseconds (t : Timespec) : Int := t.sec * 1000000000 + t.nsec

/-- A point in time has one normalised form. -/
theorem Timespec.Normalised.eq {a b : Timespec} (ha : a.Normalised) (hb : b.Normalised)
    (h : a.nanoseconds = b.nanoseconds) : a = b := by
  rcases a with ⟨asec, ansec⟩
  rcases b with ⟨bsec, bnsec⟩
  have hlt := ha.lt
  have hlt' := hb.lt
  have hnonneg := ha.nonneg
  have hnonneg' := hb.nonneg
  simp only [nanoseconds] at h hlt hlt' hnonneg hnonneg'
  rw [mk.injEq]
  omega

/-- The same for the blocks of the other runtime: every reading of the clock is
normalised, and later than the first one by the time that has passed. -/
def PosixWaits (start : Timespec) (maxProcBlockTimeoutMs : Nat) : Prop :=
  ∀ (P F : Type) (host : Host P F) (gettime : P → Option Timespec × P) (nanosleep : P → P)
    (stale : Timespec) (maxPolls : Nat) (elapsed : P → Nat) (node : UInt16) (a : CStr) (op : UInt32)
    (b : CStr) (s : P),
    let h : RuntimeHost P F Timespec :=
      ⟨host, .posix gettime nanosleep stale maxProcBlockTimeoutMs, maxPolls⟩
    (∀ u, ∃ now, (gettime u).1 = some now ∧ now.Normalised ∧
      now.nanoseconds = start.nanoseconds + elapsed u) → elapsed s = 0 →
    (h.blockPolling ⟨node, .ifelse a op b⟩ s).Forward elapsed →
    h.WaitsWholeTimeout ⟨node, .ifelse a op b⟩ s elapsed (maxProcBlockTimeoutMs * 1000000)

/-- `timeout` of `proc_runtime_block`. -/
def Timespec.deadline (start : Timespec) (maxProcBlockTimeoutMs : Nat) : Timespec :=
  ⟨start.sec + (maxProcBlockTimeoutMs / 1000 : Nat),
    start.nsec + (maxProcBlockTimeoutMs % 1000 * 1000000 : Nat)⟩

theorem Timespec.nanoseconds_deadline (start : Timespec) (ms : Nat) :
    (start.deadline ms).nanoseconds = start.nanoseconds + (ms * 1000000 : Nat) := by
  simp only [deadline, nanoseconds]
  omega

theorem posixWaits_of_le {start : Timespec} (hnorm : start.Normalised) {ms : Nat}
    (hle : start.nsec + (ms % 1000 * 1000000 : Nat) ≤ 1000000000) : PosixWaits start ms := by
  intro P F host gettime nanosleep stale maxPolls elapsed node a op b s h htime hstart hforward
  have hdeadline : (h.clock.deadline s).1 = start.deadline ms := by
    rcases htime s with ⟨now, hnow, hnorm', hns⟩
    have heq : now = start := hnorm'.eq hnorm (by omega)
    show (⟨_, _⟩ : Timespec) = start.deadline ms
    rw [hnow, heq]
    rfl
  -- a reading is below the deadline exactly as long as the time is not up
  have hlt : ∀ now : Timespec, now.Normalised →
      (now.lt (start.deadline ms) ↔ now.nanoseconds < (start.deadline ms).nanoseconds) := by
    intro now hnow
    rcases hnow with ⟨hnow, hnow'⟩
    rcases hnorm with ⟨hn, hn'⟩
    simp only [Timespec.lt, Timespec.deadline, Timespec.nanoseconds]
    omega
  apply RuntimeHost.WaitsWholeTimeout.of_clock hforward
  · intro u hu
    rcases htime u with ⟨now, hnow, hnorm', hns⟩
    rw [hdeadline]
    show (gettime u).1.any (fun now => now.lt (start.deadline ms)) = true
    rw [hnow, Option.any_some, decide_eq_true_eq, hlt now hnorm', hns,
      Timespec.nanoseconds_deadline]
    omega
  · intro u hu
    rcases htime u with ⟨now, hnow, hnorm', hns⟩
    rw [hdeadline] at hu
    have hge : (gettime u).1.any (fun now => ¬ now.lt (start.deadline ms)) = true := hu
    rw [hnow, Option.any_some, decide_eq_true_eq, hlt now hnorm', hns,
      Timespec.nanoseconds_deadline] at hge
    omega

/-- A libparam without parameters. -/
def Libparam.empty (P : Type) : Libparam P where
  params _ := []
  strmatch _ _ := false
  paramListDownload _ s := (0, s)
  paramPullSingle _ _ _ s := (0, s)
  paramPushSingle _ _ _ _ s := (0, s)
  paramGet _ _ _ := 0
  paramSet _ _ _ s := s
  paramStrToValue _ _ := none
  clearTimestamp _ s := s
  text _ _ := .nil
  typeCode type := type.ctorIdx

/-- A clock that is read in the first second after the one of the deadline,
once it has been read at the start. -/
def leap (start : Timespec) (ms : Nat) (started : Bool) : Option Timespec × Bool :=
  (some (if started then ⟨(start.deadline ms).sec + 1, 0⟩ else start), true)

/-- The time until that second. -/
def leapTime (start : Timespec) (ms : Nat) (started : Bool) : Nat :=
  if started then (((start.deadline ms).sec + 1) * 1000000000 - start.nanoseconds).toNat else 0

/-- Where the nanoseconds of the deadline are more than a second, a block whose
clock is then read in the next second times out before its timeout is over. -/
theorem not_posixWaits {start : Timespec} (hnorm : start.Normalised) {ms : Nat}
    (hcarries : 1000000000 < start.nsec + (ms % 1000 * 1000000 : Nat)) : ¬ PosixWaits start ms := by
  intro hwaits
  have hnonneg := hnorm.nonneg
  have hlt := hnorm.lt
  have htime : (leapTime start ms true : Int) =
      (ms / 1000 + 1 : Nat) * 1000000000 - start.nsec := by
    simp only [leapTime, Timespec.deadline, Timespec.nanoseconds, if_true]
    omega
  have hmono : ∀ u, leapTime start ms u ≤ leapTime start ms true := by
    intro u
    cases u with
    | false => exact Nat.zero_le _
    | true => exact le_rfl
  -- the next second is a normalised reading, and so is the start
  have htells : ∀ u, ∃ now, (leap start ms u).1 = some now ∧ now.Normalised ∧
      now.nanoseconds = start.nanoseconds + leapTime start ms u := by
    intro u
    cases u with
    | false => exact ⟨start, rfl, hnorm, by simp [leapTime]⟩
    | true =>
        refine ⟨_, rfl, ⟨by simp, by simp⟩, ?_⟩
        rw [htime]
        simp only [Timespec.deadline, Timespec.nanoseconds, if_true]
        omega
  have hleaps := hwaits Bool Float ⟨.empty Bool, .ieee, [], id, true⟩ (leap start ms) id start 1
    (leapTime start ms) 0 .nil 0 .nil false htells rfl ⟨hmono, fun _ => le_rfl, fun _ => le_rfl⟩
  have hlate : ¬ (⟨(start.deadline ms).sec + 1, 0⟩ : Timespec).lt (start.deadline ms) := by
    simp only [Timespec.lt]
    omega
  refine RuntimeHost.not_waitsWholeTimeout (start.deadline ms) true true rfl ?_ ?_ ?_ hleaps
  · show (decide ((⟨(start.deadline ms).sec + 1, 0⟩ : Timespec).lt (start.deadline ms)), true) = _
    rw [decide_eq_false hlate]
  · exact decide_eq_true hlate
  · omega

/-! ## Both runtimes -/

/-- A block waits its whole timeout from every start for which its deadline
neither wraps nor carries into the next second. -/
theorem waits_whole_timeout_iff (startTick timeoutTicks : UInt32) {start : Timespec}
    (hnorm : start.Normalised) (maxProcBlockTimeoutMs : Nat) :
    (FreertosWaits startTick timeoutTicks ↔ startTick.toNat + timeoutTicks.toNat < 2 ^ 32) ∧
    (PosixWaits start maxProcBlockTimeoutMs ↔
      start.nsec + (maxProcBlockTimeoutMs % 1000 * 1000000 : Nat) ≤ 1000000000) := by
  constructor
  · constructor
    · intro hwaits
      by_contra hwraps
      exact not_freertosWaits (not_lt.mp hwraps) hwaits
    · exact freertosWaits_of_lt
  · constructor
    · intro hwaits
      by_contra hcarries
      exact not_posixWaits hnorm (not_le.mp hcarries) hwaits
    · exact posixWaits_of_le hnorm

theorem waits_whole_timeout_default :
    FreertosWaits 0 5000000 ∧ PosixWaits ⟨0, 999999999⟩ 5000000 := by
  have hnorm : Timespec.Normalised ⟨0, 999999999⟩ := ⟨by decide, by decide⟩
  have hboth := waits_whole_timeout_iff 0 5000000 hnorm 5000000
  exact ⟨hboth.1.mpr (by decide), hboth.2.mpr (by decide)⟩

/-- The last tick before the counter wraps, and 0.9 seconds with a timeout of
0.2 seconds. -/
theorem deadline_wraps_or_carries :
    ¬ FreertosWaits 4294967295 5000000 ∧ ¬ PosixWaits ⟨0, 900000000⟩ 200 :=
  ⟨not_freertosWaits (by decide), not_posixWaits ⟨by decide, by decide⟩ (by decide)⟩

end CspProc
