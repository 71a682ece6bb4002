import CspProc.Lib.Command

/-! # Procedures with contracts

A machine with a stack, over arbitrary procedures: at each point a procedure goes on,
calls another one (nested, or in its own place), returns or fails. Contracts say what
holds when a procedure is entered and when it returns; an outline says what holds in
between. The rules are sound for all runs, those included that never end, and complete.

* `safe_iff_proves` — what is proved with contracts holds of every run, and contracts
  prove everything that does;
* `ends_iff_proves` — the same for runs that end, with contracts that have a rank.
-/

/-- What a procedure does next. A call has the point to come back to; in a tail call
the callee takes the caller's place. -/
inductive Jump (κ π σ ε : Type) where
  | goTo (point : π) (s : σ)
  | call (callee : κ) (back : π) (s : σ)
  | tail (callee : κ) (s : σ)
  | ret (s : σ)
  | fail (err : ε) (s : σ)

/-- Procedures `κ` with the points `π` of their bodies, over states `σ`, and with
errors `ε` that end everything. -/
structure Procs (κ π σ ε : Type) where
  entry : κ → π
  next : π → σ → Jump κ π σ ε

/-- A point that is run, with the points to come back to, the innermost first. -/
inductive StackState (π σ ε : Type) where
  | running (point : π) (s : σ) (stack : List π)
  | returned (s : σ) (stack : List π)
  | failed (err : ε) (s : σ)

namespace StackState

variable {π σ ε : Type}

/-- The outermost procedure has returned, or one has failed. -/
inductive Final : StackState π σ ε → Prop
  | returned (s : σ) : Final (.returned s [])
  | failed (err : ε) (s : σ) : Final (.failed err s)

/-- What is asked of a run: `safe` at all points, `Q` at the end, `E` for errors. -/
def Ok (safe : π → σ → Prop) (E : ε → σ → Prop) (Q : σ → Prop) : StackState π σ ε → Prop
  | running point s _ => safe point s
  | returned s stack => stack = [] → Q s
  | failed err s => E err s

/-- The same with more to come back to. -/
def push (more : List π) : StackState π σ ε → StackState π σ ε
  | running point s stack => running point s (stack ++ more)
  | returned s stack => returned s (stack ++ more)
  | failed err s => failed err s

end StackState

namespace Procs

variable {κ π σ ε : Type} (P : Procs κ π σ ε)

/-- Where it gets to. -/
def jump (stack : List π) : Jump κ π σ ε → StackState π σ ε
  | .goTo point s => .running point s stack
  | .call k back s => .running (P.entry k) s (back :: stack)
  | .tail k s => .running (P.entry k) s stack
  | .ret s => .returned s stack
  | .fail err s => .failed err s

/-- One step. -/
def step : StackState π σ ε → StackState π σ ε
  | .running point s stack => P.jump stack (P.next point s)
  | .returned s (back :: stack) => .running back s stack
  | .returned s [] => .returned s []
  | .failed err s => .failed err s

/-- The point at which a body goes on, after a call when there is one. -/
def goesOn : Jump κ π σ ε → Option π
  | .goTo point _ => some point
  | .call _ back _ => some back
  | _ => none

/-- The state in which a procedure is called from outside. -/
def start (k : κ) (s : σ) : StackState π σ ε := .running (P.entry k) s []

/-! ## Contracts -/

/-- What holds when a procedure is entered, and how the state it returns is related to
the one it was entered with. -/
structure Contracts (κ σ : Type) where
  pre : κ → σ → Prop
  post : κ → σ → σ → Prop

/-- What a step of a body has to keep, for the assertions `inside` at its points and
the postcondition `Q`. -/
def Keeps (E : ε → σ → Prop) (C : Contracts κ σ) (inside : π → σ → Prop) (Q : σ → Prop) :
    Jump κ π σ ε → Prop
  | .goTo point s => inside point s
  | .call k back s => C.pre k s ∧ ∀ s', C.post k s s' → inside back s'
  | .tail k s => C.pre k s ∧ ∀ s', C.post k s s' → Q s'
  | .ret s => Q s
  | .fail err s => E err s

/-- Assertions at the points of a body that go together. -/
def Outline (safe : π → σ → Prop) (E : ε → σ → Prop) (C : Contracts κ σ) (Q : σ → Prop)
    (inside : π → σ → Prop) : Prop :=
  ∀ point s, inside point s → safe point s ∧ Keeps E C inside Q (P.next point s)

/-- Entered in `s`, the body of a procedure has `Q` when it returns, as far as the
contracts of its calls say. -/
def Proves (safe : π → σ → Prop) (E : ε → σ → Prop) (C : Contracts κ σ) (k : κ) (Q : σ → Prop)
    (s : σ) : Prop :=
  ∃ inside, P.Outline safe E C Q inside ∧ inside (P.entry k) s

/-- Every body keeps its contract. -/
def Verified (safe : π → σ → Prop) (E : ε → σ → Prop) (C : Contracts κ σ) : Prop :=
  ∀ k s, C.pre k s → P.Proves safe E C k (C.post k s) s

variable {P} {safe : π → σ → Prop} {E : ε → σ → Prop} {C : Contracts κ σ} {Q : σ → Prop}

/-- What the points of the stack wait for, the innermost one for `R`. -/
inductive Awaits (P : Procs κ π σ ε) (safe : π → σ → Prop) (E : ε → σ → Prop)
    (C : Contracts κ σ) (Q : σ → Prop) : List π → (σ → Prop) → Prop
  | nil {R : σ → Prop} (h : ∀ s, R s → Q s) : Awaits P safe E C Q [] R
  | cons {R R' : σ → Prop} {inside : π → σ → Prop} {back : π} {stack : List π}
      (houtline : P.Outline safe E C R' inside) (hback : ∀ s, R s → inside back s)
      (hstack : Awaits P safe E C Q stack R') : Awaits P safe E C Q (back :: stack) R

theorem Keeps.imp {inside inside' : π → σ → Prop} {j : Jump κ π σ ε}
    (himp : ∀ point s, goesOn j = some point → inside point s → inside' point s)
    (h : Keeps E C inside Q j) : Keeps E C inside' Q j := by
  cases j with
  | goTo point s => exact himp point s rfl h
  | call k back s => exact ⟨h.1, fun s' hs' => himp back s' rfl (h.2 s' hs')⟩
  | tail | ret | fail => exact h

theorem Awaits.of_imp {stack : List π} {R R' : σ → Prop} (h : Awaits P safe E C Q stack R')
    (himp : ∀ s, R s → R' s) : Awaits P safe E C Q stack R := by
  cases h with
  | nil hQ => exact .nil fun s hs => hQ s (himp s hs)
  | cons houtline hback hstack => exact .cons houtline (fun s hs => hback s (himp s hs)) hstack

/-- The invariant of a run: the innermost procedure is within an outline, and the others
wait for what it gives. -/
inductive Good (P : Procs κ π σ ε) (safe : π → σ → Prop) (E : ε → σ → Prop)
    (C : Contracts κ σ) (Q : σ → Prop) : StackState π σ ε → Prop
  | running {R : σ → Prop} {inside : π → σ → Prop} {point : π} {s : σ} {stack : List π}
      (houtline : P.Outline safe E C R inside) (hinside : inside point s)
      (hstack : Awaits P safe E C Q stack R) : Good P safe E C Q (.running point s stack)
  | returned {R : σ → Prop} {s : σ} {stack : List π} (hs : R s)
      (hstack : Awaits P safe E C Q stack R) : Good P safe E C Q (.returned s stack)
  | failed {err : ε} {s : σ} (hfail : E err s) : Good P safe E C Q (.failed err s)

theorem Good.ok {c : StackState π σ ε} (h : Good P safe E C Q c) : c.Ok safe E Q := by
  cases h with
  | running houtline hinside _ => exact (houtline _ _ hinside).1
  | returned hs hstack =>
      rintro rfl
      cases hstack with
      | nil hQ => exact hQ _ hs
  | failed hfail => exact hfail

/-- A callee is entered with its precondition, and comes back with its postcondition. -/
theorem Good.of_keeps (hC : P.Verified safe E C) {R : σ → Prop} {inside : π → σ → Prop}
    {stack : List π} (houtline : P.Outline safe E C R inside)
    (hstack : Awaits P safe E C Q stack R) {j : Jump κ π σ ε} (h : Keeps E C inside R j) :
    Good P safe E C Q (P.jump stack j) := by
  cases j with
  | goTo point s => exact .running houtline h hstack
  | call k back s =>
      rcases hC k s h.1 with ⟨body, hbody, hentry⟩
      exact .running hbody hentry (.cons houtline h.2 hstack)
  | tail k s =>
      rcases hC k s h.1 with ⟨body, hbody, hentry⟩
      exact .running hbody hentry (hstack.of_imp h.2)
  | ret s => exact .returned h hstack
  | fail err s => exact .failed h

theorem Good.step (hC : P.Verified safe E C) {c : StackState π σ ε}
    (h : Good P safe E C Q c) : Good P safe E C Q (P.step c) := by
  cases h with
  | failed hfail => exact .failed hfail
  | running houtline hinside hstack =>
      exact .of_keeps hC houtline hstack (houtline _ _ hinside).2
  | returned hs hstack =>
      cases hstack with
      | nil hQ => exact .returned hs (.nil hQ)
      | cons houtline hback hstack => exact .running houtline (hback _ hs) hstack

/-- What is proved with contracts that the bodies keep holds of every run. -/
theorem safe_of_proves (hC : P.Verified safe E C) {k : κ} {s : σ} (h : P.Proves safe E C k Q s)
    {c : StackState π σ ε} (hrun : Runs P.step (P.start k s) c) : c.Ok safe E Q := by
  rcases h with ⟨inside, houtline, hentry⟩
  have hstart : Good P safe E C Q (P.start k s) := .running houtline hentry (.nil fun _ => id)
  exact (hrun.preserves (fun _ => Good.step hC) hstart).ok

/-! ## Runs below a stack -/

/-- A step does not look at the stack, unless the innermost procedure has returned. -/
theorem step_push (more : List π) {c : StackState π σ ε} (hc : ¬ c.Final) :
    P.step (c.push more) = (P.step c).push more := by
  cases c with
  | failed err s => exact absurd (.failed err s) hc
  | returned s stack =>
      cases stack with
      | nil => exact absurd (.returned s) hc
      | cons back stack => rfl
  | running point s stack =>
      rw [StackState.push, step, step]
      cases P.next point s <;> rfl

theorem step_of_final {c : StackState π σ ε} (hc : c.Final) : P.step c = c := by
  cases hc <;> rfl

/-- A run goes the same way below a stack. -/
theorem runs_push (more : List π) {c c' : StackState π σ ε} (h : Runs P.step c c') :
    Runs P.step (c.push more) (c'.push more) := by
  rcases h with ⟨n, rfl⟩
  induction n generalizing c with
  | zero => exact .refl
  | succ n ih =>
      rw [Function.iterate_succ_apply]
      by_cases hc : c.Final
      · rw [step_of_final hc]
        exact ih
      · have hrun := ih (c := P.step c)
        rw [← step_push more hc] at hrun
        exact hrun.head

/-- When it comes to its end below a stack, it does so by itself. -/
theorem final_of_push (more : List π) {n : Nat} {c : StackState π σ ε}
    (h : (P.step^[n] (c.push more)).Final) : ∃ k ≤ n, (P.step^[k] c).Final := by
  induction n generalizing c with
  | zero =>
      refine ⟨0, Nat.le_refl 0, ?_⟩
      rw [Function.iterate_zero_apply] at h ⊢
      cases c with
      | running point s stack => cases h
      | failed err s => exact .failed err s
      | returned s stack =>
          cases stack with
          | nil => exact .returned s
          | cons back stack => cases h
  | succ n ih =>
      by_cases hc : c.Final
      · exact ⟨0, Nat.zero_le _, hc⟩
      · rw [Function.iterate_succ_apply, step_push more hc] at h
        rcases ih h with ⟨k, hk, hfinal⟩
        exact ⟨k + 1, Nat.succ_le_succ hk, hfinal⟩

/-! ## Completeness -/

/-- The procedure that is called, and the state it is entered with. -/
def callee : Jump κ π σ ε → Option (κ × σ)
  | .call k _ s => some (k, s)
  | .tail k s => some (k, s)
  | _ => none

variable {starts : κ → σ → Prop} {k k' : κ} {s s' s'' : σ} {point : π}

/-- A call starts the callee above what is on the stack. -/
theorem step_callee (stack : List π) (h : callee (P.next point s) = some (k, s')) :
    ∃ more, P.step (.running point s stack) = (P.start k s').push (more ++ stack) := by
  rw [step]
  cases hnext : P.next point s with
  | call k' back s'' =>
      rw [hnext] at h
      cases h
      exact ⟨[back], rfl⟩
  | tail k' s'' =>
      rw [hnext] at h
      cases h
      exact ⟨[], rfl⟩
  | goTo | ret | fail =>
      rw [hnext] at h
      cases h

/-- A run from one of the starts enters the procedure. -/
def Entered (P : Procs κ π σ ε) (starts : κ → σ → Prop) (k : κ) (s : σ) : Prop :=
  ∃ k₀ s₀ stack, starts k₀ s₀ ∧ Runs P.step (P.start k₀ s₀) ((P.start k s).push stack)

/-- The procedure returns, from a run of its own. -/
def Returns (P : Procs κ π σ ε) (k : κ) (s s' : σ) : Prop :=
  Runs P.step (P.start k s) (.returned s' [])

theorem Entered.of_starts (h : starts k s) : P.Entered starts k s := ⟨k, s, [], h, .refl⟩

theorem Entered.callee (h : P.Entered starts k s)
    (hrun : Runs P.step (P.start k s) (.running point s' []))
    (hcallee : callee (P.next point s') = some (k', s'')) : P.Entered starts k' s'' := by
  rcases h with ⟨k₀, s₀, stack, hstart, hrun₀⟩
  rcases step_callee stack hcallee with ⟨more, hstep⟩
  refine ⟨k₀, s₀, more ++ stack, hstart, ?_⟩
  rw [← hstep]
  exact (hrun₀.trans (runs_push stack hrun)).trans .single

/-- What is asked of the runs from the starts holds of the procedures they enter. -/
theorem Entered.ok {Q : κ → σ → σ → Prop}
    (hok : ∀ k s, starts k s → ∀ c, Runs P.step (P.start k s) c → c.Ok safe E (Q k s))
    (h : P.Entered starts k s) {c : StackState π σ ε} (hrun : Runs P.step (P.start k s) c) :
    c.Ok safe E (P.Returns k s) := by
  rcases h with ⟨k₀, s₀, stack, hstart, hrun₀⟩
  have hc := hok k₀ s₀ hstart _ (hrun₀.trans (runs_push stack hrun))
  cases c with
  | running point s' rest => exact hc
  | failed err s' => exact hc
  | returned s' rest =>
      rintro rfl
      exact hrun

/-- A procedure is proved with its own runs as the outline, when the contracts have
returns for postconditions and its calls have their preconditions. -/
theorem proves_of_runs (hpost : C.post = P.Returns)
    (hok : ∀ c, Runs P.step (P.start k s) c → c.Ok safe E Q)
    (hcalls : ∀ point s' k' s'', Runs P.step (P.start k s) (.running point s' []) →
      callee (P.next point s') = some (k', s'') → C.pre k' s'') : P.Proves safe E C k Q s := by
  refine ⟨fun point s' => Runs P.step (P.start k s) (.running point s' []), ?_, .refl⟩
  intro point s' hrun
  refine ⟨hok _ hrun, ?_⟩
  have hstep : Runs P.step (P.start k s) (P.jump [] (P.next point s')) := hrun.trans .single
  have hpre := fun k' s'' => hcalls point s' k' s'' hrun
  cases hnext : P.next point s' with
  | goTo point' s'' =>
      rw [hnext] at hstep
      exact hstep
  | call k' back s'' =>
      rw [hnext] at hstep hpre
      refine ⟨hpre k' s'' rfl, ?_⟩
      intro s₃ hreturns
      rw [hpost] at hreturns
      exact (hstep.trans (runs_push [back] hreturns)).trans .single
  | tail k' s'' =>
      rw [hnext] at hstep hpre
      refine ⟨hpre k' s'' rfl, ?_⟩
      intro s₃ hreturns
      rw [hpost] at hreturns
      exact hok _ (hstep.trans hreturns) rfl
  | ret s'' =>
      rw [hnext] at hstep
      exact hok _ hstep rfl
  | fail err s'' =>
      rw [hnext] at hstep
      exact hok _ hstep

/-- The rules are as strong as the runs. -/
theorem safe_iff_proves (P : Procs κ π σ ε) (safe : π → σ → Prop) (E : ε → σ → Prop)
    (starts : κ → σ → Prop) (Q : κ → σ → σ → Prop) :
    (∀ k s, starts k s → ∀ c, Runs P.step (P.start k s) c → c.Ok safe E (Q k s)) ↔
      ∃ C, P.Verified safe E C ∧ ∀ k s, starts k s → P.Proves safe E C k (Q k s) s := by
  constructor
  · intro hok
    refine ⟨⟨P.Entered starts, P.Returns⟩, ?_, ?_⟩
    · intro k s hentered
      exact proves_of_runs rfl (fun _ => hentered.ok hok)
        fun _ _ _ _ hrun hcallee => hentered.callee hrun hcallee
    · intro k s hstart
      exact proves_of_runs rfl (hok k s hstart)
        fun _ _ _ _ hrun hcallee => (Entered.of_starts hstart).callee hrun hcallee
  · rintro ⟨C, hC, hproves⟩ k s hstart c hrun
    exact safe_of_proves hC (hproves k s hstart) hrun

/-! ## Runs that end -/

/-- Contracts with a rank that goes down with every call. -/
structure RankedContracts (κ σ : Type) where
  pre : Nat → κ → σ → Prop
  post : κ → σ → σ → Prop

/-- The contracts for calls from below a rank. -/
def RankedContracts.below (C : RankedContracts κ σ) (rank : Nat) : Contracts κ σ :=
  ⟨fun k s => ∃ r < rank, C.pre r k s, C.post⟩

/-- The contracts without the ranks. -/
def RankedContracts.unranked (C : RankedContracts κ σ) : Contracts κ σ :=
  ⟨fun k s => ∃ r, C.pre r k s, C.post⟩

/-- Every body keeps its contract, with calls of lower ranks. -/
def VerifiedRanked (P : Procs κ π σ ε) (safe : π → σ → Prop) (E : ε → σ → Prop)
    (C : RankedContracts κ σ) : Prop :=
  ∀ rank k s, C.pre rank k s → P.Proves safe E (C.below rank) k (C.post k s) s

/-- A body goes forward. -/
def Advances (P : Procs κ π σ ε) (left : π → Nat) : Prop :=
  ∀ point s point', goesOn (P.next point s) = some point' → left point' < left point

theorem Keeps.mono {C' : Contracts κ σ} (hpre : ∀ k s, C.pre k s → C'.pre k s)
    (hpost : C'.post = C.post) {inside : π → σ → Prop} {j : Jump κ π σ ε}
    (h : Keeps E C inside Q j) : Keeps E C' inside Q j := by
  cases j with
  | goTo | ret | fail => exact h
  | call k back s => exact ⟨hpre k s h.1, fun s' => by rw [hpost]; exact h.2 s'⟩
  | tail k s => exact ⟨hpre k s h.1, fun s' => by rw [hpost]; exact h.2 s'⟩

theorem Proves.mono {C' : Contracts κ σ} (hpre : ∀ k s, C.pre k s → C'.pre k s)
    (hpost : C'.post = C.post) (h : P.Proves safe E C k Q s) : P.Proves safe E C' k Q s := by
  rcases h with ⟨inside, houtline, hentry⟩
  refine ⟨inside, ?_, hentry⟩
  intro point s hs
  exact ⟨(houtline point s hs).1, (houtline point s hs).2.mono hpre hpost⟩

theorem Proves.unranked {C : RankedContracts κ σ} {rank : Nat}
    (h : P.Proves safe E (C.below rank) k Q s) : P.Proves safe E C.unranked k Q s := by
  have hpre : ∀ k s, (C.below rank).pre k s → C.unranked.pre k s := by
    rintro k s ⟨r, -, hr⟩
    exact ⟨r, hr⟩
  exact h.mono hpre rfl

theorem VerifiedRanked.unranked {C : RankedContracts κ σ} (h : P.VerifiedRanked safe E C) :
    P.Verified safe E C.unranked := by
  rintro k s ⟨rank, hpre⟩
  exact (h rank k s hpre).unranked

/-- A run gets to the end of the innermost procedure, or to an error. -/
inductive Completes (P : Procs κ π σ ε) (Q : σ → Prop) (stack : List π)
    (c : StackState π σ ε) : Prop
  | returned (s : σ) (hs : Q s) (h : Runs P.step c (.returned s stack))
  | failed (err : ε) (s : σ) (h : Runs P.step c (.failed err s))

namespace Completes

variable {stack : List π} {c c' : StackState π σ ε}

theorem runs_trans (hrun : Runs P.step c c') (h : Completes P Q stack c') :
    Completes P Q stack c := by
  cases h with
  | returned s hs h => exact .returned s hs (hrun.trans h)
  | failed err s h => exact .failed err s (hrun.trans h)

theorem of_imp {R : σ → Prop} (h : Completes P R stack c) (himp : ∀ s, R s → Q s) :
    Completes P Q stack c := by
  cases h with
  | returned s hs h => exact .returned s (himp s hs) h
  | failed err s h => exact .failed err s h

end Completes

/-- Procedures that go forward, and whose calls have lower ranks, come to their end. -/
theorem completes_of_proves {left : π → Nat} (hleft : P.Advances left) {C : RankedContracts κ σ}
    (hC : P.VerifiedRanked safe E C) (rank : Nat) (h : P.Proves safe E (C.below rank) k Q s)
    (stack : List π) : Completes P Q stack (.running (P.entry k) s stack) := by
  induction rank using Nat.strongRecOn generalizing k Q s stack with
  | ind rank ih =>
      rcases h with ⟨inside, houtline, hentry⟩
      -- the rest of the body, from any of its points on
      have hrest : ∀ n point s, left point = n → inside point s →
          Completes P Q stack (.running point s stack) := by
        intro n
        induction n using Nat.strongRecOn with
        | ind n ihn =>
            intro point s hn hinside
            have hkeeps := (houtline point s hinside).2
            have hless := hleft point s
            refine .runs_trans .single ?_
            rw [step]
            cases hnext : P.next point s with
            | goTo point' s' =>
                rw [hnext] at hkeeps hless
                exact ihn _ (hn ▸ hless point' rfl) point' s' rfl hkeeps
            | call k' back s' =>
                rw [hnext] at hkeeps hless
                rcases hkeeps with ⟨⟨r, hr, hpre⟩, hback⟩
                cases ih r hr (hC r k' s' hpre) (back :: stack) with
                | failed err s₁ hrun => exact .failed err s₁ hrun
                | returned s₁ hpost hrun =>
                    exact .runs_trans (hrun.trans .single)
                      (ihn _ (hn ▸ hless back rfl) back s₁ rfl (hback s₁ hpost))
            | tail k' s' =>
                rw [hnext] at hkeeps
                rcases hkeeps with ⟨⟨r, hr, hpre⟩, hQ⟩
                exact (ih r hr (hC r k' s' hpre) stack).of_imp hQ
            | ret s' =>
                rw [hnext] at hkeeps
                exact .returned s' hkeeps .refl
            | fail err s' => exact .failed err s' .refl
      exact hrest _ _ _ rfl hentry

/-- What is called on the way to the end comes to its end sooner. -/
theorem ends_callee {n : Nat} (hend : (P.step^[n] (P.start k s)).Final)
    (hrun : Runs P.step (P.start k s) (.running point s' []))
    (hcallee : callee (P.next point s') = some (k', s'')) :
    ∃ i < n, (P.step^[i] (P.start k' s'')).Final := by
  rcases hrun with ⟨j, hj⟩
  have hlt : j < n := by
    by_contra hle
    rcases Nat.exists_eq_add_of_le' (Nat.le_of_not_lt hle) with ⟨d, rfl⟩
    rw [Function.iterate_add_apply, Function.iterate_fixed (step_of_final hend)] at hj
    rw [hj] at hend
    cases hend
  rcases step_callee [] hcallee with ⟨more, hstep⟩
  obtain ⟨d, rfl⟩ : ∃ d, n = d + (j + 1) := ⟨n - (j + 1), by omega⟩
  rw [Function.iterate_add_apply, Function.iterate_succ_apply', hj, hstep] at hend
  rcases final_of_push _ hend with ⟨i, hi, hfinal⟩
  exact ⟨i, by omega, hfinal⟩

/-- The rules with ranks are as strong as the runs that end. -/
theorem ends_iff_proves {left : π → Nat} (hleft : P.Advances left) (safe : π → σ → Prop)
    (E : ε → σ → Prop) (starts : κ → σ → Prop) (Q : κ → σ → σ → Prop) :
    (∀ k s, starts k s → (∀ c, Runs P.step (P.start k s) c → c.Ok safe E (Q k s)) ∧
        ∃ n, (P.step^[n] (P.start k s)).Final) ↔
      ∃ C, P.VerifiedRanked safe E C ∧
        ∀ k s, starts k s → ∃ rank, P.Proves safe E (C.below rank) k (Q k s) s := by
  constructor
  · intro h
    have hok := fun k s hstart => (h k s hstart).1
    refine ⟨⟨fun rank k s => P.Entered starts k s ∧ (P.step^[rank] (P.start k s)).Final,
      P.Returns⟩, ?_, ?_⟩
    · rintro rank k s ⟨hentered, hend⟩
      refine proves_of_runs rfl (fun _ => hentered.ok hok) ?_
      intro point s' k' s'' hrun hcallee
      rcases ends_callee hend hrun hcallee with ⟨i, hi, hfinal⟩
      exact ⟨i, hi, hentered.callee hrun hcallee, hfinal⟩
    · intro k s hstart
      rcases (h k s hstart).2 with ⟨n, hend⟩
      refine ⟨n, proves_of_runs rfl (hok k s hstart) ?_⟩
      intro point s' k' s'' hrun hcallee
      rcases ends_callee hend hrun hcallee with ⟨i, hi, hfinal⟩
      exact ⟨i, hi, (Entered.of_starts hstart).callee hrun hcallee, hfinal⟩
  · rintro ⟨C, hC, hproves⟩ k s hstart
    rcases hproves k s hstart with ⟨rank, hrank⟩
    constructor
    · intro c hrun
      exact safe_of_proves hC.unranked hrank.unranked hrun
    · cases completes_of_proves hleft hC rank hrank [] with
      | returned s' _ hrun =>
          rcases hrun with ⟨n, hn⟩
          exact ⟨n, by rw [start, hn]; exact .returned s'⟩
      | failed err s' hrun =>
          rcases hrun with ⟨n, hn⟩
          exact ⟨n, by rw [start, hn]; exact .failed err s'⟩

end Procs
