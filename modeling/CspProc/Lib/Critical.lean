import CspProc.Lib.System
import Mathlib.Data.List.Nodup

/-! # Calls that share a state under a mutex

Any number of calls run side by side, and every access to the shared state is a
step of its own, so that the steps of the calls interleave. A call that takes the
mutex before its first access and gives it back after its last one is `Guarded`.

* `Threads.Serial.next` — what every step keeps;
* `serial` — the results and the state are those of the calls one after the other,
  undivided, in the order in which they had the mutex;
* `done_later` — that order is the order of time;
* `no_race` — only the call that has the mutex is at an access;
* `holder_gives` — the call that has the mutex gives it back by steps of its own.
-/

namespace Critical

/-- What is left of a call. An access changes the shared state, and what follows it
depends on the state that it found. -/
inductive Body (σ ρ : Type) where
  | ret (result : ρ)
  | take (next : Bool → Body σ ρ)
  | give (next : Body σ ρ)
  | access (update : σ → σ) (next : σ → Body σ ρ)

namespace Body

variable {σ ρ : Type}

/-- The state and the result in the end, when nothing comes between the steps. -/
def finish : Body σ ρ → σ → σ × ρ
  | ret result, s => (s, result)
  | take next, s => (next true).finish s
  | give next, s => next.finish s
  | access update next, s => (next s).finish (update s)

/-- The call has its result. -/
def Returns : Body σ ρ → Prop
  | ret _ => True
  | _ => False

/-- The call has the mutex, and gives it back once, at its end. -/
def Inside : Body σ ρ → Prop
  | ret _ | take _ => False
  | give next => next.Returns
  | access _ next => ∀ s, (next s).Inside

/-- The call does without the shared state until it has taken the mutex. -/
def Guarded : Body σ ρ → Prop
  | ret _ => True
  | take next => (next true).Inside ∧ (next false).Returns
  | give _ | access .. => False

/-- What the call returns when it never has the mutex. -/
def Refuses : Body σ ρ → ρ → Prop
  | ret result, r => result = r
  | take next, r => next false = ret r
  | give _, _ | access .., _ => False

theorem Returns.eq {b : Body σ ρ} (h : b.Returns) : ∃ r, b = ret r := by
  cases b with
  | ret r => exact ⟨r, rfl⟩
  | take | give | access => exact h.elim

end Body

/-- The calls by their numbers, and the number of the one that has the mutex. A
history variable tells of those that have had it, in order, with their results. -/
structure Threads (σ κ ρ : Type) where
  shared : σ
  holder : Option Nat
  calls : List (κ × Body σ ρ)
  done : List (Nat × κ × ρ)

/-- A new call, or a step of one, by whether it would get the mutex. -/
inductive Move (κ : Type) where
  | call (op : κ)
  | step (n : Nat) (taken : Bool)

/-- One operation after the other leads from one state to another, with these
results. -/
inductive Replays {σ κ ρ : Type} (serve : κ → σ → σ × ρ) (s : σ) :
    List (Nat × κ × ρ) → σ → Prop where
  | nil : Replays serve s [] s
  | snoc {done : List (Nat × κ × ρ)} {t : σ} (n : Nat) (op : κ) :
      Replays serve s done t → Replays serve s (done ++ [(n, op, (serve op t).2)]) (serve op t).1

/-- The same operations on what the states stand for. -/
theorem Replays.map {σ τ κ ρ : Type} {serve : κ → σ → σ × ρ} {serve' : κ → τ → τ × ρ}
    (abs : σ → τ) (h : ∀ op s, serve' op (abs s) = (abs (serve op s).1, (serve op s).2)) {s t : σ}
    {done : List (Nat × κ × ρ)} (hr : Replays serve s done t) :
    Replays serve' (abs s) done (abs t) := by
  induction hr with
  | nil => exact .nil
  | snoc n op _ ih =>
      have hlast := ih.snoc n op
      rw [h] at hlast
      exact hlast

namespace Threads

variable {σ κ ρ : Type} (code : κ → Body σ ρ)

/-- No call yet. -/
def start (s : σ) : Threads σ κ ρ := ⟨s, none, [], []⟩

/-- The call goes on as `rest`. -/
def goOn (c : Threads σ κ ρ) (n : Nat) (op : κ) (rest : Body σ ρ) : Threads σ κ ρ :=
  { c with calls := c.calls.set n (op, rest) }

/-- A step of the call. There is none when it has returned, when it would get the
mutex and another call has it, and when it gives back a mutex that it has not. -/
def stepCall (c : Threads σ κ ρ) (n : Nat) (taken : Bool) (op : κ) :
    Body σ ρ → Option (Threads σ κ ρ)
  | .ret _ => none
  | .take next =>
      if taken then
        if c.holder = none then some { c.goOn n op (next true) with holder := some n } else none
      else some (c.goOn n op (next false))
  | .give next =>
      if c.holder = some n then
        some { c.goOn n op next with
          holder := none
          done := c.done ++ [(n, op, (next.finish c.shared).2)] }
      else none
  | .access update next => some { c.goOn n op (next c.shared) with shared := update c.shared }

def next (c : Threads σ κ ρ) : Move κ → Option (Threads σ κ ρ)
  | .call op => some { c with calls := c.calls ++ [(op, code op)] }
  | .step n taken => c.calls[n]?.bind fun call => c.stepCall n taken call.1 call.2

/-- The operation undivided. -/
def serve (op : κ) (s : σ) : σ × ρ := (code op).finish s

/-- Where a call is that has not the mutex: before it, after it with its result in
the history, or at its end without ever having it. -/
inductive Waiting (c : Threads σ κ ρ) (n : Nat) (op : κ) (rest : Body σ ρ) : Prop where
  | waits (hrest : rest = code op) (hdone : ∀ e ∈ c.done, e.1 ≠ n)
  | returned (r : ρ) (hrest : rest = .ret r) (hdone : (n, op, r) ∈ c.done)
  | refused (r : ρ) (hrest : rest = .ret r) (hdone : ∀ e ∈ c.done, e.1 ≠ n)
      (hcode : (code op).Refuses r)

/-- The calls that have given the mutex back might as well have run one after the
other, and the one that has it as if it were alone. -/
structure Serial (s : σ) (c : Threads σ κ ρ) : Prop where
  waiting : ∀ n op rest, c.calls[n]? = some (op, rest) → c.holder ≠ some n →
    Waiting code c n op rest
  free : c.holder = none → Replays (serve code) s c.done c.shared
  held : ∀ n, c.holder = some n → ∃ op rest t, c.calls[n]? = some (op, rest) ∧ rest.Inside ∧
    (∀ e ∈ c.done, e.1 ≠ n) ∧ Replays (serve code) s c.done t ∧
    rest.finish c.shared = (code op).finish t
  entries : ∀ e ∈ c.done, c.calls[e.1]? = some (e.2.1, .ret e.2.2)
  nodup : (c.done.map fun e => e.1).Nodup

section Steps

variable {code} {s : σ} {c c' : Threads σ κ ρ} {n : Nat} {op : κ} {rest : Body σ ρ}

theorem Serial.start : Serial code s (start s : Threads σ κ ρ) where
  waiting n op rest h := absurd h (by simp [Threads.start])
  free _ := .nil
  held n h := by cases h
  entries e h := absurd h List.not_mem_nil
  nodup := .nil

/-- Calls that are not `n` are where they were. -/
theorem goOn_getElem? (c : Threads σ κ ρ) {m : Nat} (hm : m ≠ n) :
    (c.goOn n op rest).calls[m]? = c.calls[m]? :=
  List.getElem?_set_ne (Ne.symm hm)

theorem goOn_self (h : c.calls[n]? = some (op, rest)) (rest' : Body σ ρ) :
    (c.goOn n op rest').calls[n]? = some (op, rest') :=
  List.getElem?_set_self (List.getElem?_eq_some_iff.mp h).1

/-- A call that has not returned is in no entry of the history, and takes a step. -/
theorem Serial.entries_goOn (h : Serial code s c) (hcall : c.calls[n]? = some (op, rest))
    (hrest : ∀ r, rest ≠ .ret r) (rest' : Body σ ρ) :
    ∀ e ∈ c.done, (c.goOn n op rest').calls[e.1]? = some (e.2.1, .ret e.2.2) := by
  intro e he
  have hentry := h.entries e he
  have hne : e.1 ≠ n := by
    intro heq
    rw [heq, hcall, Option.some.injEq, Prod.mk.injEq] at hentry
    exact hrest _ hentry.2
  rw [goOn_getElem? c hne]
  exact hentry

/-- A call waits in any state with the same history. -/
theorem Waiting.of_done (h : Waiting code c n op rest) (hdone : c'.done = c.done) :
    Waiting code c' n op rest := by
  cases h with
  | waits hrest hnot => exact .waits hrest (hdone ▸ hnot)
  | returned r hrest hmem => exact .returned r hrest (hdone ▸ hmem)
  | refused r hrest hnot hcode => exact .refused r hrest (hdone ▸ hnot) hcode

/-- The other calls do not see that call `n` gives the mutex back. -/
theorem Waiting.of_give (h : Waiting code c n op rest) {m : Nat} (hm : m ≠ n) (op' : κ) (r' : ρ)
    (hdone : c'.done = c.done ++ [(m, op', r')]) : Waiting code c' n op rest := by
  have hnot : (∀ e ∈ c.done, e.1 ≠ n) → ∀ e ∈ c'.done, e.1 ≠ n := by
    intro hc e he
    rw [hdone] at he
    rcases List.mem_append.mp he with he | he
    · exact hc e he
    · rw [List.mem_singleton.mp he]
      exact hm
  cases h with
  | waits hrest hc => exact .waits hrest (hnot hc)
  | returned r hrest hmem => exact .returned r hrest (hdone ▸ List.mem_append_left _ hmem)
  | refused r hrest hc hcode => exact .refused r hrest (hnot hc) hcode

/-- A new call waits. -/
theorem Serial.call (h : Serial code s c) (op : κ) :
    Serial code s { c with calls := c.calls ++ [(op, code op)] } where
  waiting n op' rest hcall hn := by
    rcases Nat.lt_trichotomy n c.calls.length with hlt | heq | hgt
    · rw [List.getElem?_append_left hlt] at hcall
      exact (h.waiting n op' rest hcall hn).of_done rfl
    · rw [heq, List.getElem?_concat_length] at hcall
      cases hcall
      refine .waits rfl fun e he => ?_
      rw [heq]
      exact Nat.ne_of_lt (List.getElem?_eq_some_iff.mp (h.entries e he)).1
    · have hout : (c.calls ++ [(op, code op)])[n]? = none := by
        rw [List.getElem?_eq_none_iff, List.length_append, List.length_singleton]
        exact hgt
      rw [hout] at hcall
      cases hcall
  free := h.free
  held n hn := by
    rcases h.held n hn with ⟨op', rest, t, hcall, hinside, hdone, hreplays, hfinish⟩
    refine ⟨op', rest, t, ?_, hinside, hdone, hreplays, hfinish⟩
    rw [List.getElem?_append_left (List.getElem?_eq_some_iff.mp hcall).1]
    exact hcall
  entries e he := by
    have hentry := h.entries e he
    rw [List.getElem?_append_left (List.getElem?_eq_some_iff.mp hentry).1]
    exact hentry
  nodup := h.nodup

/-- The call has the mutex now, and the shared state is that of the calls before. -/
theorem Serial.taken (h : Serial code s c) (hcode : ∀ op, (code op).Guarded)
    {next : Bool → Body σ ρ} (hcall : c.calls[n]? = some (op, .take next))
    (hfree : c.holder = none) :
    Serial code s { c.goOn n op (next true) with holder := some n } where
  waiting m op' rest hm hne := by
    have hmn : m ≠ n := fun heq => hne (heq ▸ rfl)
    change (c.goOn n op (next true)).calls[m]? = _ at hm
    rw [goOn_getElem? c hmn] at hm
    exact (h.waiting m op' rest hm (by simp [hfree])).of_done rfl
  free hnone := by cases hnone
  held m hm := by
    cases hm
    cases h.waiting n op _ hcall (by simp [hfree]) with
    | waits hrest hdone =>
        have hguarded := hcode op
        rw [← hrest] at hguarded
        refine ⟨op, next true, c.shared, goOn_self hcall _, hguarded.1, hdone, h.free hfree, ?_⟩
        rw [← hrest]
        rfl
    | returned r hrest => cases hrest
    | refused r hrest => cases hrest
  entries := h.entries_goOn hcall (by simp) (next true)
  nodup := h.nodup

/-- The call returns without having had the mutex. -/
theorem Serial.refused (h : Serial code s c) (hcode : ∀ op, (code op).Guarded)
    {next : Bool → Body σ ρ} (hcall : c.calls[n]? = some (op, .take next)) :
    Serial code s (c.goOn n op (next false)) := by
  have hn : c.holder ≠ some n := by
    intro hheld
    rcases h.held n hheld with ⟨op', rest, t, hcall', hinside, -⟩
    rw [hcall] at hcall'
    cases hcall'
    exact hinside
  refine ⟨?_, h.free, ?_, h.entries_goOn hcall (by simp) (next false), h.nodup⟩
  · intro m op' rest hm hne
    by_cases hmn : m = n
    · subst hmn
      rw [goOn_self hcall, Option.some.injEq, Prod.mk.injEq] at hm
      rcases hm with ⟨rfl, rfl⟩
      cases h.waiting m op _ hcall hn with
      | waits hrest hdone =>
          have hguarded := hcode op
          rw [← hrest] at hguarded
          rcases hguarded.2.eq with ⟨r, hr⟩
          refine .refused r hr hdone ?_
          rw [← hrest]
          exact hr
      | returned r hrest => cases hrest
      | refused r hrest => cases hrest
    · rw [goOn_getElem? c hmn] at hm
      exact (h.waiting m op' rest hm hne).of_done rfl
  · intro m hm
    have hmn : m ≠ n := fun heq => hn (heq ▸ hm)
    rcases h.held m hm with ⟨op', rest, t, hcall', hrest⟩
    exact ⟨op', rest, t, (goOn_getElem? c hmn).trans hcall', hrest⟩

/-- The call that has the mutex comes to its end as if it were alone. -/
theorem Serial.access (h : Serial code s c) (hcode : ∀ op, (code op).Guarded) {update : σ → σ}
    {next : σ → Body σ ρ} (hcall : c.calls[n]? = some (op, .access update next)) :
    c.holder = some n ∧
      Serial code s { c.goOn n op (next c.shared) with shared := update c.shared } := by
  have hn : c.holder = some n := by
    by_contra hne
    cases h.waiting n op _ hcall hne with
    | waits hrest =>
        have hguarded := hcode op
        rw [← hrest] at hguarded
        exact hguarded
    | returned r hrest => cases hrest
    | refused r hrest => cases hrest
  refine ⟨hn, ?_, ?_, ?_, h.entries_goOn hcall (by simp) (next c.shared), h.nodup⟩
  · intro m op' rest hm hne
    have hmn : m ≠ n := fun heq => hne (heq ▸ hn)
    change (c.goOn n op (next c.shared)).calls[m]? = _ at hm
    rw [goOn_getElem? c hmn] at hm
    exact (h.waiting m op' rest hm hne).of_done rfl
  · intro hnone
    exact absurd (hn.symm.trans hnone) (by simp)
  · intro m hm
    obtain rfl : n = m := Option.some.inj (hn.symm.trans hm)
    rcases h.held n hn with ⟨op', rest, t, hcall', hinside, hdone, hreplays, hfinish⟩
    rw [hcall] at hcall'
    cases hcall'
    exact ⟨op, next c.shared, t, goOn_self hcall _, hinside c.shared, hdone, hreplays, hfinish⟩

/-- The call takes its place behind those that have had the mutex before. -/
theorem Serial.given (h : Serial code s c) {next : Body σ ρ}
    (hcall : c.calls[n]? = some (op, .give next)) (hn : c.holder = some n) :
    Serial code s { c.goOn n op next with
      holder := none
      done := c.done ++ [(n, op, (next.finish c.shared).2)] } := by
  rcases h.held n hn with ⟨op', rest, t, hcall', hinside, hdone, hreplays, hfinish⟩
  rw [hcall] at hcall'
  cases hcall'
  rcases Body.Returns.eq hinside with ⟨r, rfl⟩
  have hserve : (code op).finish t = (c.shared, r) := hfinish.symm
  refine ⟨?_, ?_, ?_, ?_, ?_⟩
  · intro m op' rest hm _
    change (c.goOn n op (.ret r)).calls[m]? = _ at hm
    by_cases hmn : m = n
    · subst hmn
      rw [goOn_self hcall, Option.some.injEq, Prod.mk.injEq] at hm
      rcases hm with ⟨rfl, rfl⟩
      exact .returned r rfl (List.mem_append_right _ (List.mem_singleton_self _))
    · rw [goOn_getElem? c hmn] at hm
      refine (h.waiting m op' rest hm ?_).of_give (Ne.symm hmn) op r rfl
      rw [hn, Ne, Option.some.injEq]
      exact Ne.symm hmn
  · intro _
    have hlast := hreplays.snoc n op
    rw [serve, hserve] at hlast
    exact hlast
  · intro m hm
    cases hm
  · intro e he
    rcases List.mem_append.mp he with he | he
    · exact h.entries_goOn hcall (by simp) (.ret r) e he
    · rw [List.mem_singleton.mp he]
      exact goOn_self hcall (.ret r)
  · rw [List.map_append, List.map_singleton]
    refine List.nodup_append.mpr ⟨h.nodup, List.nodup_singleton n, ?_⟩
    intro a ha b hb
    rcases List.mem_map.mp ha with ⟨e, he, rfl⟩
    rw [List.mem_singleton.mp hb]
    exact hdone e he

/-- What a step is. -/
theorem next_cases {i : Move κ} (h : c.next code i = some c') :
    (∃ op, c' = { c with calls := c.calls ++ [(op, code op)] }) ∨
    (∃ n op next, c.calls[n]? = some (op, .take next) ∧ c.holder = none ∧
      c' = { c.goOn n op (next true) with holder := some n }) ∨
    (∃ n op next, c.calls[n]? = some (op, .take next) ∧ c' = c.goOn n op (next false)) ∨
    (∃ n op next, c.calls[n]? = some (op, .give next) ∧ c.holder = some n ∧
      c' = { c.goOn n op next with
        holder := none
        done := c.done ++ [(n, op, (next.finish c.shared).2)] }) ∨
    (∃ n op update next, c.calls[n]? = some (op, .access update next) ∧
      c' = { c.goOn n op (next c.shared) with shared := update c.shared }) := by
  cases i with
  | call op => exact .inl ⟨op, (Option.some.inj h).symm⟩
  | step n taken =>
      rcases Option.bind_eq_some_iff.mp h with ⟨⟨op, rest⟩, hcall, hstep⟩
      cases rest with
      | ret r => cases hstep
      | take next =>
          cases taken with
          | true =>
              simp only [stepCall, if_true] at hstep
              split at hstep
              · exact .inr (.inl ⟨n, op, next, hcall, ‹_›, (Option.some.inj hstep).symm⟩)
              · cases hstep
          | false =>
              exact .inr (.inr (.inl ⟨n, op, next, hcall, (Option.some.inj hstep).symm⟩))
      | give next =>
          simp only [stepCall] at hstep
          split at hstep
          · exact .inr (.inr (.inr (.inl ⟨n, op, next, hcall, ‹_›, (Option.some.inj hstep).symm⟩)))
          · cases hstep
      | access update next =>
          exact .inr (.inr (.inr (.inr ⟨n, op, update, next, hcall,
            (Option.some.inj hstep).symm⟩)))

theorem Serial.next (h : Serial code s c) (hcode : ∀ op, (code op).Guarded) {i : Move κ}
    (hnext : c.next code i = some c') : Serial code s c' := by
  rcases next_cases hnext with ⟨op, rfl⟩ | ⟨n, op, next, hcall, hfree, rfl⟩ |
    ⟨n, op, next, hcall, rfl⟩ | ⟨n, op, next, hcall, hn, rfl⟩ | ⟨n, op, update, next, hcall, rfl⟩
  · exact h.call op
  · exact h.taken hcode hcall hfree
  · exact h.refused hcode hcall
  · exact h.given hcall hn
  · exact (h.access hcode hcall).2

/-- A call that has its result takes no more steps. -/
theorem next_returned {i : Move κ} (hnext : c.next code i = some c') {r : ρ}
    (hret : c.calls[n]? = some (op, .ret r)) : c'.calls[n]? = some (op, .ret r) := by
  have hother : ∀ {m : Nat} {op' : κ} {rest rest' : Body σ ρ}, c.calls[m]? = some (op', rest) →
      (∀ r, rest ≠ .ret r) → (c.goOn m op' rest').calls[n]? = some (op, .ret r) := by
    intro m op' rest rest' hcall hne
    have hmn : n ≠ m := by
      rintro rfl
      rw [hret, Option.some.injEq, Prod.mk.injEq] at hcall
      exact hne r hcall.2.symm
    rw [goOn_getElem? c hmn]
    exact hret
  rcases next_cases hnext with ⟨op', rfl⟩ | ⟨m, op', next, hcall, hfree, rfl⟩ |
    ⟨m, op', next, hcall, rfl⟩ | ⟨m, op', next, hcall, hm, rfl⟩ |
    ⟨m, op', update, next, hcall, rfl⟩
  · refine Eq.trans ?_ hret
    exact List.getElem?_append_left (List.getElem?_eq_some_iff.mp hret).1
  · exact hother hcall (by simp)
  · exact hother hcall (by simp)
  · exact hother hcall (by simp)
  · exact hother hcall (by simp)

/-- The history grows by calls that have not returned. -/
theorem next_done {i : Move κ} (hnext : c.next code i = some c') :
    ∃ later, c'.done = c.done ++ later ∧
      ∀ e ∈ later, ∀ op r, c.calls[e.1]? ≠ some (op, .ret r) := by
  rcases next_cases hnext with ⟨op, rfl⟩ | ⟨n, op, next, hcall, hfree, rfl⟩ |
    ⟨n, op, next, hcall, rfl⟩ | ⟨n, op, next, hcall, hn, rfl⟩ | ⟨n, op, update, next, hcall, rfl⟩
  · exact ⟨[], (List.append_nil _).symm, by simp⟩
  · exact ⟨[], (List.append_nil _).symm, by simp⟩
  · exact ⟨[], (List.append_nil _).symm, by simp⟩
  · refine ⟨_, rfl, ?_⟩
    intro e he op' r hret
    rw [List.mem_singleton.mp he, hcall] at hret
    cases hret
  · exact ⟨[], (List.append_nil _).symm, by simp⟩

end Steps

end Threads

/-! ## Runs -/

section Runs

open Threads

variable {σ κ ρ : Type} {code : κ → Body σ ρ} (hcode : ∀ op, (code op).Guarded)
variable {s : σ} {is : List (Move κ)} {c : Threads σ κ ρ}
include hcode

/-- Calls that are guarded are as if they were undivided, in the order in which they
had the mutex. -/
theorem serial (h : Reaches (next code) (fun _ _ => True) (start s) is c) : Serial code s c :=
  h.invariant (P := fun _ c => Serial code s c) .start
    fun _ _ _ _ ht _ hnext => ht.next hcode hnext

/-- No other call is at an access to the shared state than the one that has the mutex. -/
theorem no_race (h : Reaches (next code) (fun _ _ => True) (start s) is c) {n : Nat} {op : κ}
    {update : σ → σ} {next : σ → Body σ ρ} (hcall : c.calls[n]? = some (op, .access update next)) :
    c.holder = some n :=
  ((serial hcode h).access hcode hcall).1

omit hcode in
/-- The order is that of time: the calls that have returned come before all that have
the mutex later. -/
theorem done_later {js : List (Move κ)} {c' : Threads σ κ ρ}
    (h : Reaches (next code) (fun _ _ => True) c js c') :
    ∃ later, c'.done = c.done ++ later ∧
      ∀ e ∈ later, ∀ op r, c.calls[e.1]? ≠ some (op, .ret r) := by
  suffices hboth : (∃ later, c'.done = c.done ++ later ∧
      ∀ e ∈ later, ∀ op r, c.calls[e.1]? ≠ some (op, .ret r)) ∧
      ∀ (n : Nat) (op : κ) (r : ρ), c.calls[n]? = some (op, .ret r) →
        c'.calls[n]? = some (op, .ret r) from hboth.1
  induction h with
  | start => exact ⟨⟨[], (List.append_nil _).symm, by simp⟩, fun _ _ _ h => h⟩
  | snoc _ _ hnext ih =>
      rcases ih with ⟨⟨later, hdone, hlater⟩, hreturned⟩
      rcases next_done hnext with ⟨more, hmore, hnot⟩
      refine ⟨⟨later ++ more, ?_, ?_⟩, fun n op r h => next_returned hnext (hreturned n op r h)⟩
      · rw [hmore, hdone, List.append_assoc]
      · intro e he op r hret
        rcases List.mem_append.mp he with he | he
        · exact hlater e he op r hret
        · exact hnot e he op r (hreturned e.1 op r hret)

/-- The call that has the mutex gives it back, by steps of its own. -/
theorem holder_gives (h : Reaches (next code) (fun _ _ => True) (start s) is c) {n : Nat}
    (hn : c.holder = some n) :
    ∃ k c', Reaches (next code) (fun _ _ => True) c (List.replicate k (.step n true)) c' ∧
      c'.holder = none := by
  rcases (serial hcode h).held n hn with ⟨op, rest, -, hcall, hinside, -⟩
  clear h
  induction rest generalizing c with
  | ret r => exact hinside.elim
  | take next => exact hinside.elim
  | give next =>
      refine ⟨1, { c.goOn n op next with
        holder := none
        done := c.done ++ [(n, op, (next.finish c.shared).2)] }, ?_, rfl⟩
      refine Reaches.cons .start trivial ?_
      rw [Threads.next, hcall, Option.bind_some]
      exact if_pos hn
  | access update next ih =>
      have hstep : Threads.next code c (.step n true) =
          some { c.goOn n op (next c.shared) with shared := update c.shared } := by
        rw [Threads.next, hcall]
        rfl
      rcases ih c.shared (c := { c.goOn n op (next c.shared) with shared := update c.shared }) hn
        (goOn_self hcall _) (hinside c.shared) with ⟨k, c', hreach, hfree⟩
      refine ⟨k + 1, c', ?_, hfree⟩
      rw [List.replicate_succ]
      exact hreach.cons trivial hstep

end Runs

end Critical
