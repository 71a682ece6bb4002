import Mathlib.Data.List.Basic

/-! # Programs that report what they access

A program over states `σ` returns a value, the state afterwards, and its
accesses in the order in which it makes them. What an access is is left open:
a read, a write, a message, or an answer of the environment.

`Traced.Within rely ok Q m s` says that `m`, started in `s`, makes only accesses
that are `ok` and ends with `Q`, as long as all of its accesses meet `rely`. The
rules follow the structure of the program; `rely` is shared by its parts, so
what the environment answers late may be relied on early. `Traced.Returns` is for
programs whose outcome is known: it leaves out the accesses.
-/

/-- What a program started in a state comes to. -/
structure Traced.Outcome (A σ α : Type) where
  value : α
  state : σ
  accesses : List A

/-- A program that returns an `α`. -/
structure Traced (A σ α : Type) where
  run : σ → Traced.Outcome A σ α

namespace Traced

variable {A σ α β : Type}

instance : Monad (Traced A σ) where
  pure a := ⟨fun s => ⟨a, s, []⟩⟩
  bind m f := ⟨fun s =>
    let o := m.run s
    let o' := (f o.value).run o.state
    ⟨o'.value, o'.state, o.accesses ++ o'.accesses⟩⟩

/-- A step of the environment, reported as one access. -/
def act (a : A) (f : σ → α × σ) : Traced A σ α := ⟨fun s => ⟨(f s).1, (f s).2, [a]⟩⟩

/-- A look at the state that is no access. -/
def look (f : σ → α) : Traced A σ α := ⟨fun s => ⟨f s, s, []⟩⟩

/-- A step that is no access. -/
def tick (f : σ → α × σ) : Traced A σ α := ⟨fun s => ⟨(f s).1, (f s).2, []⟩⟩

/-- An access that changes nothing, made under a condition. -/
def report (c : Bool) (a : A) : Traced A σ Unit := ⟨fun s => ⟨(), s, if c then [a] else []⟩⟩

theorem bind_accesses (m : Traced A σ α) (f : α → Traced A σ β) (s : σ) :
    ((m >>= f).run s).accesses =
      (m.run s).accesses ++ ((f (m.run s).value).run (m.run s).state).accesses := rfl

theorem mem_act {a b : A} {f : σ → α × σ} {s : σ} :
    b ∈ ((act a f).run s).accesses ↔ b = a := List.mem_singleton

theorem mem_report {c : Bool} {a b : A} {s : σ} :
    b ∈ ((report c a : Traced A σ Unit).run s).accesses ↔ c = true ∧ b = a := by
  cases c with
  | false => simp [report]
  | true => simp [report]

@[simp] theorem run_pure (a : α) (s : σ) : (pure a : Traced A σ α).run s = ⟨a, s, []⟩ := rfl

theorem run_bind (m : Traced A σ α) (f : α → Traced A σ β) (s : σ) :
    (m >>= f).run s =
      ⟨((f (m.run s).value).run (m.run s).state).value,
        ((f (m.run s).value).run (m.run s).state).state,
        (m.run s).accesses ++ ((f (m.run s).value).run (m.run s).state).accesses⟩ := rfl

@[ext] theorem ext {m m' : Traced A σ α} (h : ∀ s, m.run s = m'.run s) : m = m' := by
  cases m
  cases m'
  exact congrArg mk (funext h)

instance : LawfulMonad (Traced A σ) := by
  refine LawfulMonad.mk' _ ?_ ?_ ?_
  · intro α m
    ext s
    exact congrArg (Outcome.mk _ _) (List.append_nil _)
  · intro α β a f
    ext s
    rw [run_bind, run_pure, List.nil_append]
  · intro α β γ m f g
    ext s
    simp only [run_bind, List.append_assoc]

@[simp] theorem run_map (f : α → β) (m : Traced A σ α) (s : σ) :
    (f <$> m).run s = ⟨f (m.run s).value, (m.run s).state, (m.run s).accesses⟩ := by
  rw [map_eq_pure_bind, run_bind]
  exact congrArg (Outcome.mk _ _) (List.append_nil _)

/-! ## Rely and guarantee -/

/-- As long as all accesses meet `rely`, they are `ok`, and `Q` holds at the end. -/
def Within (rely ok : A → Prop) (Q : α → σ → Prop) (m : Traced A σ α) (s : σ) : Prop :=
  (∀ a ∈ (m.run s).accesses, rely a) →
    (∀ a ∈ (m.run s).accesses, ok a) ∧ Q (m.run s).value (m.run s).state

variable {rely ok : A → Prop} {Q Q' : α → σ → Prop} {R : β → σ → Prop}
variable {m : Traced A σ α} {f : α → Traced A σ β} {s : σ}

theorem within_pure {a : α} (h : Q a s) : Within rely ok Q (pure a : Traced A σ α) s := by
  intro _
  exact ⟨by simp [pure], h⟩

theorem within_look {g : σ → α} (h : Q (g s) s) : Within rely ok Q (look g : Traced A σ α) s := by
  intro _
  exact ⟨by simp [look], h⟩

theorem within_tick {g : σ → α × σ} (h : Q (g s).1 (g s).2) :
    Within rely ok Q (tick g : Traced A σ α) s := by
  intro _
  exact ⟨by simp [tick], h⟩

/-- An access has to be ok only when it meets what is relied on. -/
theorem within_act {a : A} {g : σ → α × σ} (h : rely a → ok a ∧ Q (g s).1 (g s).2) :
    Within rely ok Q (act a g) s := by
  intro hrely
  have ha : rely a := hrely a (by simp [act])
  refine ⟨?_, (h ha).2⟩
  intro b hb
  obtain rfl : b = a := by simpa [act] using hb
  exact (h ha).1

theorem within_report {c : Bool} {a : A} {P : Unit → σ → Prop} (hok : ok a)
    (h : (c = true → rely a) → P () s) : Within rely ok P (report c a) s := by
  intro hrely
  refine ⟨?_, h fun hc => hrely a (by simp [report, hc])⟩
  intro b hb
  obtain ⟨-, rfl⟩ : c = true ∧ b = a := by simpa [report] using hb
  exact hok

/-- The first part ends with what the second one starts from. -/
theorem within_bind (h : Within rely ok (fun a s' => Within rely ok R (f a) s') m s) :
    Within rely ok R (m >>= f) s := by
  intro hrely
  rw [bind_accesses] at hrely ⊢
  obtain ⟨hm, hf⟩ := h fun a ha => hrely a (List.mem_append_left _ ha)
  obtain ⟨hf, hR⟩ := hf fun a ha => hrely a (List.mem_append_right _ ha)
  refine ⟨?_, hR⟩
  intro a ha
  rcases List.mem_append.mp ha with ha | ha
  · exact hm a ha
  · exact hf a ha

theorem Within.mono (h : Within rely ok Q m s) (hQ : ∀ a s', Q a s' → Q' a s') :
    Within rely ok Q' m s := by
  intro hrely
  rcases h hrely with ⟨hm, hq⟩
  exact ⟨hm, hQ _ _ hq⟩

/-- The end of a program is known exactly. -/
theorem Within.exact (h : Within rely ok Q m s) :
    Within rely ok (fun a s' => Q a s' ∧ a = (m.run s).value ∧ s' = (m.run s).state) m s := by
  intro hrely
  rcases h hrely with ⟨hm, hq⟩
  exact ⟨hm, hq, rfl, rfl⟩

/-- More accesses are ok. -/
theorem Within.weaken {ok' : A → Prop} (h : Within rely ok Q m s)
    (hok : ∀ a, rely a → ok a → ok' a) : Within rely ok' Q m s := by
  intro hrely
  rcases h hrely with ⟨hm, hq⟩
  exact ⟨fun a ha => hok a (hrely a ha) (hm a ha), hq⟩

/-- A sequence, by what the first part ends with. -/
theorem within_seq (hm : Within rely ok Q m s)
    (hf : ∀ a s', Q a s' → Within rely ok R (f a) s') : Within rely ok R (m >>= f) s :=
  within_bind (hm.mono hf)

theorem within_ite {c : Prop} [Decidable c] {m' : Traced A σ α} (ht : c → Within rely ok Q m s)
    (he : ¬ c → Within rely ok Q m' s) : Within rely ok Q (if c then m else m') s := by
  by_cases hc : c
  · rw [if_pos hc]
    exact ht hc
  · rw [if_neg hc]
    exact he hc

/-! ## Known outcomes -/

/-- The program started in `s` returns `a` and leaves `s'`. -/
def Returns (m : Traced A σ α) (s : σ) (a : α) (s' : σ) : Prop :=
  (m.run s).value = a ∧ (m.run s).state = s'

theorem returns_pure (a : α) (s : σ) : (pure a : Traced A σ α).Returns s a s := ⟨rfl, rfl⟩

theorem returns_act (x : A) (g : σ → α × σ) (s : σ) : (act x g).Returns s (g s).1 (g s).2 :=
  ⟨rfl, rfl⟩

theorem returns_tick (g : σ → α × σ) (s : σ) :
    (tick g : Traced A σ α).Returns s (g s).1 (g s).2 := ⟨rfl, rfl⟩

theorem returns_look (g : σ → α) (s : σ) : (look g : Traced A σ α).Returns s (g s) s := ⟨rfl, rfl⟩

theorem returns_report (c : Bool) (x : A) (s : σ) : (report c x).Returns s () s := ⟨rfl, rfl⟩

theorem Returns.bind {a : α} {b : β} {s' s'' : σ} (hm : m.Returns s a s')
    (hf : (f a).Returns s' b s'') : (m >>= f).Returns s b s'' := by
  rcases hm with ⟨rfl, rfl⟩
  exact hf

end Traced
