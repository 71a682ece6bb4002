import Mathlib.Data.Finset.Card
import Mathlib.Data.Finset.Union
import Mathlib.Logic.Relation

/-! # A depth-first visit that must not meet what it has finished

A depth-first visit over the successors `succ` passes over the nodes that it is
inside of, and fails at a node that it has finished (`Visits`). On finitely many
nodes such a visit is possible exactly when no two chains of steps along
different edges, in which no node comes twice, lead to the same node
(`visits_iff`).
-/

namespace DepthFirst

variable {α : Type} (succ : α → List α)

/-- The visit of the nodes of a list, inside of the nodes of `stack`: the nodes
that are finished before and after. -/
inductive Visits : List α → List α → List α → List α → Prop where
  | nil {stack done : List α} : Visits stack done [] done
  | skip {stack done done' bs : List α} {b : α} (hb : b ∈ stack)
      (hrest : Visits stack done bs done') : Visits stack done (b :: bs) done'
  | enter {stack done done₁ done' bs : List α} {b : α} (hb : b ∉ stack) (hnew : b ∉ done)
      (hinner : Visits (b :: stack) done (succ b) done₁)
      (hrest : Visits stack (done₁ ++ [b]) bs done') : Visits stack done (b :: bs) done'

/-- A chain of steps from the nodes of a list to `c`: its edges by their
positions. No node comes twice, and none is in `stack`. -/
inductive Chain : List α → List α → List Nat → α → Prop where
  | stop {stack bs : List α} {i : Nat} {b : α} (hi : bs[i]? = some b) (hb : b ∉ stack) :
      Chain stack bs [i] b
  | step {stack bs : List α} {i : Nat} {b c : α} {path : List Nat} (hi : bs[i]? = some b)
      (hb : b ∉ stack) (hrest : Chain (b :: stack) (succ b) path c) :
      Chain stack bs (i :: path) c

/-- Different chains end in different nodes. -/
def UniqueChains (stack bs : List α) : Prop :=
  ∀ path path' c, Chain succ stack bs path c → Chain succ stack bs path' c → path = path'

/-! ## Chains -/

section Chains

variable {succ} {stack bs : List α} {b c : α} {path : List Nat}

/-- A chain is a way from the nodes of its list. -/
theorem Chain.reached (h : Chain succ stack bs path c) :
    ∃ b ∈ bs, Relation.ReflTransGen (fun a a' => a' ∈ succ a) b c := by
  induction h with
  | stop hi _ => exact ⟨_, List.mem_of_getElem? hi, .refl⟩
  | step hi _ _ ih =>
      rcases ih with ⟨d, hd, hreach⟩
      exact ⟨_, List.mem_of_getElem? hi, .head hd hreach⟩

theorem not_chain_nil : ¬ Chain succ stack [] path c := by
  rintro (⟨hi, -⟩ | ⟨hi, -, -⟩) <;> simp at hi

theorem Chain.head (hb : b ∉ stack) : Chain succ stack (b :: bs) [0] b :=
  .stop List.getElem?_cons_zero hb

theorem Chain.into (h : Chain succ (b :: stack) (succ b) path c) (hb : b ∉ stack) :
    Chain succ stack (b :: bs) (0 :: path) c :=
  .step List.getElem?_cons_zero hb h

/-- A chain from the rest of a list is one from the list. -/
theorem Chain.cons {i : Nat} (h : Chain succ stack bs (i :: path) c) :
    Chain succ stack (b :: bs) ((i + 1) :: path) c := by
  cases h with
  | stop hi hb => exact .stop hi hb
  | step hi hb hrest => exact .step hi hb hrest

/-- A chain from a list begins with its first node or in its rest. -/
theorem chain_cons_iff : Chain succ stack (b :: bs) path c ↔
    (b ∉ stack ∧ path = [0] ∧ c = b) ∨
    (b ∉ stack ∧ ∃ path', path = 0 :: path' ∧ Chain succ (b :: stack) (succ b) path' c) ∨
    ∃ i path', path = (i + 1) :: path' ∧ Chain succ stack bs (i :: path') c := by
  constructor
  · rintro (⟨hi, hb⟩ | ⟨hi, hb, hrest⟩)
    case stop i =>
      cases i with
      | zero =>
          obtain rfl := Option.some.inj hi
          exact .inl ⟨hb, rfl, rfl⟩
      | succ i => exact .inr (.inr ⟨i, [], rfl, .stop hi hb⟩)
    case step i d path =>
      cases i with
      | zero =>
          obtain rfl := Option.some.inj hi
          exact .inr (.inl ⟨hb, path, rfl, hrest⟩)
      | succ i => exact .inr (.inr ⟨i, path, rfl, .step hi hb hrest⟩)
  · rintro (⟨hb, rfl, rfl⟩ | ⟨hb, path', rfl, hrest⟩ | ⟨i, path', rfl, h⟩)
    · exact .head hb
    · exact hrest.into hb
    · exact h.cons

/-- The node that a stack shields is not counted. -/
theorem chain_cons_of_mem (hb : b ∈ stack) : Chain succ stack (b :: bs) path c ↔
    ∃ i path', path = (i + 1) :: path' ∧ Chain succ stack bs (i :: path') c := by
  rw [chain_cons_iff]
  constructor
  · rintro (⟨hno, -⟩ | ⟨hno, -⟩ | h)
    · exact absurd hb hno
    · exact absurd hb hno
    · exact h
  · exact fun h => .inr (.inr h)

theorem Chain.exists_cons (h : Chain succ stack bs path c) :
    ∃ i path', path = i :: path' := by
  cases h with
  | stop => exact ⟨_, _, rfl⟩
  | step => exact ⟨_, _, rfl⟩

theorem UniqueChains.rest (h : UniqueChains succ stack (b :: bs)) : UniqueChains succ stack bs := by
  intro path path' c hpath hpath'
  rcases hpath.exists_cons with ⟨i, p, rfl⟩
  rcases hpath'.exists_cons with ⟨i', p', rfl⟩
  have heq := h _ _ c hpath.cons hpath'.cons
  simp only [List.cons.injEq, Nat.add_right_cancel_iff] at heq ⊢
  exact heq

theorem UniqueChains.inner (h : UniqueChains succ stack (b :: bs)) (hb : b ∉ stack) :
    UniqueChains succ (b :: stack) (succ b) := by
  intro path path' c hpath hpath'
  exact (List.cons.inj (h _ _ c (hpath.into hb) (hpath'.into hb))).2

/-- The chains of the rest do not end in the first node, nor where the chains
through it end. -/
theorem UniqueChains.ne_head (h : UniqueChains succ stack (b :: bs)) (hb : b ∉ stack)
    (hrest : Chain succ stack bs path c) : c ≠ b := by
  rintro rfl
  rcases hrest.exists_cons with ⟨i, p, rfl⟩
  have heq := h _ _ c (.head hb) hrest.cons
  exact absurd (List.cons.inj heq).1 (Nat.succ_ne_zero i).symm

theorem UniqueChains.not_inner (h : UniqueChains succ stack (b :: bs)) (hb : b ∉ stack)
    {path' : List Nat} (hrest : Chain succ stack bs path c) :
    ¬ Chain succ (b :: stack) (succ b) path' c := by
  intro hinner
  rcases hrest.exists_cons with ⟨i, p, rfl⟩
  have heq := h _ _ c (hinner.into hb) hrest.cons
  exact absurd (List.cons.inj heq).1 (Nat.succ_ne_zero i).symm

end Chains

/-! ## Visits and chains -/

section Visits

variable {succ} {stack done done' bs : List α}

/-- What a visit finishes: new nodes, each once, outside of the stack. They are
the ends of the chains, each of one chain only, and no step leaves them. -/
structure Finishes (succ : α → List α) (stack done bs new : List α) : Prop where
  nodup : new.Nodup
  new_done : ∀ c ∈ new, c ∉ done
  new_stack : ∀ c ∈ new, c ∉ stack
  ends : ∀ path c, Chain succ stack bs path c → c ∈ new
  unique : UniqueChains succ stack bs
  covers : ∀ c ∈ bs, c ∈ stack ∨ c ∈ done ∨ c ∈ new
  closed : ∀ c ∈ new, ∀ d ∈ succ c, d ∈ stack ∨ d ∈ done ∨ d ∈ new
  chain : ∀ c ∈ new, ∃ path, Chain succ stack bs path c

/-- A node that the stack shields adds nothing. -/
theorem Finishes.skip {b : α} {new : List α} (hb : b ∈ stack)
    (h : Finishes succ stack done bs new) : Finishes succ stack done (b :: bs) new where
  nodup := h.nodup
  new_done := h.new_done
  new_stack := h.new_stack
  ends := by
    intro path c hchain
    rcases (chain_cons_of_mem hb).mp hchain with ⟨i, p, -, hrest⟩
    exact h.ends _ c hrest
  unique := by
    intro path path' c hpath hpath'
    rcases (chain_cons_of_mem hb).mp hpath with ⟨i, p, rfl, hrest⟩
    rcases (chain_cons_of_mem hb).mp hpath' with ⟨i', p', rfl, hrest'⟩
    rcases List.cons.inj (h.unique _ _ c hrest hrest') with ⟨rfl, rfl⟩
    rfl
  covers := by
    intro c hc
    rcases List.mem_cons.mp hc with rfl | hc
    · exact .inl hb
    · exact h.covers c hc
  closed := h.closed
  chain := by
    intro c hc
    rcases h.chain c hc with ⟨path, hpath⟩
    rcases hpath.exists_cons with ⟨i, p, rfl⟩
    exact ⟨_, hpath.cons⟩

/-- A node is finished after its successors, and before the rest. -/
theorem Finishes.enter {b : α} {inner rest : List α} (hb : b ∉ stack) (hnew : b ∉ done)
    (hinner : Finishes succ (b :: stack) done (succ b) inner)
    (hrest : Finishes succ stack (done ++ inner ++ [b]) bs rest) :
    Finishes succ stack done (b :: bs) (inner ++ [b] ++ rest) := by
  have hb_inner : b ∉ inner := fun h => hinner.new_stack b h List.mem_cons_self
  have hrest_inner : ∀ c ∈ rest, c ∉ inner ∧ c ≠ b := by
    intro c hc
    have hno := hrest.new_done c hc
    simp only [List.mem_append, List.mem_singleton, not_or] at hno
    exact ⟨hno.1.2, hno.2⟩
  have hends : ∀ path c, Chain succ (b :: stack) (succ b) path c → c ∈ inner := hinner.ends
  constructor
  case nodup =>
    simp only [List.nodup_append, List.nodup_singleton, List.mem_append, List.mem_singleton]
    refine ⟨⟨hinner.nodup, trivial, ?_⟩, hrest.nodup, ?_⟩
    · rintro c hc _ rfl rfl
      exact hb_inner hc
    · rintro c (hc | rfl) d hd rfl
      · exact (hrest_inner c hd).1 hc
      · exact (hrest_inner c hd).2 rfl
  case new_done =>
    simp only [List.mem_append, List.mem_singleton]
    rintro c ((hc | rfl) | hc)
    · exact hinner.new_done c hc
    · exact hnew
    · have hno := hrest.new_done c hc
      simp only [List.mem_append, not_or] at hno
      exact hno.1.1
  case new_stack =>
    simp only [List.mem_append, List.mem_singleton]
    rintro c ((hc | rfl) | hc)
    · exact fun h => hinner.new_stack c hc (List.mem_cons_of_mem _ h)
    · exact hb
    · exact hrest.new_stack c hc
  case ends =>
    intro path c hchain
    simp only [List.mem_append, List.mem_singleton]
    rcases chain_cons_iff.mp hchain with ⟨-, -, rfl⟩ | ⟨-, p, -, h⟩ | ⟨i, p, -, h⟩
    · exact .inl (.inr rfl)
    · exact .inl (.inl (hends p c h))
    · exact .inr (hrest.ends _ c h)
  case unique =>
    intro path path' c hpath hpath'
    -- where a chain ends tells how it begins
    rcases chain_cons_iff.mp hpath with ⟨-, rfl, rfl⟩ | ⟨-, p, rfl, h⟩ | ⟨i, p, rfl, h⟩ <;>
      rcases chain_cons_iff.mp hpath' with ⟨-, rfl, heq⟩ | ⟨-, p', rfl, h'⟩ | ⟨i', p', rfl, h'⟩
    · rfl
    · exact absurd (hends p' _ h') hb_inner
    · exact absurd rfl (hrest_inner _ (hrest.ends _ _ h')).2
    · exact absurd (heq ▸ hends p _ h) hb_inner
    · rw [hinner.unique p p' c h h']
    · exact absurd (hends p _ h) (hrest_inner _ (hrest.ends _ _ h')).1
    · exact absurd heq (hrest_inner _ (hrest.ends _ _ h)).2
    · exact absurd (hends p' _ h') (hrest_inner _ (hrest.ends _ _ h)).1
    · rcases List.cons.inj (hrest.unique _ _ c h h') with ⟨rfl, rfl⟩
      rfl
  case covers =>
    intro c hc
    simp only [List.mem_append, List.mem_singleton]
    rcases List.mem_cons.mp hc with rfl | hc
    · exact .inr (.inr (.inl (.inr rfl)))
    · have hcov := hrest.covers c hc
      simp only [List.mem_append, List.mem_singleton] at hcov
      tauto
  case closed =>
    intro c hc d hd
    simp only [List.mem_append, List.mem_singleton] at hc ⊢
    rcases hc with (hc | rfl) | hc
    · have hcl := hinner.closed c hc d hd
      simp only [List.mem_cons] at hcl
      tauto
    · have hcov := hinner.covers d hd
      simp only [List.mem_cons] at hcov
      tauto
    · have hcl := hrest.closed c hc d hd
      simp only [List.mem_append, List.mem_singleton] at hcl
      tauto
  case chain =>
    intro c hc
    simp only [List.mem_append, List.mem_singleton] at hc
    rcases hc with (hc | rfl) | hc
    · rcases hinner.chain c hc with ⟨path, hpath⟩
      exact ⟨_, hpath.into hb⟩
    · exact ⟨_, .head hb⟩
    · rcases hrest.chain c hc with ⟨path, hpath⟩
      rcases hpath.exists_cons with ⟨i, p, rfl⟩
      exact ⟨_, hpath.cons⟩

/-- A visit finishes the ends of the chains, each of which is unique. -/
theorem Visits.finishes (h : Visits succ stack done bs done') :
    ∃ new, done' = done ++ new ∧ Finishes succ stack done bs new := by
  induction h with
  | nil =>
      refine ⟨[], by simp, List.nodup_nil, nofun, nofun, ?_, ?_, nofun, nofun, nofun⟩
      · exact fun path c h => absurd h not_chain_nil
      · exact fun path path' c h => absurd h not_chain_nil
  | skip hb _ ih =>
      rcases ih with ⟨new, rfl, hnew⟩
      exact ⟨new, rfl, hnew.skip hb⟩
  | enter hb hdone _ _ ih ih' =>
      rcases ih with ⟨inner, rfl, hinner⟩
      rcases ih' with ⟨rest, rfl, hrest⟩
      exact ⟨_, by simp only [List.append_assoc], hinner.enter hb hdone hrest⟩

/-- Where chains are unique and avoid what is finished, a visit of finitely many
nodes is possible. -/
theorem UniqueChains.exists_visits {nodes : Finset α}
    (hclosed : ∀ a ∈ nodes, ∀ b ∈ succ a, b ∈ nodes) (hbs : ∀ b ∈ bs, b ∈ nodes)
    (hunique : UniqueChains succ stack bs)
    (hdone : ∀ path c, Chain succ stack bs path c → c ∉ done) :
    ∃ done', Visits succ stack done bs done' := by
  classical
  -- the stack takes up the nodes
  induction hn : (nodes.filter (· ∉ stack)).card using Nat.strong_induction_on
    generalizing stack done bs with
  | h n ih =>
  subst hn
  induction bs generalizing done with
  | nil => exact ⟨done, .nil⟩
  | cons b bs ihbs =>
      have hmem := hbs b List.mem_cons_self
      have hrest := fun c hc => hbs c (List.mem_cons_of_mem _ hc)
      have hchain_rest : ∀ path c, Chain succ stack bs path c → c ∉ done := by
        intro path c h
        rcases h.exists_cons with ⟨i, p, rfl⟩
        exact hdone _ c h.cons
      by_cases hb : b ∈ stack
      case pos =>
        rcases ihbs hrest hunique.rest hchain_rest with ⟨done', h⟩
        exact ⟨done', .skip hb h⟩
      have hlt : (nodes.filter (· ∉ b :: stack)).card < (nodes.filter (· ∉ stack)).card := by
        refine Finset.card_lt_card ((Finset.ssubset_iff_of_subset ?_).mpr ⟨b, ?_, ?_⟩)
        · intro c hc
          simp only [Finset.mem_filter, List.mem_cons, not_or] at hc ⊢
          exact ⟨hc.1, hc.2.2⟩
        · exact Finset.mem_filter.mpr ⟨hmem, hb⟩
        · simp
      obtain ⟨done₁, hinner⟩ := ih _ hlt (hclosed b hmem) (hunique.inner hb)
        (fun path c h => hdone _ c (h.into hb)) rfl
      rcases hinner.finishes with ⟨inner, rfl, hfin⟩
      have hdone_rest : ∀ path c, Chain succ stack bs path c → c ∉ done ++ inner ++ [b] := by
        intro path c h hc
        simp only [List.mem_append, List.mem_singleton] at hc
        rcases hc with (hc | hc) | hc
        · exact hchain_rest path c h hc
        · rcases hfin.chain c hc with ⟨path', hpath'⟩
          exact hunique.not_inner hb h hpath'
        · exact hunique.ne_head hb h hc
      rcases ihbs hrest hunique.rest hdone_rest with ⟨done', h⟩
      exact ⟨done', .enter hb (hdone _ b (.head hb)) hinner h⟩

/-- From a node, a visit of finitely many nodes is possible exactly when each
node is the end of one chain only. -/
theorem visits_iff {nodes : Finset α} (hclosed : ∀ a ∈ nodes, ∀ b ∈ succ a, b ∈ nodes) {a : α}
    (ha : a ∈ nodes) :
    (∃ done, Visits succ [a] [] (succ a) done) ↔ UniqueChains succ [a] (succ a) := by
  constructor
  · rintro ⟨done, h⟩
    rcases h.finishes with ⟨new, -, hfin⟩
    exact hfin.unique
  · exact fun h => h.exists_visits hclosed (hclosed a ha) fun _ _ _ => List.not_mem_nil

/-- A visit from a node finishes what can be reached from it, but for itself. -/
theorem Visits.mem_iff {a c : α} (h : Visits succ [a] [] (succ a) done) :
    c ∈ done ∨ c = a ↔ Relation.ReflTransGen (fun b b' => b' ∈ succ b) a c := by
  rcases h.finishes with ⟨new, rfl, hfin⟩
  constructor
  · rintro (hc | rfl)
    · rcases hfin.chain c hc with ⟨path, hpath⟩
      rcases hpath.reached with ⟨b, hb, hreach⟩
      exact .head hb hreach
    · exact .refl
  · intro hreach
    induction hreach with
    | refl => exact .inr rfl
    | tail _ hstep ih =>
        rename_i b d _
        rcases ih with hb | rfl
        · have hcl := hfin.closed b hb d hstep
          simp only [List.mem_singleton, List.not_mem_nil, false_or] at hcl
          exact hcl.symm
        · have hcov := hfin.covers d hstep
          simp only [List.mem_singleton, List.not_mem_nil, false_or] at hcov
          exact hcov.symm

end Visits

end DepthFirst
