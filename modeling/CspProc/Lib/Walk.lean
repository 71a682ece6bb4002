import Mathlib.Data.Fintype.Card
import Mathlib.Data.Set.Finite.Basic
import Mathlib.Logic.Relation

/-! # A walk that marks nothing

A recursive walk collects what a node has, and then walks on from each of its
successors, without a record of where it has been. It ends from the nodes from
which there is no endless path (`acc_of_collect`, `exists_collect`); where only
finitely many nodes can be reached, these are the nodes from which no cycle can be
reached (`acc_iff`). What it has collected when it ends is what the reachable nodes
have (`mem_collect`). Along a step that is on no cycle the number of reachable nodes
goes down (`reachCount_lt`).
-/

namespace Walk

open Relation

variable {α β : Type} (succ : α → List α) (items : α → List β)

/-- The walk from a node, with what has been collected before. The first argument
bounds the depth of the recursion; there is no result when it runs out. -/
def collect : Nat → α → List β → Option (List β)
  | 0, _, _ => none
  | depth + 1, a, acc =>
      (succ a).foldlM (fun acc b => collect depth b acc) (acc ++ items a)

/-- One step of the walk. -/
def Step (a b : α) : Prop := b ∈ succ a

variable {succ items} {depth depth' : Nat} {a b : α} {acc found : List β} {bs : List α}

/-! ## Loops that may fail -/

/-- A loop over fewer failures goes the same way. -/
theorem foldlM_mono {f g : List β → α → Option (List β)}
    (hfg : ∀ acc b found, f acc b = some found → g acc b = some found)
    (h : bs.foldlM f acc = some found) : bs.foldlM g acc = some found := by
  induction bs generalizing acc with
  | nil => exact h
  | cons b bs ih =>
      rw [List.foldlM_cons] at h ⊢
      rcases Option.bind_eq_some_iff.mp h with ⟨mid, hmid, hrest⟩
      exact Option.bind_eq_some_iff.mpr ⟨mid, hfg _ _ _ hmid, ih hrest⟩

/-- A loop that ends has ended for each of its elements. -/
theorem exists_of_foldlM {f : List β → α → Option (List β)} (h : bs.foldlM f acc = some found)
    (hb : b ∈ bs) : ∃ before after, f before b = some after := by
  induction bs generalizing acc with
  | nil => cases hb
  | cons c bs ih =>
      rw [List.foldlM_cons] at h
      rcases Option.bind_eq_some_iff.mp h with ⟨mid, hmid, hrest⟩
      rcases List.mem_cons.mp hb with rfl | hb
      · exact ⟨acc, mid, hmid⟩
      · exact ih hrest hb

theorem exists_foldlM {f : List β → α → Option (List β)}
    (hf : ∀ b ∈ bs, ∀ acc, ∃ found, f acc b = some found) (acc : List β) :
    ∃ found, bs.foldlM f acc = some found := by
  induction bs generalizing acc with
  | nil => exact ⟨acc, rfl⟩
  | cons b bs ih =>
      rcases hf b List.mem_cons_self acc with ⟨mid, hmid⟩
      rcases ih (fun c hc => hf c (List.mem_cons_of_mem b hc)) mid with ⟨found, hfound⟩
      refine ⟨found, ?_⟩
      rw [List.foldlM_cons]
      exact Option.bind_eq_some_iff.mpr ⟨mid, hmid, hfound⟩

/-! ## Where the walk ends -/

theorem collect_mono (hle : depth ≤ depth') (h : collect succ items depth a acc = some found) :
    collect succ items depth' a acc = some found := by
  induction depth generalizing depth' a acc found with
  | zero => cases h
  | succ depth ih =>
      rcases Nat.exists_eq_add_of_le' hle with ⟨k, rfl⟩
      exact foldlM_mono (fun acc b found => ih (Nat.le_add_left depth k)) h

/-- Where the walk ends, every path does. -/
theorem acc_of_collect (h : collect succ items depth a acc = some found) :
    Acc (flip (Step succ)) a := by
  induction depth generalizing a acc found with
  | zero => cases h
  | succ depth ih =>
      constructor
      intro b hb
      rcases exists_of_foldlM h hb with ⟨before, after, hwalk⟩
      exact ih hwalk

/-- Of finitely many walks one is the deepest. -/
theorem exists_depth
    (h : ∀ b ∈ bs, ∃ depth, ∀ acc, ∃ found, collect succ items depth b acc = some found) :
    ∃ depth, ∀ b ∈ bs, ∀ acc, ∃ found, collect succ items depth b acc = some found := by
  induction bs with
  | nil => exact ⟨0, by simp⟩
  | cons b bs ih =>
      rcases h b List.mem_cons_self with ⟨first, hfirst⟩
      rcases ih fun c hc => h c (List.mem_cons_of_mem b hc) with ⟨rest, hrest⟩
      refine ⟨max first rest, ?_⟩
      intro c hc acc
      rcases List.mem_cons.mp hc with rfl | hc
      · rcases hfirst acc with ⟨found, hfound⟩
        exact ⟨found, collect_mono (le_max_left first rest) hfound⟩
      · rcases hrest c hc acc with ⟨found, hfound⟩
        exact ⟨found, collect_mono (le_max_right first rest) hfound⟩

/-- Where every path ends, the walk does. -/
theorem exists_collect (h : Acc (flip (Step succ)) a) :
    ∃ depth, ∀ acc, ∃ found, collect succ items depth a acc = some found := by
  induction h with
  | intro a _ ih =>
      rcases exists_depth fun b hb => ih b hb with ⟨depth, hdepth⟩
      refine ⟨depth + 1, ?_⟩
      intro acc
      exact exists_foldlM hdepth (acc ++ items a)

/-! ## What it collects -/

/-- The loop over the successors, by whether one of them adds something. -/
theorem mem_foldlM {f : List β → α → Option (List β)} {x : β} {Adds : α → Prop}
    (hf : ∀ acc b found, f acc b = some found → (x ∈ found ↔ x ∈ acc ∨ Adds b))
    (h : bs.foldlM f acc = some found) : x ∈ found ↔ x ∈ acc ∨ ∃ b ∈ bs, Adds b := by
  induction bs generalizing acc with
  | nil =>
      rw [← Option.some.inj h]
      simp
  | cons b bs ih =>
      rw [List.foldlM_cons] at h
      rcases Option.bind_eq_some_iff.mp h with ⟨mid, hmid, hrest⟩
      rw [ih hrest, hf acc b mid hmid, or_assoc]
      simp

/-- What is collected is what the reachable nodes have. -/
theorem mem_collect (h : collect succ items depth a acc = some found) (x : β) :
    x ∈ found ↔ x ∈ acc ∨ ∃ b, ReflTransGen (Step succ) a b ∧ x ∈ items b := by
  induction depth generalizing a acc found with
  | zero => cases h
  | succ depth ih =>
      rw [mem_foldlM (fun acc b found hb => ih hb) h, List.mem_append, or_assoc]
      refine or_congr_right ?_
      constructor
      · rintro (hx | ⟨b, hb, c, hbc, hx⟩)
        · exact ⟨a, .refl, hx⟩
        · exact ⟨c, .head hb hbc, hx⟩
      · rintro ⟨c, hac, hx⟩
        rcases hac.cases_head with rfl | ⟨b, hb, hbc⟩
        · exact .inl hx
        · exact .inr ⟨b, hb, c, hbc, hx⟩

/-! ## Cycles -/

section Cycles

variable {step : α → α → Prop}

theorem not_self_of_acc {r : α → α → Prop} (h : Acc r a) : ¬ r a a := by
  induction h with
  | intro a _ ih =>
      intro haa
      exact ih a haa haa

theorem acc_of_reachable (h : Acc (flip step) a) (hab : ReflTransGen step a b) :
    Acc (flip step) b := by
  induction hab with
  | refl => exact h
  | tail _ hstep ih => exact ih.inv hstep

/-- Where finitely many nodes can be reached, every path ends unless there is a cycle. -/
theorem acc_iff (hfinite : {b | ReflTransGen step a b}.Finite) :
    Acc (flip step) a ↔ ∀ b, ReflTransGen step a b → ¬ TransGen step b b := by
  constructor
  · intro h b hab hcycle
    have hb : Acc (TransGen (flip step)) b := (acc_of_reachable h hab).transGen
    exact not_self_of_acc hb (transGen_swap.mpr hcycle)
  · intro hacyclic
    -- the paths within the reachable nodes are a well-founded order
    let r : {b // ReflTransGen step a b} → {b // ReflTransGen step a b} → Prop :=
      fun c b => TransGen step b.1 c.1
    have : Finite {b // ReflTransGen step a b} := hfinite
    have : IsTrans _ r := ⟨fun _ _ _ hcb hdc => hdc.trans hcb⟩
    have : Std.Irrefl r := ⟨fun b => hacyclic b.1 b.2⟩
    have hwf : WellFounded r := Finite.wellFounded_of_trans_of_irrefl r
    have hall : ∀ b : {b // ReflTransGen step a b}, Acc (flip step) b.1 := by
      intro b
      induction b using hwf.induction with
      | h b ih =>
          constructor
          intro c hc
          exact ih ⟨c, b.2.tail hc⟩ (.single hc)
    exact hall ⟨a, .refl⟩

/-- How many nodes of a set can be reached from a node in one step or more. -/
noncomputable def reachCount (nodes : Finset α) (step : α → α → Prop) (a : α) : Nat :=
  open Classical in (nodes.filter fun b => TransGen step a b).card

theorem reachCount_le (nodes : Finset α) (a : α) : reachCount nodes step a ≤ nodes.card := by
  classical
  exact Finset.card_filter_le _ _

/-- A step to a node on no cycle leaves fewer nodes to be reached. -/
theorem reachCount_lt {nodes : Finset α} (hab : step a b) (hb : b ∈ nodes)
    (hacyclic : ¬ TransGen step b b) :
    reachCount nodes step b < reachCount nodes step a := by
  classical
  refine Finset.card_lt_card ⟨?_, ?_⟩
  · intro c hc
    rw [Finset.mem_filter] at hc ⊢
    exact ⟨hc.1, .head hab hc.2⟩
  · intro hsub
    have hself := hsub (Finset.mem_filter.mpr ⟨hb, .single hab⟩)
    exact hacyclic (Finset.mem_filter.mp hself).2

end Cycles

end Walk
