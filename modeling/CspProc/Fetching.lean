import CspProc.Arithmetic

/-! # Fetched parameters

Which parameter `proc_fetch_param` returns, for lists of any length.

The loop over the list stops at the first parameter that is asked for. Behind
10000 parameters its guard stops it too; the parameter that the iterator has
come to by then is returned like one that was found.

* `lookup_eq` — the loop, as a search in the beginning of the list;
* `fetchesAsked_iff` — a fetched parameter is one that was asked for, unless the
  guard stops the loop at another one.
-/

namespace CspProc

variable {P F : Type}

/-! ## The addresses of the interfaces -/

/-- The loop writes only behind the index it has come to. -/
theorem getElem?_scanIfaces {node : UInt16} {ifaces : List UInt16} {i j : Nat} {l : LocalAddrs}
    (hj : j ≤ i) : (scanIfaces node ifaces i l).addrs[j]? = l.addrs[j]? := by
  induction ifaces generalizing i l with
  | nil => rfl
  | cons addr ifaces ih =>
      unfold scanIfaces
      by_cases hi : i < 10
      · rw [if_pos hi, ih (by omega)]
        exact List.getElem?_set_ne (by omega)
      · rw [if_neg hi]

/-- Up to nine addresses find their place in the array. -/
theorem mem_scanIfaces_of_mem {node addr : UInt16} {ifaces : List UInt16} {i : Nat}
    {l : LocalAddrs} (hlen : l.addrs.length = 10) (hi : i + ifaces.length ≤ 9)
    (h : addr ∈ ifaces) : (addr.toNat : Int) ∈ (scanIfaces node ifaces i l).addrs := by
  induction ifaces generalizing i l with
  | nil => cases h
  | cons first ifaces ih =>
      simp only [List.length_cons] at hi
      unfold scanIfaces
      rw [if_pos (by omega)]
      rcases List.mem_cons.mp h with rfl | hrest
      · -- it is written now, and not overwritten later
        apply List.mem_of_getElem? (i := i + 1)
        rw [getElem?_scanIfaces (Nat.le_refl _)]
        exact List.getElem?_set_self (by omega)
      · refine ih ?_ (by omega) hrest
        rw [List.length_set, hlen]

theorem mem_localAddrs_of_mem {n node : UInt16} {ifaces : List UInt16} (hlen : ifaces.length ≤ 9)
    (h : node ∈ ifaces) : (node.toNat : Int) ∈ (localAddrs n ifaces).addrs :=
  mem_scanIfaces_of_mem rfl (by omega) h

/-! ## The loop over the parameters -/

/-- The test of the loop for a parameter that it stops at. -/
def stopsAt (strmatch : Param → Bool) (node : UInt16) (addrs : List Int) (param : Param) : Bool :=
  strmatch param && (param.node = node || (addrs.contains (node.toNat : Int) && param.node = 0))

/-- How the loop ends at a parameter: only one of a remote node has to be pulled. -/
def stopAt (node : UInt16) (param : Param) : Lookup :=
  if param.node = node ∧ param.node ≠ 0 then .remote param else .found param

/-- Before the guard the loop ends at a parameter, or goes on behind it. -/
theorem lookup_cons (strmatch : Param → Bool) (node : UInt16) (addrs : List Int) {g : Nat}
    (hg : g < infLoopGuard) (param : Param) (params : List Param) :
    lookup strmatch node addrs g (param :: params) =
      if stopsAt strmatch node addrs param = true then stopAt node param
      else lookup strmatch node addrs (g + 1) params := by
  rw [lookup, if_pos hg]
  by_cases hm : strmatch param = true
  · rw [if_pos hm]
    by_cases hnode : param.node = node
    · have hstop : stopsAt strmatch node addrs param = true := by simp [stopsAt, hm, hnode]
      rw [if_neg (not_not.mpr hnode), if_pos hstop]
      by_cases h0 : param.node = 0
      · simp [stopAt, h0]
      · simp only [stopAt, hnode, ne_eq, true_and]
        rw [if_neg (hnode ▸ h0), if_pos (hnode ▸ h0)]
    · rw [if_pos hnode]
      by_cases hlocal : (addrs.contains (node.toNat : Int) && param.node = 0) = true
      · have hstop : stopsAt strmatch node addrs param = true := by
          simp only [stopsAt, hm, hlocal, Bool.or_true, Bool.and_true]
        rw [if_pos hlocal, if_pos hstop]
        simp [stopAt, hnode]
      · have hgo : ¬ stopsAt strmatch node addrs param = true := by
          rw [Bool.not_eq_true] at hlocal
          simp only [stopsAt, hlocal, hnode, decide_false, Bool.or_false, Bool.and_false]
          exact Bool.false_ne_true
        rw [if_neg hlocal, if_neg hgo]
  · have hgo : ¬ stopsAt strmatch node addrs param = true := by
      rw [stopsAt, Bool.and_eq_true]
      exact fun hstop => hm hstop.1
    rw [if_neg hm, if_neg hgo]

/-- The loop searches the parameters up to the guard, and ends at the one behind
them otherwise. -/
theorem lookup_eq (strmatch : Param → Bool) (node : UInt16) (addrs : List Int) (g : Nat)
    (params : List Param) :
    lookup strmatch node addrs g params =
      match (params.take (infLoopGuard - g)).find? (stopsAt strmatch node addrs) with
      | some param => stopAt node param
      | none =>
          match params[infLoopGuard - g]? with
          | none => .absent
          | some param => .exhausted param := by
  induction params generalizing g with
  | nil => simp [lookup]
  | cons param params ih =>
      by_cases hg : g < infLoopGuard
      · -- one parameter more is searched
        rcases Nat.exists_eq_add_of_lt hg with ⟨n, hn⟩
        have hleft : infLoopGuard - g = n + 1 := by omega
        have hnext : infLoopGuard - (g + 1) = n := by omega
        rw [lookup_cons strmatch node addrs hg, ih (g + 1), hnext, hleft, List.take_succ_cons,
          List.find?_cons, List.getElem?_cons_succ]
        cases hstop : stopsAt strmatch node addrs param with
        | true => rw [if_pos rfl]
        | false => rw [if_neg Bool.false_ne_true]
      · have hleft : infLoopGuard - g = 0 := by omega
        rw [lookup, if_neg hg, hleft]
        rfl

/-! ## What a fetch returns -/

namespace Host

variable (h : Host P F)

/-- The name that a reference is looked up under. -/
def baseName (name : CStr) : List UInt8 :=
  (cutIndex (h.scanOffset name) name.bytes).getD name.bytes

/-- The parameter is one that is asked for: its name matches, and it belongs to
the node. -/
def Asked (base : List UInt8) (node : UInt16) (param : Param) : Prop :=
  h.lib.strmatch param.name.bytes base = true ∧ h.Owns node param

instance (base : List UInt8) (node : UInt16) (param : Param) :
    Decidable (h.Asked base node param) :=
  inferInstanceAs (Decidable (_ ∧ _))

/-- The download that a fetch begins with, if the node is remote. -/
def downloaded (node : UInt16) (s : P) : Traced.Outcome Access P Int :=
  (h.downloadList (localAddrs node h.ifaces).isRemoteParam node).run s

/-- The list that a fetch searches, unless its download fails. -/
def searched (node : UInt16) (s : P) : Option (List Param) :=
  if (h.downloaded node s).value < 0 then none
  else some (h.lib.params (h.downloaded node s).state)

/-- The parameter that a fetch returns. -/
def fetched (name : CStr) (node : UInt16) (s : P) : Option Param :=
  ((h.procFetchParam name node).run s).value

/-- A fetched parameter is one that is asked for, and none is fetched when the
list has none. -/
structure FetchesAsked (name : CStr) (node : UInt16) (s : P) : Prop where
  asked : ∀ param, h.fetched name node s = some param → h.Asked (h.baseName name) node param
  absent : (∀ params, h.searched node s = some params →
    ∀ param ∈ params, ¬ h.Asked (h.baseName name) node param) → h.fetched name node s = none

/-- The search ends before its guard ends it, or at a parameter that is asked for. -/
def SearchEnds (base : List UInt8) (node : UInt16) (s : P) : Prop :=
  ∀ params, h.searched node s = some params →
    params.length ≤ infLoopGuard ∨
      ∃ param ∈ params.take (infLoopGuard + 1), h.Asked base node param

variable {h}

/-- The loop stops where it is asked to. -/
theorem stopsAt_iff_asked (hifaces : h.ifaces.length ≤ 9) {base : List UInt8} {node : UInt16}
    {param : Param} :
    stopsAt (fun param => h.lib.strmatch param.name.bytes base) node
      (localAddrs node h.ifaces).addrs param = true ↔ h.Asked base node param := by
  simp only [stopsAt, Asked, Owns, Bool.and_eq_true, Bool.or_eq_true, decide_eq_true_eq,
    List.contains_iff_mem]
  refine and_congr_right fun _ => ?_
  constructor
  · rintro (hnode | ⟨haddr, h0⟩)
    · exact .inl hnode
    · rcases mem_localAddrs haddr with hzero | hiface
      · exact .inl (h0.trans hzero.symm)
      · exact .inr ⟨h0, hiface⟩
  · rintro (hnode | ⟨h0, hiface⟩)
    · exact .inl hnode
    · exact .inr ⟨mem_localAddrs_of_mem hifaces hiface, h0⟩

theorem fetched_of_not_searched {name : CStr} {node : UInt16} {s : P}
    (hs : h.searched node s = none) : h.fetched name node s = none := by
  unfold searched at hs
  have hfailed : (h.downloaded node s).value < 0 := by
    by_contra hok
    rw [if_neg hok] at hs
    cases hs
  unfold downloaded at hfailed
  simp only [fetched, procFetchParam, Traced.run_bind, Traced.report]
  rw [if_pos hfailed]
  rfl

/-- What becomes of the end of the search. -/
def ofLookup (h : Host P F) (name : CStr) (node : UInt16) (s : P) : Lookup → Option Param
  | .absent => none
  | .found param => some param
  | .remote param =>
      if (h.lib.paramPullSingle param (h.scanOffset name) node s).1 < 0 then none else some param
  | .exhausted param => some param

theorem fetched_of_searched {name : CStr} {node : UInt16} {s : P} {params : List Param}
    (hs : h.searched node s = some params) :
    h.fetched name node s = h.ofLookup name node (h.downloaded node s).state
      (lookup (fun param => h.lib.strmatch param.name.bytes (h.baseName name)) node
        (localAddrs node h.ifaces).addrs 0 params) := by
  unfold searched at hs
  split at hs
  · cases hs
  · rename_i hok
    rw [← Option.some.inj hs]
    have hsearch : h.search name node (h.downloaded node s).state =
        lookup (fun param => h.lib.strmatch param.name.bytes (h.baseName name)) node
          (localAddrs node h.ifaces).addrs 0 (h.lib.params (h.downloaded node s).state) := rfl
    rw [← hsearch]
    unfold downloaded at hok ⊢
    simp only [fetched, procFetchParam, Traced.run_bind, Traced.report]
    rw [if_neg hok]
    simp only [Traced.run_bind, Traced.look]
    cases h.search name node
        ((h.downloadList (localAddrs node h.ifaces).isRemoteParam node).run s).state with
    | absent => rfl
    | found param => rfl
    | remote param => rfl
    | exhausted param => rfl

section Searched

variable {name : CStr} {node : UInt16} {s : P} {params : List Param}

/-- The first parameter that is asked for is what is fetched, if it can be pulled. -/
theorem fetched_of_asked (hifaces : h.ifaces.length ≤ 9) (hs : h.searched node s = some params)
    {asked : Param} (hmem : asked ∈ params.take infLoopGuard)
    (hasked : h.Asked (h.baseName name) node asked) :
    ∃ param ∈ params.take infLoopGuard, h.Asked (h.baseName name) node param ∧
      h.fetched name node s =
        h.ofLookup name node (h.downloaded node s).state (stopAt node param) := by
  rw [fetched_of_searched hs, lookup_eq, Nat.sub_zero]
  cases hfind : (params.take infLoopGuard).find? (stopsAt (fun param =>
      h.lib.strmatch param.name.bytes (h.baseName name)) node (localAddrs node h.ifaces).addrs) with
  | none =>
      have hno := List.find?_eq_none.mp hfind asked hmem
      exact absurd ((stopsAt_iff_asked hifaces).mpr hasked) hno
  | some param =>
      have hstop := List.find?_some hfind
      exact ⟨param, List.mem_of_find?_eq_some hfind, (stopsAt_iff_asked hifaces).mp hstop, rfl⟩

/-- When none of the searched parameters is asked for, the one behind the guard
is fetched. -/
theorem fetched_of_none_asked (hifaces : h.ifaces.length ≤ 9)
    (hs : h.searched node s = some params)
    (hnone : ∀ param ∈ params.take infLoopGuard, ¬ h.Asked (h.baseName name) node param) :
    h.fetched name node s = params[infLoopGuard]? := by
  have hfind : (params.take infLoopGuard).find? (stopsAt (fun param =>
      h.lib.strmatch param.name.bytes (h.baseName name)) node
        (localAddrs node h.ifaces).addrs) = none := by
    apply List.find?_eq_none.mpr
    intro param hparam hstop
    exact hnone param hparam ((stopsAt_iff_asked hifaces).mp hstop)
  rw [fetched_of_searched hs, lookup_eq, Nat.sub_zero, hfind]
  cases params[infLoopGuard]? with
  | none => rfl
  | some param => rfl

theorem eq_of_ofLookup_stopAt {state : P} {param fetched : Param}
    (hf : h.ofLookup name node state (stopAt node param) = some fetched) : fetched = param := by
  unfold stopAt at hf
  split at hf
  · simp only [ofLookup] at hf
    split at hf
    · cases hf
    · exact (Option.some.inj hf).symm
  · exact (Option.some.inj hf).symm

/-- What is fetched is in the list: it has been asked for, or it stands behind the
guard, and nothing in front of it has been asked for. -/
theorem fetched_cases (hifaces : h.ifaces.length ≤ 9) {param : Param}
    (hf : h.fetched name node s = some param) :
    ∃ params, h.searched node s = some params ∧ param ∈ params ∧
      (h.Asked (h.baseName name) node param ∨
        (∀ q ∈ params.take infLoopGuard, ¬ h.Asked (h.baseName name) node q) ∧
          params[infLoopGuard]? = some param) := by
  cases hs : h.searched node s with
  | none =>
      rw [fetched_of_not_searched hs] at hf
      cases hf
  | some params =>
      refine ⟨params, rfl, ?_⟩
      by_cases hfound : ∃ asked ∈ params.take infLoopGuard, h.Asked (h.baseName name) node asked
      · rcases hfound with ⟨asked, hmem, hasked⟩
        rcases fetched_of_asked hifaces hs hmem hasked with ⟨first, hfirst, hasked', hfetched⟩
        rw [hfetched] at hf
        rw [eq_of_ofLookup_stopAt hf]
        exact ⟨List.mem_of_mem_take hfirst, .inl hasked'⟩
      · have hnone : ∀ q ∈ params.take infLoopGuard, ¬ h.Asked (h.baseName name) node q := by
          intro q hq hasked
          exact hfound ⟨q, hq, hasked⟩
        rw [fetched_of_none_asked hifaces hs hnone] at hf
        exact ⟨List.mem_of_getElem? hf, .inr ⟨hnone, hf⟩⟩

/-- What is fetched is asked for, if the guard does not end the search early. -/
theorem asked_of_fetched (hifaces : h.ifaces.length ≤ 9)
    (hends : h.SearchEnds (h.baseName name) node s) {param : Param}
    (hf : h.fetched name node s = some param) : h.Asked (h.baseName name) node param := by
  rcases fetched_cases hifaces hf with ⟨params, hs, -, hasked | ⟨hnone, hlast⟩⟩
  · exact hasked
  · -- the list goes on behind the guard, with a parameter that is asked for
    rcases List.getElem?_eq_some_iff.mp hlast with ⟨hlt, -⟩
    rcases hends params hs with hshort | ⟨q, hq, hasked⟩
    · omega
    · rw [List.take_add_one, hlast] at hq
      rcases List.mem_append.mp hq with hbefore | hbehind
      · exact absurd hasked (hnone q hbefore)
      · rwa [← List.mem_singleton.mp hbehind]

/-- When everything that is fetched is asked for, the guard does not end the
search at another parameter. -/
theorem searchEnds_of_asked (hifaces : h.ifaces.length ≤ 9)
    (hasked : ∀ param, h.fetched name node s = some param → h.Asked (h.baseName name) node param) :
    h.SearchEnds (h.baseName name) node s := by
  intro params hs
  by_contra hno
  rcases not_or.mp hno with ⟨hlong, hnone⟩
  have hlt : infLoopGuard < params.length := not_le.mp hlong
  have hlast : params[infLoopGuard]? = some params[infLoopGuard] :=
    List.getElem?_eq_getElem hlt
  have hbefore : ∀ param ∈ params.take infLoopGuard,
      ¬ h.Asked (h.baseName name) node param := by
    intro param hparam hmatch
    refine hnone ⟨param, ?_, hmatch⟩
    rw [List.take_add_one]
    exact List.mem_append_left _ hparam
  -- the parameter behind the guard is fetched, and has to be asked for
  have hfetched : h.fetched name node s = some params[infLoopGuard] := by
    rw [fetched_of_none_asked hifaces hs hbefore, hlast]
  refine hnone ⟨params[infLoopGuard], ?_, hasked _ hfetched⟩
  rw [List.take_add_one, hlast]
  exact List.mem_append_right _ (List.mem_singleton_self _)

end Searched

/-- A fetched parameter is one that was asked for exactly when the guard does
not end the search at another one. -/
theorem fetchesAsked_iff (hifaces : h.ifaces.length ≤ 9) (name : CStr) (node : UInt16) (s : P) :
    h.FetchesAsked name node s ↔ h.SearchEnds (h.baseName name) node s := by
  constructor
  · intro hf
    exact searchEnds_of_asked hifaces hf.asked
  · intro hends
    constructor
    · intro param hf
      exact asked_of_fetched hifaces hends hf
    · intro habsent
      by_contra hsome
      rcases Option.ne_none_iff_exists'.mp hsome with ⟨param, hf⟩
      rcases fetched_cases hifaces hf with ⟨params, hs, hmem, -⟩
      exact habsent params hs param hmem (asked_of_fetched hifaces hends hf)

theorem hostOne_ifaces : hostOne.toHost.ifaces.length ≤ 9 := Nat.le_of_ble_eq_true rfl

/-- `k` is fetched from an interface of this node. -/
theorem fetchesAsked_smallNumbers :
    hostOne.toHost.FetchesAsked nameK 1 smallNumbers ∧
      hostOne.toHost.fetched nameK 1 smallNumbers = some (numberParam nameK .int64) := by
  constructor
  · refine (fetchesAsked_iff hostOne_ifaces nameK 1 smallNumbers).mpr ?_
    intro params hs
    left
    rw [← Option.some.inj hs]
    exact Nat.le_of_ble_eq_true rfl
  · decide +kernel

/-- 10001 parameters that are called `l`. -/
def manyNumbers : List (Param × UInt64) := List.replicate 10001 (numberParam nameL .int64, 0)

/-- `k` is fetched although every parameter is called `l`. -/
theorem last_of_many_fetched : ¬ hostOne.toHost.FetchesAsked nameK 0 manyNumbers := by
  intro h
  have hlist : manyNumbers.map Prod.fst = List.replicate 10001 (numberParam nameL .int64) :=
    List.map_replicate
  have hs : hostOne.toHost.searched 0 manyNumbers =
      some (List.replicate 10001 (numberParam nameL .int64)) := by
    rw [← hlist]
    rfl
  have hother : ¬ hostOne.toHost.Asked (hostOne.toHost.baseName nameK) 0
      (numberParam nameL .int64) := by
    decide +kernel
  have hnone : ∀ param ∈ (List.replicate 10001 (numberParam nameL .int64)).take infLoopGuard,
      ¬ hostOne.toHost.Asked (hostOne.toHost.baseName nameK) 0 param := by
    intro param hparam
    rw [List.eq_of_mem_replicate (List.mem_of_mem_take hparam)]
    exact hother
  have hfetched := fetched_of_none_asked hostOne_ifaces hs hnone
  rw [List.getElem?_replicate_of_lt (by decide)] at hfetched
  exact hother (h.asked _ hfetched)

end Host

end CspProc
