import CspProc.Fetching

/-! # The nodes that are this one

How `proc_fetch_param` recognises a node as local: it scans the addresses of the
interfaces once, and both the download of a remote list and the search for a
parameter of this node go by what that scan has left.

* `isRemoteParam_localAddrs` — which nodes have their list downloaded;
* `recognises_iff` — the scan stays inside of its array, and both of its
  results are right, as long as there are at most nine interfaces.
-/

namespace CspProc

variable {P F : Type}

/-! ## The scan -/

/-- The indices at which the loop over the interfaces accesses its array: an
address is stored, and read again while the node is still taken for a remote one. -/
def scanAccesses (node : UInt16) : List UInt16 → Nat → Bool → List Nat
  | [], _, _ => []
  | addr :: ifaces, ifaceIdx, isRemoteParam =>
      if ifaceIdx < 10 then
        (ifaceIdx + 1) :: (if isRemoteParam then [ifaceIdx + 1] else []) ++
          scanAccesses node ifaces (ifaceIdx + 1) (isRemoteParam && addr ≠ node)
      else []

/-- The scan of `localAddrs`, from the first interface on. -/
def localAccesses (node : UInt16) (ifaces : List UInt16) : List Nat :=
  scanAccesses node ifaces 0 (node ≠ 0)

theorem mem_scanAccesses_cons {node addr : UInt16} {ifaces : List UInt16} {i k : Nat}
    {remote : Bool} :
    k ∈ scanAccesses node (addr :: ifaces) i remote ↔
      i < 10 ∧ (k = i + 1 ∨ k ∈ scanAccesses node ifaces (i + 1) (remote && addr ≠ node)) := by
  rw [scanAccesses]
  by_cases hi : i < 10
  · rw [if_pos hi, List.mem_append, and_iff_right hi]
    refine or_congr_left ?_
    -- the read is at the index of the write
    split
    · simp
    · simp
  · rw [if_neg hi]
    simp [hi]

/-- Each interface takes the scan one index further. -/
theorem le_of_mem_scanAccesses {node : UInt16} {ifaces : List UInt16} {i k : Nat} {remote : Bool}
    (hk : k ∈ scanAccesses node ifaces i remote) : k ≤ i + ifaces.length := by
  induction ifaces generalizing i remote with
  | nil => cases hk
  | cons addr ifaces ih =>
      rw [List.length_cons]
      rcases (mem_scanAccesses_cons.mp hk).2 with hfirst | hrest
      · omega
      · have := ih hrest
        omega

/-- A list that is long enough takes the scan to every index up to ten. -/
theorem mem_scanAccesses {node : UInt16} {ifaces : List UInt16} {i k : Nat} {remote : Bool}
    (hi : i < k) (hk : k ≤ 10) (hlen : k ≤ i + ifaces.length) :
    k ∈ scanAccesses node ifaces i remote := by
  induction ifaces generalizing i remote with
  | nil =>
      rw [List.length_nil] at hlen
      omega
  | cons addr ifaces ih =>
      rw [List.length_cons] at hlen
      refine mem_scanAccesses_cons.mpr ⟨by omega, ?_⟩
      by_cases hnext : k = i + 1
      · exact .inl hnext
      · exact .inr (ih (by omega) (by omega))

/-- The scan is reported as an access outside of an object when an index is. -/
theorem overrun_scanIfaces (node : UInt16) (ifaces : List UInt16) (i : Nat) (l : LocalAddrs) :
    (scanIfaces node ifaces i l).overrun = true ↔
      l.overrun = true ∨ ∃ k ∈ scanAccesses node ifaces i l.isRemoteParam, 10 ≤ k := by
  induction ifaces generalizing i l with
  | nil => simp [scanIfaces, scanAccesses]
  | cons addr ifaces ih =>
      unfold scanIfaces
      by_cases hi : i < 10
      · rw [if_pos hi, ih, Bool.or_eq_true, decide_eq_true_eq, or_assoc]
        refine or_congr_right ?_
        constructor
        · rintro (hfirst | ⟨k, hk, hbound⟩)
          · exact ⟨i + 1, mem_scanAccesses_cons.mpr ⟨hi, .inl rfl⟩, hfirst⟩
          · exact ⟨k, mem_scanAccesses_cons.mpr ⟨hi, .inr hk⟩, hbound⟩
        · rintro ⟨k, hk, hbound⟩
          rcases (mem_scanAccesses_cons.mp hk).2 with rfl | hrest
          · exact .inl hbound
          · exact .inr ⟨k, hrest, hbound⟩
      · rw [if_neg hi]
        simp [scanAccesses, hi]

theorem overrun_localAddrs (node : UInt16) (ifaces : List UInt16) :
    (localAddrs node ifaces).overrun = true ↔ ∃ k ∈ localAccesses node ifaces, 10 ≤ k := by
  unfold localAddrs localAccesses
  rw [overrun_scanIfaces]
  simp

/-- The scan compares the node with the addresses up to the tenth one. -/
theorem isRemoteParam_scanIfaces_iff (node : UInt16) (ifaces : List UInt16) (i : Nat)
    (l : LocalAddrs) :
    (scanIfaces node ifaces i l).isRemoteParam = true ↔
      l.isRemoteParam = true ∧ node ∉ ifaces.take (10 - i) := by
  induction ifaces generalizing i l with
  | nil => simp [scanIfaces]
  | cons addr ifaces ih =>
      unfold scanIfaces
      by_cases hi : i < 10
      · have hleft : 10 - i = (10 - (i + 1)) + 1 := by omega
        rw [if_pos hi, ih, hleft, List.take_succ_cons, List.mem_cons, not_or, Bool.and_eq_true,
          decide_eq_true_eq, and_assoc, ne_comm]
      · have hleft : 10 - i = 0 := by omega
        rw [if_neg hi, hleft]
        simp

/-- The list of a node is downloaded unless it is 0 or one of the first ten addresses. -/
theorem isRemoteParam_localAddrs (node : UInt16) (ifaces : List UInt16) :
    (localAddrs node ifaces).isRemoteParam = true ↔ ¬ (node = 0 ∨ node ∈ ifaces.take 10) := by
  unfold localAddrs
  rw [isRemoteParam_scanIfaces_iff, decide_eq_true_eq, not_or]

/-! ## What a fetch makes of it -/

namespace Host

/-- The node is this one: 0, or the address of one of the first ten interfaces. -/
def Local (h : Host P F) (node : UInt16) : Prop := node = 0 ∨ node ∈ h.ifaces.take 10

/-- A node is recognised: the scan stays inside of its array of ten addresses, the
list of the node is downloaded unless it is local, and the search stops at a
parameter of this node that has the name if and only if it is. -/
structure Recognises (h : Host P F) (node : UInt16) : Prop where
  inBounds : ∀ i ∈ localAccesses node h.ifaces, i ≤ 9
  downloads : ∀ name s,
    .download node ∈ ((h.procFetchParam name node).run s).accesses ↔ ¬ h.Local node
  matching : ∀ (strmatch : Param → Bool) (g : Nat) (param : Param) (params : List Param),
    g < infLoopGuard → strmatch param = true → param.node = 0 →
      (lookup strmatch node (localAddrs node h.ifaces).addrs g (param :: params) = .found param ↔
        h.Local node)

variable {h : Host P F}

theorem mem_downloadList {isRemoteParam : Bool} {node : UInt16} {s : P} {a : Access} :
    a ∈ ((h.downloadList isRemoteParam node).run s).accesses ↔
      isRemoteParam = true ∧ a = .download node := by
  unfold downloadList
  cases isRemoteParam with
  | false => simp
  | true => simp [Traced.mem_act]

/-- Only the list of a remote node is downloaded, and only before the search. -/
theorem download_mem_procFetchParam {name : CStr} {node : UInt16} {s : P} :
    .download node ∈ ((h.procFetchParam name node).run s).accesses ↔
      (localAddrs node h.ifaces).isRemoteParam = true := by
  unfold procFetchParam
  simp only [Traced.bind_accesses, List.mem_append, Traced.mem_report, mem_downloadList,
    reduceCtorEq, and_false, false_or, and_true]
  refine or_iff_left ?_
  -- what follows pulls a single parameter at most
  split
  · exact List.not_mem_nil
  · simp only [Traced.bind_accesses, List.mem_append, not_or]
    refine ⟨List.not_mem_nil, ?_⟩
    split
    · exact List.not_mem_nil
    · exact List.not_mem_nil
    · simp [Traced.mem_act]
    · simp [Traced.mem_report]

/-- The search stops at the first parameter of this node that has the name, if
the scan has found the node among the addresses. -/
theorem lookup_found_iff (hifaces : h.ifaces.length ≤ 9) {strmatch : Param → Bool} {node : UInt16}
    {g : Nat} (hg : g < infLoopGuard) {param : Param} (hm : strmatch param = true)
    (h0 : param.node = 0) (params : List Param) :
    lookup strmatch node (localAddrs node h.ifaces).addrs g (param :: params) = .found param ↔
      h.Local node := by
  have hall : h.ifaces.take 10 = h.ifaces := List.take_of_length_le (by omega)
  rw [Local, hall]
  constructor
  · intro hfound
    have hsound := lookup_sound strmatch node (localAddrs node h.ifaces).addrs g (param :: params)
    rw [hfound] at hsound
    rcases hsound.2 with hzero | haddr
    · exact .inl hzero
    · exact mem_localAddrs haddr
  · intro hlocal
    have hstop : stopsAt strmatch node (localAddrs node h.ifaces).addrs param = true := by
      simp only [stopsAt, hm, Bool.true_and, Bool.or_eq_true, Bool.and_eq_true, decide_eq_true_eq,
        List.contains_iff_mem]
      rcases hlocal with hzero | hiface
      · exact .inl (h0.trans hzero.symm)
      · exact .inr ⟨mem_localAddrs_of_mem hifaces hiface, h0⟩
    have hfound : stopAt node param = .found param := if_neg fun hremote => hremote.2 h0
    rw [lookup_cons strmatch node _ hg, if_pos hstop, hfound]

/-- A node is recognised if and only if the array has room for the addresses of
all interfaces behind its first entry. -/
theorem recognises_iff (h : Host P F) (node : UInt16) :
    h.Recognises node ↔ h.ifaces.length ≤ 9 := by
  constructor
  · intro hr
    by_contra hlong
    -- the tenth interface is written behind the array
    have hten : 10 ∈ localAccesses node h.ifaces :=
      mem_scanAccesses (by omega) (Nat.le_refl 10) (by omega)
    have := hr.inBounds 10 hten
    omega
  · intro hifaces
    constructor
    · intro i hi
      have := le_of_mem_scanAccesses hi
      omega
    · intro name s
      rw [download_mem_procFetchParam, isRemoteParam_localAddrs]
      rfl
    · intro strmatch g param params hg hm h0
      exact lookup_found_iff hifaces hg hm h0 params

/-- A node with ten interfaces. -/
def hostTen : Host (List (Param × UInt64)) Float :=
  { hostOne.toHost with ifaces := [1, 2, 3, 4, 5, 6, 7, 8, 9, 10] }

/-- The scan for its last address ends behind the array, and the search does not
stop at its parameters. -/
theorem tenth_iface_not_recognised :
    10 ∈ localAccesses 10 hostTen.ifaces ∧ ¬ hostTen.Recognises 10 := by
  have hten : 10 ∈ localAccesses 10 hostTen.ifaces := by decide
  refine ⟨hten, ?_⟩
  intro hr
  have := hr.inBounds 10 hten
  omega

end Host

end CspProc
