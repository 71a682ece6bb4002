import CspProc.Lib.Critical
import CspProc.Store

/-! # The store under its mutex

The operations of `proc_store_dynamic.c` and `proc_store_static.c` again, access by
access: the array of a slot is read and written one cell at a time, so that calls of
several threads interleave. What is freed is recorded. What a caller does with the
pointer that `get_proc` returns is not part of the operations: it happens without the
mutex.

* `StoreOp.code` — the operations as the source has them;
* `StoreOp.serve` — the same operations in one step each, on the store;
* `storeOps_serial` — the calls of any number of threads are one after the other;
* `storeOps_no_race` — only one thread at a time is at the array, and it will give
  the mutex back.
-/

namespace CspProc

open Critical

/-! ## Cells -/

/-- A `proc_t`: the array of its instructions, and the count. -/
structure ProcCells where
  instructions : Nat → ProcInstruction
  instructionCount : UInt8

/-- The procedure: the instructions that the count tells of. -/
def ProcCells.proc (p : ProcCells) : Proc where
  instructions := (List.range p.instructionCount.toNat).map p.instructions
  length_le := by
    rw [List.length_map, List.length_range]
    exact Nat.le_of_lt_succ p.instructionCount.toNat_lt

/-- The array `proc_store`, and the instructions whose strings have been freed. -/
structure StoreCells where
  procStore : UInt8 → ProcCells
  freed : List ProcInstruction

namespace StoreCells

/-- The store, and what has been freed. -/
def contents (c : StoreCells) : Store × List ProcInstruction :=
  (fun slot => (c.procStore slot).proc, c.freed)

/-- `proc_store[slot].instruction_count`. -/
def count (c : StoreCells) (slot : UInt8) : UInt8 := (c.procStore slot).instructionCount

/-- `proc_free_instruction(&proc_store[slot].instructions[i])`. -/
def freeInstruction (slot : UInt8) (i : Nat) (c : StoreCells) : StoreCells :=
  { c with freed := c.freed ++ [(c.procStore slot).instructions i] }

/-- `proc_store[slot].instruction_count = n`. -/
def setCount (slot n : UInt8) (c : StoreCells) : StoreCells :=
  { c with
    procStore := Function.update c.procStore slot { c.procStore slot with instructionCount := n } }

/-- `proc_store[slot].instructions[i] = ins`, a part of the struct copy. -/
def setInstruction (slot : UInt8) (i : Nat) (ins : ProcInstruction) (c : StoreCells) :
    StoreCells :=
  { c with
    procStore := Function.update c.procStore slot
      { c.procStore slot with
        instructions := Function.update (c.procStore slot).instructions i ins } }

end StoreCells

/-! ## Operations -/

/-- What an operation returns: a number, a pointer to nothing, to a slot, or the
error number as a pointer, the list of the slots, or nothing. -/
inductive StoreResult where
  | code (ret : Int)
  | null
  | mutexErr
  | found (slot : UInt8)
  | slots (list : List UInt8)
  | void
deriving DecidableEq, Repr

/-- What is left of an operation. -/
abbrev StoreBody : Type := Body StoreCells StoreResult

/-- The loop of `_delete_proc` with `n` of the 256 values of its counter left, before
`rest`. The count is read again in every pass. -/
def deleteLoop (slot : UInt8) (rest : StoreBody) : Nat → StoreBody
  | 0 => rest
  | n + 1 => .access id fun c =>
      if 255 - n < (c.count slot).toNat then
        .access (StoreCells.freeInstruction slot (255 - n)) fun _ => deleteLoop slot rest n
      else rest

/-- `_delete_proc`, before `rest`. -/
def deleteProcBody (slot : UInt8) (rest : StoreBody) : StoreBody :=
  deleteLoop slot (.access (StoreCells.setCount slot 0) fun _ => rest) 256

/-- `proc_store[slot] = *proc` with `n` instructions left, before `rest`. -/
def copyLoop (proc : ProcCells) (slot : UInt8) (rest : StoreBody) : Nat → StoreBody
  | 0 => .access (StoreCells.setCount slot proc.instructionCount) fun _ => rest
  | n + 1 =>
      .access (StoreCells.setInstruction slot (254 - n) (proc.instructions (254 - n))) fun _ =>
        copyLoop proc slot rest n

/-- `proc_store[slot] = *proc`, before `rest`. -/
def copyProcBody (proc : ProcCells) (slot : UInt8) (rest : StoreBody) : StoreBody :=
  copyLoop proc slot rest maxInstructions

/-- The loop of `get_proc_slots` with `n` slots left, and the list so far. -/
def slotsLoop : Nat → List UInt8 → StoreBody
  | 0, list => .give (.ret (.slots list))
  | n + 1, list => .access id fun c =>
      slotsLoop n
        (if 0 < c.count (UInt8.ofNat (255 - n)) then list ++ [UInt8.ofNat (255 - n)] else list)

/-- The loop of `reset_proc_store` with `n` slots left. -/
def resetLoop : Nat → StoreBody
  | 0 => .give (.ret .void)
  | n + 1 => deleteProcBody (UInt8.ofNat (255 - n)) (resetLoop n)

/-- A call of the store. -/
inductive StoreOp where
  | deleteProc (slot : UInt8)
  | resetProcStore
  | setProc (proc : ProcCells) (slot : UInt8) (overwrite : Bool)
  | getProc (slot : UInt8)
  | getProcSlots

/-- What a call returns that does not get the mutex. -/
def StoreOp.refused : StoreOp → StoreResult
  | .deleteProc _ | .setProc .. => .code Store.procMutexErr
  | .resetProcStore => .void
  | .getProc _ => .mutexErr
  | .getProcSlots => .null

/-- The operations with the mutex. -/
def StoreOp.locked : StoreOp → StoreBody
  | .deleteProc slot => deleteProcBody slot (.give (.ret (.code 0)))
  | .resetProcStore => resetLoop (maxProcSlot + 1)
  | .setProc proc slot overwrite => .access id fun c =>
      if c.count slot = 0 then
        deleteProcBody slot (copyProcBody proc slot (.give (.ret (.code slot.toNat))))
      else if overwrite then
        deleteProcBody slot (copyProcBody proc slot (.give (.ret (.code slot.toNat))))
      else .give (.ret (.code (-1)))
  | .getProc slot => .access id fun c =>
      if c.count slot = 0 then .give (.ret .null) else .give (.ret (.found slot))
  | .getProcSlots => slotsLoop (maxProcSlot + 1) []

/-- The operations of the store. -/
def StoreOp.code (op : StoreOp) : StoreBody :=
  .take fun
    | true => op.locked
    | false => .ret op.refused

/-! ## The operations in one step -/

/-- The operations of `Store` with the mutex, and what they free. -/
def StoreOp.serve (op : StoreOp) (s : Store × List ProcInstruction) :
    (Store × List ProcInstruction) × StoreResult :=
  let (store, freed) := s
  match op with
  | .deleteProc slot =>
      let (ret, store') := store.deleteProc true slot
      ((store', freed ++ (store slot).instructions), .code ret)
  | .resetProcStore =>
      ((.init, freed ++
        ((List.range (maxProcSlot + 1)).map UInt8.ofNat).flatMap fun s => (store s).instructions),
        .void)
  | .setProc proc slot overwrite =>
      let (ret, store') := store.setProc true proc.proc slot overwrite
      ((store', if ret < 0 then freed else freed ++ (store slot).instructions), .code ret)
  | .getProc slot =>
      (s, match store.getProc true slot with
        | .null => .null
        | .mutexErr => .mutexErr
        | .found _ => .found slot)
  | .getProcSlots => (s, .slots store.getProcSlots)

section Loops

variable {c : StoreCells} {slot : UInt8} {rest : StoreBody}

@[simp] theorem ProcCells.proc_length (p : ProcCells) :
    p.proc.instructions.length = p.instructionCount.toNat := by
  rw [ProcCells.proc, List.length_map, List.length_range]

/-- A slot is empty when its count is 0. -/
theorem StoreCells.occupied_eq (c : StoreCells) (slot : UInt8) :
    Store.occupied c.contents.1 slot = decide (0 < c.count slot) := by
  rw [Bool.eq_iff_iff, Store.occupied_eq_true, decide_eq_true_iff, ← List.length_pos_iff,
    UInt8.lt_iff_toNat_lt]
  exact iff_of_eq (congrArg _ (ProcCells.proc_length _))

/-- What a slot holds after its procedure has been changed. -/
theorem StoreCells.contents_update (c : StoreCells) (slot : UInt8) (p : ProcCells)
    (freed : List ProcInstruction) :
    StoreCells.contents ⟨Function.update c.procStore slot p, freed⟩ =
      (Function.update c.contents.1 slot p.proc, freed) := by
  refine Prod.ext (funext fun s => ?_) rfl
  exact Function.apply_update (fun _ => ProcCells.proc) c.procStore slot p s

/-- The loop frees the instructions from its counter on. -/
theorem finish_deleteLoop (slot : UInt8) (rest : StoreBody) (n : Nat) (hn : n ≤ 256)
    (c : StoreCells) :
    (deleteLoop slot rest n).finish c =
      rest.finish { c with
        freed := c.freed ++ (c.procStore slot).proc.instructions.drop (256 - n) } := by
  induction n generalizing c with
  | zero =>
      have hall := (c.procStore slot).proc.length_le
      rw [deleteLoop, List.drop_eq_nil_of_le (hall.trans (by decide)), List.append_nil]
  | succ n ih =>
      rw [deleteLoop]
      change (if 255 - n < (c.count slot).toNat then _ else _ : StoreBody).finish c = _
      rw [show 256 - (n + 1) = 255 - n by omega]
      have hlen := ProcCells.proc_length (c.procStore slot)
      by_cases hi : 255 - n < (c.count slot).toNat
      · have hlt : 255 - n < (c.procStore slot).proc.instructions.length := hlen ▸ hi
        have hget : (c.procStore slot).proc.instructions[255 - n] =
            (c.procStore slot).instructions (255 - n) := by
          simp only [ProcCells.proc, List.getElem_map, List.getElem_range]
        rw [if_pos hi, Body.finish, ih (by omega), List.drop_eq_getElem_cons hlt, hget,
          show 255 - n + 1 = 256 - n by omega, StoreCells.freeInstruction, List.append_assoc,
          List.singleton_append]
      · have hge : (c.procStore slot).proc.instructions.length ≤ 255 - n := by
          rw [hlen]
          exact Nat.le_of_not_lt hi
        rw [if_neg hi, List.drop_eq_nil_of_le hge, List.append_nil]

/-- A deletion leaves the slot empty, and what it held freed. -/
theorem finish_deleteProcBody (slot : UInt8) (rest : StoreBody) (c : StoreCells) :
    ∃ c', (deleteProcBody slot rest).finish c = rest.finish c' ∧
      c'.contents = (Function.update c.contents.1 slot Proc.empty,
        c.contents.2 ++ (c.contents.1 slot).instructions) := by
  refine ⟨StoreCells.setCount slot 0
    { c with freed := c.freed ++ (c.procStore slot).proc.instructions }, ?_, ?_⟩
  · rw [deleteProcBody, finish_deleteLoop slot _ 256 (Nat.le_refl _)]
    rfl
  · rw [StoreCells.setCount, StoreCells.contents_update]
    rfl

/-- The struct copy writes the whole procedure, cell by cell. -/
theorem finish_copyLoop (proc : ProcCells) (slot : UInt8) (rest : StoreBody) (n : Nat)
    (hn : n ≤ 255) (c : StoreCells)
    (hc : ∀ i < 255 - n, (c.procStore slot).instructions i = proc.instructions i) :
    ∃ c', (copyLoop proc slot rest n).finish c = rest.finish c' ∧
      c'.contents = (Function.update c.contents.1 slot proc.proc, c.contents.2) := by
  induction n generalizing c with
  | zero =>
      refine ⟨_, rfl, ?_⟩
      rw [StoreCells.setCount, StoreCells.contents_update]
      congr 2
      refine Proc.ext (List.map_congr_left fun i hi => hc i ?_)
      exact (List.mem_range.mp hi).trans_le (Nat.le_of_lt_succ proc.instructionCount.toNat_lt)
  | succ n ih =>
      have hnext : ∀ i < 255 - n, ((StoreCells.setInstruction slot (254 - n)
          (proc.instructions (254 - n)) c).procStore slot).instructions i =
            proc.instructions i := by
        intro i hi
        rw [StoreCells.setInstruction]
        simp only [Function.update_self]
        by_cases hlast : i = 254 - n
        · rw [hlast, Function.update_self]
        · rw [Function.update_of_ne hlast]
          exact hc i (by omega)
      rcases ih (by omega) _ hnext with ⟨c', hfinish, hcontents⟩
      refine ⟨c', hfinish, ?_⟩
      rw [hcontents, StoreCells.setInstruction, StoreCells.contents_update, Function.update_idem]
      rfl

/-- A struct copy changes its slot. -/
theorem finish_copyProcBody (proc : ProcCells) (slot : UInt8) (rest : StoreBody)
    (c : StoreCells) :
    ∃ c', (copyProcBody proc slot rest).finish c = rest.finish c' ∧
      c'.contents = (Function.update c.contents.1 slot proc.proc, c.contents.2) :=
  finish_copyLoop proc slot rest maxInstructions (Nat.le_refl _) c
    fun i hi => absurd hi (Nat.not_lt_zero i)

/-- The slots from `256 - n` on. -/
theorem slots_drop {n : Nat} (hn : n ≤ 255) :
    ((List.range (maxProcSlot + 1)).map UInt8.ofNat).drop (255 - n) =
      UInt8.ofNat (255 - n) :: ((List.range (maxProcSlot + 1)).map UInt8.ofNat).drop (256 - n) := by
  have hlt : 255 - n < ((List.range (maxProcSlot + 1)).map UInt8.ofNat).length := by
    rw [List.length_map, List.length_range]
    exact Nat.lt_succ_of_le (Nat.sub_le _ _)
  rw [List.drop_eq_getElem_cons hlt, List.getElem_map, List.getElem_range,
    show 255 - n + 1 = 256 - n by omega]

/-- The loop lists the occupied slots, and changes nothing. -/
theorem finish_slotsLoop (n : Nat) (hn : n ≤ 256) (list : List UInt8) (c : StoreCells) :
    (slotsLoop n list).finish c =
      (c, .slots (list ++ (((List.range (maxProcSlot + 1)).map UInt8.ofNat).drop (256 - n)).filter
        (Store.occupied c.contents.1))) := by
  induction n generalizing list with
  | zero =>
      rw [List.drop_eq_nil_of_le (by simp [maxProcSlot]), List.filter_nil, List.append_nil]
      rfl
  | succ n ih =>
      rw [show 256 - (n + 1) = 255 - n by omega, slots_drop (by omega), List.filter_cons,
        StoreCells.occupied_eq, slotsLoop]
      refine (ih (by omega) _).trans ?_
      by_cases hcount : 0 < c.count (UInt8.ofNat (255 - n))
      · simp [hcount]
      · simp [hcount]

/-- The loop empties the slots from `256 - n` on. -/
theorem finish_resetLoop (n : Nat) (hn : n ≤ 256) (c : StoreCells) :
    ∃ c', (resetLoop n).finish c = (c', .void) ∧
      c'.contents.1 = (fun s => if 256 - n ≤ s.toNat then Proc.empty else c.contents.1 s) ∧
      c'.contents.2 = c.contents.2 ++
        (((List.range (maxProcSlot + 1)).map UInt8.ofNat).drop (256 - n)).flatMap fun s =>
          (c.contents.1 s).instructions := by
  induction n generalizing c with
  | zero =>
      refine ⟨c, rfl, funext fun s => ?_, ?_⟩
      · rw [if_neg (Nat.not_le_of_lt s.toNat_lt)]
      · rw [List.drop_eq_nil_of_le (by simp [maxProcSlot]), List.flatMap_nil, List.append_nil]
  | succ n ih =>
      have hslot : (UInt8.ofNat (255 - n)).toNat = 255 - n := by
        rw [UInt8.toNat_ofNat']
        omega
      rcases finish_deleteProcBody (UInt8.ofNat (255 - n)) (resetLoop n) c with
        ⟨b, hdelete, hcontents⟩
      rcases ih (by omega) b with ⟨c', hfinish, hstore, hfreed⟩
      rw [hcontents] at hstore hfreed
      dsimp only at hstore hfreed
      refine ⟨c', hdelete.trans hfinish, ?_, ?_⟩
      · rw [hstore]
        funext s
        by_cases hs : s = UInt8.ofNat (255 - n)
        · subst hs
          rw [Function.update_self, hslot, ite_self, if_pos (by omega)]
        · have hne : s.toNat ≠ 255 - n := fun heq => hs (UInt8.toNat_inj.mp (heq.trans hslot.symm))
          rw [Function.update_of_ne hs]
          by_cases hle : 256 - n ≤ s.toNat
          · rw [if_pos hle, if_pos (by omega)]
          · rw [if_neg hle, if_neg (by omega)]
      · rw [hfreed, show 256 - (n + 1) = 255 - n by omega, slots_drop (by omega),
          List.flatMap_cons, List.append_assoc]
        congr 2
        refine List.flatMap_congr fun s hs => ?_
        have hne : s ≠ UInt8.ofNat (255 - n) := by
          have hpair := Store.pairwise_allSlots.sublist (List.drop_sublist (255 - n) _)
          rw [slots_drop (by omega)] at hpair
          exact fun heq => UInt8.lt_irrefl _ (heq ▸ List.rel_of_pairwise_cons hpair hs)
        rw [Function.update_of_ne hne]

end Loops

/-! ## The operations refine those in one step -/

section Operations

variable {slot : UInt8} {rest : StoreBody}

theorem StoreCells.count_eq_zero (c : StoreCells) (slot : UInt8) :
    c.count slot = 0 ↔ Store.occupied c.contents.1 slot = false := by
  rw [c.occupied_eq, decide_eq_false_iff_not, UInt8.lt_iff_toNat_lt, UInt8.toNat_zero,
    Nat.pos_iff_ne_zero, not_not]
  exact UInt8.toNat_inj.symm

/-- A procedure that is stored replaces the slot's, whose instructions are freed. -/
theorem finish_replace (proc : ProcCells) (slot : UInt8) (rest : StoreBody) (c : StoreCells) :
    ∃ c', (deleteProcBody slot (copyProcBody proc slot rest)).finish c = rest.finish c' ∧
      c'.contents = (Function.update c.contents.1 slot proc.proc,
        c.contents.2 ++ (c.contents.1 slot).instructions) := by
  rcases finish_deleteProcBody slot (copyProcBody proc slot rest) c with ⟨b, hdelete, hb⟩
  rcases finish_copyProcBody proc slot rest b with ⟨c', hcopy, hc'⟩
  refine ⟨c', hdelete.trans hcopy, ?_⟩
  rw [hc', hb, Function.update_idem]

theorem StoreOp.finish_code_eq (op : StoreOp) (c : StoreCells) :
    op.code.finish c = op.locked.finish c := rfl

/-- Alone, an operation does what it does in one step. -/
theorem StoreOp.finish_code (op : StoreOp) (c : StoreCells) :
    op.serve c.contents = ((op.code.finish c).1.contents, (op.code.finish c).2) := by
  cases op with
  | deleteProc slot =>
      rcases finish_deleteProcBody slot (.give (.ret (.code 0))) c with ⟨c', hfinish, hc'⟩
      rw [StoreOp.finish_code_eq, StoreOp.locked, hfinish, Body.finish, Body.finish, hc']
      rfl
  | resetProcStore =>
      rcases finish_resetLoop (maxProcSlot + 1) (Nat.le_refl _) c with
        ⟨c', hfinish, hstore, hfreed⟩
      rw [StoreOp.finish_code_eq, StoreOp.locked, hfinish]
      refine Prod.ext (Prod.ext ?_ hfreed.symm) rfl
      rw [hstore]
      exact funext fun s => (if_pos (Nat.zero_le _)).symm
  | setProc proc slot overwrite =>
      rcases finish_replace proc slot (.give (.ret (.code slot.toNat))) c with ⟨c', hfinish, hc'⟩
      have hslot : ¬ ((slot.toNat : Int) < 0) := Int.not_lt.mpr (Int.natCast_nonneg _)
      rw [StoreOp.finish_code_eq, StoreOp.locked, Body.finish]
      dsimp only [id]
      by_cases hempty : c.count slot = 0
      · have hfree := (c.count_eq_zero slot).mp hempty
        simp [if_pos hempty, hfinish, hc', StoreOp.serve, Store.setProc, Store.deleteProcLocked,
          hfree, hslot, Body.finish]
      · have hfull : Store.occupied c.contents.1 slot = true :=
          Bool.not_eq_false _ ▸ mt (c.count_eq_zero slot).mpr hempty
        cases overwrite with
        | true =>
            simp [hfinish, hc', StoreOp.serve, Store.setProc,
              Store.deleteProcLocked, hfull, hslot, Body.finish]
        | false =>
            simp [if_neg hempty, StoreOp.serve, Store.setProc, hfull, Body.finish]
  | getProc slot =>
      rw [StoreOp.finish_code_eq, StoreOp.locked, Body.finish]
      dsimp only [id]
      by_cases hempty : c.count slot = 0
      · have hfree := (c.count_eq_zero slot).mp hempty
        simp [if_pos hempty, StoreOp.serve, Store.getProc, hfree, Body.finish]
      · have hfull : Store.occupied c.contents.1 slot = true :=
          Bool.not_eq_false _ ▸ mt (c.count_eq_zero slot).mpr hempty
        simp [if_neg hempty, StoreOp.serve, Store.getProc, hfull, Body.finish]
  | getProcSlots =>
      rw [StoreOp.finish_code_eq, StoreOp.locked,
        finish_slotsLoop (maxProcSlot + 1) (Nat.le_refl _)]
      rfl

/-! ## The operations keep to the mutex -/

theorem deleteProcBody_inside (h : rest.Inside) : (deleteProcBody slot rest).Inside := by
  have hloop (n : Nat) :
      (deleteLoop slot (.access (StoreCells.setCount slot 0) fun _ => rest) n).Inside := by
    induction n with
    | zero => exact fun _ => h
    | succ n ih =>
        intro c
        change (if 255 - n < (c.count slot).toNat then _ else _ : StoreBody).Inside
        split
        · exact fun _ => ih
        · exact fun _ => h
  rw [deleteProcBody]
  exact hloop 256

theorem copyProcBody_inside (proc : ProcCells) (h : rest.Inside) :
    (copyProcBody proc slot rest).Inside := by
  have hloop (n : Nat) : (copyLoop proc slot rest n).Inside := by
    induction n with
    | zero => exact fun _ => h
    | succ n ih => exact fun _ => ih
  exact hloop maxInstructions

theorem slotsLoop_inside (n : Nat) (list : List UInt8) : (slotsLoop n list).Inside := by
  induction n generalizing list with
  | zero => trivial
  | succ n ih => exact fun _ => ih _

theorem resetLoop_inside (n : Nat) : (resetLoop n).Inside := by
  induction n with
  | zero => trivial
  | succ n ih => exact deleteProcBody_inside ih

/-- Every operation takes the mutex before its first access, and gives it back once,
on each of its ways to a return. -/
theorem StoreOp.guarded (op : StoreOp) : op.code.Guarded := by
  refine ⟨?_, trivial⟩
  cases op with
  | deleteProc slot => exact deleteProcBody_inside trivial
  | resetProcStore => exact resetLoop_inside _
  | setProc proc slot overwrite =>
      intro c
      have hreplace : (deleteProcBody slot
          (copyProcBody proc slot (.give (.ret (.code slot.toNat))))).Inside :=
        deleteProcBody_inside (copyProcBody_inside proc trivial)
      dsimp only
      split
      · exact hreplace
      · split
        · exact hreplace
        · trivial
  | getProc slot =>
      intro c
      dsimp only
      split
      · trivial
      · trivial
  | getProcSlots => exact slotsLoop_inside _ _

end Operations

/-! ## Any number of threads -/

section Threads

variable {cells : StoreCells} {is : List (Move StoreOp)}
variable {b c : Threads StoreCells StoreOp StoreResult}

/-- The operations of the store that any number of threads call, with their accesses to
the array interleaved in any way, have the results and the effects of the operations in
one step each, in an order in which a call that has returned comes before those that
get the mutex later. A call that does not get it returns its error and does nothing. -/
theorem storeOps_serial {js : List (Move StoreOp)}
    (hb : Reaches (Threads.next StoreOp.code) (fun _ _ => True) (Threads.start cells) is b)
    (hc : Reaches (Threads.next StoreOp.code) (fun _ _ => True) b js c) :
    (∃ s, Replays StoreOp.serve cells.contents c.done s ∧
      (c.holder = none → c.shared.contents = s)) ∧
    (c.done.map fun e => e.1).Nodup ∧
    (∀ e ∈ c.done, c.calls[e.1]? = some (e.2.1, .ret e.2.2)) ∧
    (∀ n op r, c.calls[n]? = some (op, .ret r) →
      (n, op, r) ∈ c.done ∨ r = op.refused ∧ ∀ e ∈ c.done, e.1 ≠ n) ∧
    ∃ later, c.done = b.done ++ later ∧
      ∀ e ∈ later, ∀ op r, b.calls[e.1]? ≠ some (op, .ret r) := by
  have hserial := serial StoreOp.guarded (hb.trans hc)
  refine ⟨?_, hserial.nodup, hserial.entries, ?_, done_later hc⟩
  · cases hholder : c.holder with
    | none =>
        exact ⟨c.shared.contents,
          (hserial.free hholder).map StoreCells.contents StoreOp.finish_code, fun _ => rfl⟩
    | some n =>
        rcases hserial.held n hholder with ⟨op, rest, t, -, -, -, hreplays, -⟩
        exact ⟨t.contents, hreplays.map StoreCells.contents StoreOp.finish_code,
          fun hnone => nomatch hnone⟩
  · intro n op r hret
    have hn : c.holder ≠ some n := by
      intro hheld
      rcases hserial.held n hheld with ⟨op', rest, -, hcall, hinside, -⟩
      rw [hret] at hcall
      cases hcall
      exact hinside
    cases hserial.waiting n op _ hret hn with
    | waits hrest => cases hrest
    | returned r' hrest hdone =>
        cases hrest
        exact .inl hdone
    | refused r' hrest hdone hcode =>
        cases hrest
        exact .inr ⟨(Body.ret.inj hcode).symm, hdone⟩

/-- Only one thread at a time is at an access to the array, the one that has the mutex,
and it gives the mutex back by steps of its own. -/
theorem storeOps_no_race
    (hc : Reaches (Threads.next StoreOp.code) (fun _ _ => True) (Threads.start cells) is c) :
    (∀ n op update next, c.calls[n]? = some (op, .access update next) → c.holder = some n) ∧
    ∀ n, c.holder = some n → ∃ k c',
      Reaches (Threads.next StoreOp.code) (fun _ _ => True) c
        (List.replicate k (.step n true)) c' ∧ c'.holder = none :=
  ⟨fun _ _ _ _ hcall => no_race StoreOp.guarded hc hcall,
    fun _ hn => holder_gives StoreOp.guarded hc hn⟩

end Threads

/-- A store with a procedure of two instructions in slot 7. -/
def twoCells : StoreCells :=
  ⟨fun slot => ⟨fun _ => ⟨0, .noop⟩, if slot = 7 then 2 else 0⟩, []⟩

/-- The procedure is looked for, deleted and looked for again, by three threads, while a
fourth one does not get the mutex. -/
def foundThenDeleted : List (Move StoreOp) × List (Move StoreOp) :=
  ([.call (.getProc 7), .call (.deleteProc 7), .call (.getProc 7), .call .getProcSlots,
    .step 0 true, .step 3 false, .step 0 true, .step 0 true, .step 1 true, .step 1 true],
    List.replicate 6 (.step 1 true) ++ List.replicate 3 (.step 2 true))

theorem exists_foundThenDeleted :
    ∃ b c,
      Reaches (Threads.next StoreOp.code) (fun _ _ => True) (Threads.start twoCells)
        foundThenDeleted.1 b ∧
      Reaches (Threads.next StoreOp.code) (fun _ _ => True) b foundThenDeleted.2 c ∧
      b.done.map (fun e => e.2.2) = [.found 7] ∧ c.holder = none ∧
      c.done.map (fun e => e.2.2) = [.found 7, .code 0, .null] := by
  obtain ⟨b, hb, hfound⟩ : ∃ b, foundThenDeleted.1.foldlM
      (guarded (Threads.next StoreOp.code) fun _ _ => True) (Threads.start twoCells) = some b ∧
      b.done.map (fun e => e.2.2) = [.found 7] := ⟨_, rfl, rfl⟩
  obtain ⟨c, hc, hholder, hdone⟩ : ∃ c, foundThenDeleted.2.foldlM
      (guarded (Threads.next StoreOp.code) fun _ _ => True) b = some c ∧ c.holder = none ∧
      c.done.map (fun e => e.2.2) = [.found 7, .code 0, .null] := by
    cases hb
    exact ⟨_, rfl, rfl, rfl⟩
  exact ⟨b, c, .of_foldlM hb, .of_foldlM hc, hfound, hholder, hdone⟩

theorem storeOps_serial_foundThenDeleted :
    ∃ b c : Threads StoreCells StoreOp StoreResult,
      c.done.map (fun e => e.2.2) = [.found 7, .code 0, .null] ∧
      Replays StoreOp.serve twoCells.contents c.done c.shared.contents ∧
      (c.done.map fun e => e.1).Nodup ∧
      (∀ e ∈ c.done, c.calls[e.1]? = some (e.2.1, .ret e.2.2)) ∧
      (∀ n op r, c.calls[n]? = some (op, .ret r) →
        (n, op, r) ∈ c.done ∨ r = op.refused ∧ ∀ e ∈ c.done, e.1 ≠ n) ∧
      ∃ later, c.done = b.done ++ later ∧ later.length = 2 ∧
        ∀ e ∈ later, ∀ op r, b.calls[e.1]? ≠ some (op, .ret r) := by
  rcases exists_foundThenDeleted with ⟨b, c, hb, hc, hfound, hholder, hdone⟩
  rcases storeOps_serial hb hc with
    ⟨⟨s, hreplays, hshared⟩, hnodup, hentries, hreturned, later, hlater, hafter⟩
  refine ⟨b, c, hdone, hshared hholder ▸ hreplays, hnodup, hentries, hreturned, later, hlater, ?_,
    hafter⟩
  have hlength := congrArg List.length hdone
  have hfirst := congrArg List.length hfound
  rw [hlater] at hlength
  simp only [List.map_append, List.length_append, List.length_map, List.length_cons,
    List.length_nil] at hlength hfirst
  omega

/-- A store whose slots are all empty. -/
def noCells : StoreCells := ⟨fun _ => ⟨fun _ => ⟨0, .noop⟩, 0⟩, []⟩

/-- While a procedure is being stored, a second call is refused. -/
theorem exists_setProc_run :
    ∃ is js b c,
      Reaches (Threads.next StoreOp.code) (fun _ _ => True) (Threads.start noCells) is b ∧
      Reaches (Threads.next StoreOp.code) (fun _ _ => True) b js c ∧ c.holder = some 0 := by
  let is : List (Move StoreOp) :=
    [.call (.setProc ⟨fun _ => ⟨0, .noop⟩, 2⟩ 7 false), .call (.getProc 7), .step 0 true,
      .step 0 true]
  let js : List (Move StoreOp) := [.step 0 true, .step 1 false, .step 0 true]
  obtain ⟨b, hb⟩ : ∃ b, is.foldlM (guarded (Threads.next StoreOp.code) fun _ _ => True)
    (Threads.start noCells) = some b := ⟨_, rfl⟩
  obtain ⟨c, hc, hholder⟩ : ∃ c, js.foldlM (guarded (Threads.next StoreOp.code) fun _ _ => True)
    b = some c ∧ c.holder = some 0 := by
    cases hb
    exact ⟨_, rfl, rfl⟩
  exact ⟨is, js, b, c, .of_foldlM hb, .of_foldlM hc, hholder⟩

theorem storeOps_no_race_setProc :
    ∃ c : Threads StoreCells StoreOp StoreResult, c.holder = some 0 ∧ ∃ k c',
      Reaches (Threads.next StoreOp.code) (fun _ _ => True) c
        (List.replicate k (.step 0 true)) c' ∧ c'.holder = none := by
  rcases exists_setProc_run with ⟨is, js, b, c, hb, hc, hholder⟩
  exact ⟨c, hholder, (storeOps_no_race (hb.trans hc)).2 0 hholder⟩

end CspProc
