import CspProc.Types
import Mathlib.Logic.Function.Basic

/-! # The procedure store

`proc_store_dynamic.c` and `proc_store_static.c`, which differ only in how the
array of slots comes to exist. A slot is empty when its procedure has no
instructions. Every operation first takes the store's mutex; whether that
succeeds is the argument `mutexOk`.

The struct copy `proc_store[slot] = *proc` is a copy of the value here: the
store and the caller share the strings, which nobody changes in place.
-/

namespace CspProc

/-- `proc_store`: the procedure of every slot. -/
abbrev Store : Type := UInt8 → Proc

namespace Store

/-- The store after `proc_store_init`: no slot has instructions. -/
def init : Store := fun _ => Proc.empty

/-- `proc_store[slot].instruction_count > 0`. -/
def occupied (store : Store) (slot : UInt8) : Bool := !(store slot).instructions.isEmpty

@[simp] theorem occupied_eq_true {store : Store} {slot : UInt8} :
    store.occupied slot = true ↔ (store slot).instructions ≠ [] := by
  simp [occupied]

@[simp] theorem occupied_eq_false {store : Store} {slot : UInt8} :
    store.occupied slot = false ↔ (store slot).instructions = [] := by
  simp [occupied]

/-- `PROC_MUTEX_ERR`. -/
def procMutexErr : Int := 1

/-! ## Operations -/

/-- `_delete_proc`, called with the mutex held. A slot number is an 8-bit
number, so the check against `MAX_PROC_SLOT` never fails. -/
def deleteProcLocked (store : Store) (slot : UInt8) : Int × Store :=
  (0, Function.update store slot Proc.empty)

/-- `delete_proc`. -/
def deleteProc (mutexOk : Bool) (store : Store) (slot : UInt8) : Int × Store :=
  if mutexOk then store.deleteProcLocked slot else (procMutexErr, store)

/-- `set_proc`. -/
def setProc (mutexOk : Bool) (store : Store) (proc : Proc) (slot : UInt8) (overwrite : Bool) :
    Int × Store :=
  if mutexOk then
    if store.occupied slot = false then
      let (_, store) := store.deleteProcLocked slot
      (slot.toNat, Function.update store slot proc)
    else if overwrite then
      let (_, store) := store.deleteProcLocked slot
      (slot.toNat, Function.update store slot proc)
    else (-1, store)
  else (procMutexErr, store)

/-- What `get_proc` returns: `NULL`, the error number cast to a pointer, or the
slot's procedure. -/
inductive Fetched where
  | null
  | mutexErr
  | found (proc : Proc)
deriving DecidableEq, Repr

/-- `get_proc`. -/
def getProc (mutexOk : Bool) (store : Store) (slot : UInt8) : Fetched :=
  if mutexOk then
    if store.occupied slot = false then .null else .found (store slot)
  else .mutexErr

/-- The slots `get_proc_slots` lists before the terminating -1, in order. -/
def getProcSlots (store : Store) : List UInt8 :=
  ((List.range (maxProcSlot + 1)).map UInt8.ofNat).filter store.occupied

/-! ## What the operations do to a slot -/

theorem deleteProc_ok (store : Store) (slot : UInt8) :
    store.deleteProc true slot = (0, Function.update store slot Proc.empty) := rfl

/-- Without `overwrite` a procedure is stored exactly in an empty slot. -/
theorem setProc_eq (mutexOk : Bool) (store : Store) (proc : Proc) (slot : UInt8) :
    store.setProc mutexOk proc slot false =
      if mutexOk = false then (procMutexErr, store)
      else if store.occupied slot = false then
        ((slot.toNat : Int), Function.update store slot proc)
      else (-1, store) := by
  cases mutexOk with
  | false => rfl
  | true =>
      unfold setProc deleteProcLocked
      by_cases h : store.occupied slot = false
      · simp [h]
      · simp [h]

/-- Storing without `overwrite` changes an empty slot or nothing. -/
theorem setProc_store (mutexOk : Bool) (store : Store) (proc : Proc) (slot : UInt8) :
    (store.setProc mutexOk proc slot false).2 = store ∨
    store.occupied slot = false ∧
      (store.setProc mutexOk proc slot false).2 = Function.update store slot proc := by
  rw [setProc_eq]
  split
  · exact .inl rfl
  · split
    · exact .inr ⟨‹_›, rfl⟩
    · exact .inl rfl

theorem getProc_ok (store : Store) (slot : UInt8) :
    store.getProc true slot =
      if (store slot).instructions = [] then .null else .found (store slot) := by
  simp [getProc]

/-! ## The list of the slots -/

/-- All slot numbers, in order. -/
theorem pairwise_allSlots : ((List.range (maxProcSlot + 1)).map UInt8.ofNat).Pairwise (· < ·) := by
  rw [List.pairwise_map]
  refine List.pairwise_lt_range.imp_of_mem ?_
  intro a b ha hb hlt
  simp only [List.mem_range, maxProcSlot] at ha hb
  rw [UInt8.lt_iff_toNat_lt, UInt8.toNat_ofNat', UInt8.toNat_ofNat']
  omega

theorem mem_allSlots (slot : UInt8) : slot ∈ (List.range (maxProcSlot + 1)).map UInt8.ofNat := by
  refine List.mem_map.mpr ⟨slot.toNat, ?_, UInt8.ofNat_toNat⟩
  have hlt := slot.toNat_lt
  simp only [List.mem_range, maxProcSlot]
  omega

/-- The list of the slots is in increasing order. -/
theorem getProcSlots_pairwise (store : Store) : store.getProcSlots.Pairwise (· < ·) :=
  pairwise_allSlots.filter _

/-- The list of the slots has the occupied ones and no others. -/
@[simp] theorem mem_getProcSlots {store : Store} {slot : UInt8} :
    slot ∈ store.getProcSlots ↔ store.occupied slot = true := by
  rw [getProcSlots, List.mem_filter]
  exact and_iff_right (mem_allSlots slot)

end Store

end CspProc
