import CspProc.Replies
import Mathlib.Data.Set.Card

/-! # The slot listing end to end

The reply to a slots request, and what `process_slots_response` of
`proc_client.c` makes of it. A packet of more than 256 data bytes has room for
every list of slots, but the client counts them in a `uint8_t`:
`slotsListed_iff` says when the listing arrives.
-/

namespace CspProc

variable {cfg : Config}

/-! ## The client -/

/-- The loop of `process_slots_response` from index `i` on, for `n` more
bytes. -/
def copySlots (packet : Packet cfg) : (n i : Nat) → List UInt8 → Option (List UInt8)
  | 0, _, slots => some slots
  | n + 1, i, slots =>
      if 1 + i < cfg.cspBufferSize ∧ i < slots.length then
        copySlots packet n (i + 1) (slots.set i (packet.byte (1 + i)))
      else none

/-- `process_slots_response`: the return value, the array and `*slot_count`.
The count is the `int` `length - 1` stored in a `uint8_t`. -/
def processSlotsResponse (packet : Packet cfg) (slots : List UInt8) :
    Option (Int × List UInt8 × UInt8) :=
  let slotCount := UInt8.ofInt (packet.length - 1 : Int)
  (copySlots packet slotCount.toNat 0 slots).map fun slots => (0, slots, slotCount)

/-- The copied bytes replace those of the array from index `i` on. -/
theorem copySlots_eq (packet : Packet cfg) {n i : Nat} {slots : List UInt8}
    (hread : 1 + i + n ≤ cfg.cspBufferSize) (hwrite : i + n ≤ slots.length) :
    copySlots packet n i slots =
      some (slots.take i ++ (packet.data.drop (1 + i)).take n ++ slots.drop (i + n)) := by
  induction n generalizing i slots with
  | zero => simp [copySlots]
  | succ n ih =>
      have hd := packet.data_length
      have hbyte : packet.byte (1 + i) = packet.data[1 + i] := by
        rw [Packet.byte, List.getD_eq_getElem?_getD, List.getElem?_eq_getElem (by omega)]
        rfl
      rw [copySlots, if_pos ⟨by omega, by omega⟩,
        ih (by omega) (by rw [List.length_set]; omega), hbyte]
      rw [List.drop_eq_getElem_cons (i := 1 + i) (by omega), List.take_succ_cons,
        List.take_add_one, List.take_set_of_le (Nat.le_refl _), List.getElem?_set_self (by omega),
        List.drop_set_of_lt (by omega)]
      simp [Nat.add_assoc, Nat.add_comm 1 n]

/-- A reply of at most 255 slots fills the front of the array with them. -/
theorem processSlotsResponse_eq {packet : Packet cfg} {header : UInt8} {l slots : List UInt8}
    (hreceived : packet.received = header :: l) (hl : l.length < 256)
    (hslots : l.length ≤ slots.length) :
    processSlotsResponse packet slots =
      some (0, l ++ slots.drop l.length, UInt8.ofNat l.length) := by
  have hlen : packet.length = l.length + 1 := by
    rw [← packet.received_length, hreceived, List.length_cons]
  have hcount : UInt8.ofInt (packet.length - 1 : Int) = UInt8.ofNat l.length := by
    rw [hlen]
    apply UInt8.toNat_inj.mp
    simp only [UInt8.ofInt, UInt8.toNat_ofNat']
    omega
  have hcopied : (packet.data.drop 1).take l.length = l := by
    have hdrop : packet.received.drop 1 = l := by rw [hreceived, List.drop_one, List.tail_cons]
    rw [Packet.received, hlen, List.drop_take] at hdrop
    exact hdrop
  have hroom := packet.length_le
  have hnat : (UInt8.ofNat l.length).toNat = l.length := by
    rw [UInt8.toNat_ofNat']
    omega
  unfold processSlotsResponse
  simp only [hcount, hnat]
  rw [copySlots_eq packet (by omega) (by omega)]
  rw [List.take_zero, List.nil_append, hcopied, Nat.zero_add]
  rfl

/-! ## Server and client -/

/-- `slots` lists the occupied slots in increasing order. -/
structure ListsOccupied (store : Store) (slots : List UInt8) : Prop where
  increasing : slots.Pairwise (· < ·)
  complete : ∀ slot, slot ∈ slots ↔ store.occupied slot = true

theorem listsOccupied_getProcSlots (store : Store) : ListsOccupied store store.getProcSlots where
  increasing := store.getProcSlots_pairwise
  complete _ := Store.mem_getProcSlots

/-- Such a list has as many entries as there are occupied slots. -/
theorem ListsOccupied.length {store : Store} {slots : List UInt8} (h : ListsOccupied store slots) :
    slots.length = {slot | store.occupied slot = true}.ncard := by
  have hnodup : slots.Nodup := h.increasing.imp fun {a b} (hlt : a < b) (heq : a = b) =>
    UInt8.lt_irrefl b (heq ▸ hlt)
  have hset : {slot | store.occupied slot = true} = (slots.toFinset : Set UInt8) := by
    ext slot
    simp [h.complete]
  rw [hset, Set.ncard_coe_finset, List.toFinset_card_of_nodup hnodup]

/-- The listing is complete: the server stays inside the packet and sends its
reply, and whatever packet the client receives with these bytes, and whatever
its array of `MAX_PROC_SLOT + 1` bytes held, the client then has the number of
occupied slots and in front of the array their increasing list. -/
def SlotsListed (env : Env) (store : Store) (packet : Packet cfg) : Prop :=
  ∃ reply : List UInt8,
    (procServeSlotsRequest env store packet).outcome = some (store, .sent, some reply) ∧
    ∀ received : Packet cfg, received.received = reply →
      ∀ slots : List UInt8, slots.length = maxProcSlot + 1 →
        ∃ slots' slotCount, processSlotsResponse received slots = some (0, slots', slotCount) ∧
          slotCount.toNat = {slot | store.occupied slot = true}.ncard ∧
          ListsOccupied store (slots'.take slotCount.toNat)

theorem getProcSlots_length_le (store : Store) :
    store.getProcSlots.length ≤ maxProcSlot + 1 := by
  have hle := List.length_filter_le store.occupied
    ((List.range (maxProcSlot + 1)).map UInt8.ofNat)
  rwa [List.length_map, List.length_range] at hle

/-- Fewer than 256 slots are listed when a slot is empty. -/
theorem getProcSlots_length_lt_iff (store : Store) :
    store.getProcSlots.length < maxProcSlot + 1 ↔ ∃ slot, store.occupied slot = false := by
  have hfilter := List.length_filter_lt_length_iff_exists (p := store.occupied)
    (l := (List.range (maxProcSlot + 1)).map UInt8.ofNat)
  rw [List.length_map, List.length_range] at hfilter
  rw [Store.getProcSlots, hfilter]
  constructor
  · rintro ⟨slot, -, hempty⟩
    exact ⟨slot, by simpa using hempty⟩
  · rintro ⟨slot, hempty⟩
    exact ⟨slot, Store.mem_allSlots slot, by simp [hempty]⟩

/-- With fewer than 256 slots the client finds them all, and their number. -/
theorem processSlotsResponse_getProcSlots (store : Store)
    (hlt : store.getProcSlots.length < maxProcSlot + 1) {received : Packet cfg}
    (hreceived : received.received = replyHeader .slotsResponse false :: store.getProcSlots)
    {slots : List UInt8} (hslots : slots.length = maxProcSlot + 1) :
    ∃ slots' slotCount, processSlotsResponse received slots = some (0, slots', slotCount) ∧
      slotCount.toNat = {slot | store.occupied slot = true}.ncard ∧
      ListsOccupied store (slots'.take slotCount.toNat) := by
  have hlists := listsOccupied_getProcSlots store
  simp only [maxProcSlot] at hlt hslots
  have hnat : (UInt8.ofNat store.getProcSlots.length).toNat = store.getProcSlots.length := by
    rw [UInt8.toNat_ofNat']
    omega
  refine ⟨_, _, processSlotsResponse_eq hreceived (by omega) (by omega), ?_, ?_⟩
  · rw [hnat, hlists.length]
  · rw [hnat, List.take_left]
    exact hlists

/-- With all 256 slots the 8-bit count of the client is not their number. -/
theorem not_slotCount_eq_full {store : Store} (hlen : store.getProcSlots.length = 256)
    (slotCount : UInt8) : slotCount.toNat ≠ {slot | store.occupied slot = true}.ncard := by
  have hcount := (listsOccupied_getProcSlots store).length
  have hlt := slotCount.toNat_lt
  omega

/-- The listing arrives when there are memory and the mutex, and no more slots
than a `uint8_t` counts. -/
theorem slotsListed_iff_length (env : Env) (store : Store) (packet : Packet cfg)
    (hbuffer : 256 ≤ cfg.cspBufferSize) :
    SlotsListed env store packet ↔
      env.malloc = true ∧ env.mutexTake = true ∧ store.getProcSlots.length < maxProcSlot + 1 := by
  have hle := getProcSlots_length_le store
  unfold SlotsListed
  rw [outcome_slots]
  by_cases henv : env.malloc = false ∨ env.mutexTake = false
  · -- the list is not there when it is used
    rw [if_pos henv]
    constructor
    · rintro ⟨reply, hnone, -⟩
      cases hnone
    · rintro ⟨hm, ht, -⟩
      rcases henv with h | h
      · rw [hm] at h
        cases h
      · rw [ht] at h
        cases h
  · rw [if_neg henv]
    simp only [not_or, Bool.not_eq_false] at henv
    constructor
    · rintro ⟨reply, hsent, hclient⟩
      refine ⟨henv.1, henv.2, ?_⟩
      by_contra hfull
      -- 256 slots: there is no room for them, or the client counts none
      have hlen : store.getProcSlots.length = 256 := by
        simp only [maxProcSlot] at hfull hle
        omega
      split at hsent
      · rename_i hroom
        simp only [Option.some.injEq, Prod.mk.injEq, true_and] at hsent
        subst hsent
        obtain ⟨slots', slotCount, -, hncard, -⟩ := hclient
          (.ofBytes _ [] (by rw [List.length_cons]; omega)) (Packet.received_ofBytes _ _ _)
          (List.replicate (maxProcSlot + 1) 0) List.length_replicate
        exact not_slotCount_eq_full hlen slotCount hncard
      · cases hsent
    · rintro ⟨-, -, hlt⟩
      have hroom : 1 + store.getProcSlots.length ≤ cfg.cspBufferSize := by
        simp only [maxProcSlot] at hlt
        omega
      refine ⟨replyHeader .slotsResponse false :: store.getProcSlots, by rw [if_pos hroom], ?_⟩
      intro received hreceived slots hslots
      exact processSlotsResponse_getProcSlots store hlt hreceived hslots

/-- The listing is complete exactly when some slot is empty (and there are
memory and the mutex). -/
theorem slotsListed_iff (env : Env) (store : Store) (packet : Packet cfg)
    (hbuffer : 256 ≤ cfg.cspBufferSize) :
    SlotsListed env store packet ↔
      env.malloc = true ∧ env.mutexTake = true ∧ ∃ slot, store.occupied slot = false := by
  rw [slotsListed_iff_length env store packet hbuffer, getProcSlots_length_lt_iff]

/-- A slots request. -/
def slotsPacket (cfg : Config) (h : 1 ≤ cfg.cspBufferSize) : Packet cfg := .ofBytes [0x86] [] h

/-- A store with a procedure in three slots. -/
def threeSlots : Store := fun slot =>
  if slot = 3 ∨ slot = 7 ∨ slot = 255 then ⟨[⟨0, .noop⟩], one_le_maxInstructions⟩ else Proc.empty

theorem slotsListed_threeSlots :
    threeSlots.getProcSlots = [3, 7, 255] ∧
      SlotsListed .working threeSlots (slotsPacket .default (by decide)) :=
  ⟨by decide +kernel,
    (slotsListed_iff .working threeSlots _ (by decide)).mpr ⟨rfl, rfl, 0, by decide⟩⟩

/-- A store without an empty slot. -/
def fullStore : Store := fun _ => ⟨[⟨0, .noop⟩], one_le_maxInstructions⟩

/-- Packets with room for all slots. -/
def Config.roomy : Config :=
  { Config.default with cspBufferSize := 512, header_le := by decide, buffer_lt := by decide }

/-- With all slots occupied a packet of 256 bytes is too small, and in a larger
one the client counts no slots. -/
theorem fullStore_not_listed :
    ¬ SlotsListed .working fullStore (slotsPacket .default (by decide)) ∧
      ¬ SlotsListed .working fullStore (slotsPacket .roomy (by decide)) := by
  have hfull : ¬ fullStore.getProcSlots.length < maxProcSlot + 1 := by
    rw [getProcSlots_length_lt_iff]
    rintro ⟨slot, hempty⟩
    cases hempty
  constructor
  · intro h
    exact hfull ((slotsListed_iff_length _ _ _ (by decide)).mp h).2.2
  · intro h
    exact hfull ((slotsListed_iff_length _ _ _ (by decide)).mp h).2.2

end CspProc
