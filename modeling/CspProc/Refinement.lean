import CspProc.Disposal

/-! # The server in memory refines the server

With an allocator that always succeeds, memory that holds the procedures of a
store is served as that store is: `procServe_refines` relates the two servers
request by request, with what they do to the packet.
-/

namespace CspProc

variable {cfg : Config}

/-- What has been done with the packet of a request that has been served. -/
def Served.packetOps (r : Served cfg) : List PacketOp :=
  match r.disposal with
  | .sent => [.sendtoReply r.packet.received]
  | .freed => [.bufferFree]
  | .leaked => []

/-- An environment in which every allocation succeeds and the runtime returns. -/
def Env.withHeap (env : Env) : MemoryEnv :=
  ⟨fun _ => true, env.mutexTake, env.runtimeRun.map fun procRuntimeRun slot =>
    some (procRuntimeRun slot)⟩

namespace Memory

variable {m : Memory} {store : Store} {leaked : List Nat}

/-- The slots of the memory hold the procedures of the store. -/
def Represents (m : Memory) (store : Store) : Prop :=
  ∀ slot, (m.procStore slot).load m.heap = some (store slot)

theorem init_represents : init.Represents Store.init := by
  intro slot
  exact StoredProc.load_eq_some_iff.mpr ⟨rfl, rfl⟩

namespace Represents

/-- A slot is occupied in both or in neither. -/
theorem occupied (h : m.Represents store) (slot : UInt8) :
    m.occupied slot = store.occupied slot := by
  rcases StoredProc.load_eq_some_iff.mp (h slot) with ⟨hw, hmap⟩
  have hlen := List.length_of_mapM hmap
  rw [hw] at hlen
  rw [Bool.eq_iff_iff, Store.occupied_eq_true, ne_eq, ← List.length_eq_zero_iff, hlen,
    Memory.occupied, decide_eq_true_eq, UInt8.lt_iff_toNat_lt]
  exact Nat.pos_iff_ne_zero

theorem keep (h : m.Represents store) {heap : Heap Block} (hkept : m.Keeps heap) :
    { m with heap := heap }.Represents store := by
  intro slot
  refine StoredProc.load_mono (fun b hb v hv => ?_) (h slot)
  rw [hkept b (mem_references hb)]
  exact hv

theorem setSlot (h : m.Represents store) {heap : Heap Block} {slot : UInt8} {p : StoredProc}
    {proc : Proc} (hp : p.load heap = some proc)
    (hkept : ∀ b ∈ m.others slot, heap.blocks b = m.heap.blocks b) :
    { m with heap := heap, procStore := Function.update m.procStore slot p }.Represents
      (Function.update store slot proc) := by
  intro s
  show (Function.update m.procStore slot p s).load heap = some (Function.update store slot proc s)
  by_cases heq : s = slot
  · rw [heq, Function.update_self, Function.update_self]
    exact hp
  · rw [Function.update_of_ne heq, Function.update_of_ne heq]
    refine StoredProc.load_mono (fun b hb v hv => ?_) (h s)
    rw [hkept b (mem_others heq hb)]
    exact hv

end Represents

/-- The temporary procedure of a push is what the decoder returns. -/
theorem load_pushProc {env : MemoryEnv} (halloc : ∀ n, env.alloc n = true) {packet : Packet cfg}
    {u : Unpacked} (hu : unpackProcFromCspPacket cfg packet = some u) (hret : u.ret = 0) :
    (pushProc env m packet u).load (pushHeap env m u) = some u.procedure := by
  rw [StoredProc.load_eq_some_iff]
  constructor
  · show (storeInstructions env.alloc _ u.procedure.instructions).1.length = _
    rw [length_storeInstructions]
    exact length_of_unpack hu hret
  · refine load_storeInstructions env.alloc _ _ ?_
    rw [(storeInstructions_eq ..).1]
    exact Heap.none_not_mem_allocAll halloc _ _

theorem slotList_eq (h : m.Represents store) : m.slotList = store.getProcSlots := by
  rw [slotList, Store.getProcSlots]
  exact List.filter_congr fun slot _ => h.occupied slot

variable {env : Env} {packet : Packet cfg} {r : MemoryServed}

theorem procServeDelRequest_refines (haccounted : m.Accounted leaked) (h : m.Represents store)
    (hserve : m.procServeDelRequest env.withHeap packet = some r) :
    ∃ r', (CspProc.procServeDelRequest env store packet).result = some r' ∧
      r.memory.Represents r'.store ∧ r.packetOps = r'.packetOps := by
  rcases env with ⟨malloc, mutexTake, runtimeRun⟩
  cases mutexTake with
  | false =>
      cases hserve
      exact ⟨_, rfl, h, rfl⟩
  | true =>
      rcases haccounted.deleteProcLocked (packet.byte 1) with ⟨heap, hdelete, -, hkept⟩
      have hempty : StoredProc.empty.load heap = some Proc.empty :=
        StoredProc.load_eq_some_iff.mpr ⟨rfl, rfl⟩
      have hexit : m.procServeDelRequest (Env.withHeap ⟨malloc, true, runtimeRun⟩) packet =
          (m.deleteProcLocked (packet.byte 1)).bind fun m =>
            some (sendReply m (packet.shortReply .delResponse false)) := by
        cases hlocked : m.deleteProcLocked (packet.byte 1) <;>
          simp [procServeDelRequest, deleteProc, Env.withHeap, hlocked]
      rw [hexit, hdelete] at hserve
      cases hserve
      exact ⟨_, rfl, h.setSlot hempty hkept, rfl⟩

theorem procServePullRequest_refines (h : m.Represents store)
    (hserve : m.procServePullRequest env.withHeap packet = some r) :
    ∃ r', (CspProc.procServePullRequest env store packet).result = some r' ∧
      r.memory.Represents r'.store ∧ r.packetOps = r'.packetOps := by
  rcases env with ⟨malloc, mutexTake, runtimeRun⟩
  cases mutexTake with
  | false => cases hserve
  | true =>
      have hload := h (packet.byte 1)
      have hsame := h.occupied (packet.byte 1)
      simp only [procServePullRequest, getProc, Env.withHeap, if_true, hsame] at hserve
      simp only [CspProc.procServePullRequest, Store.getProc, if_true]
      cases hocc : store.occupied (packet.byte 1) with
      | false =>
          simp only [hocc, if_true] at hserve
          cases hserve
          exact ⟨_, rfl, h, rfl⟩
      | true =>
          simp only [hocc, Bool.true_eq_false, if_false, hload, Option.bind_eq_bind,
            Option.bind_some] at hserve ⊢
          rcases Option.bind_eq_some_iff.mp hserve with ⟨⟨ret, packet'⟩, hpack, hr⟩
          rw [hpack, Option.bind_some]
          dsimp only at hr ⊢
          split at hr
          · cases hr
            rw [if_pos ‹_›]
            exact ⟨_, rfl, h, rfl⟩
          · cases hr
            rw [if_neg ‹_›]
            exact ⟨_, rfl, h, rfl⟩

theorem procServePushRequest_refines (haccounted : m.Accounted leaked) (h : m.Represents store)
    (hmalloc : env.malloc = true)
    (hserve : m.procServePushRequest env.withHeap packet = some r) :
    ∃ r', (CspProc.procServePushRequest env store packet).result = some r' ∧
      r.memory.Represents r'.store ∧ r.packetOps = r'.packetOps := by
  -- each way out of the handler over the heap is one of the handler over values
  have hexit := haccounted.pushExit env.withHeap packet
  rw [hserve] at hexit
  simp only [CspProc.procServePushRequest, hmalloc, Bool.true_eq_false, if_false]
  cases hexit with
  | noMemory hok => cases hok
  | unknown hok hu hret hlen haccounted' hkept =>
      rw [hu]
      dsimp only
      rw [if_pos (by rcases unpackData_ret hu with h0 | h1 <;> omega)]
      exact ⟨_, rfl, h.keep hkept, rfl⟩
  | occupied hok hu hret hmutex hocc haccounted' hkept =>
      have hmutex' : env.mutexTake = true := hmutex
      rw [h.occupied] at hocc
      simp only [hu, hret, Int.lt_irrefl, if_false, Store.setProc_eq, hmutex', hocc,
        Bool.true_eq_false]
      exact ⟨_, rfl, h.keep hkept, rfl⟩
  | unlocked hok hu hret hmutex hlost haccounted' hkept =>
      have hmutex' : env.mutexTake = false := hmutex
      simp only [hu, hret, Int.lt_irrefl, if_false, Store.setProc_eq, hmutex', if_true]
      exact ⟨_, rfl, h.keep hkept, rfl⟩
  | stored hok hu hret hmutex hocc haccounted' hkept =>
      have hmutex' : env.mutexTake = true := hmutex
      rw [h.occupied] at hocc
      have hproc := load_pushProc (m := m) (fun _ => rfl : ∀ n, env.withHeap.alloc n = true) hu hret
      simp only [hu, hret, Int.lt_irrefl, if_false, Store.setProc_eq, hmutex', hocc, if_true,
        Bool.true_eq_false]
      rw [if_neg (by omega)]
      refine ⟨_, rfl, h.setSlot hproc fun b hb => hkept b ?_, rfl⟩
      rcases List.mem_flatMap.mp hb with ⟨s, -, hs⟩
      exact mem_references hs

theorem procServeSlotsRequest_refines (haccounted : m.Accounted leaked) (h : m.Represents store)
    (hmalloc : env.malloc = true)
    (hserve : m.procServeSlotsRequest env.withHeap packet = some r) :
    ∃ r', (CspProc.procServeSlotsRequest env store packet).result = some r' ∧
      r.memory.Represents r'.store ∧ r.packetOps = r'.packetOps := by
  rcases haccounted.slotsExit env.withHeap packet with
    ⟨hnone, -⟩ | ⟨heap, reply, hexit, -, hmutex, hreply, -, hkept⟩
  · rw [hnone] at hserve
    cases hserve
  · cases hserve.symm.trans hexit
    have hmutex' : env.mutexTake = true := hmutex
    rw [slotList_eq h] at hreply
    simp only [CspProc.procServeSlotsRequest, hmalloc, hmutex', Bool.true_eq_false, or_self,
      if_false, hreply, Option.map_some]
    exact ⟨_, rfl, h.keep hkept, rfl⟩

theorem procServeRunRequest_refines (h : m.Represents store)
    (hserve : m.procServeRunRequest env.withHeap packet = some r) :
    ∃ r', (CspProc.procServeRunRequest env store packet).result = some r' ∧
      r.memory.Represents r'.store ∧ r.packetOps = r'.packetOps := by
  rcases env with ⟨malloc, mutexTake, runtimeRun⟩
  cases runtimeRun with
  | none =>
      cases hserve
      exact ⟨_, rfl, h, rfl⟩
  | some procRuntimeRun =>
      simp only [procServeRunRequest, Env.withHeap, Option.map_some, Option.bind_eq_bind,
        Option.bind_some] at hserve
      simp only [CspProc.procServeRunRequest]
      split at hserve
      · cases hserve
        rw [if_pos ‹_›]
        exact ⟨_, rfl, h, rfl⟩
      · cases hserve
        rw [if_neg ‹_›]
        exact ⟨_, rfl, h, rfl⟩

/-- What is served in memory is served on the store, with the same operations on
the packet, and the memory afterwards holds the store afterwards. -/
theorem procServe_refines (haccounted : m.Accounted leaked) (h : m.Represents store)
    (hmalloc : env.malloc = true) (hserve : m.procServe env.withHeap packet = some r) :
    ∃ r', (CspProc.procServe env store packet).result = some r' ∧
      r.memory.Represents r'.store ∧ r.packetOps = r'.packetOps := by
  unfold Memory.procServe at hserve
  unfold CspProc.procServe
  cases htype : packet.type with
  | none =>
      rw [htype] at hserve
      cases hserve
      exact ⟨_, rfl, h, rfl⟩
  | some type =>
      rw [htype] at hserve
      cases type with
      | delRequest => exact procServeDelRequest_refines haccounted h hserve
      | pullRequest => exact procServePullRequest_refines h hserve
      | pushRequest => exact procServePushRequest_refines haccounted h hmalloc hserve
      | slotsRequest => exact procServeSlotsRequest_refines haccounted h hmalloc hserve
      | runRequest => exact procServeRunRequest_refines h hserve
      | delResponse | pullResponse | pushResponse | slotsResponse | runResponse =>
          cases hserve
          exact ⟨_, rfl, h, rfl⟩

end Memory

end CspProc
