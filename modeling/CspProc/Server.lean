import CspProc.Pack
import CspProc.Store

/-! # The procedure server

`proc_server.c`: one request packet comes in, the store may change, and the
same packet goes out as the reply, is freed, or is left lying.

What is not in this repository is a parameter: the outcome of allocating, of
taking the store's mutex, and of the runtime (a weak symbol, so it may also be
missing). Freeing memory has no effect at this layer.
-/

namespace CspProc

variable {cfg : Config}

/-! ## The packet header -/

/-- `proc_packet_type_e`. -/
inductive PacketType where
  | delRequest
  | delResponse
  | pullRequest
  | pullResponse
  | pushRequest
  | pushResponse
  | slotsRequest
  | slotsResponse
  | runRequest
  | runResponse
deriving DecidableEq, Repr

namespace PacketType

def code : PacketType → UInt8
  | delRequest => 0
  | delResponse => 1
  | pullRequest => 2
  | pullResponse => 3
  | pushRequest => 4
  | pushResponse => 5
  | slotsRequest => 6
  | slotsResponse => 7
  | runRequest => 8
  | runResponse => 9

/-- The enumerator with a given value. -/
def ofCode (c : UInt8) : Option PacketType :=
  match c.toNat with
  | 0 => some delRequest
  | 1 => some delResponse
  | 2 => some pullRequest
  | 3 => some pullResponse
  | 4 => some pushRequest
  | 5 => some pushResponse
  | 6 => some slotsRequest
  | 7 => some slotsResponse
  | 8 => some runRequest
  | 9 => some runResponse
  | _ => none

@[simp] theorem ofCode_code (t : PacketType) : ofCode t.code = some t := by
  cases t <;> rfl

end PacketType

/-- `PROC_TYPE_MASK`. -/
def procTypeMask : UInt8 := 0b00001111

/-- `PROC_FLAG_END` and its mask. -/
def procFlagEnd : UInt8 := 0b10000000

/-- `PROC_FLAG_ERROR` and its mask. -/
def procFlagError : UInt8 := 0b01000000

/-- The first byte of a reply. -/
def replyHeader (type : PacketType) (error : Bool) : UInt8 :=
  let b := type.code ||| procFlagEnd
  if error then b ||| procFlagError else b

/-- A reply carries the error flag when it was built as an error. -/
theorem replyHeader_error (type : PacketType) (error : Bool) :
    replyHeader type error &&& procFlagError ≠ 0 ↔ error = true := by
  cases type <;> cases error <;> decide

/-- `packet->data[0] & PROC_TYPE_MASK`. -/
def Packet.type (packet : Packet cfg) : Option PacketType :=
  PacketType.ofCode (packet.byte 0 &&& procTypeMask)

/-- Set the first byte of the packet to that of a reply. -/
def Packet.setHeader (packet : Packet cfg) (type : PacketType) (error : Bool) : Packet cfg :=
  packet.setByte 0 (replyHeader type error)

/-- The reply that consists of its first byte. -/
def Packet.shortReply (packet : Packet cfg) (type : PacketType) (error : Bool) : Packet cfg :=
  (packet.setHeader type error).setLength 1 (by
    have h := cfg.header_le
    omega)

/-! ## Handlers -/

/-- What the code outside this repository answers while one request is served. -/
structure Env where
  /-- `proc_malloc` returns a block. -/
  malloc : Bool
  /-- `proc_mutex_take` on the store's mutex returns `PROC_MUTEX_OK`. -/
  mutexTake : Bool
  /-- `proc_runtime_run`, when a runtime is linked in. -/
  runtimeRun : Option (UInt8 → Int)

/-- A node without a runtime on which every call succeeds. -/
def Env.working : Env := ⟨true, true, none⟩

/-- What becomes of the packet: sent as the reply, freed, or neither. -/
inductive Disposal where
  | sent
  | freed
  | leaked
deriving DecidableEq, Repr

/-- The store and the packet after a request. -/
structure Served (cfg : Config) where
  store : Store
  packet : Packet cfg
  disposal : Disposal

/-- The bytes of the reply, when one is sent. -/
def Served.reply (r : Served cfg) : Option (List UInt8) :=
  if r.disposal = .sent then some r.packet.received else none

/-- A handler's run on a request: `used` data bytes of the packet, counted
from the first, have been looked at; without a result the program has left its
defined behaviour. -/
structure Serving (cfg : Config) where
  used : Nat
  result : Option (Served cfg)

/-- `proc_serve_del_request`. -/
def procServeDelRequest (env : Env) (store : Store) (packet : Packet cfg) : Serving cfg :=
  let slot := packet.byte 1
  let (_, store) := store.deleteProc env.mutexTake slot
  ⟨2, some ⟨store, packet.shortReply .delResponse false, .sent⟩⟩

/-- `proc_serve_pull_request`. -/
def procServePullRequest (env : Env) (store : Store) (packet : Packet cfg) : Serving cfg :=
  let slot := packet.byte 1
  ⟨2, match store.getProc env.mutexTake slot with
    | .null => some ⟨store, packet.shortReply .pullResponse true, .sent⟩
    -- the error number is not NULL, and is dereferenced
    | .mutexErr => none
    | .found procedure => do
        let (ret, packet) ← packProcIntoCspPacket cfg procedure packet
        if ret < 0 then
          some ⟨store, packet.shortReply .pullResponse true, .sent⟩
        else
          some ⟨store, packet.setHeader .pullResponse false, .sent⟩⟩

/-- `proc_serve_push_request`. When the decoder leaves the packet's buffer, it
has used more bytes than there are. -/
def procServePushRequest (env : Env) (store : Store) (packet : Packet cfg) : Serving cfg :=
  if env.malloc = false then
    -- the error reply is prepared and never sent
    ⟨1, some ⟨store, packet.shortReply .pushResponse true, .leaked⟩⟩
  else
    match unpackProcFromCspPacket cfg packet with
    | none => ⟨cfg.cspBufferSize + 1, none⟩
    | some u =>
        if u.ret < 0 then
          ⟨u.offset, some ⟨store, packet.shortReply .pushResponse true, .sent⟩⟩
        else
          let (ret, store) := store.setProc env.mutexTake u.procedure (packet.byte 1) false
          if ret < 0 then
            ⟨u.offset, some ⟨store, packet.shortReply .pushResponse true, .sent⟩⟩
          else
            ⟨u.offset, some ⟨store, packet.shortReply .pushResponse false, .sent⟩⟩

/-- The loop of `proc_serve_slots_request`: one byte per slot from offset `i`
on. -/
def putSlots : List UInt8 → Nat → Packet cfg → Option (Packet cfg)
  | [], _, packet => some packet
  | slot :: slots, i, packet =>
      if i < cfg.cspBufferSize then
        if h : packet.length + 1 ≤ cfg.cspBufferSize then
          putSlots slots (i + 1) ((packet.setByte i slot).setLength (packet.length + 1) h)
        else none
      else none

/-- `proc_serve_slots_request`. Neither the allocation of the list nor the
mutex is checked for before the list is used. -/
def procServeSlotsRequest (env : Env) (store : Store) (packet : Packet cfg) : Serving cfg :=
  ⟨1, if env.malloc = false ∨ env.mutexTake = false then none
    else (putSlots store.getProcSlots 1 (packet.shortReply .slotsResponse false)).map
      fun packet => ⟨store, packet, .sent⟩⟩

/-- `proc_serve_run_request`. -/
def procServeRunRequest (env : Env) (store : Store) (packet : Packet cfg) : Serving cfg :=
  let slot := packet.byte 1
  ⟨2, match env.runtimeRun with
    | none => some ⟨store, packet.shortReply .runResponse true, .sent⟩
    | some procRuntimeRun =>
        if procRuntimeRun slot ≠ 0 then
          some ⟨store, packet.shortReply .runResponse true, .sent⟩
        else
          some ⟨store, packet.shortReply .runResponse false, .sent⟩⟩

/-- `proc_serve`. -/
def procServe (env : Env) (store : Store) (packet : Packet cfg) : Serving cfg :=
  match packet.type with
  | some .delRequest => procServeDelRequest env store packet
  | some .pullRequest => procServePullRequest env store packet
  | some .pushRequest => procServePushRequest env store packet
  | some .slotsRequest => procServeSlotsRequest env store packet
  | some .runRequest => procServeRunRequest env store packet
  | _ => ⟨1, some ⟨store, packet, .freed⟩⟩

/-! ## What a request does to the store -/

theorem procServePullRequest_store {env : Env} {store : Store} {packet : Packet cfg}
    {r : Served cfg} (h : (procServePullRequest env store packet).result = some r) :
    r.store = store := by
  simp only [procServePullRequest] at h
  cases hget : store.getProc env.mutexTake (packet.byte 1) with
  | null =>
      rw [hget] at h
      cases h
      rfl
  | mutexErr =>
      rw [hget] at h
      cases h
  | found p =>
      simp only [hget] at h
      cases hpack : packProcIntoCspPacket cfg p packet with
      | none => simp [hpack] at h
      | some out =>
          simp only [hpack, Option.bind_eq_bind, Option.bind_some] at h
          split at h <;> cases h <;> rfl

theorem procServePushRequest_store {env : Env} {store : Store} {packet : Packet cfg}
    {r : Served cfg} (h : (procServePushRequest env store packet).result = some r) :
    r.store = store ∨ store.occupied (packet.byte 1) = false ∧
      ∃ p, r.store = Function.update store (packet.byte 1) p := by
  unfold procServePushRequest at h
  split at h
  · cases h
    exact .inl rfl
  · cases hu : unpackProcFromCspPacket cfg packet with
    | none =>
        rw [hu] at h
        cases h
    | some u =>
        simp only [hu] at h
        split at h
        · cases h
          exact .inl rfl
        · -- the reply differs by the return value, the store does not
          have hr : r.store =
              (store.setProc env.mutexTake u.procedure (packet.byte 1) false).2 := by
            split at h <;> cases h <;> rfl
          rw [hr]
          rcases store.setProc_store env.mutexTake u.procedure (packet.byte 1) with
            hsame | ⟨hocc, hset⟩
          · exact .inl hsame
          · exact .inr ⟨hocc, u.procedure, hset⟩

/-- A request leaves the store alone, or empties a slot, or fills an empty one. -/
theorem procServe_store {env : Env} {store : Store} {packet : Packet cfg} {r : Served cfg}
    (h : (procServe env store packet).result = some r) :
    r.store = store ∨
    (env.mutexTake = true ∧ packet.type = some .delRequest ∧
      r.store = Function.update store (packet.byte 1) Proc.empty) ∨
    (store.occupied (packet.byte 1) = false ∧
      ∃ p, r.store = Function.update store (packet.byte 1) p) := by
  unfold procServe at h
  -- DEL empties its slot and PUSH fills one; the others leave the store alone
  split at h
  case h_1 htype =>
    cases h
    cases hmutex : env.mutexTake with
    | false => exact .inl rfl
    | true => exact .inr (.inl ⟨rfl, htype, rfl⟩)
  case h_2 => exact .inl (procServePullRequest_store h)
  case h_3 =>
    rcases procServePushRequest_store h with hsame | hfilled
    · exact .inl hsame
    · exact .inr (.inr hfilled)
  case h_4 =>
    left
    simp only [procServeSlotsRequest] at h
    split at h
    · cases h
    · rcases Option.map_eq_some_iff.mp h with ⟨packet', -, rfl⟩
      rfl
  case h_5 =>
    left
    simp only [procServeRunRequest] at h
    split at h
    · cases h
      rfl
    · split at h <;> cases h <;> rfl
  case h_6 =>
    cases h
    exact .inl rfl

end CspProc
