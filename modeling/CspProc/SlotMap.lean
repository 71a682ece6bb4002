import CspProc.Lib.Machine
import CspProc.Replies

/-! # The server as a map from slots to procedures

The purpose of the procedure server, without packets, counts and stale
contents: a partial map from slots to procedures that have instructions. The
server refines it over every sequence of delete, push and pull requests
(`server_refines_slotMap`).
-/

namespace CspProc

variable {cfg : Config}

/-! ## The abstract machine -/

/-- A procedure with at least one instruction. -/
structure NonemptyProc where
  proc : Proc
  nonempty : proc.instructions ≠ []
deriving DecidableEq

/-- Which procedure each slot is mapped to. -/
abbrev SlotMap : Type := UInt8 → Option NonemptyProc

/-- The requests on the map. -/
inductive Request where
  | del (slot : UInt8)
  | push (slot : UInt8) (p : Proc)
  | pull (slot : UInt8)
deriving DecidableEq

/-- An answer: its type, whether it reports an error, and the procedure it
carries. -/
structure Answer where
  type : PacketType
  error : Bool
  payload : Option Proc
deriving DecidableEq

namespace SlotMap

/-- The map of an empty slot and of a slot that a procedure is put into. -/
def ofProc (p : Proc) : Option NonemptyProc :=
  if h : p.instructions ≠ [] then some ⟨p, h⟩ else none

/-- One request on the map. -/
def serve (m : SlotMap) : Request → SlotMap × Answer
  | .del slot => (Function.update m slot none, ⟨.delResponse, false, none⟩)
  | .push slot p =>
      match m slot with
      | some _ => (m, ⟨.pushResponse, true, none⟩)
      | none => (Function.update m slot (ofProc p), ⟨.pushResponse, false, none⟩)
  | .pull slot =>
      match m slot with
      | some p => (m, ⟨.pullResponse, false, some p.proc⟩)
      | none => (m, ⟨.pullResponse, true, none⟩)

/-- The abstract server. -/
def machine : TotalMachine SlotMap Request Answer := ⟨serve⟩

/-- No slot is mapped. -/
def empty : SlotMap := fun _ => none

end SlotMap

/-! ## The server as a machine -/

/-- `proc_serve`, from packets to replies. -/
def server (cfg : Config) (env : Env) : Machine Store (Packet cfg) (Option (List UInt8)) where
  step store packet := (procServe env store packet).outcome.map fun o => (o.1, o.2.2)

/-- The packet is that request: its type, its slot, and as the payload of a
push the encoding of a well-formed procedure. -/
def Carries (packet : Packet cfg) : Request → Prop
  | .del slot => packet.type = some .delRequest ∧ packet.byte 1 = slot
  | .push slot p =>
      packet.type = some .pushRequest ∧ packet.byte 1 = slot ∧ p.WellFormed cfg ∧
      Wire.procBytes cfg p <+: packet.received.drop 2
  | .pull slot => packet.type = some .pullRequest ∧ packet.byte 1 = slot

instance (packet : Packet cfg) : (r : Request) → Decidable (Carries packet r)
  | .del _ => inferInstanceAs (Decidable (_ ∧ _))
  | .push _ _ => inferInstanceAs (Decidable (_ ∧ _ ∧ _ ∧ _))
  | .pull _ => inferInstanceAs (Decidable (_ ∧ _))

/-- The reply gives that answer: its first byte has the type and the error
flag, and what follows is nothing, or a payload that every packet with these
received bytes is decoded from to just the procedure. -/
def Gives (cfg : Config) (reply : Option (List UInt8)) (a : Answer) : Prop :=
  match a.payload with
  | none => reply = some [replyHeader a.type a.error]
  | some p => ∃ payload, reply = some (replyHeader a.type a.error :: payload) ∧
      ∀ packet : Packet cfg, packet.received = replyHeader a.type a.error :: payload →
        ∃ offset, unpackProcFromCspPacket cfg packet = some ⟨0, p, offset⟩

/-! ## The refinement -/

/-- The store represents the map: a slot has instructions exactly when it is
mapped, and then holds the procedure it is mapped to, which fits a packet. -/
structure Represents (cfg : Config) (store : Store) (m : SlotMap) : Prop where
  slots : ∀ slot, m slot = SlotMap.ofProc (store slot)
  wellFormed : ∀ slot p, m slot = some p → p.proc.WellFormed cfg
  fits : ∀ slot p, m slot = some p →
    2 + (Wire.procBytes cfg p.proc).length ≤ cfg.cspBufferSize

namespace SlotMap

theorem ofProc_eq_some {p : Proc} {q : NonemptyProc} (h : ofProc p = some q) : p = q.proc := by
  unfold ofProc at h
  split at h
  · cases h
    rfl
  · cases h

theorem ofProc_eq_none {p : Proc} : ofProc p = none ↔ p.instructions = [] := by
  unfold ofProc
  split <;> simp_all

end SlotMap

namespace Represents

variable {store : Store} {m : SlotMap}

theorem init : Represents cfg Store.init SlotMap.empty where
  slots _ := rfl
  wellFormed _ _ h := by cases h
  fits _ _ h := by cases h

/-- Putting a procedure, or nothing, into a slot. -/
theorem update (h : Represents cfg store m) (slot : UInt8) (p : Proc)
    (hp : p.instructions ≠ [] → p.WellFormed cfg ∧
      2 + (Wire.procBytes cfg p).length ≤ cfg.cspBufferSize) :
    Represents cfg (Function.update store slot p)
      (Function.update m slot (SlotMap.ofProc p)) := by
  have hnew : ∀ q, SlotMap.ofProc p = some q → q.proc.WellFormed cfg ∧
      2 + (Wire.procBytes cfg q.proc).length ≤ cfg.cspBufferSize := by
    intro q hq
    have hqp := SlotMap.ofProc_eq_some hq
    have hne := q.nonempty
    subst hqp
    exact hp hne
  constructor
  · intro slot'
    by_cases hs : slot' = slot
    · subst hs
      simp
    · simp [hs, h.slots slot']
  · intro slot' q hq
    by_cases hs : slot' = slot
    · subst hs
      rw [Function.update_self] at hq
      exact (hnew q hq).1
    · rw [Function.update_of_ne hs] at hq
      exact h.wellFormed slot' q hq
  · intro slot' q hq
    by_cases hs : slot' = slot
    · subst hs
      rw [Function.update_self] at hq
      exact (hnew q hq).2
    · rw [Function.update_of_ne hs] at hq
      exact h.fits slot' q hq

theorem unmapped (h : Represents cfg store m) {slot : UInt8} (hm : m slot = none) :
    (store slot).instructions = [] := by
  rw [h.slots slot] at hm
  exact SlotMap.ofProc_eq_none.mp hm

theorem mapped (h : Represents cfg store m) {slot : UInt8} {p : NonemptyProc}
    (hm : m slot = some p) : store slot = p.proc := by
  rw [h.slots slot] at hm
  exact SlotMap.ofProc_eq_some hm

end Represents

section Requests

variable {env : Env} {store : Store} {m : SlotMap} {packet : Packet cfg}

theorem serve_del (ht : env.mutexTake = true) (h : Represents cfg store m) {slot : UInt8}
    (hc : Carries packet (.del slot)) :
    ∃ store' reply, (server cfg env).step store packet = some (store', reply) ∧
      Represents cfg store' (m.serve (.del slot)).1 ∧ Gives cfg reply (m.serve (.del slot)).2 := by
  rcases hc with ⟨htype, rfl⟩
  refine ⟨Function.update store (packet.byte 1) Proc.empty, some [replyHeader .delResponse false],
    ?_, ?_, rfl⟩
  · simp only [server, procServe, htype, outcome_del, ht, Store.deleteProc_ok, Option.map_some]
  · exact h.update (packet.byte 1) Proc.empty (fun hne => absurd rfl hne)

theorem serve_push (hm : env.malloc = true) (ht : env.mutexTake = true)
    (h : Represents cfg store m) {slot : UInt8} {p : Proc} (hc : Carries packet (.push slot p)) :
    ∃ store' reply, (server cfg env).step store packet = some (store', reply) ∧
      Represents cfg store' (m.serve (.push slot p)).1 ∧
      Gives cfg reply (m.serve (.push slot p)).2 := by
  rcases hc with ⟨htype, rfl, hp, hpre⟩
  have hunpack : unpackData cfg packet.data = some ⟨0, p, 2 + (Wire.procBytes cfg p).length⟩ :=
    unpack_of_prefix hp (Packet.prefix_of_received hpre)
  have hstep : (server cfg env).step store packet =
      some ((store.setProc true p (packet.byte 1) false).2,
        some [replyHeader .pushResponse ((store.setProc true p (packet.byte 1) false).1 < 0)]) := by
    simp [server, procServe, htype, outcome_push env store packet hm, hunpack, ht]
  refine ⟨_, _, hstep, ?_⟩
  rw [Store.setProc_eq]
  cases hslot : m (packet.byte 1) with
  | some q =>
      -- the slot is taken: `set_proc` returns -1
      have hocc : store.occupied (packet.byte 1) = true := by
        rw [Store.occupied_eq_true, h.mapped hslot]
        exact q.nonempty
      simp only [SlotMap.serve, hslot, hocc]
      exact ⟨h, rfl⟩
  | none =>
      have hocc : store.occupied (packet.byte 1) = false := by
        rw [Store.occupied_eq_false]
        exact h.unmapped hslot
      simp only [SlotMap.serve, hslot, hocc]
      refine ⟨h.update (packet.byte 1) p ?_, ?_⟩
      · -- it has come in a packet, so it also fits the packet of a pull's reply
        intro hne
        have hle := hpre.length_le
        have hlen := packet.length_le
        have hpos : 0 < (Wire.procBytes cfg p).length := Nat.succ_pos _
        simp only [List.length_drop, Packet.received_length] at hle
        exact ⟨hp, by omega⟩
      · have hnonneg : ¬ ((packet.byte 1).toNat : Int) < 0 := by omega
        simp [Gives, hnonneg]

theorem serve_pull (ht : env.mutexTake = true) (h : Represents cfg store m) {slot : UInt8}
    (hc : Carries packet (.pull slot)) :
    ∃ store' reply, (server cfg env).step store packet = some (store', reply) ∧
      Represents cfg store' (m.serve (.pull slot)).1 ∧
      Gives cfg reply (m.serve (.pull slot)).2 := by
  rcases hc with ⟨htype, rfl⟩
  cases hslot : m (packet.byte 1) with
  | none =>
      -- an unmapped slot has no instructions: `get_proc` returns NULL
      have hget : store.getProc env.mutexTake (packet.byte 1) = .null := by
        rw [ht, Store.getProc_ok, if_pos (h.unmapped hslot)]
      refine ⟨store, some [replyHeader .pullResponse true], ?_, ?_⟩
      · simp only [server, procServe, htype, outcome_pull_null env store packet hget,
          Option.map_some]
      · simp only [SlotMap.serve, hslot]
        exact ⟨h, rfl⟩
  | some p =>
      have hp := h.wellFormed _ p hslot
      have hget : store.getProc env.mutexTake (packet.byte 1) = .found p.proc := by
        rw [ht, Store.getProc_ok, h.mapped hslot, if_neg p.nonempty]
      refine ⟨store, some (replyHeader .pullResponse false :: packet.byte 1 ::
        Wire.procBytes cfg p.proc), ?_, ?_⟩
      · simp only [server, procServe, htype,
          outcome_pull_found env store packet hget hp.known (h.fits _ p hslot), Option.map_some]
      · simp only [SlotMap.serve, hslot]
        refine ⟨h, packet.byte 1 :: Wire.procBytes cfg p.proc, rfl, ?_⟩
        intro reply hreply
        refine ⟨_, unpack_of_prefix hp (Packet.prefix_of_received ?_)⟩
        rw [hreply]
        exact List.prefix_refl _

end Requests

/-- Request by request, the server does to its store what the map does. -/
def serverRefinement (cfg : Config) {env : Env} (hm : env.malloc = true)
    (ht : env.mutexTake = true) : Refinement (server cfg env) SlotMap.machine where
  Rel := Represents cfg
  In := Carries
  Out := Gives cfg
  step store m packet r hrel hc := by
    cases r with
    | del slot => exact serve_del ht hrel hc
    | push slot p => exact serve_push hm ht hrel hc
    | pull slot => exact serve_pull ht hrel hc

/-- From the empty store, with the mutex and all allocations succeeding, every
sequence of requests is served as the map from slots to procedures serves it. -/
theorem server_refines_slotMap (env : Env) (hm : env.malloc = true) (ht : env.mutexTake = true)
    (packets : List (Packet cfg)) (requests : List Request)
    (hc : List.Forall₂ Carries packets requests) :
    ∃ store replies, (server cfg env).run Store.init packets = some (store, replies) ∧
      Represents cfg store (SlotMap.machine.run SlotMap.empty requests).1 ∧
      List.Forall₂ (Gives cfg) replies (SlotMap.machine.run SlotMap.empty requests).2 :=
  (serverRefinement cfg hm ht).run Represents.init hc

/-- A procedure of one `noop`. -/
def noopProc : Proc := ⟨[⟨0, .noop⟩], Nat.le_of_ble_eq_true rfl⟩

/-- It is pushed to slot 7, pulled and deleted. -/
theorem server_refines_slotMap_noopProc :
    ∃ store replies,
      (server .default .working).run Store.init
        [.ofBytes [0x84, 7, 1, 0, 0, 6] [] (by decide), .ofBytes [0x82, 7] [] (by decide),
          .ofBytes [0x80, 7] [] (by decide)] = some (store, replies) ∧
      Represents .default store
        (SlotMap.machine.run SlotMap.empty [.push 7 noopProc, .pull 7, .del 7]).1 ∧
      List.Forall₂ (Gives .default) replies
        (SlotMap.machine.run SlotMap.empty [.push 7 noopProc, .pull 7, .del 7]).2 :=
  server_refines_slotMap .working rfl rfl _ [.push 7 noopProc, .pull 7, .del 7]
    (.cons (by decide) (.cons (by decide) (.cons (by decide) .nil)))

end CspProc
