import CspProc.Acknowledged
import CspProc.Lib.System
import CspProc.SlotsListing
import CspProc.Transactions

/-! # Clients and the server over a network

Any number of transactions of `proc_client.c` with one server, over a network that
loses, delays, reorders and repeats packets: a packet that has been sent may arrive at
any time, any number of times or never, intact, in a buffer with anything behind its
bytes. A reply may come to any transaction: ports are used again, and
`proc_transaction` does not look at what a packet answers.

* `ClientOp.changes`, `ClientOp.answers` — what the server makes of a request;
* `stored_was_pushed` — what a slot holds, a client has pushed to it;
* `slot_kept` — what a slot holds stays until a delete of that slot is sent.
-/

namespace CspProc

variable {cfg : Config}

/-! ## Requests -/

/-- A call of a function of `proc_client.c`; the array is the one that
`proc_slots_request` is to fill. -/
inductive ClientOp where
  | del (slot : UInt8)
  | pull (slot : UInt8)
  | push (slot : UInt8) (procedure : Proc)
  | slots (array : List UInt8)
  | run (slot : UInt8)

/-- The packet of a request that names a slot and carries nothing else. -/
def slotRequest (type : PacketType) (procSlot : UInt8) (packet : Packet cfg) : Packet cfg :=
  let packet := packet.setByte 0 (type.code ||| procFlagEnd)
  let packet := packet.setByte 1 procSlot
  packet.setLength 2 cfg.header_le

/-- The packet that `proc_slots_request` hands to `proc_transaction`. -/
def slotsRequest (packet : Packet cfg) : Packet cfg :=
  let packet := packet.setByte 0 (PacketType.slotsRequest.code ||| procFlagEnd)
  packet.setLength 1 (Nat.le_of_succ_le cfg.header_le)

namespace ClientOp

/-- `proc_del_request`, `proc_pull_request`, `proc_push_request`, `proc_slots_request`
and `proc_run_request` up to `proc_transaction`. -/
def packet : ClientOp → Packet cfg → Option (Packet cfg)
  | .del slot, packet => some (slotRequest .delRequest slot packet)
  | .pull slot, packet => some (slotRequest .pullRequest slot packet)
  | .push slot procedure, packet => pushPacket procedure slot packet
  | .slots _, packet => some (slotsRequest packet)
  | .run slot, packet => some (slotRequest .runRequest slot packet)

/-- The type of the request. -/
def type : ClientOp → PacketType
  | .del _ => .delRequest
  | .pull _ => .pullRequest
  | .push .. => .pushRequest
  | .slots _ => .slotsRequest
  | .run _ => .runRequest

/-- The type of its reply. -/
def responseType : ClientOp → PacketType
  | .del _ => .delResponse
  | .pull _ => .pullResponse
  | .push .. => .pushResponse
  | .slots _ => .slotsResponse
  | .run _ => .runResponse

/-- The slot that the request names. -/
def slot : ClientOp → Option UInt8
  | .del slot | .pull slot | .push slot _ | .run slot => some slot
  | .slots _ => none

/-- A procedure that is pushed is well-formed and fits a packet, and the array for the
slots has a byte for each. -/
def Fits (cfg : Config) : ClientOp → Prop
  | .push _ procedure =>
      procedure.WellFormed cfg ∧ 2 + (Wire.procBytes cfg procedure).length ≤ cfg.cspBufferSize
  | .slots array => array.length = maxProcSlot + 1
  | _ => True

end ClientOp

/-! ## Replies at the client -/

/-- What `callback_arg` points to: nothing, the procedure of a pull, the array and the
count of a slots request, or memory after undefined behaviour. -/
inductive CallbackArg where
  | nothing
  | procedure (procedure : Proc)
  | slots (slots : List UInt8) (slotCount : UInt8)
  | undefined

namespace ClientOp

/-- `callback_arg` before the transaction. -/
def arg : ClientOp → CallbackArg
  | .slots array => .slots array 0
  | _ => .nothing

/-- The callback: `unpack_proc_callback` or `process_slots_response`. -/
def callback : ClientOp → Option (Packet cfg → CallbackArg → Int × CallbackArg)
  | .pull _ => some fun packet _ =>
      match unpackProcFromCspPacket cfg packet with
      | some u => (u.ret, .procedure u.procedure)
      | none => (-1, .undefined)
  | .slots _ => some fun packet arg =>
      match arg with
      | .slots array _ =>
          match processSlotsResponse packet array with
          | some (ret, array, slotCount) => (ret, .slots array slotCount)
          | none => (-1, .undefined)
      | arg => (-1, arg)
  | _ => none

end ClientOp

/-- A transaction that has been sent, and the packets that `csp_read` has returned. -/
structure ClientTransaction (cfg : Config) where
  op : ClientOp
  request : Packet cfg
  timeout : Int
  packets : List (Packet cfg)

/-- What `proc_transaction` returns and leaves in `callback_arg` when no packet comes
any more. -/
def ClientTransaction.result (freed : Packet cfg → Packet cfg) (tx : ClientTransaction cfg) :
    Int × CallbackArg :=
  procTransaction freed true tx.timeout tx.op.callback tx.packets tx.op.arg

/-! ## The network -/

/-- The server's store, the transactions, by number, and the replies that have been
sent, each with the transaction that it answers. -/
structure Network (cfg : Config) where
  store : Store
  transactions : List (ClientTransaction cfg)
  replies : List (Nat × Packet cfg)

/-- A client sends a request, prepared in a buffer; the request of a transaction
arrives at the server; a reply, to whichever request, arrives at a transaction. -/
inductive NetworkInput (cfg : Config) where
  | request (op : ClientOp) (buffer : Packet cfg) (timeout : Int)
  | serve (n : Nat) (env : Env) (packet : Packet cfg)
  | read (n : Nat) (packet : Packet cfg)

namespace Network

/-- The empty store, and no transactions. -/
def init : Network cfg := ⟨.init, [], []⟩

/-- One step. Only what has been sent arrives. -/
def next (net : Network cfg) : NetworkInput cfg → Option (Network cfg)
  | .request op buffer timeout =>
      (op.packet buffer).map fun packet =>
        { net with transactions := net.transactions ++ [⟨op, packet, timeout, []⟩] }
  | .serve n env packet =>
      match net.transactions[n]? with
      | none => none
      | some tx =>
          if packet.received = tx.request.received then
            (procServe env net.store packet).result.map fun served =>
              { net with
                store := served.store
                replies :=
                  if served.disposal = .sent then net.replies ++ [(n, served.packet)]
                  else net.replies }
          else none
  | .read n packet =>
      match net.transactions[n]? with
      | none => none
      | some tx =>
          if net.replies.any fun r => r.2.received = packet.received then
            some { net with
              transactions := net.transactions.set n { tx with packets := tx.packets ++ [packet] } }
          else none

end Network

/-- The clients push procedures that fit. -/
def NetworkInput.Fits : NetworkInput cfg → Prop
  | .request op _ _ => op.Fits cfg
  | _ => True

/-- Besides, the server gets its mutex whenever it asks for it. -/
def NetworkInput.Works : NetworkInput cfg → Prop
  | .request op _ _ => op.Fits cfg
  | .serve _ env _ => env.mutexTake = true
  | .read .. => True

theorem NetworkInput.Works.fits {i : NetworkInput cfg} (h : i.Works) : i.Fits := by
  cases i with
  | request => exact h
  | serve => trivial
  | read => trivial

/-! ## The packets of the requests -/

/-- The bytes of a request. -/
def ClientOp.bytes (cfg : Config) (op : ClientOp) : List UInt8 :=
  (op.type.code ||| procFlagEnd) :: match op with
    | .push slot procedure => slot :: Wire.procBytes cfg procedure
    | .del slot | .pull slot | .run slot => [slot]
    | .slots _ => []

theorem ClientOp.bytes_push (cfg : Config) (slot : UInt8) (procedure : Proc) :
    (ClientOp.push slot procedure).bytes cfg = 0x84 :: slot :: Wire.procBytes cfg procedure :=
  congrArg (· :: _) (rfl : PacketType.pushRequest.code ||| procFlagEnd = 0x84)

/-- The type of a request is read back from its first byte. -/
theorem PacketType.ofCode_request (t : PacketType) :
    PacketType.ofCode ((t.code ||| procFlagEnd) &&& procTypeMask) = some t := by
  cases t <;> rfl

theorem received_slotRequest (type : PacketType) (procSlot : UInt8) (packet : Packet cfg) :
    (slotRequest type procSlot packet).received = [type.code ||| procFlagEnd, procSlot] := by
  rcases packet with ⟨length, data, hle, hdata⟩
  have hhead := cfg.header_le
  match data, hdata with
  | b :: c :: bs, hdata => rfl
  | [b], hdata =>
      simp only [List.length_cons, List.length_nil] at hdata
      omega
  | [], hdata =>
      simp only [List.length_nil] at hdata
      omega

theorem received_slotsRequest (packet : Packet cfg) :
    (slotsRequest packet).received = [PacketType.slotsRequest.code ||| procFlagEnd] := by
  rcases packet with ⟨length, data, hle, hdata⟩
  have hhead := cfg.header_le
  match data, hdata with
  | b :: bs, hdata => rfl
  | [], hdata =>
      simp only [List.length_nil] at hdata
      omega

section Requests

variable {op : ClientOp} {packet : Packet cfg}

/-- Whatever its buffer held before, a request has its own bytes. -/
theorem ClientOp.received_packet (hfits : op.Fits cfg) {buffer : Packet cfg}
    (h : op.packet buffer = some packet) : packet.received = op.bytes cfg := by
  cases op with
  | push slot procedure =>
      rcases pushPacket_of_fits hfits.1.known slot buffer hfits.2 with ⟨request, hrequest, hbytes⟩
      rw [ClientOp.packet, hrequest] at h
      rw [← Option.some.inj h, hbytes, ClientOp.bytes_push]
  | del slot =>
      rw [← Option.some.inj h]
      exact received_slotRequest _ _ _
  | pull slot =>
      rw [← Option.some.inj h]
      exact received_slotRequest _ _ _
  | slots array =>
      rw [← Option.some.inj h]
      exact received_slotsRequest _
  | run slot =>
      rw [← Option.some.inj h]
      exact received_slotRequest _ _ _

theorem ClientOp.type_eq (h : packet.received = op.bytes cfg) : packet.type = some op.type := by
  have hbyte : packet.byte 0 = op.type.code ||| procFlagEnd :=
    Packet.byte_of_received (by rw [h]; rfl)
  rw [Packet.type, hbyte, PacketType.ofCode_request]

theorem ClientOp.byte_one_eq (h : packet.received = op.bytes cfg) {slot : UInt8}
    (hslot : op.slot = some slot) : packet.byte 1 = slot := by
  refine Packet.byte_of_received ?_
  rw [h]
  cases op with
  | del | pull | push | run =>
      cases hslot
      rfl
  | slots => cases hslot

end Requests

/-! ## A request at the server -/

/-- The server carries out the request, undivided, and answers with these bytes. -/
def ClientOp.CarriedOut (op : ClientOp) (cfg : Config) (env : Env) (store store' : Store)
    (reply : List UInt8) : Prop :=
  match op with
  | .del slot => store' = Function.update store slot Proc.empty
  | .push slot procedure =>
      store.occupied slot = false ∧ store' = Function.update store slot procedure
  | .pull slot => store' = store ∧ store.occupied slot = true ∧
      reply = replyHeader .pullResponse false :: slot :: Wire.procBytes cfg (store slot)
  | .slots _ => store' = store ∧
      reply = replyHeader .slotsResponse false :: store.getProcSlots
  | .run slot => store' = store ∧
      ∃ procRuntimeRun, env.runtimeRun = some procRuntimeRun ∧ procRuntimeRun slot = 0

/-- The handlers of these requests answer without the error flag, too, when they do not
get the mutex. -/
def ClientOp.IgnoresMutex : ClientOp → Prop
  | .del _ | .push .. => True
  | _ => False

/-- What a request may do to the store: nothing, or its own delete or push. -/
inductive ClientOp.Changes (op : ClientOp) (store store' : Store) : Prop where
  | same (h : store' = store)
  | deleted (slot : UInt8) (hop : op = .del slot)
      (h : store' = Function.update store slot Proc.empty)
  | stored (slot : UInt8) (procedure : Proc) (hop : op = .push slot procedure)
      (hempty : store.occupied slot = false) (h : store' = Function.update store slot procedure)

/-- A reply to the request: its first byte has the type and the END flag, and without
the error flag it tells of what has been carried out. -/
def ClientOp.Answers (op : ClientOp) (carriedOut : List UInt8 → Prop) (reply : List UInt8) :
    Prop :=
  ∃ error rest, reply = replyHeader op.responseType error :: rest ∧
    (error = false → carriedOut reply)

section Serving

variable {op : ClientOp} {packet : Packet cfg} {env : Env} {store : Store} {served : Served cfg}

/-- A reply that has been sent is the one of the outcome. -/
theorem outcome_of_result {s : Serving cfg} (h : s.result = some served) :
    s.outcome = some (served.store, served.disposal, served.reply) := by
  rw [Serving.outcome, h]
  rfl

theorem reply_of_sent {bytes : List UInt8} (h : served.disposal = .sent)
    (hreply : served.reply = some bytes) : served.packet.received = bytes := by
  rw [Served.reply, if_pos h, Option.some.injEq] at hreply
  exact hreply

/-- What a request does to the store, whether or not there is memory or the mutex. -/
theorem ClientOp.changes (hfits : op.Fits cfg) (hbytes : packet.received = op.bytes cfg)
    (h : (procServe env store packet).result = some served) : op.Changes store served.store := by
  have hout := outcome_of_result h
  have htype := ClientOp.type_eq hbytes
  unfold procServe at hout
  cases op with
  | del slot =>
      simp only [htype, ClientOp.type, outcome_del, ClientOp.byte_one_eq hbytes rfl] at hout
      cases hm : env.mutexTake with
      | false =>
          rw [hm] at hout
          exact .same (congrArg Prod.fst (Option.some.inj hout)).symm
      | true =>
          rw [hm] at hout
          exact .deleted slot rfl (congrArg Prod.fst (Option.some.inj hout)).symm
  | push slot procedure =>
      have hdelivered := outcome_delivered env store slot hfits.1
        (hbytes.trans (ClientOp.bytes_push cfg slot procedure))
      have hout' := outcome_of_result h
      rw [hdelivered, Option.some.injEq] at hout'
      split at hout'
      · exact .same (congrArg Prod.fst hout').symm
      · have hstore := congrArg Prod.fst hout'
        dsimp only at hstore
        rcases store.setProc_store env.mutexTake procedure slot with hsame | ⟨hempty, hset⟩
        · exact .same (hstore.symm.trans hsame)
        · exact .stored slot procedure rfl hempty (hstore.symm.trans hset)
  | pull slot =>
      simp only [htype, ClientOp.type] at hout
      rcases outcome_pull env store packet with hnone | herror | ⟨-, hfound⟩
      · rw [hnone] at hout
        cases hout
      · rw [herror] at hout
        exact .same (congrArg Prod.fst (Option.some.inj hout)).symm
      · rw [hfound] at hout
        exact .same (congrArg Prod.fst (Option.some.inj hout)).symm
  | slots array =>
      simp only [htype, ClientOp.type, outcome_slots] at hout
      split at hout
      · cases hout
      · split at hout
        · exact .same (congrArg Prod.fst (Option.some.inj hout)).symm
        · cases hout
  | run slot =>
      simp only [htype, ClientOp.type, outcome_run] at hout
      exact .same (congrArg Prod.fst (Option.some.inj hout)).symm

/-- A reply without the error flag tells of what has been done, with the mutex if the
handler does not look for it. -/
theorem ClientOp.answers (hfits : op.Fits cfg) (hbytes : packet.received = op.bytes cfg)
    (h : (procServe env store packet).result = some served) (hsent : served.disposal = .sent) :
    op.Answers (fun reply => (op.IgnoresMutex → env.mutexTake = true) →
      op.CarriedOut cfg env store served.store reply) served.packet.received := by
  have hout := outcome_of_result h
  have htype := ClientOp.type_eq hbytes
  unfold procServe at hout
  cases op with
  | del slot =>
      simp only [htype, ClientOp.type, outcome_del, ClientOp.byte_one_eq hbytes rfl,
        Option.some.injEq, Prod.mk.injEq] at hout
      rcases hout with ⟨hstore, -, hreply⟩
      refine ⟨false, [], reply_of_sent hsent hreply.symm, fun _ hmutex => ?_⟩
      rw [hmutex trivial, Store.deleteProc_ok] at hstore
      exact hstore.symm
  | push slot procedure =>
      have hdelivered := outcome_delivered env store slot hfits.1
        (hbytes.trans (ClientOp.bytes_push cfg slot procedure))
      rw [outcome_of_result h, Option.some.injEq] at hdelivered
      split at hdelivered
      · -- without memory there is no reply
        rw [Prod.mk.injEq, Prod.mk.injEq] at hdelivered
        rw [hdelivered.2.1] at hsent
        cases hsent
      · rw [Prod.mk.injEq, Prod.mk.injEq, Store.setProc_eq] at hdelivered
        rcases hdelivered with ⟨hstore, -, hreply⟩
        refine ⟨_, [], reply_of_sent hsent hreply, fun hret hmutex => ?_⟩
        rw [hmutex trivial] at hret hstore
        by_cases hempty : store.occupied slot = false
        · simp only [hempty, if_true] at hstore
          exact ⟨hempty, hstore⟩
        · simp [hempty] at hret
  | pull slot =>
      simp only [htype, ClientOp.type] at hout
      rcases outcome_pull env store packet with hnone | herror | ⟨hocc, hfound⟩
      · rw [hnone] at hout
        cases hout
      · rw [herror, Option.some.injEq, Prod.mk.injEq, Prod.mk.injEq] at hout
        exact ⟨true, [], reply_of_sent hsent hout.2.2.symm, fun herr => by cases herr⟩
      · rw [hfound, Option.some.injEq, Prod.mk.injEq, Prod.mk.injEq] at hout
        rcases hout with ⟨hstore, -, hreply⟩
        rw [ClientOp.byte_one_eq hbytes rfl] at hocc hreply
        have hreceived := reply_of_sent hsent hreply.symm
        exact ⟨false, _, hreceived, fun _ _ => ⟨hstore.symm, hocc, hreceived⟩⟩
  | slots array =>
      simp only [htype, ClientOp.type, outcome_slots] at hout
      split at hout
      · cases hout
      · split at hout
        · rw [Option.some.injEq, Prod.mk.injEq, Prod.mk.injEq] at hout
          rcases hout with ⟨hstore, -, hreply⟩
          have hreceived := reply_of_sent hsent hreply.symm
          exact ⟨false, _, hreceived, fun _ _ => ⟨hstore.symm, hreceived⟩⟩
        · cases hout
  | run slot =>
      simp only [htype, ClientOp.type, outcome_run, ClientOp.byte_one_eq hbytes rfl,
        Option.some.injEq, Prod.mk.injEq] at hout
      rcases hout with ⟨hstore, -, hreply⟩
      refine ⟨_, [], reply_of_sent hsent hreply.symm, fun herr _ => ⟨hstore.symm, ?_⟩⟩
      cases hrun : env.runtimeRun with
      | none => simp [hrun] at herr
      | some procRuntimeRun => exact ⟨procRuntimeRun, rfl, by simpa [hrun] using herr⟩

end Serving

/-! ## Steps of the network -/

namespace Network

/-- What a step is. -/
inductive Step (net : Network cfg) : NetworkInput cfg → Network cfg → Prop where
  | request {op : ClientOp} {buffer packet : Packet cfg} {timeout : Int}
      (hpacket : op.packet buffer = some packet) :
      Step net (.request op buffer timeout)
        { net with transactions := net.transactions ++ [⟨op, packet, timeout, []⟩] }
  | serve {n : Nat} {env : Env} {packet : Packet cfg} {tx : ClientTransaction cfg}
      {served : Served cfg} (htx : net.transactions[n]? = some tx)
      (hreceived : packet.received = tx.request.received)
      (hserved : (procServe env net.store packet).result = some served) :
      Step net (.serve n env packet)
        { net with
          store := served.store
          replies :=
            if served.disposal = .sent then net.replies ++ [(n, served.packet)]
            else net.replies }
  | read {n : Nat} {packet : Packet cfg} {tx : ClientTransaction cfg} {r : Nat × Packet cfg}
      (htx : net.transactions[n]? = some tx) (hr : r ∈ net.replies)
      (hreceived : r.2.received = packet.received) :
      Step net (.read n packet)
        { net with
          transactions := net.transactions.set n { tx with packets := tx.packets ++ [packet] } }

variable {net net' : Network cfg} {i : NetworkInput cfg}

theorem step_of_next (h : net.next i = some net') : net.Step i net' := by
  cases i with
  | request op buffer timeout =>
      rcases Option.map_eq_some_iff.mp h with ⟨packet, hpacket, rfl⟩
      exact .request hpacket
  | serve n env packet =>
      simp only [next] at h
      split at h
      · cases h
      · rename_i tx htx
        split at h
        · rcases Option.map_eq_some_iff.mp h with ⟨served, hserved, rfl⟩
          exact .serve htx ‹_› hserved
        · cases h
  | read n packet =>
      simp only [next] at h
      split at h
      · cases h
      · rename_i tx htx
        split at h
        · rename_i hany
          rcases List.any_eq_true.mp hany with ⟨r, hr, hmatch⟩
          rw [decide_eq_true_iff] at hmatch
          rw [← Option.some.inj h]
          exact .read htx hr hmatch
        · cases h

/-- A transaction keeps its request. -/
theorem Step.kept (h : net.Step i net') {n : Nat} {tx : ClientTransaction cfg}
    (htx : net.transactions[n]? = some tx) :
    ∃ tx', net'.transactions[n]? = some tx' ∧ tx'.op = tx.op := by
  have hlt := (List.getElem?_eq_some_iff.mp htx).1
  cases h with
  | request => exact ⟨tx, (List.getElem?_append_left hlt).trans htx, rfl⟩
  | serve => exact ⟨tx, htx, rfl⟩
  | @read m packet old r hold =>
      by_cases hm : m = n
      · subst hm
        obtain rfl := Option.some.inj (hold.symm.trans htx)
        exact ⟨_, List.getElem?_set_self hlt, rfl⟩
      · exact ⟨tx, (List.getElem?_set_ne hm).trans htx, rfl⟩

/-- A transaction is an earlier one, or its request has just been sent. -/
theorem Step.transaction (h : net.Step i net') {n : Nat} {tx' : ClientTransaction cfg}
    (htx : net'.transactions[n]? = some tx') :
    (∃ tx, net.transactions[n]? = some tx ∧ tx'.op = tx.op ∧ tx'.request = tx.request) ∨
    n = net.transactions.length ∧
      ∃ buffer timeout, i = .request tx'.op buffer timeout ∧
        tx'.op.packet buffer = some tx'.request := by
  cases h with
  | @request op buffer packet timeout hpacket =>
      change (net.transactions ++ [_])[n]? = some tx' at htx
      rcases Nat.lt_or_ge n net.transactions.length with hlt | hge
      · rw [List.getElem?_append_left hlt] at htx
        exact .inl ⟨tx', htx, rfl, rfl⟩
      · have hlen := (List.getElem?_eq_some_iff.mp htx).1
        rw [List.length_append, List.length_singleton] at hlen
        obtain rfl : n = net.transactions.length := Nat.le_antisymm (Nat.le_of_lt_succ hlen) hge
        rw [List.getElem?_concat_length, Option.some.injEq] at htx
        subst htx
        exact .inr ⟨rfl, buffer, timeout, rfl, hpacket⟩
  | serve => exact .inl ⟨tx', htx, rfl, rfl⟩
  | @read m packet old r hold =>
      change (net.transactions.set m _)[n]? = some tx' at htx
      by_cases hm : m = n
      · subst hm
        rw [List.getElem?_set_self (List.getElem?_eq_some_iff.mp hold).1,
          Option.some.injEq] at htx
        exact .inl ⟨old, hold, htx ▸ rfl, htx ▸ rfl⟩
      · rw [List.getElem?_set_ne hm] at htx
        exact .inl ⟨tx', htx, rfl, rfl⟩

/-! ## What the slots hold -/

/-- The requests have their bytes, and what is stored has been pushed. -/
structure Pushed (net : Network cfg) : Prop where
  requests : ∀ (n : Nat) (tx : ClientTransaction cfg), net.transactions[n]? = some tx →
    tx.op.Fits cfg ∧ tx.request.received = tx.op.bytes cfg
  stored : ∀ slot, net.store.occupied slot = true → ∃ (n : Nat) (tx : ClientTransaction cfg),
    net.transactions[n]? = some tx ∧ tx.op = .push slot (net.store slot)

theorem Pushed.init : Pushed (init : Network cfg) where
  requests _ _ h := by cases h
  stored _ h := by cases h

/-- The request that arrives has the bytes of its transaction. -/
theorem Pushed.changes (h : net.Pushed) {n : Nat} {env : Env} {packet : Packet cfg}
    {tx : ClientTransaction cfg} {served : Served cfg} (htx : net.transactions[n]? = some tx)
    (hreceived : packet.received = tx.request.received)
    (hserved : (procServe env net.store packet).result = some served) :
    tx.op.Changes net.store served.store :=
  tx.op.changes (h.requests n tx htx).1 (hreceived.trans (h.requests n tx htx).2) hserved

theorem Pushed.next (h : net.Pushed) (hi : i.Fits) (hnext : net.next i = some net') :
    net'.Pushed := by
  have hstep := step_of_next hnext
  have hkept : ∀ {slot : UInt8} {p : Proc},
      (∃ (n : Nat) (tx : ClientTransaction cfg), net.transactions[n]? = some tx ∧
        tx.op = .push slot p) →
      ∃ (n : Nat) (tx : ClientTransaction cfg), net'.transactions[n]? = some tx ∧
        tx.op = .push slot p := by
    rintro slot p ⟨n, tx, htx, hop⟩
    rcases hstep.kept htx with ⟨tx', htx', hop'⟩
    exact ⟨n, tx', htx', hop'.trans hop⟩
  constructor
  · intro n tx' htx'
    rcases hstep.transaction htx' with
      ⟨tx, htx, hop, hrequest⟩ | ⟨-, buffer, timeout, rfl, hpacket⟩
    · rw [hop, hrequest]
      exact h.requests n tx htx
    · exact ⟨hi, tx'.op.received_packet hi hpacket⟩
  · intro slot hocc
    cases hstep with
    | request => exact hkept (h.stored slot hocc)
    | read => exact hkept (h.stored slot hocc)
    | @serve n env packet tx served htx hreceived hserved =>
        change served.store.occupied slot = true at hocc
        change ∃ (m : Nat) (tx : ClientTransaction cfg), net.transactions[m]? = some tx ∧
          tx.op = .push slot (served.store slot)
        cases h.changes htx hreceived hserved with
        | same hsame =>
            rw [hsame] at hocc ⊢
            exact h.stored slot hocc
        | deleted s hop hdeleted =>
            rw [hdeleted] at hocc ⊢
            by_cases hs : slot = s
            · -- a slot that has been emptied is not occupied
              rw [Store.occupied_eq_true, hs, Function.update_self] at hocc
              exact absurd rfl hocc
            · rw [Function.update_of_ne hs]
              refine h.stored slot ?_
              rw [Store.occupied_eq_true, Function.update_of_ne hs] at hocc
              exact Store.occupied_eq_true.mpr hocc
        | stored s p hop hempty hstored =>
            rw [hstored] at hocc ⊢
            by_cases hs : slot = s
            · rw [hs, Function.update_self]
              exact ⟨n, tx, htx, hop⟩
            · rw [Function.update_of_ne hs]
              refine h.stored slot ?_
              rw [Store.occupied_eq_true, Function.update_of_ne hs] at hocc
              exact Store.occupied_eq_true.mpr hocc

theorem pushed_of_reaches {is : List (NetworkInput cfg)}
    (h : Reaches Network.next (fun _ i => i.Fits) Network.init is net) : net.Pushed :=
  h.invariant (P := fun _ net => net.Pushed) .init fun _ _ _ _ ht hi hnext => ht.next hi hnext

/-- A request is served: only a delete of an occupied slot changes what is in it. -/
theorem Pushed.keeps (h : net.Pushed) (hnext : net.next i = some net') {slot : UInt8}
    (hocc : net.store.occupied slot = true) :
    net'.store slot = net.store slot ∨ ∃ (n : Nat) (tx : ClientTransaction cfg),
      net'.transactions[n]? = some tx ∧ tx.op = .del slot := by
  cases step_of_next hnext with
  | request => exact .inl rfl
  | read => exact .inl rfl
  | @serve n env packet tx served htx hreceived hserved =>
      cases h.changes htx hreceived hserved with
      | same hsame => exact .inl (congrFun hsame slot)
      | deleted s hop hdeleted =>
          by_cases hs : slot = s
          · exact .inr ⟨n, tx, htx, hs ▸ hop⟩
          · left
            change served.store slot = net.store slot
            rw [hdeleted, Function.update_of_ne hs]
      | stored s p hop hempty hstored =>
          left
          change served.store slot = net.store slot
          have hs : slot ≠ s := by
            -- a push finds the slot occupied
            rintro rfl
            rw [hempty] at hocc
            cases hocc
          rw [hstored, Function.update_of_ne hs]

/-- What has been sent stays sent. -/
theorem sent_of_reaches {ok : Network cfg → NetworkInput cfg → Prop} {b c : Network cfg}
    {js : List (NetworkInput cfg)} (h : Reaches Network.next ok b js c) {op : ClientOp}
    (hsent : ∃ (n : Nat) (tx : ClientTransaction cfg), b.transactions[n]? = some tx ∧ tx.op = op) :
    ∃ (n : Nat) (tx : ClientTransaction cfg), c.transactions[n]? = some tx ∧ tx.op = op := by
  refine h.invariant (P := fun _ c => ∃ (n : Nat) (tx : ClientTransaction cfg),
    c.transactions[n]? = some tx ∧ tx.op = op) hsent ?_
  rintro _ t i u ⟨n, tx, htx, hop⟩ _ hnext
  rcases (step_of_next hnext).kept htx with ⟨tx', htx', hop'⟩
  exact ⟨n, tx', htx', hop'.trans hop⟩

/-- An occupied slot keeps its procedure until a delete of the slot has been sent. -/
theorem Pushed.kept {b c : Network cfg} (h : b.Pushed) {js : List (NetworkInput cfg)}
    (hc : Reaches Network.next (fun _ i => i.Fits) b js c) {slot : UInt8}
    (hocc : b.store.occupied slot = true) :
    c.store slot = b.store slot ∨ ∃ (n : Nat) (tx : ClientTransaction cfg),
      c.transactions[n]? = some tx ∧ tx.op = .del slot := by
  refine (hc.invariant (P := fun _ c => c.Pushed ∧ (c.store slot = b.store slot ∨
    ∃ (n : Nat) (tx : ClientTransaction cfg), c.transactions[n]? = some tx ∧ tx.op = .del slot))
    ⟨h, .inl rfl⟩ ?_).2
  rintro js t i u ⟨ht, hkept⟩ hi hnext
  refine ⟨ht.next hi hnext, ?_⟩
  rcases hkept with hsame | hsent
  · have hocc' : t.store.occupied slot = true := by
      rwa [Store.occupied_eq_true, hsame, ← Store.occupied_eq_true]
    rcases ht.keeps hnext hocc' with hstay | hsent
    · exact .inl (hstay.trans hsame)
    · exact .inr hsent
  · have hstep : Reaches Network.next (fun _ i => i.Fits) t [i] u := .cons .start hi hnext
    exact .inr (sent_of_reaches hstep hsent)

end Network

/-- An occupied slot keeps its procedure, however often and in whatever order requests
arrive, until a delete of the slot has been sent. -/
theorem slot_kept {is js : List (NetworkInput cfg)} {b c : Network cfg}
    (hb : Reaches Network.next (fun _ i => i.Fits) Network.init is b)
    (hc : Reaches Network.next (fun _ i => i.Fits) b js c) {slot : UInt8}
    (hocc : b.store.occupied slot = true) :
    c.store slot = b.store slot ∨ ∃ (n : Nat) (tx : ClientTransaction cfg),
      c.transactions[n]? = some tx ∧ tx.op = .del slot :=
  (Network.pushed_of_reaches hb).kept hc hocc

end CspProc
