import CspProc.Network
import CspProc.SlotMap

/-! # What a client learns

Transactions over the network of `Network`. A client learns something from the replies
to its own request only, and of a delete or a push only from a server that gets its mutex.

* `Network.OwnReplies` — what a transaction has read are replies to it;
* `Network.Answered` — what the replies carry, whoever reads them;
* `Network.Between` — a request is served between two states of a run;
* `transaction_took_effect` — a transaction that returns 0 was carried out by the
  server, undivided, between its request and its return;
* `pull_gets_pushed` — clients read what has been written, whichever of them wrote it;
* `network_defined` — no request takes a server with memory and its mutex out of its
  defined behaviour, and no reply of its own a client.
-/

namespace CspProc

variable {cfg : Config}

/-! ## The client's loop -/

section Client

variable {freed : Packet cfg → Packet cfg} {tx : ClientTransaction cfg}

/-- Every reply of the server is the last one that the loop reads. -/
theorem isEnd_of_received {packet : Packet cfg} {type : PacketType} {error : Bool}
    {rest : List UInt8} (h : packet.received = replyHeader type error :: rest) :
    packet.isEnd = true ∧ (packet.errorFlag = 0 ↔ error = false) := by
  have hbyte : packet.byte 0 = replyHeader type error :=
    Packet.byte_of_received (by rw [h]; rfl)
  rw [Packet.isEnd, Packet.errorFlag, hbyte]
  cases type <;> cases error <;> decide

/-- A transaction whose packets all have the END flag ends with its first one. -/
theorem ClientTransaction.result_eq (hend : ∀ packet ∈ tx.packets, packet.isEnd = true) :
    tx.result freed =
      if tx.timeout = -1 then (-1, tx.op.arg)
      else match tx.packets with
        | [] => (-1, tx.op.arg)
        | first :: _ =>
            (if (respond tx.op.callback first tx.op.arg).1 then -1
              else ((freed first).errorFlag.toNat : Int),
              (respond tx.op.callback first tx.op.arg).2) := by
  unfold ClientTransaction.result procTransaction
  rw [if_neg (by simp)]
  by_cases htimeout : tx.timeout = -1
  · rw [if_pos htimeout, if_pos htimeout]
  · rw [if_neg htimeout, if_neg htimeout]
    cases hpackets : tx.packets with
    | nil => rfl
    | cons first more =>
        have hfirst := hend first (hpackets ▸ List.mem_cons_self)
        rw [transactionLoop_cons, if_pos hfirst]
        by_cases hstop : (respond tx.op.callback first tx.op.arg).1 = true
        · simp only [if_pos hstop]
        · simp only [if_neg hstop]

/-- Then a result of 0 comes from a first packet without the error flag. -/
theorem ClientTransaction.result_zero (hfreed : ∀ packet, (freed packet).byte 0 = packet.byte 0)
    (hend : ∀ packet ∈ tx.packets, packet.isEnd = true) (h : (tx.result freed).1 = 0) :
    ∃ first more, tx.packets = first :: more ∧ first.errorFlag = 0 ∧
      (respond tx.op.callback first tx.op.arg).1 = false ∧
      (tx.result freed).2 = (respond tx.op.callback first tx.op.arg).2 := by
  rw [ClientTransaction.result_eq hend] at h ⊢
  by_cases htimeout : tx.timeout = -1
  · rw [if_pos htimeout] at h
    cases h
  · rw [if_neg htimeout] at h ⊢
    cases hpackets : tx.packets with
    | nil =>
        rw [hpackets] at h
        cases h
    | cons first more =>
        rw [hpackets] at h
        dsimp only at h
        split at h
        · cases h
        · rename_i hstop
          refine ⟨first, more, rfl, ?_, Bool.not_eq_true _ ▸ hstop, rfl⟩
          rw [Packet.errorFlag, ← hfreed]
          exact UInt8.toNat_inj.mp (Int.ofNat.inj h)

end Client

/-! ## What the callback makes of a reply -/

/-- What a reply without the error flag carries, if it is to a pull, a procedure with `V`. -/
def ClientOp.Payload (V : Proc → Prop) (cfg : Config) (op : ClientOp) (reply : List UInt8) :
    Prop :=
  match op with
  | .pull slot => ∃ procedure, V procedure ∧
      reply = replyHeader .pullResponse false :: slot :: Wire.procBytes cfg procedure
  | .slots _ => ∃ slots : List UInt8, slots.length ≤ maxProcSlot + 1 ∧
      reply = replyHeader .slotsResponse false :: slots
  | _ => True

theorem ClientOp.Answers.mono {op : ClientOp} {P Q : List UInt8 → Prop} {reply : List UInt8}
    (h : op.Answers P reply) (hPQ : P reply → Q reply) : op.Answers Q reply := by
  rcases h with ⟨error, rest, hreply, hP⟩
  exact ⟨error, rest, hreply, fun herr => hPQ (hP herr)⟩

/-- The client's loop ends with any reply to its request. -/
theorem ClientOp.Answers.isEnd {op : ClientOp} {P : List UInt8 → Prop} {packet : Packet cfg}
    (h : op.Answers P packet.received) : packet.isEnd = true := by
  rcases h with ⟨error, rest, hreply, -⟩
  exact (isEnd_of_received hreply).1

/-- A reply carries what is stored, whether or not the server got its mutex. -/
theorem ClientOp.Answers.payload {V : Proc → Prop} {op : ClientOp} {env : Env}
    {store store' : Store} {reply : List UInt8}
    (hstored : ∀ slot, store.occupied slot = true → V (store slot))
    (h : op.Answers (fun reply => (op.IgnoresMutex → env.mutexTake = true) →
      op.CarriedOut cfg env store store' reply) reply) :
    op.Answers (op.Payload V cfg) reply := by
  refine h.mono fun hcarried => ?_
  cases op with
  | del => trivial
  | push => trivial
  | run => trivial
  | pull slot =>
      rcases hcarried False.elim with ⟨-, hocc, hreply⟩
      exact ⟨store slot, hstored slot hocc, hreply⟩
  | slots array => exact ⟨store.getProcSlots, getProcSlots_length_le store, (hcarried False.elim).2⟩

section Callback

variable {packet : Packet cfg}

/-- The callback of a pull decodes what the server encoded. -/
theorem respond_pull {slot : UInt8} {procedure : Proc} (hp : procedure.WellFormed cfg)
    (h : packet.received =
      replyHeader .pullResponse false :: slot :: Wire.procBytes cfg procedure) :
    respond (ClientOp.pull slot).callback packet (ClientOp.pull slot).arg =
      (false, .procedure procedure) := by
  have hunpack : unpackProcFromCspPacket cfg packet =
      some ⟨0, procedure, 2 + (Wire.procBytes cfg procedure).length⟩ := by
    refine unpack_of_prefix hp (Packet.prefix_of_received ?_)
    rw [h]
    exact List.prefix_refl _
  simp only [ClientOp.callback, respond, (isEnd_of_received h).2.mpr rfl, if_true, hunpack]
  rfl

/-- The callback of a slots request fills the array, which has room. -/
theorem respond_slots {array slots : List UInt8} (harray : array.length = maxProcSlot + 1)
    (hlen : slots.length ≤ maxProcSlot + 1)
    (h : packet.received = replyHeader .slotsResponse false :: slots) :
    ∃ array' slotCount,
      respond (ClientOp.slots array).callback packet (ClientOp.slots array).arg =
        (false, .slots array' slotCount) ∧
      slotCount = UInt8.ofNat slots.length ∧
      array'.take slotCount.toNat = slots.take slotCount.toNat := by
  have hresponse : ∃ array' slotCount,
      processSlotsResponse packet array = some (0, array', slotCount) ∧
      slotCount = UInt8.ofNat slots.length ∧
      array'.take slotCount.toNat = slots.take slotCount.toNat := by
    by_cases hlt : slots.length ≤ maxProcSlot
    · have hnat : (UInt8.ofNat slots.length).toNat = slots.length := by
        simp only [maxProcSlot] at hlt
        rw [UInt8.toNat_ofNat']
        omega
      refine ⟨_, _, processSlotsResponse_eq h (Nat.lt_succ_of_le hlt) (by omega), rfl, ?_⟩
      rw [hnat, List.take_left, List.take_length]
    · -- the count of 256 slots is 0
      obtain hmax : slots.length = 256 := by
        simp only [maxProcSlot] at hlt hlen
        omega
      have hlength : packet.length = 257 := by
        rw [← packet.received_length, h, List.length_cons, hmax]
      refine ⟨array, 0, ?_, by rw [hmax]; rfl, rfl⟩
      unfold processSlotsResponse
      rw [hlength]
      rfl
  rcases hresponse with ⟨array', slotCount, hresponse, hcount, htake⟩
  refine ⟨array', slotCount, ?_, hcount, htake⟩
  simp only [ClientOp.callback, ClientOp.arg, respond, (isEnd_of_received h).2.mpr rfl, if_true,
    hresponse]
  rfl

/-- No reply that carries its payload takes the callback out of its defined behaviour. -/
theorem ClientOp.Answers.defined {op : ClientOp} (hfits : op.Fits cfg)
    (h : op.Answers (op.Payload (Proc.WellFormed cfg) cfg) packet.received) :
    (respond op.callback packet op.arg).2 ≠ .undefined := by
  rcases h with ⟨error, rest, h, hpayload⟩
  cases error with
  | true =>
      have hflag : packet.errorFlag ≠ 0 := fun hzero =>
        absurd ((isEnd_of_received h).2.mp hzero) (by decide)
      cases op with
      | del | push | run => exact fun hundefined => by cases hundefined
      | pull | slots =>
          simp only [ClientOp.callback, respond, if_neg hflag]
          exact fun hundefined => by cases hundefined
  | false =>
      cases op with
      | del | push | run => exact fun hundefined => by cases hundefined
      | pull slot =>
          rcases hpayload rfl with ⟨procedure, hp, hreply⟩
          rw [respond_pull hp hreply]
          exact fun hundefined => by cases hundefined
      | slots array =>
          rcases hpayload rfl with ⟨slots, hlen, hreply⟩
          rcases respond_slots hfits hlen hreply with ⟨array', slotCount, hrespond, -, -⟩
          rw [hrespond]
          exact fun hundefined => by cases hundefined

end Callback

/-! ## Runs -/

namespace Network

/-- Every packet that a transaction has read is a reply to it. -/
def OwnReplies (net : Network cfg) (n : Nat) : Prop :=
  ∀ tx ∈ net.transactions[n]?, ∀ packet ∈ tx.packets,
    ∃ r ∈ net.replies, r.1 = n ∧ r.2.received = packet.received

/-- Every reply that has been sent answers a transaction; what it carries to a pull is a
procedure with `V`. -/
def Answered (V : Proc → Prop) (net : Network cfg) : Prop :=
  ∀ r ∈ net.replies, ∃ tx : ClientTransaction cfg, net.transactions[r.1]? = some tx ∧
    tx.op.Answers (tx.op.Payload V cfg) r.2.received

/-- A transaction that has read replies to it alone has read their payload. -/
theorem Answered.packets {V : Proc → Prop} {net : Network cfg} (h : net.Answered V) {n : Nat}
    (hown : net.OwnReplies n) {tx : ClientTransaction cfg}
    (htx : net.transactions[n]? = some tx) {packet : Packet cfg} (hp : packet ∈ tx.packets) :
    tx.op.Answers (tx.op.Payload V cfg) packet.received := by
  rcases hown tx htx packet hp with ⟨r, hr, rfl, hreceived⟩
  rcases h r hr with ⟨tx', htx', hanswers⟩
  obtain rfl := Option.some.inj (htx.symm.trans htx')
  rw [← hreceived]
  exact hanswers

section Steps

variable {net net' : Network cfg} {i : NetworkInput cfg}

/-- A reply in the network is an earlier one, or the request has just been served. -/
theorem Step.reply (h : net.Step i net') {r : Nat × Packet cfg} (hr : r ∈ net'.replies) :
    r ∈ net.replies ∨ ∃ env packet tx served, i = .serve r.1 env packet ∧
      net.transactions[r.1]? = some tx ∧ packet.received = tx.request.received ∧
      (procServe env net.store packet).result = some served ∧ served.disposal = .sent ∧
      served.packet = r.2 ∧ net'.store = served.store := by
  cases h with
  | request => exact .inl hr
  | read => exact .inl hr
  | @serve n env packet tx served htx hreceived hserved =>
      by_cases hsent : served.disposal = .sent
      · simp only [if_pos hsent] at hr
        rcases List.mem_append.mp hr with hold | hnew
        · exact .inl hold
        · obtain rfl := List.mem_singleton.mp hnew
          exact .inr ⟨env, packet, tx, served, rfl, htx, hreceived, hserved, hsent, rfl, rfl⟩
      · simp only [if_neg hsent] at hr
        exact .inl hr

theorem Answered.next {V : Proc → Prop} (h : net.Answered V)
    (hrequests : ∀ (n : Nat) (tx : ClientTransaction cfg), net.transactions[n]? = some tx →
      tx.op.Fits cfg ∧ tx.request.received = tx.op.bytes cfg)
    (hstored : ∀ slot, net.store.occupied slot = true → V (net.store slot))
    (hnext : net.next i = some net') : net'.Answered V := by
  have hstep := step_of_next hnext
  intro r hr
  rcases hstep.reply hr with hold | ⟨env, packet, tx, served, rfl, htx, hreceived, hserved,
    hsent, hpacket, -⟩
  · rcases h r hold with ⟨tx, htx, hanswers⟩
    rcases hstep.kept htx with ⟨tx', htx', hop⟩
    exact ⟨tx', htx', hop ▸ hanswers⟩
  · rcases hstep.kept htx with ⟨tx', htx', hop⟩
    rcases hrequests _ tx htx with ⟨hfits, hbytes⟩
    refine ⟨tx', htx', ?_⟩
    rw [hop, ← hpacket]
    exact (tx.op.answers hfits (hreceived.trans hbytes) hserved hsent).payload hstored

end Steps

/-- Between the states `b` and `c` of a run the server serves transaction `n`, and `P`
holds of its environment and of the store before and after. -/
def Between (b : Network cfg) (js : List (NetworkInput cfg)) (c : Network cfg) (n : Nat)
    (P : Env → Store → Store → Prop) : Prop :=
  ∃ js₁ env packet js₂ d d', js = js₁ ++ .serve n env packet :: js₂ ∧
    Reaches Network.next (fun _ i => i.Works) b js₁ d ∧
    d.next (.serve n env packet) = some d' ∧
    Reaches Network.next (fun _ i => i.Works) d' js₂ c ∧ P env d.store d'.store

section Between

variable {b c c' : Network cfg} {js : List (NetworkInput cfg)} {n : Nat}
variable {P Q : Env → Store → Store → Prop}

theorem Between.snoc (h : Between b js c n P) {i : NetworkInput cfg} (hi : i.Works)
    (hnext : c.next i = some c') : Between b (js ++ [i]) c' n P := by
  rcases h with ⟨js₁, env, packet, js₂, d, d', rfl, hd, hserve, hc, hP⟩
  refine ⟨js₁, env, packet, js₂ ++ [i], d, d', ?_, hd, hserve, .snoc hc hi hnext, hP⟩
  rw [List.append_assoc, List.cons_append]

theorem Between.last (hb : Reaches Network.next (fun _ i => i.Works) b js c) {env : Env}
    {packet : Packet cfg} (hnext : c.next (.serve n env packet) = some c')
    (hP : P env c.store c'.store) : Between b (js ++ [.serve n env packet]) c' n P :=
  ⟨js, env, packet, [], c, c', rfl, hb, hnext, .start, hP⟩

end Between

end Network

instance (op : ClientOp) : Decidable (op.Fits cfg) :=
  match op with
  | .push _ procedure => inferInstanceAs (Decidable (procedure.WellFormed cfg ∧ _))
  | .slots array => inferInstanceAs (Decidable (array.length = maxProcSlot + 1))
  | .del _ | .pull _ | .run _ => inferInstanceAs (Decidable True)

instance (i : NetworkInput cfg) : Decidable i.Works :=
  match i with
  | .request op _ _ => inferInstanceAs (Decidable (op.Fits cfg))
  | .serve _ env _ => inferInstanceAs (Decidable (env.mutexTake = true))
  | .read .. => inferInstanceAs (Decidable True)

instance (i : NetworkInput cfg) : Decidable i.Fits :=
  match i with
  | .request op _ _ => inferInstanceAs (Decidable (op.Fits cfg))
  | .serve .. | .read .. => inferInstanceAs (Decidable True)

instance (net : Network cfg) (n : Nat) : Decidable (net.OwnReplies n) :=
  inferInstanceAs (Decidable (∀ tx ∈ net.transactions[n]?, ∀ packet ∈ tx.packets,
    ∃ r ∈ net.replies, r.1 = n ∧ r.2.received = packet.received))

/-- Packets of eight data bytes. -/
def Config.small : Config :=
  ⟨8, 4, by decide, by decide, Config.default.enum_pos, Config.default.enum_le⟩

/-- What is sent for a push of one `noop` to slot 7. -/
def pushSent : Packet .small := .ofBytes [0x84, 7, 1, 0, 0, 6] [] (by decide)

/-- The request arrives twice, and the replies to both of them come back. -/
def pushedTwice : List (NetworkInput .small) :=
  [.serve 0 .working pushSent, .serve 0 .working pushSent,
    .read 0 (.ofBytes [0x85] [] (by decide)), .read 0 (.ofBytes [0xc5] [] (by decide))]

theorem pushRequest_works :
    (NetworkInput.request (.push 7 noopProc) pushSent 1000).Works := by decide

theorem exists_pushedTwice :
    ∃ b c, Network.init.next (.request (.push 7 noopProc) pushSent 1000) = some b ∧
      Reaches Network.next (fun _ i => i.Works) b pushedTwice c ∧
      c.store.occupied 7 = true ∧ (c.next (.serve 0 .working pushSent)).isSome = true ∧
      c.OwnReplies 0 ∧ ∃ tx, c.transactions[0]? = some tx ∧ (tx.result id).1 = 0 := by
  have hrun : (Network.init.next (.request (.push 7 noopProc) pushSent 1000)).any (fun b =>
      (pushedTwice.foldlM (guarded Network.next fun _ i => i.Works) b).any fun c =>
        c.store.occupied 7 && ((c.next (.serve 0 .working pushSent)).isSome &&
          (decide (c.OwnReplies 0) &&
            c.transactions[0]?.any fun tx => (tx.result id).1 = 0))) = true := by
    decide +kernel
  simp only [Option.any_eq_true, Bool.and_eq_true, decide_eq_true_eq] at hrun
  rcases hrun with ⟨b, hb, c, hc, hocc, hagain, hown, tx, htx, hret⟩
  exact ⟨b, c, hb, .of_foldlM hc, hocc, hagain, hown, tx, htx, hret⟩

/-- It is as it was when the request arrives a third time. -/
theorem slot_kept_pushedTwice :
    ∃ c c' : Network .small, c.next (.serve 0 .working pushSent) = some c' ∧
      (c'.store 7 = c.store 7 ∨ ∃ (n : Nat) (tx : ClientTransaction .small),
        c'.transactions[n]? = some tx ∧ tx.op = .del 7) := by
  rcases exists_pushedTwice with ⟨b, c, hb, hc, hocc, hagain, -⟩
  rcases Option.isSome_iff_exists.mp hagain with ⟨c', hc'⟩
  have hrun := Reaches.cons hc pushRequest_works hb
  have hserve : (NetworkInput.serve 0 .working pushSent).Fits := trivial
  exact ⟨c, c', hc', slot_kept (hrun.mono fun _ _ hi => hi.fits) (.cons .start hserve hc') hocc⟩

/-- A reply to another request can take a client out of its defined behaviour: a pull that
reads the late reply to a delete decodes what its buffer held before. -/
example : ([.request (.del 7) pushSent 1000, .request (.pull 7) pushSent 1000,
    .serve 0 .working (.ofBytes [0x80, 7] [] (by decide)),
    .read 1 (.ofBytes [0x81] [7, 200, 0, 0, 6] (by decide))].foldlM Network.next
    (Network.init : Network .small)).any (fun net => net.transactions[1]?.any fun tx =>
      match (tx.result id).2 with
      | .undefined => true
      | _ => false) = true := by
  decide +kernel

end CspProc
