import CspProc.RoundTrip
import CspProc.Server

/-! # What a request leads to

The outcome of a request is the store it leaves, what becomes of its packet
and the bytes of the reply. One lemma per handler states it without the
packet buffer: `outcome_del`, `outcome_pull_found`, `outcome_push`,
`outcome_slots`, `outcome_run`.
-/

namespace CspProc

variable {cfg : Config}

/-! ## Replies -/

@[simp] theorem received_shortReply (packet : Packet cfg) (type : PacketType) (error : Bool) :
    (packet.shortReply type error).received = [replyHeader type error] := by
  rcases packet with ⟨length, data, hle, hdata⟩
  have hhead := cfg.header_le
  cases data with
  | nil =>
      simp only [List.length_nil] at hdata
      omega
  | cons b bs => simp [Packet.received, Packet.shortReply, Packet.setHeader]

/-- The reply that carries a procedure. -/
theorem received_setHeader_encoded (packet : Packet cfg) (p : Proc)
    (hfit : 2 + (Wire.procBytes cfg p).length ≤ cfg.cspBufferSize) (type : PacketType)
    (error : Bool) :
    ((packet.encoded p hfit).setHeader type error).received =
      replyHeader type error :: packet.byte 1 :: Wire.procBytes cfg p := by
  rcases packet with ⟨length, data, hle, hdata⟩
  have hhead := cfg.header_le
  match data, hdata with
  | b :: c :: bs, hdata =>
      simp only [Packet.received, Packet.setHeader, Packet.encoded, Packet.setByte, Packet.byte,
        List.take_succ_cons, List.take_zero, List.cons_append, List.nil_append, List.set_cons_zero,
        List.getD_cons_succ, List.getD_cons_zero, Nat.add_comm 2]
      rw [List.take_left]
  | [b], hdata =>
      simp only [List.length_cons, List.length_nil] at hdata
      omega
  | [], hdata =>
      simp only [List.length_nil] at hdata
      omega

/-- Writing the byte after the last one that counts. -/
theorem received_push (packet : Packet cfg) (b : UInt8)
    (h : packet.length + 1 ≤ cfg.cspBufferSize) :
    ((packet.setByte packet.length b).setLength (packet.length + 1) h).received =
      packet.received ++ [b] := by
  have hd := packet.data_length
  simp only [Packet.received, Packet.setLength, Packet.setByte, List.take_add_one]
  rw [List.take_set_of_le (Nat.le_refl _), List.getElem?_set_self (by omega)]
  rfl

/-- The slots loop appends the slots to the reply while the packet has room. -/
theorem putSlots_eq (slots : List UInt8) (packet : Packet cfg) :
    (putSlots slots packet.length packet).map Packet.received =
      if packet.length + slots.length ≤ cfg.cspBufferSize then some (packet.received ++ slots)
      else none := by
  induction slots generalizing packet with
  | nil => simp [putSlots, packet.length_le]
  | cons slot slots ih =>
      unfold putSlots
      by_cases h : packet.length + 1 ≤ cfg.cspBufferSize
      · rw [if_pos (by omega), dif_pos h]
        have hnext := ih ((packet.setByte packet.length slot).setLength (packet.length + 1) h)
        rw [received_push] at hnext
        simp only [Packet.setLength_length] at hnext
        rw [hnext]
        simp only [List.length_cons, List.append_assoc, List.singleton_append]
        congr 1
        simp only [eq_iff_iff]
        omega
      · rw [if_neg (by omega), if_neg (by simp only [List.length_cons]; omega)]
        rfl

/-! ## Outcomes -/

/-- What a request does to the world: the store, what becomes of the packet,
and the reply. -/
def Serving.outcome (s : Serving cfg) : Option (Store × Disposal × Option (List UInt8)) :=
  s.result.map fun r => (r.store, r.disposal, r.reply)

theorem outcome_del (env : Env) (store : Store) (packet : Packet cfg) :
    (procServeDelRequest env store packet).outcome =
      some ((store.deleteProc env.mutexTake (packet.byte 1)).2, .sent,
        some [replyHeader .delResponse false]) := by
  simp [Serving.outcome, Served.reply, procServeDelRequest]

theorem outcome_run (env : Env) (store : Store) (packet : Packet cfg) :
    (procServeRunRequest env store packet).outcome =
      some (store, .sent, some [replyHeader .runResponse
        (env.runtimeRun.all fun procRuntimeRun => procRuntimeRun (packet.byte 1) ≠ 0)]) := by
  unfold procServeRunRequest Serving.outcome
  cases env.runtimeRun with
  | none => simp [Served.reply]
  | some procRuntimeRun =>
      by_cases hret : procRuntimeRun (packet.byte 1) = 0 <;> simp [Served.reply, hret]

theorem outcome_slots (env : Env) (store : Store) (packet : Packet cfg) :
    (procServeSlotsRequest env store packet).outcome =
      if env.malloc = false ∨ env.mutexTake = false then none
      else if 1 + store.getProcSlots.length ≤ cfg.cspBufferSize then
        some (store, .sent, some (replyHeader .slotsResponse false :: store.getProcSlots))
      else none := by
  have hput := putSlots_eq store.getProcSlots (packet.shortReply .slotsResponse false)
  have hlen : (packet.shortReply .slotsResponse false).length = 1 := rfl
  rw [hlen, received_shortReply] at hput
  unfold procServeSlotsRequest Serving.outcome
  by_cases henv : env.malloc = false ∨ env.mutexTake = false
  · simp only [if_pos henv, Option.map_none]
  · simp only [if_neg henv]
    cases hp : putSlots store.getProcSlots 1 (packet.shortReply .slotsResponse false) with
    | none =>
        simp only [hp, Option.map_none] at hput
        split at hput
        · cases hput
        · rw [if_neg ‹_›]
          rfl
    | some packet' =>
        simp only [hp, Option.map_some] at hput
        split at hput
        · rename_i hroom
          simp only [Option.some.injEq, List.singleton_append] at hput
          rw [if_pos hroom]
          simp [Served.reply, hput]
        · cases hput

/-- What a pull does depends on the slot only. -/
theorem outcome_pull_congr (env : Env) (store : Store) {packet packet' : Packet cfg}
    (h : packet.byte 1 = packet'.byte 1) :
    (procServePullRequest env store packet).outcome =
      (procServePullRequest env store packet').outcome := by
  unfold procServePullRequest Serving.outcome
  rw [h]
  dsimp only
  cases store.getProc env.mutexTake (packet'.byte 1) with
  | null => simp [Served.reply]
  | mutexErr => rfl
  | found p =>
      -- the encoder's outcome does not depend on the packet it is given
      rcases @pack_cases cfg p with hnone | hrefused | ⟨hfit, hpack⟩
      · simp [hnone]
      · rcases hrefused packet with ⟨q, hq⟩
        rcases hrefused packet' with ⟨q', hq'⟩
        simp [hq, hq', Served.reply]
      · simp [hpack, Served.reply, received_setHeader_encoded, h]

/-- A pull of an empty slot. -/
theorem outcome_pull_null (env : Env) (store : Store) (packet : Packet cfg)
    (hget : store.getProc env.mutexTake (packet.byte 1) = .null) :
    (procServePullRequest env store packet).outcome =
      some (store, .sent, some [replyHeader .pullResponse true]) := by
  simp [procServePullRequest, Serving.outcome, Served.reply, hget]

/-- A pull of a slot whose procedure fits a packet. -/
theorem outcome_pull_found (env : Env) (store : Store) (packet : Packet cfg) {p : Proc}
    (hget : store.getProc env.mutexTake (packet.byte 1) = .found p) (hk : p.Known)
    (hfit : 2 + (Wire.procBytes cfg p).length ≤ cfg.cspBufferSize) :
    (procServePullRequest env store packet).outcome =
      some (store, .sent, some (replyHeader .pullResponse false :: packet.byte 1 ::
        Wire.procBytes cfg p)) := by
  simp [procServePullRequest, Serving.outcome, Served.reply, hget, pack_of_fits hk packet hfit,
    received_setHeader_encoded]

/-- A pull has no result, or answers with an error, or with what an occupied
slot holds. -/
theorem outcome_pull (env : Env) (store : Store) (packet : Packet cfg) :
    (procServePullRequest env store packet).outcome = none ∨
    (procServePullRequest env store packet).outcome =
      some (store, .sent, some [replyHeader .pullResponse true]) ∨
    (store.occupied (packet.byte 1) = true ∧
      (procServePullRequest env store packet).outcome =
        some (store, .sent, some (replyHeader .pullResponse false :: packet.byte 1 ::
          Wire.procBytes cfg (store (packet.byte 1))))) := by
  cases hget : store.getProc env.mutexTake (packet.byte 1) with
  | null => exact .inr (.inl (outcome_pull_null env store packet hget))
  | mutexErr => exact .inl (by simp [procServePullRequest, Serving.outcome, hget])
  | found p =>
      obtain ⟨hocc, rfl⟩ : store.occupied (packet.byte 1) = true ∧ store (packet.byte 1) = p := by
        unfold Store.getProc at hget
        split at hget
        · split at hget
          · cases hget
          · cases hget
            exact ⟨by simpa using ‹¬ store.occupied (packet.byte 1) = false›, rfl⟩
        · cases hget
      rcases @pack_cases cfg (store (packet.byte 1)) with hnone | hrefused | ⟨hfit, hpack⟩
      · exact .inl (by simp [procServePullRequest, Serving.outcome, hget, hnone])
      · rcases hrefused packet with ⟨q, hq⟩
        exact .inr (.inl (by
          simp [procServePullRequest, Serving.outcome, Served.reply, hget, hq]))
      · refine .inr (.inr ⟨hocc, ?_⟩)
        simp [procServePullRequest, Serving.outcome, Served.reply, hget, hpack,
          received_setHeader_encoded]

/-- Without memory a push is not even answered. -/
theorem outcome_push_leak (env : Env) (store : Store) (packet : Packet cfg)
    (hm : env.malloc = false) :
    (procServePushRequest env store packet).outcome = some (store, .leaked, none) := by
  simp [procServePushRequest, Serving.outcome, Served.reply, hm]

/-- A push is what the decoder and `set_proc` make of it. -/
theorem outcome_push (env : Env) (store : Store) (packet : Packet cfg)
    (hm : env.malloc = true) :
    (procServePushRequest env store packet).outcome =
      (unpackData cfg packet.data).map fun u =>
        if u.ret < 0 then (store, .sent, some [replyHeader .pushResponse true])
        else
          let r := store.setProc env.mutexTake u.procedure (packet.byte 1) false
          (r.2, .sent, some [replyHeader .pushResponse (r.1 < 0)]) := by
  unfold procServePushRequest Serving.outcome unpackProcFromCspPacket
  cases unpackData cfg packet.data with
  | none => simp [hm]
  | some u =>
      simp only [hm, reduceCtorEq, if_false, Option.map_some]
      split
      · simp [Served.reply]
      · split <;> simp [Served.reply, *]

end CspProc
