import CspProc.Replies

/-! # What a reply acknowledges

A reply without the error flag says that the request was carried out on the
store. The handlers learn from the return value of a store operation that the
store's mutex could not be taken, each in its own way: `noFalseAck_iff` says
for which requests and environments they draw the right conclusion.
-/

namespace CspProc

variable {cfg : Config}

/-- The reply has the error flag set in its first byte. -/
def errorFlagged (reply : List UInt8) : Prop := reply.headD 0 &&& procFlagError ≠ 0

instance (reply : List UInt8) : Decidable (errorFlagged reply) :=
  inferInstanceAs (Decidable (_ ≠ _))

theorem errorFlagged_cons (type : PacketType) (error : Bool) (rest : List UInt8) :
    errorFlagged (replyHeader type error :: rest) ↔ error = true :=
  replyHeader_error type error

/-- What a request asks for has been done, and nothing else: a delete emptied
its slot, a push put what its packet decodes to into its slot, and a reply to a
pull or a slots request shows what the store holds. -/
def CarriedOut (store : Store) (packet : Packet cfg) (store' : Store) (reply : List UInt8) : Prop :=
  match packet.type with
  | some .delRequest => store' = Function.update store (packet.byte 1) Proc.empty
  | some .pushRequest => ∃ p offset, unpackProcFromCspPacket cfg packet = some ⟨0, p, offset⟩ ∧
      store' = Function.update store (packet.byte 1) p
  | some .pullRequest => store' = store ∧ store.occupied (packet.byte 1) = true ∧
      reply = replyHeader .pullResponse false :: packet.byte 1 ::
        Wire.procBytes cfg (store (packet.byte 1))
  | some .slotsRequest => store' = store ∧ ∃ slots,
      reply = replyHeader .slotsResponse false :: slots ∧ slots.Pairwise (· < ·) ∧
      ∀ slot, slot ∈ slots ↔ store.occupied slot = true
  | _ => True

/-- The request's handler comes to take the store's mutex: a push has by then
allocated a procedure and decoded its packet. -/
def takesMutex (env : Env) (packet : Packet cfg) : Bool :=
  match packet.type with
  | some .delRequest | some .pullRequest | some .slotsRequest => true
  | some .pushRequest =>
      env.malloc && (unpackProcFromCspPacket cfg packet).any fun u => decide (0 ≤ u.ret)
  | _ => false

/-- No false acknowledgement. A reply without the error flag is sent only when
the request was carried out. When the mutex cannot be taken, the handler stays
within its defined behaviour (which it leaves when it uses an error number or
`NULL` as a procedure or a list), the store is unchanged, and the reply has the
error flag. -/
structure NoFalseAck (env : Env) (store : Store) (packet : Packet cfg) : Prop where
  acknowledged : ∀ store' reply,
    (procServe env store packet).outcome = some (store', .sent, some reply) →
    ¬ errorFlagged reply → CarriedOut store packet store' reply
  refused : env.mutexTake = false → takesMutex env packet = true → ∃ reply,
    (procServe env store packet).outcome = some (store, .sent, some reply) ∧ errorFlagged reply

/-! ## With the mutex -/

/-- A push that is answered without the error flag stored what was decoded. -/
theorem carriedOut_push {env : Env} {store : Store} {packet : Packet cfg} {store' : Store}
    {reply : List UInt8}
    (hmutex : env.mutexTake = true ∨
      (env.malloc && (unpackProcFromCspPacket cfg packet).any fun u => decide (0 ≤ u.ret)) = false)
    (h : (procServePushRequest env store packet).outcome = some (store', .sent, some reply))
    (herr : ¬ errorFlagged reply) :
    ∃ p offset, unpackProcFromCspPacket cfg packet = some ⟨0, p, offset⟩ ∧
      store' = Function.update store (packet.byte 1) p := by
  cases hm : env.malloc with
  | false =>
      -- without memory there is no reply
      rw [outcome_push_leak env store packet hm] at h
      cases h
  | true =>
      rw [outcome_push env store packet hm] at h
      rcases Option.map_eq_some_iff.mp h with ⟨⟨ret, p, offset⟩, hu, hout⟩
      have hun : unpackProcFromCspPacket cfg packet = some ⟨ret, p, offset⟩ := hu
      rcases unpackData_ret hu with rfl | rfl
      · -- the decoder accepts, and `set_proc` is called with the mutex
        have htake : env.mutexTake = true := by
          rcases hmutex with htake | hno
          · exact htake
          · rw [hm, hun] at hno
            cases hno
        simp only [Store.setProc_eq, htake] at hout
        by_cases hocc : store.occupied (packet.byte 1) = false
        · simp only [hocc, if_true] at hout
          refine ⟨p, offset, hun, ?_⟩
          exact (congrArg Prod.fst hout).symm
        · simp only [hocc] at hout
          cases hout
          exact absurd ((errorFlagged_cons _ _ _).mpr rfl) herr
      · cases hout
        exact absurd ((errorFlagged_cons _ _ _).mpr rfl) herr

/-- With the mutex, or when it is not asked for, every reply without the error
flag is right. -/
theorem carriedOut_of_mutex {env : Env} {store : Store} {packet : Packet cfg} {store' : Store}
    {reply : List UInt8} (hmutex : env.mutexTake = true ∨ takesMutex env packet = false)
    (h : (procServe env store packet).outcome = some (store', .sent, some reply))
    (herr : ¬ errorFlagged reply) : CarriedOut store packet store' reply := by
  unfold takesMutex at hmutex
  unfold procServe at h
  unfold CarriedOut
  cases htype : packet.type with
  | none => trivial
  | some type =>
      simp only [htype] at h hmutex
      cases type with
      | delRequest =>
          have htake : env.mutexTake = true := by simpa using hmutex
          simp only [outcome_del, htake, Store.deleteProc_ok] at h
          cases h
          rfl
      | pullRequest =>
          -- only a procedure that is found gets a reply without the flag
          rcases outcome_pull env store packet with hnone | herror | ⟨hocc, hfound⟩
          · simp only [hnone] at h
            cases h
          · simp only [herror] at h
            cases h
            exact absurd ((errorFlagged_cons _ _ _).mpr rfl) herr
          · simp only [hfound] at h
            cases h
            exact ⟨rfl, hocc, rfl⟩
      | pushRequest => exact carriedOut_push hmutex h herr
      | slotsRequest =>
          simp only [outcome_slots] at h
          split at h
          · cases h
          · split at h
            · cases h
              exact ⟨rfl, store.getProcSlots, rfl, store.getProcSlots_pairwise,
                fun slot => Store.mem_getProcSlots⟩
            · cases h
      | _ => trivial

/-! ## Without the mutex -/

/-- Without the mutex no handler that asks for it answers with an error: a
delete and a push acknowledge, a pull and a slots request use what is no
procedure and no list. -/
theorem not_refused_without_mutex {env : Env} {store : Store} {packet : Packet cfg}
    (hno : env.mutexTake = false) (htakes : takesMutex env packet = true) {reply : List UInt8}
    (h : (procServe env store packet).outcome = some (store, .sent, some reply)) :
    ¬ errorFlagged reply := by
  unfold takesMutex at htakes
  unfold procServe at h
  cases htype : packet.type with
  | none =>
      rw [htype] at htakes
      cases htakes
  | some type =>
      simp only [htype] at h htakes
      cases type with
      | delRequest =>
          simp only [outcome_del, Option.some.injEq, Prod.mk.injEq] at h
          rcases h with ⟨-, -, rfl⟩
          exact fun herr => absurd ((errorFlagged_cons _ _ _).mp herr) (by decide)
      | pullRequest =>
          simp [procServePullRequest, Serving.outcome, Store.getProc, hno] at h
      | pushRequest =>
          simp only [Bool.and_eq_true, Option.any_eq_true, decide_eq_true_eq] at htakes
          rcases htakes with ⟨hm, u, hun, hret⟩
          have hu : unpackData cfg packet.data = some u := hun
          -- `set_proc` returns `PROC_MUTEX_ERR`, which is not negative
          have hneg : ¬ u.ret < 0 := by omega
          simp only [outcome_push env store packet hm, hu, Option.map_some, hneg, if_false,
            Store.setProc_eq, hno, if_true] at h
          cases h
          exact fun herr => absurd ((errorFlagged_cons _ _ _).mp herr) (by decide)
      | slotsRequest =>
          rw [outcome_slots, if_pos (.inr hno)] at h
          cases h
      | _ => cases htakes

/-- Nothing is acknowledged falsely exactly when the mutex is taken, or the
handler does not come to take it. -/
theorem noFalseAck_iff (env : Env) (store : Store) (packet : Packet cfg) :
    NoFalseAck env store packet ↔ env.mutexTake = true ∨ takesMutex env packet = false := by
  constructor
  · intro h
    by_contra hcon
    simp only [not_or, Bool.not_eq_true, Bool.not_eq_false] at hcon
    rcases h.refused hcon.1 hcon.2 with ⟨reply, hout, herr⟩
    exact not_refused_without_mutex hcon.1 hcon.2 hout herr
  · intro hmutex
    constructor
    · intro store' reply hout herr
      exact carriedOut_of_mutex hmutex hout herr
    · intro hno htakes
      rcases hmutex with htake | hfalse
      · rw [hno] at htake
        cases htake
      · rw [hfalse] at htakes
        cases htakes

/-- A delete request for slot 3. -/
def delPacket : Packet .default := .ofBytes [0x80, 3] [] (by decide)

/-- A store with a procedure in slot 3. -/
def slotThree : Store := Function.update Store.init 3 ⟨[⟨0, .noop⟩], one_le_maxInstructions⟩

/-- Without the mutex nothing is deleted, and the delete is acknowledged. -/
theorem delete_falsely_acknowledged :
    ¬ NoFalseAck ⟨true, false, none⟩ slotThree delPacket := by
  intro h
  have hdel := h.acknowledged slotThree [replyHeader .delResponse false]
    (outcome_del ⟨true, false, none⟩ slotThree delPacket) (by decide)
  have hthree : slotThree = Function.update slotThree 3 Proc.empty := hdel
  exact absurd (congrFun hthree 3) (by decide)

end CspProc
