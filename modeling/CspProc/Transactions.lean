import CspProc.Client
import CspProc.Lib.Lifetime
import CspProc.Lib.Traced

/-! # The packets of a transaction

`proc_transaction` with what it does to the packets that `csp_read` returns: it
reads their first byte, hands them to the callback, and frees them. The packet
that ends a transaction is looked at once more when it has been freed, and the
packet whose callback fails is never freed.
-/

namespace CspProc

open Lifetime (Event)

variable {cfg : Config} {τ : Type}

/-- `end` of `proc_transaction`. -/
def Packet.isEnd (packet : Packet cfg) : Bool := packet.byte 0 &&& procFlagEnd = procFlagEnd

/-- The error flag of a packet. -/
def Packet.errorFlag (packet : Packet cfg) : UInt8 := packet.byte 0 &&& procFlagError

/-- The call of the callback for a packet, if it is made: whether it fails, and
its argument afterwards. -/
def respond (responseCallback : Option (Packet cfg → τ → Int × τ)) (packet : Packet cfg)
    (arg : τ) : Bool × τ :=
  match responseCallback with
  | none => (false, arg)
  | some callback =>
      if packet.errorFlag = 0 then
        let (ret, arg) := callback packet arg
        (decide (ret ≠ 0), arg)
      else (false, arg)

/-- The callback is called for a packet. -/
def invokes (responseCallback : Option (Packet cfg → τ → Int × τ)) (packet : Packet cfg) : Bool :=
  responseCallback.isSome && packet.errorFlag = 0

/-! ## The program -/

/-- The loop of `proc_transaction` from the packet with a number on, with what it
does to the packets. -/
def tracedLoop (freed : Packet cfg → Packet cfg)
    (responseCallback : Option (Packet cfg → τ → Int × τ)) :
    Nat → List (Packet cfg) → Traced (Event Nat) τ Int
  | _, [] => return -1
  | k, packet :: packets => do
      .report true (.acquire k)
      .report true (.use k)
      .report (invokes responseCallback packet) (.use k)
      let stop ← Traced.tick (respond responseCallback packet)
      if stop then return -1
      else
        .report true (.release k)
        if packet.isEnd then
          .report true (.use k)
          return ((freed packet).errorFlag).toNat
        else tracedLoop freed responseCallback (k + 1) packets

/-- `proc_transaction`, with what it does to the packets. -/
def tracedTransaction (freed : Packet cfg → Packet cfg) (connected : Bool) (timeout : Int)
    (responseCallback : Option (Packet cfg → τ → Int × τ)) (packets : List (Packet cfg)) :
    Traced (Event Nat) τ Int :=
  if connected = false then return -1
  else if timeout = -1 then return -1
  else tracedLoop freed responseCallback 0 packets

section Loop

variable (freed : Packet cfg → Packet cfg)
variable (responseCallback : Option (Packet cfg → τ → Int × τ))

theorem transactionLoop_cons (packet : Packet cfg) (packets : List (Packet cfg)) (arg : τ) :
    transactionLoop freed responseCallback (packet :: packets) arg =
      if (respond responseCallback packet arg).1 then
        (-1, (respond responseCallback packet arg).2)
      else if packet.isEnd then
        (((freed packet).errorFlag.toNat : Int), (respond responseCallback packet arg).2)
      else transactionLoop freed responseCallback packets
        (respond responseCallback packet arg).2 := by
  cases responseCallback with
  | none => simp [transactionLoop, respond, Packet.isEnd, Packet.errorFlag]
  | some callback =>
      by_cases herror : packet.byte 0 &&& procFlagError = 0
      · simp [transactionLoop, respond, Packet.isEnd, Packet.errorFlag, herror]
      · simp [transactionLoop, respond, Packet.isEnd, Packet.errorFlag, herror]

/-- What the loop does with its first packet. -/
def firstUses (k : Nat) (packet : Packet cfg) : List (Event Nat) :=
  .use k :: if invokes responseCallback packet then [.use k] else []

theorem tracedLoop_cons (k : Nat) (packet : Packet cfg) (packets : List (Packet cfg)) (arg : τ) :
    (tracedLoop freed responseCallback k (packet :: packets)).run arg =
      let rest : Traced.Outcome (Event Nat) τ Int :=
        if (respond responseCallback packet arg).1 then
          ⟨-1, (respond responseCallback packet arg).2, []⟩
        else if packet.isEnd then
          ⟨((freed packet).errorFlag).toNat, (respond responseCallback packet arg).2,
            [.release k, .use k]⟩
        else
          let o := (tracedLoop freed responseCallback (k + 1) packets).run
            (respond responseCallback packet arg).2
          ⟨o.value, o.state, .release k :: o.accesses⟩
      ⟨rest.value, rest.state,
        .acquire k :: firstUses responseCallback k packet ++ rest.accesses⟩ := by
  rw [tracedLoop]
  by_cases hstop : (respond responseCallback packet arg).1 = true
  · simp [Traced.run_bind, Traced.report, Traced.tick, firstUses, hstop]
  · by_cases hend : packet.isEnd = true
    · simp [Traced.run_bind, Traced.report, Traced.tick, firstUses, hstop, hend]
    · simp [Traced.run_bind, Traced.report, Traced.tick, firstUses, hstop, hend]

theorem tracedLoop_run (k : Nat) (packets : List (Packet cfg)) (arg : τ) :
    (((tracedLoop freed responseCallback k packets).run arg).value,
      ((tracedLoop freed responseCallback k packets).run arg).state) =
      transactionLoop freed responseCallback packets arg := by
  induction packets generalizing k arg with
  | nil => rfl
  | cons packet packets ih =>
      rw [tracedLoop_cons, transactionLoop_cons]
      by_cases hstop : (respond responseCallback packet arg).1 = true
      · simp [hstop]
      · by_cases hend : packet.isEnd = true
        · simp [hstop, hend]
        · simpa [hstop, hend] using ih (k + 1) _

theorem tracedTransaction_run (connected : Bool) (timeout : Int) (packets : List (Packet cfg))
    (arg : τ) :
    (((tracedTransaction freed connected timeout responseCallback packets).run arg).value,
      ((tracedTransaction freed connected timeout responseCallback packets).run arg).state) =
      procTransaction freed connected timeout responseCallback packets arg := by
  unfold tracedTransaction procTransaction
  split
  · rfl
  · split
    · rfl
    · exact tracedLoop_run freed responseCallback 0 packets arg

/-! ## Soundness -/

/-- No packet ends the loop: none has the flag, and every callback returns 0. -/
def GoesOn : List (Packet cfg) → τ → Prop
  | [], _ => True
  | packet :: packets, arg =>
      (respond responseCallback packet arg).1 = false ∧ packet.isEnd = false ∧
        GoesOn packets (respond responseCallback packet arg).2

/-- The packet with the flag that the loop reaches, if every callback up to it
returns 0. -/
def endPacket : List (Packet cfg) → τ → Option (Packet cfg)
  | [], _ => none
  | packet :: packets, arg =>
      if (respond responseCallback packet arg).1 then none
      else if packet.isEnd then some packet
      else endPacket packets (respond responseCallback packet arg).2

/-- The result for the packet that is reached: its error flag, which is zero
without an error. -/
def ResultSound (reached : Option (Packet cfg)) (ret : Int) : Prop :=
  match reached with
  | some packet => ret = packet.errorFlag.toNat
  | none => ret < 0

theorem resultSound_none : ResultSound (none : Option (Packet cfg)) (-1) :=
  show (-1 : Int) < 0 by decide

/-- Every packet that is read is freed once and not accessed afterwards, and the
result is that of the packet which is reached. -/
def TransactionSound (connected : Bool) (timeout : Int) (packets : List (Packet cfg)) (arg : τ) :
    Prop :=
  Lifetime.Sound
    ((tracedTransaction freed connected timeout responseCallback packets).run arg).accesses ∧
  ResultSound
    (if connected = false ∨ timeout = -1 then none else endPacket responseCallback packets arg)
    (procTransaction freed connected timeout responseCallback packets arg).1

theorem firstUses_eq {k : Nat} {packet : Packet cfg} {e : Event Nat}
    (he : e ∈ firstUses responseCallback k packet) : e = .use k := by
  unfold firstUses at he
  split at he
  · simpa using he
  · simpa using he

/-- The loop does nothing to packets before the one that it is at. -/
theorem tracedLoop_resource {k : Nat} {packets : List (Packet cfg)} {arg : τ} {e : Event Nat}
    (he : e ∈ ((tracedLoop freed responseCallback k packets).run arg).accesses) :
    k ≤ e.resource := by
  induction packets generalizing k arg with
  | nil => cases he
  | cons packet packets ih =>
      rw [tracedLoop_cons] at he
      rcases List.mem_append.mp he with he | he
      · rcases List.mem_cons.mp he with rfl | he
        · exact le_rfl
        · rw [firstUses_eq responseCallback he]
          exact le_rfl
      · by_cases hstop : (respond responseCallback packet arg).1 = true
        · simp [hstop] at he
        · by_cases hend : packet.isEnd = true
          · simp only [hstop, hend, if_true] at he
            rcases List.mem_cons.mp he with rfl | he
            · exact le_rfl
            · rw [List.mem_singleton.mp he]
              exact le_rfl
          · simp only [hstop, hend] at he
            rcases List.mem_cons.mp he with rfl | he
            · exact le_rfl
            · exact (Nat.le_succ k).trans (ih he)

theorem sound_tracedLoop_iff (k : Nat) (packets : List (Packet cfg)) (arg : τ) :
    Lifetime.Sound ((tracedLoop freed responseCallback k packets).run arg).accesses ↔
      GoesOn responseCallback packets arg := by
  induction packets generalizing k arg with
  | nil => exact iff_of_true Lifetime.sound_nil trivial
  | cons packet packets ih =>
      rw [tracedLoop_cons, GoesOn]
      by_cases hstop : (respond responseCallback packet arg).1 = true
      · -- a packet whose callback fails is kept
        simp only [hstop, if_true, List.append_nil, Bool.true_eq_false, false_and, iff_false]
        refine Lifetime.not_sound_of_kept ?_
        intro hmem
        cases firstUses_eq responseCallback hmem
      · by_cases hend : packet.isEnd = true
        · -- a packet that ends the loop is looked at behind its release
          simp only [hstop, hend, if_true, Bool.true_eq_false, false_and, and_false, iff_false]
          exact Lifetime.not_sound_of_used (List.sublist_append_right _ _)
        · simp only [hstop, hend, true_and]
          rw [← ih (k + 1)]
          refine Lifetime.sound_lifetime_iff (fun e he => firstUses_eq responseCallback he) ?_
          intro e he heq
          exact absurd (tracedLoop_resource freed responseCallback he) (by omega)

/-- A loop that goes on returns -1, and reaches no packet with the flag. -/
theorem transactionLoop_goesOn {packets : List (Packet cfg)} {arg : τ}
    (h : GoesOn responseCallback packets arg) :
    (transactionLoop freed responseCallback packets arg).1 = -1 ∧
      endPacket responseCallback packets arg = none := by
  induction packets generalizing arg with
  | nil => exact ⟨rfl, rfl⟩
  | cons packet packets ih =>
      rcases h with ⟨hstop, hend, h⟩
      rw [transactionLoop_cons, endPacket, hstop, hend]
      exact ih h

/-- A transaction is sound exactly if it is not made, or no packet ends it before
`csp_read` returns `NULL`. -/
theorem transactionSound_iff (connected : Bool) (timeout : Int) (packets : List (Packet cfg))
    (arg : τ) :
    TransactionSound freed responseCallback connected timeout packets arg ↔
      connected = false ∨ timeout = -1 ∨ GoesOn responseCallback packets arg := by
  unfold TransactionSound tracedTransaction procTransaction
  by_cases hconnected : connected = false
  · rw [if_pos hconnected, if_pos hconnected, if_pos (.inl hconnected)]
    exact iff_of_true ⟨Lifetime.sound_nil, resultSound_none⟩ (.inl hconnected)
  · by_cases htimeout : timeout = -1
    · rw [if_neg hconnected, if_neg hconnected, if_pos htimeout, if_pos htimeout,
        if_pos (.inr htimeout)]
      exact iff_of_true ⟨Lifetime.sound_nil, resultSound_none⟩ (.inr (.inl htimeout))
    · rw [if_neg hconnected, if_neg hconnected, if_neg htimeout, if_neg htimeout,
        if_neg (by simp [hconnected, htimeout]), sound_tracedLoop_iff]
      constructor
      · intro h
        exact .inr (.inr h.1)
      · rintro (h | h | h)
        · exact absurd h hconnected
        · exact absurd h htimeout
        · rcases transactionLoop_goesOn freed responseCallback h with ⟨hret, hnone⟩
          refine ⟨h, ?_⟩
          rw [hret, hnone]
          exact resultSound_none

/-- If a packet that has been freed keeps its first byte, the result is always
that of the packet which is reached. -/
theorem transactionLoop_result
    (hfreed : ∀ packet : Packet cfg, (freed packet).byte 0 = packet.byte 0)
    (packets : List (Packet cfg)) (arg : τ) :
    ResultSound (endPacket responseCallback packets arg)
      (transactionLoop freed responseCallback packets arg).1 := by
  induction packets generalizing arg with
  | nil => exact resultSound_none
  | cons packet packets ih =>
      rw [transactionLoop_cons, endPacket]
      by_cases hstop : (respond responseCallback packet arg).1 = true
      · rw [if_pos hstop, if_pos hstop]
        exact resultSound_none
      · rw [if_neg hstop, if_neg hstop]
        by_cases hend : packet.isEnd = true
        · rw [if_pos hend, if_pos hend]
          simp only [ResultSound, Packet.errorFlag, hfreed]
        · rw [if_neg hend, if_neg hend]
          exact ih _

end Loop

/-- The answer to a request that went well. -/
def endReply : Packet .default := .ofBytes [0x81] [] (by decide)

/-- One answer ends a transaction that looks at it behind its release, and one
whose callback fails keeps it. -/
theorem ended_transaction_unsound :
    ¬ TransactionSound id (none : Option (Packet .default → Unit → Int × Unit)) true 1000
      [endReply] () ∧
    ¬ TransactionSound id (some fun _ _ => (-1, ())) true 1000 [endReply] () := by
  constructor
  · intro h
    have hgoes := (sound_tracedLoop_iff id none 0 [endReply] ()).mp h.1
    exact absurd hgoes.2.1 (by decide)
  · intro h
    have hgoes := (sound_tracedLoop_iff id (some fun _ _ => (-1, ())) 0 [endReply] ()).mp h.1
    exact absurd hgoes.1 (by decide)

end CspProc
