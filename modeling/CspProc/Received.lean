import CspProc.Replies

/-! # What the server looks at

A handler may use only the bytes of the request, `data[0 .. length - 1]`; what
stands behind them in the buffer is left over from earlier packets. The
handlers do not check `packet->length`, so this holds exactly for requests
that carry every byte their handler reads (`Complete`).
-/

namespace CspProc

variable {cfg : Config}

/-! ## Complete requests -/

/-- The bytes start with a count and that many instructions, or those up to
the first one of unknown type. -/
def HoldsProcedure (cfg : Config) (bs : List UInt8) : Prop :=
  ∃ (count : UInt8) (ret : Int) (l : List ProcInstruction),
    Wire.Stops count.toNat ret l ∧ (∀ ins ∈ l, (Wire.procInstruction cfg).Valid ins) ∧
    count :: Wire.instructionBytes cfg l <+: bs

/-- The received bytes contain everything that the request's handler reads: a
type, the slot where there is one, and for a push the procedure, unless there
is no memory to decode it into. -/
def Complete (env : Env) (packet : Packet cfg) : Prop :=
  match packet.type with
  | some .delRequest | some .pullRequest | some .runRequest => 2 ≤ packet.length
  | some .pushRequest =>
      if env.malloc = true then HoldsProcedure cfg (packet.received.drop 2)
      else 1 ≤ packet.length
  | _ => 1 ≤ packet.length

/-- The decoder never gets past the received bytes exactly when it could do
with them alone. -/
theorem unpackData_received_iff (packet : Packet cfg) (u : Unpacked) :
    unpackData cfg packet.received = some u ↔
      unpackData cfg packet.data = some u ∧ u.offset ≤ packet.length := by
  have hpre : ∀ (count : UInt8) (bs : List UInt8), count :: bs <+: packet.received.drop 2 ↔
      count :: bs <+: packet.data.drop 2 ∧ 3 + bs.length ≤ packet.length := by
    intro count bs
    -- two header bytes are in front of it, and the count
    rw [Packet.received, List.drop_take, List.prefix_take_iff, List.length_cons]
    constructor
    · rintro ⟨h, hlen⟩
      exact ⟨h, by omega⟩
    · rintro ⟨h, hlen⟩
      exact ⟨h, by omega⟩
  simp only [Wire.unpackData_iff, hpre]
  constructor
  · rintro ⟨count, hs, hv, ⟨h, hlen⟩, hoff⟩
    exact ⟨⟨count, hs, hv, h, hoff⟩, by omega⟩
  · rintro ⟨⟨count, hs, hv, h, hoff⟩, hlen⟩
    exact ⟨count, hs, hv, ⟨h, by omega⟩, hoff⟩

theorem holdsProcedure_iff (packet : Packet cfg) :
    HoldsProcedure cfg (packet.received.drop 2) ↔
      ∃ u, unpackData cfg packet.received = some u := by
  simp only [Wire.unpackData_iff]
  constructor
  · rintro ⟨count, ret, l, hs, hv, hpre⟩
    have hlen : l.length ≤ maxInstructions := by
      have hle := hs.length_le
      have hlt := count.toNat_lt
      simp only [maxInstructions]
      omega
    exact ⟨⟨ret, ⟨l, hlen⟩, 3 + (Wire.instructionBytes cfg l).length⟩, count, hs, hv, hpre, rfl⟩
  · rintro ⟨u, count, hs, hv, hpre, -⟩
    exact ⟨count, u.ret, u.procedure.instructions, hs, hv, hpre⟩

theorem HoldsProcedure.length_ge {packet : Packet cfg}
    (h : HoldsProcedure cfg (packet.received.drop 2)) : 3 ≤ packet.length := by
  rcases h with ⟨count, ret, l, -, -, hpre⟩
  have hle := hpre.length_le
  simp only [List.length_cons, List.length_drop, Packet.received_length] at hle
  omega

theorem Complete.length_pos {env : Env} {packet : Packet cfg} (hc : Complete env packet) :
    1 ≤ packet.length := by
  unfold Complete at hc
  split at hc
  · omega
  · omega
  · omega
  · split at hc
    · have hle := hc.length_ge
      omega
    · exact hc
  · exact hc

/-- The bytes a push handler looks at. -/
theorem used_push (env : Env) (store : Store) (packet : Packet cfg) :
    (procServePushRequest env store packet).used =
      if env.malloc = true then
        match unpackData cfg packet.data with
        | none => cfg.cspBufferSize + 1
        | some u => u.offset
      else 1 := by
  unfold procServePushRequest unpackProcFromCspPacket
  cases env.malloc with
  | false => rfl
  | true =>
      cases unpackData cfg packet.data with
      | none => rfl
      | some u =>
          simp only [reduceCtorEq, if_false, if_true]
          split
          · rfl
          · split <;> rfl

/-- A handler has used no more than the received bytes exactly on complete
requests. -/
theorem used_le_iff (env : Env) (store : Store) (packet : Packet cfg) :
    (procServe env store packet).used ≤ packet.length ↔ Complete env packet := by
  unfold procServe Complete
  generalize packet.type = type
  match type with
  | some .delRequest => exact Iff.rfl
  | some .pullRequest => exact Iff.rfl
  | some .pushRequest =>
      simp only [used_push]
      cases env.malloc with
      | false => exact Iff.rfl
      | true =>
          have hlen := packet.length_le
          simp only [if_true, holdsProcedure_iff, unpackData_received_iff]
          cases unpackData cfg packet.data with
          | none =>
              -- the decoder went past the buffer, and no packet is longer than that
              refine iff_of_false ?_ (by simp)
              simp only
              omega
          | some u => simp
  | some .slotsRequest => exact Iff.rfl
  | some .runRequest => exact Iff.rfl
  | none | some .delResponse | some .pullResponse | some .pushResponse | some .slotsResponse
  | some .runResponse => exact Iff.rfl

/-! ## Two packets with the same received bytes -/

theorem byte_eq_of_received {packet packet' : Packet cfg} (h : packet.received = packet'.received)
    {i : Nat} (hi : i < packet.length) : packet.byte i = packet'.byte i := by
  obtain ⟨b, hget⟩ : ∃ b, packet.received[i]? = some b :=
    ⟨_, List.getElem?_eq_getElem (by simpa using hi)⟩
  rw [Packet.byte_of_received hget, Packet.byte_of_received (h ▸ hget)]

/-- A complete request is served the same whatever stands behind its bytes. -/
theorem outcome_eq_of_received (env : Env) (store : Store) {packet packet' : Packet cfg}
    (hc : Complete env packet) (h : packet.received = packet'.received) :
    (procServe env store packet).outcome = (procServe env store packet').outcome := by
  have hpos := hc.length_pos
  have htype : packet.type = packet'.type := by
    unfold Packet.type
    rw [byte_eq_of_received h hpos]
  unfold Complete at hc
  unfold procServe
  rw [← htype]
  generalize packet.type = type at hc
  match type with
  | some .delRequest => simp only [outcome_del, byte_eq_of_received h hc]
  | some .pullRequest => exact outcome_pull_congr env store (byte_eq_of_received h hc)
  | some .pushRequest =>
      cases hm : env.malloc with
      | false => simp only [outcome_push_leak env store _ hm]
      | true =>
          simp only [hm, if_true] at hc
          -- the decoder stays within the bytes that both packets have
          rcases (holdsProcedure_iff packet).mp hc with ⟨u, hu⟩
          have hu' : unpackData cfg packet'.received = some u := h ▸ hu
          rw [unpackData_received_iff] at hu hu'
          have hlen := hc.length_ge
          simp only [outcome_push env store _ hm, hu.1, hu'.1,
            byte_eq_of_received h (by omega : 1 < packet.length)]
  | some .slotsRequest => simp only [outcome_slots]
  | some .runRequest => simp only [outcome_run, byte_eq_of_received h hc]
  | none | some .delResponse | some .pullResponse | some .pushResponse | some .slotsResponse
  | some .runResponse => rfl

/-- The server looks at received bytes only: none of the bytes it uses stands
behind them, and another packet with the same received bytes leads to the same
store and the same reply. -/
def LooksAtReceived (env : Env) (store : Store) (packet : Packet cfg) : Prop :=
  (procServe env store packet).used ≤ packet.length ∧
  ∀ packet' : Packet cfg, packet.received = packet'.received →
    (procServe env store packet).outcome = (procServe env store packet').outcome

/-- That is so exactly for complete requests. -/
theorem looksAtReceived_iff (env : Env) (store : Store) (packet : Packet cfg) :
    LooksAtReceived env store packet ↔ Complete env packet := by
  constructor
  · rintro ⟨hused, -⟩
    exact (used_le_iff env store packet).mp hused
  · intro hc
    refine ⟨(used_le_iff env store packet).mpr hc, ?_⟩
    intro packet' h
    exact outcome_eq_of_received env store hc h

/-- A push to slot 7 of which only the two header bytes were received, with
the rest of an earlier packet behind them. -/
def truncatedPush (stale : List UInt8) : Packet .default :=
  .ofBytes [0x84, 7] stale (by decide)

/-- The stale bytes are decoded and stored: behind the same two received bytes
one packet holds a procedure with one `noop`, the other an empty one. -/
theorem truncatedPush_looks_further :
    (truncatedPush [1, 0, 0, 6]).received = (truncatedPush []).received ∧
    (truncatedPush [1, 0, 0, 6]).length <
      (procServe .working .init (truncatedPush [1, 0, 0, 6])).used ∧
    (procServe .working .init (truncatedPush [1, 0, 0, 6])).outcome ≠
      (procServe .working .init (truncatedPush [])).outcome := by
  refine ⟨by decide, by decide +kernel, ?_⟩
  intro h
  have hslot := congrArg (fun o => o.map fun o => o.1 7) h
  revert hslot
  decide +kernel

end CspProc
