import CspProc.RoundTrip

/-! # Encode undoes decode

The other direction of the round trip: whatever bytes the decoder accepts, the
procedure it makes of them has just one encoding, and these bytes are it. So a
procedure that was decoded can be packed again, into the same bytes.
-/

namespace CspProc

variable {cfg : Config}

/-- The bytes `2 .. e - 1` of a packet. -/
def Packet.payload (packet : Packet cfg) (e : Nat) : List UInt8 := (packet.data.take e).drop 2

theorem Packet.payload_eq_take (packet : Packet cfg) (n : Nat) :
    packet.payload (2 + n) = (packet.data.drop 2).take n := by
  rw [payload, List.drop_take, Nat.add_sub_cancel_left]

/-- What the decoder has consumed when it accepts is the encoding. -/
theorem payload_of_unpacked {packet : Packet cfg} {p : Proc} {e : Nat}
    (h : unpackProcFromCspPacket cfg packet = some ⟨0, p, e⟩) :
    p.WellFormed cfg ∧ e = 2 + (Wire.procBytes cfg p).length ∧ e ≤ cfg.cspBufferSize ∧
      packet.payload e = Wire.procBytes cfg p := by
  rcases (unpackData_zero_iff packet.data p e).mp h with ⟨hp, hpre, rfl⟩
  have hlen := hpre.length_le
  have hd := packet.data_length
  have hhead := cfg.header_le
  rw [List.length_drop] at hlen
  refine ⟨hp, rfl, by omega, ?_⟩
  rw [packet.payload_eq_take]
  exact (List.prefix_iff_eq_take.mp hpre).symm

/-- What the encoder writes when it succeeds is the encoding. -/
theorem payload_of_packed {p : Proc} {packet packet' : Packet cfg}
    (h : packProcIntoCspPacket cfg p packet = some (0, packet')) :
    packet'.length = 2 + (Wire.procBytes cfg p).length ∧
      packet'.payload packet'.length = Wire.procBytes cfg p := by
  rcases @pack_cases cfg p with hnone | hrefused | ⟨hfit, hpack⟩
  · rw [hnone packet] at h
    cases h
  · rcases hrefused packet with ⟨q, hq⟩
    rw [hq] at h
    cases h
  · rw [hpack packet] at h
    cases h
    refine ⟨rfl, ?_⟩
    have hpre := procBytes_prefix_encoded packet p hfit
    rw [show (packet.encoded p hfit).length = 2 + _ from rfl, Packet.payload_eq_take]
    exact (List.prefix_iff_eq_take.mp hpre).symm

/-- A payload that starts with the encoding of a procedure starts with no
other: the encodings are prefix-free. -/
theorem procBytes_prefix_free {p q : Proc} (hp : p.WellFormed cfg) (hq : q.WellFormed cfg)
    (h : Wire.procBytes cfg p <+: Wire.procBytes cfg q) : p = q := by
  -- the decoder reads both off a buffer that holds the longer one
  have hdrop : (0 :: 0 :: Wire.procBytes cfg q).drop 2 = Wire.procBytes cfg q := rfl
  have hp' := (unpackData_zero_iff (0 :: 0 :: Wire.procBytes cfg q) p _).mpr
    ⟨hp, hdrop ▸ h, rfl⟩
  have hq' := (unpackData_zero_iff (0 :: 0 :: Wire.procBytes cfg q) q _).mpr
    ⟨hq, hdrop ▸ List.prefix_refl _, rfl⟩
  rw [hp'] at hq'
  exact congrArg Unpacked.procedure (Option.some.inj hq')

/-- Encode undoes decode, and what follows from it. -/
structure EncodeUndoesDecode (cfg : Config) : Prop where
  /-- A decoded procedure can be packed into any packet, with the length that
  the decoder stopped at and the bytes that it consumed. -/
  reencode : ∀ (packet : Packet cfg) (p : Proc) (e : Nat),
    unpackProcFromCspPacket cfg packet = some ⟨0, p, e⟩ →
    e ≤ cfg.cspBufferSize ∧ ∀ target : Packet cfg, ∃ packet',
      packProcIntoCspPacket cfg p target = some (0, packet') ∧ packet'.length = e ∧
      packet'.payload e = packet.payload e
  /-- Two packets that decode to one procedure agree on what is consumed. -/
  agree : ∀ (packet packet' : Packet cfg) (p : Proc) (e e' : Nat),
    unpackProcFromCspPacket cfg packet = some ⟨0, p, e⟩ →
    unpackProcFromCspPacket cfg packet' = some ⟨0, p, e'⟩ →
    e = e' ∧ packet.payload e = packet'.payload e'
  /-- No encoding is a prefix of another procedure's; in particular no two
  procedures have the same one. -/
  prefix_free : ∀ (p q : Proc) (packet packet' packet₁ packet₂ : Packet cfg),
    p.WellFormed cfg → q.WellFormed cfg →
    packProcIntoCspPacket cfg p packet = some (0, packet₁) →
    packProcIntoCspPacket cfg q packet' = some (0, packet₂) →
    packet₁.payload packet₁.length <+: packet₂.payload packet₂.length → p = q

theorem encode_undoes_decode (cfg : Config) : EncodeUndoesDecode cfg where
  reencode packet p e h := by
    rcases payload_of_unpacked h with ⟨hp, rfl, hfit, hbytes⟩
    refine ⟨hfit, ?_⟩
    intro target
    have hpack := pack_of_fits hp.known target hfit
    rcases payload_of_packed hpack with ⟨hlen, hpayload⟩
    exact ⟨target.encoded p hfit, hpack, hlen, hpayload.trans hbytes.symm⟩
  agree packet packet' p e e' h h' := by
    rcases payload_of_unpacked h with ⟨-, rfl, -, hbytes⟩
    rcases payload_of_unpacked h' with ⟨-, rfl, -, hbytes'⟩
    exact ⟨rfl, hbytes.trans hbytes'.symm⟩
  prefix_free p q packet packet' packet₁ packet₂ hp hq hpack hpack' hpre := by
    rw [(payload_of_packed hpack).2, (payload_of_packed hpack').2] at hpre
    exact procBytes_prefix_free hp hq hpre

end CspProc
