import CspProc.Lib.Bytes

/-! # Lawful prefix codecs

A `Codec` writes a value as bytes and reads it back from the front of a byte
list. Its two laws make it a bijection between valid values and their
encodings, and make the encodings prefix-free: what follows an encoding never
changes how it is read.

Codecs compose (`Codec.seq`, `Codec.replicate`), and `Codec.decodeAt` is the
view a C program has of them: decoding at an offset of a buffer and moving the
offset past what was read.
-/

/-- A prefix codec. `Valid` are the values the format can hold. -/
structure Codec (α : Type) where
  Valid : α → Prop
  encode : α → List UInt8
  decode : List UInt8 → Option (α × List UInt8)
  decode_encode : ∀ a rest, Valid a → decode (encode a ++ rest) = some (a, rest)
  encode_decode : ∀ bs a rest, decode bs = some (a, rest) → Valid a ∧ bs = encode a ++ rest

namespace Codec

variable {α β : Type}

/-! ## Basic codecs -/

/-- The empty format. -/
def unit : Codec Unit where
  Valid _ := True
  encode _ := []
  decode bs := some ((), bs)
  decode_encode := by
    intro a rest _
    rfl
  encode_decode := by
    intro bs a rest h
    simp only [Option.some.injEq, Prod.mk.injEq, true_and] at h
    exact ⟨trivial, by simpa using h⟩

/-- An unsigned number of `n` bytes, least significant byte first. -/
def uint (n : Nat) : Codec Nat where
  Valid v := v < 256 ^ n
  encode v := leBytes n v
  decode bs := if n ≤ bs.length then some (leValue (bs.take n), bs.drop n) else none
  decode_encode := by
    intro v rest hv
    have hlen : n ≤ (leBytes n v ++ rest).length := by simp
    rw [if_pos hlen, List.take_left' (leBytes_length n v), List.drop_left' (leBytes_length n v),
      leValue_leBytes n v hv]
  encode_decode := by
    intro bs v rest h
    split at h
    · rename_i hlen
      simp only [Option.some.injEq, Prod.mk.injEq] at h
      rcases h with ⟨rfl, rfl⟩
      have htake : (bs.take n).length = n := by simp [hlen]
      constructor
      · have hlt := leValue_lt (bs.take n)
        rwa [htake] at hlt
      · have hback := leBytes_leValue (bs.take n)
        rw [htake] at hback
        rw [hback, List.take_append_drop]
    · cases h

/-- A NUL-terminated string. -/
def cstr : Codec CStr where
  Valid _ := True
  encode s := s.withNul
  decode bs := (ByteBuf.strAt bs 0).map fun s => (s, bs.drop (s.strlen + 1))
  decode_encode := by
    intro s rest _
    rw [ByteBuf.strAt_withNul, Option.map_some, List.drop_left' s.withNul_length]
  encode_decode := by
    intro bs s rest h
    simp only [Option.map_eq_some_iff, Prod.mk.injEq] at h
    rcases h with ⟨t, hstr, rfl, rfl⟩
    rcases ByteBuf.strAt_split hstr with ⟨tail, htail⟩
    refine ⟨trivial, ?_⟩
    rw [htail, List.drop_left' t.withNul_length]

/-! ## Composition -/

/-- One format after the other. -/
def seq (c : Codec α) (d : Codec β) : Codec (α × β) where
  Valid p := c.Valid p.1 ∧ d.Valid p.2
  encode p := c.encode p.1 ++ d.encode p.2
  decode bs := do
    let (a, bs) ← c.decode bs
    let (b, bs) ← d.decode bs
    return ((a, b), bs)
  decode_encode := by
    rintro ⟨a, b⟩ rest ⟨ha, hb⟩
    simp only [List.append_assoc, c.decode_encode a _ ha, d.decode_encode b _ hb,
      Option.bind_eq_bind, Option.bind_some, pure]
  encode_decode := by
    rintro bs ⟨a, b⟩ rest h
    simp only [Option.bind_eq_bind, Option.bind_eq_some_iff, Prod.exists, pure,
      Option.some.injEq, Prod.mk.injEq] at h
    rcases h with ⟨a', bs', hc, b', bs'', hd, ⟨rfl, rfl⟩, rfl⟩
    rcases c.encode_decode _ _ _ hc with ⟨ha, rfl⟩
    rcases d.encode_decode _ _ _ hd with ⟨hb, rfl⟩
    exact ⟨⟨ha, hb⟩, by simp⟩

/-- The same bytes read as another type. `g` recovers what `f` was applied
to; a value that is no image of `f` cannot be held. -/
def iso (c : Codec α) (f : α → β) (g : β → α) (hgf : ∀ a, c.Valid a → g (f a) = a) :
    Codec β where
  Valid b := c.Valid (g b) ∧ f (g b) = b
  encode b := c.encode (g b)
  decode bs := (c.decode bs).map fun r => (f r.1, r.2)
  decode_encode := by
    rintro b rest ⟨hv, hb⟩
    rw [c.decode_encode (g b) rest hv, Option.map_some, hb]
  encode_decode := by
    intro bs b rest h
    simp only [Option.map_eq_some_iff, Prod.mk.injEq, Prod.exists] at h
    rcases h with ⟨a, rest', hd, rfl, rfl⟩
    rcases c.encode_decode bs a rest' hd with ⟨hv, hbs⟩
    rw [hgf a hv]
    exact ⟨⟨hv, rfl⟩, hbs⟩

/-- The format that holds no value. -/
def empty : Codec α where
  Valid _ := False
  encode _ := []
  decode _ := none
  decode_encode := by
    intro a rest h
    exact h.elim
  encode_decode := by
    intro bs a rest h
    cases h

/-- A tag followed by the body format that the tag selects. -/
def tagged {τ : Type} (c : Codec τ) (tag : β → τ) (body : τ → Codec β)
    (htag : ∀ t b, c.Valid t → (body t).Valid b → tag b = t) : Codec β where
  Valid b := c.Valid (tag b) ∧ (body (tag b)).Valid b
  encode b := c.encode (tag b) ++ (body (tag b)).encode b
  decode bs := (c.decode bs).bind fun r => (body r.1).decode r.2
  decode_encode := by
    rintro b rest ⟨ht, hb⟩
    rw [List.append_assoc, c.decode_encode _ _ ht, Option.bind_some,
      (body (tag b)).decode_encode b rest hb]
  encode_decode := by
    intro bs b rest h
    simp only [Option.bind_eq_some_iff, Prod.exists] at h
    rcases h with ⟨t, bs', hc, hd⟩
    rcases c.encode_decode _ _ _ hc with ⟨ht, rfl⟩
    rcases (body t).encode_decode _ _ _ hd with ⟨hb, rfl⟩
    have htb := htag t b ht hb
    rw [htb, List.append_assoc]
    exact ⟨⟨ht, hb⟩, rfl⟩

/-! ## Decoding at an offset -/

/-- Decode at an offset of a buffer and move past the bytes read. -/
def decodeAt (c : Codec α) (buf : List UInt8) (off : Nat) : Option (α × Nat) :=
  (c.decode (buf.drop off)).map fun r => (r.1, off + (c.encode r.1).length)

/-- Decoding two formats in a row at an offset. -/
theorem decodeAt_seq (c : Codec α) (d : Codec β) (buf : List UInt8) (off : Nat) :
    (c.seq d).decodeAt buf off =
      (c.decodeAt buf off).bind fun p =>
        (d.decodeAt buf p.2).map fun q => ((p.1, q.1), q.2) := by
  unfold decodeAt
  cases hc : c.decode (buf.drop off) with
  | none => simp [seq, hc]
  | some r =>
      rcases r with ⟨a, rest⟩
      rcases c.encode_decode _ _ _ hc with ⟨_, hsplit⟩
      have hrest : buf.drop (off + (c.encode a).length) = rest := by
        rw [← List.drop_drop, hsplit, List.drop_left]
      cases hd : d.decode rest with
      | none => simp [seq, hc, hd, hrest]
      | some q => simp [seq, hc, hd, hrest, Nat.add_assoc]

/-- Decoding at an offset, read as another type. -/
theorem decodeAt_iso (c : Codec α) (f : α → β) (g : β → α) (hgf : ∀ a, c.Valid a → g (f a) = a)
    (buf : List UInt8) (off : Nat) :
    (c.iso f g hgf).decodeAt buf off = (c.decodeAt buf off).map fun r => (f r.1, r.2) := by
  simp only [decodeAt, iso]
  cases hd : c.decode (buf.drop off) with
  | none => rfl
  | some r =>
      rcases r with ⟨a, rest⟩
      have hv := (c.encode_decode _ _ _ hd).1
      simp only [Option.map_some, hgf a hv]

/-- Decoding a tag and then its body at an offset. -/
theorem decodeAt_tagged {τ : Type} (c : Codec τ) (tag : β → τ) (body : τ → Codec β)
    (htag : ∀ t b, c.Valid t → (body t).Valid b → tag b = t) (buf : List UInt8) (off : Nat) :
    (c.tagged tag body htag).decodeAt buf off =
      (c.decodeAt buf off).bind fun r => (body r.1).decodeAt buf r.2 := by
  unfold decodeAt
  cases hc : c.decode (buf.drop off) with
  | none => simp [tagged, hc]
  | some r =>
      rcases r with ⟨t, rest⟩
      rcases c.encode_decode _ _ _ hc with ⟨ht, hsplit⟩
      have hrest : buf.drop (off + (c.encode t).length) = rest := by
        rw [← List.drop_drop, hsplit, List.drop_left]
      cases hd : (body t).decode rest with
      | none => simp [tagged, hc, hd, hrest]
      | some q =>
          rcases q with ⟨b, rest'⟩
          have htb := htag t b ht ((body t).encode_decode _ _ _ hd).1
          simp [tagged, hc, hd, hrest, htb, Nat.add_assoc]

/-- Decoding at an offset, in terms of what stands there. -/
theorem decodeAt_eq_some_iff (c : Codec α) (buf : List UInt8) (off off' : Nat) (a : α) :
    c.decodeAt buf off = some (a, off') ↔
      c.Valid a ∧ c.encode a <+: buf.drop off ∧ off' = off + (c.encode a).length := by
  unfold decodeAt
  constructor
  · intro h
    simp only [Option.map_eq_some_iff, Prod.mk.injEq, Prod.exists] at h
    rcases h with ⟨a', rest, hd, rfl, rfl⟩
    rcases c.encode_decode _ _ _ hd with ⟨hv, hsplit⟩
    exact ⟨hv, ⟨rest, hsplit.symm⟩, rfl⟩
  · rintro ⟨hv, ⟨rest, hsplit⟩, rfl⟩
    rw [← hsplit, c.decode_encode a rest hv]
    rfl

/-- `memcpy` of a number out of a buffer decodes it. -/
theorem decodeAt_uint (n : Nat) (hn : 0 < n) (buf : List UInt8) (off : Nat) :
    (uint n).decodeAt buf off = (ByteBuf.read buf off n).map fun bs => (leValue bs, off + n) := by
  unfold decodeAt uint ByteBuf.read
  have hlen : n ≤ (buf.drop off).length ↔ off + n ≤ buf.length := by
    simp only [List.length_drop]
    omega
  simp only [hlen]
  by_cases hfit : off + n ≤ buf.length
  · simp [hfit]
  · simp [hfit]

/-- `strdup` and `strlen` at an offset of a buffer decode the string there. -/
theorem decodeAt_cstr (buf : List UInt8) (off : Nat) :
    cstr.decodeAt buf off = (ByteBuf.strAt buf off).map fun s => (s, off + (s.strlen + 1)) := by
  have hchars : ByteBuf.charsAt (buf.drop off) 0 = ByteBuf.charsAt buf off := by
    simp [ByteBuf.charsAt]
  have hfit : (0 + (ByteBuf.charsAt buf off).length < (buf.drop off).length) ↔
      (off + (ByteBuf.charsAt buf off).length < buf.length) := by
    simp only [List.length_drop]
    omega
  unfold decodeAt cstr ByteBuf.strAt
  simp only [hchars, hfit]
  by_cases h : off + (ByteBuf.charsAt buf off).length < buf.length
  · simp [h]
  · simp [h]

end Codec
