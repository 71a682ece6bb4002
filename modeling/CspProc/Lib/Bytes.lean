import Mathlib.Data.List.TakeWhile
import Mathlib.Tactic.Ring

/-! # Byte buffers, little-endian numbers and C strings

The memory operations of a C program on a fixed byte buffer, as partial
functions on lists: a read or a write that leaves the buffer has no result.
Nothing here is about one program.

* `ByteBuf.write` / `ByteBuf.read` — `memcpy` into and out of a buffer;
* `ByteBuf.strAt` — the NUL-terminated string that starts at an offset;
* `leBytes` / `leValue` — unsigned numbers, least significant byte first;
* `CStr` — the contents of a C string, with NUL-freeness as a field;
* `Dilated` — the same bytes with zeros put in between.
-/

/-! ## C strings -/

/-- The characters of a C string, its terminating NUL not included. -/
structure CStr where
  bytes : List UInt8
  nulFree : 0 ∉ bytes
deriving DecidableEq, Repr

namespace CStr

/-- The empty string. -/
def nil : CStr := ⟨[], List.not_mem_nil⟩

/-- A string that is written out. -/
def ofBytes (bytes : List UInt8) (h : bytes.contains 0 = false) : CStr :=
  ⟨bytes, fun hmem => by rw [List.contains_iff_mem.mpr hmem] at h; cases h⟩

/-- `strlen`. -/
def strlen (s : CStr) : Nat := s.bytes.length

/-- The string in memory: its characters and the terminating NUL. -/
def withNul (s : CStr) : List UInt8 := s.bytes ++ [0]

@[simp] theorem withNul_length (s : CStr) : s.withNul.length = s.strlen + 1 := by
  simp [withNul, strlen]

@[ext] theorem ext {s t : CStr} (h : s.bytes = t.bytes) : s = t := by
  cases s
  cases t
  simpa using h

end CStr

/-! ## Little-endian numbers -/

/-- The `n` low bytes of `v`, least significant first. -/
def leBytes : Nat → Nat → List UInt8
  | 0, _ => []
  | n + 1, v => UInt8.ofNat v :: leBytes n (v / 256)

/-- The number whose bytes, least significant first, are given. -/
def leValue : List UInt8 → Nat
  | [] => 0
  | b :: bs => b.toNat + 256 * leValue bs

@[simp] theorem leBytes_length (n v : Nat) : (leBytes n v).length = n := by
  induction n generalizing v with
  | zero => rfl
  | succ n ih => simp [leBytes, ih]

theorem leValue_lt (bs : List UInt8) : leValue bs < 256 ^ bs.length := by
  induction bs with
  | nil => simp [leValue]
  | cons b bs ih =>
      have hb : b.toNat < 256 := b.toNat_lt
      simp only [leValue, List.length_cons, Nat.pow_succ]
      omega

/-- Reading back the bytes of a number that fits gives the number. -/
theorem leValue_leBytes (n v : Nat) (hv : v < 256 ^ n) : leValue (leBytes n v) = v := by
  induction n generalizing v with
  | zero =>
      simp only [Nat.pow_zero] at hv
      simp only [leBytes, leValue]
      omega
  | succ n ih =>
      have hdiv : v / 256 < 256 ^ n := by
        rw [Nat.pow_succ] at hv
        exact Nat.div_lt_of_lt_mul (by omega)
      have hlow : (UInt8.ofNat v).toNat = v % 256 := by simp
      simp only [leBytes, leValue, ih (v / 256) hdiv, hlow]
      omega

/-- Writing out the value of some bytes gives these bytes. -/
theorem leBytes_leValue (bs : List UInt8) : leBytes bs.length (leValue bs) = bs := by
  induction bs with
  | nil => rfl
  | cons b bs ih =>
      have hb : b.toNat < 256 := b.toNat_lt
      have hlow : UInt8.ofNat (b.toNat + 256 * leValue bs) = b := by
        apply UInt8.toNat_inj.mp
        simp only [UInt8.toNat_ofNat']
        omega
      have hhigh : (b.toNat + 256 * leValue bs) / 256 = leValue bs := by omega
      simp only [List.length_cons, leBytes, leValue, hlow, hhigh, ih]

/-! ## Buffers -/

namespace ByteBuf

/-- `memcpy(buf + off, bs, n)`: overwrite the bytes from `off` on; no result
when the range leaves the buffer. -/
def write (buf : List UInt8) (off : Nat) (bs : List UInt8) : Option (List UInt8) :=
  if off + bs.length ≤ buf.length then
    some (buf.take off ++ bs ++ buf.drop (off + bs.length))
  else none

/-- `memcpy(dst, buf + off, n)`: the `n` bytes from `off` on. -/
def read (buf : List UInt8) (off n : Nat) : Option (List UInt8) :=
  if off + n ≤ buf.length then some ((buf.drop off).take n) else none

/-- The characters from `off` up to the first NUL. -/
def charsAt (buf : List UInt8) (off : Nat) : List UInt8 :=
  (buf.drop off).takeWhile (fun b => decide (b ≠ 0))

theorem charsAt_nulFree (buf : List UInt8) (off : Nat) : 0 ∉ charsAt buf off := by
  intro h
  have hne := List.mem_takeWhile_imp h
  simp at hne

/-- The C string that starts at `off`; no result when no NUL follows in the
buffer. -/
def strAt (buf : List UInt8) (off : Nat) : Option CStr :=
  if off + (charsAt buf off).length < buf.length then
    some ⟨charsAt buf off, charsAt_nulFree buf off⟩
  else none

/-- A write keeps the buffer's size. -/
theorem write_length {buf bs out : List UInt8} {off : Nat} (h : write buf off bs = some out) :
    out.length = buf.length := by
  unfold write at h
  split at h
  · cases h
    simp only [List.length_append, List.length_take, List.length_drop]
    omega
  · cases h

/-- Two writes one after the other are one write of both pieces. -/
theorem write_append (buf : List UInt8) (off : Nat) (as bs : List UInt8) :
    (write buf off as).bind (fun b => write b (off + as.length) bs) = write buf off (as ++ bs) := by
  by_cases hfit : off + (as.length + bs.length) ≤ buf.length
  · have ha : off + as.length ≤ buf.length := by omega
    have hmid : (buf.take off ++ as ++ buf.drop (off + as.length)).length = buf.length := by
      simp only [List.length_append, List.length_take, List.length_drop]
      omega
    have hpre : (buf.take off ++ as).length = off + as.length := by
      simp only [List.length_append, List.length_take]
      omega
    have htake : (buf.take off ++ as ++ buf.drop (off + as.length)).take (off + as.length)
        = buf.take off ++ as := List.take_left' hpre
    have hdrop : (buf.take off ++ as ++ buf.drop (off + as.length)).drop
        (off + as.length + bs.length) = buf.drop (off + (as.length + bs.length)) := by
      rw [List.drop_append, List.drop_of_length_le (by omega), List.nil_append, List.drop_drop]
      congr 1
      omega
    rw [write, if_pos ha, Option.bind_some, write, if_pos (by omega), write,
      if_pos (by simpa using hfit), htake, hdrop]
    simp [List.append_assoc]
  · have hno : write buf off (as ++ bs) = none := by
      rw [write, if_neg (by simpa using hfit)]
    rw [hno]
    by_cases ha : off + as.length ≤ buf.length
    · have hmid : (buf.take off ++ as ++ buf.drop (off + as.length)).length = buf.length := by
        simp only [List.length_append, List.length_take, List.length_drop]
        omega
      rw [write, if_pos ha, Option.bind_some, write, if_neg (by omega)]
    · rw [write, if_neg ha]
      rfl

/-- Two pieces stand at an offset one after the other exactly when each stands
at its own offset. -/
theorem append_prefix_drop_iff (as bs buf : List UInt8) (off : Nat) :
    as ++ bs <+: buf.drop off ↔ as <+: buf.drop off ∧ bs <+: buf.drop (off + as.length) := by
  constructor
  · rintro ⟨t, ht⟩
    rw [List.append_assoc] at ht
    refine ⟨⟨bs ++ t, ht⟩, ⟨t, ?_⟩⟩
    rw [← List.drop_drop, ← ht, List.drop_left]
  · rintro ⟨⟨t, ht⟩, ⟨u, hu⟩⟩
    refine ⟨u, ?_⟩
    rw [← List.drop_drop, ← ht, List.drop_left] at hu
    rw [List.append_assoc, hu, ht]

/-- A string written with its NUL is found again. -/
theorem strAt_withNul (s : CStr) (rest : List UInt8) : strAt (s.withNul ++ rest) 0 = some s := by
  have hchars : charsAt (s.withNul ++ rest) 0 = s.bytes := by
    unfold charsAt CStr.withNul
    rw [List.drop_zero, List.append_assoc, List.takeWhile_append_of_pos]
    · simp
    · intro b hb
      have hne : b ≠ 0 := fun h0 => s.nulFree (h0 ▸ hb)
      simpa using hne
  have hfit : 0 + (charsAt (s.withNul ++ rest) 0).length < (s.withNul ++ rest).length := by
    rw [hchars, List.length_append, CStr.withNul_length, CStr.strlen]
    omega
  unfold strAt
  rw [if_pos hfit]
  exact congrArg some (CStr.ext hchars)

/-- A string that is found stands in the buffer with its NUL. -/
theorem strAt_split {buf : List UInt8} {s : CStr} (h : strAt buf 0 = some s) :
    ∃ rest, buf = s.withNul ++ rest := by
  unfold strAt at h
  split at h
  · rename_i hfit
    cases h
    have hsplit : charsAt buf 0 ++ buf.dropWhile (fun b => decide (b ≠ 0)) = buf := by
      unfold charsAt
      rw [List.drop_zero, List.takeWhile_append_dropWhile]
    have hne : buf.dropWhile (fun b => decide (b ≠ 0)) ≠ [] := by
      intro hnil
      have hlen := congrArg List.length hsplit
      rw [hnil, List.append_nil] at hlen
      omega
    -- the byte after the characters is the NUL that stopped the scan
    have hstop := List.head_dropWhile_not (fun b : UInt8 => decide (b ≠ 0)) hne
    rcases List.exists_cons_of_ne_nil hne with ⟨b, rest, hcons⟩
    have hb : b = 0 := by
      simp only [hcons, List.head_cons] at hstop
      simpa using hstop
    subst hb
    rw [hcons] at hsplit
    exact ⟨rest, by simpa [CStr.withNul] using hsplit.symm⟩
  · cases h

end ByteBuf

/-! ## Dilated byte strings -/

/-- The second list is the first with zeros put in between. -/
inductive Dilated : List UInt8 → List UInt8 → Prop where
  | nil : Dilated [] []
  | cons (b : UInt8) {as bs : List UInt8} : Dilated as bs → Dilated (b :: as) (b :: bs)
  | zero {as bs : List UInt8} : Dilated as bs → Dilated as (0 :: bs)

namespace Dilated

variable {as bs : List UInt8}

/-- The same bytes in front of both. -/
theorem append_left (h : Dilated as bs) (cs : List UInt8) : Dilated (cs ++ as) (cs ++ bs) := by
  induction cs with
  | nil => exact h
  | cons c cs ih => exact .cons c ih

/-- Zeros in front of the second. -/
theorem zeros (h : Dilated as bs) (n : Nat) : Dilated as (List.replicate n 0 ++ bs) := by
  induction n with
  | zero => exact h
  | succ n ih => exact .zero ih

theorem replicate_append_cons (n : Nat) (b : UInt8) (bs : List UInt8) :
    List.replicate n b ++ b :: bs = List.replicate (n + 1) b ++ bs := by
  rw [List.replicate_succ', List.append_assoc, List.singleton_append]

/-- Once a zero has come in between, only zeros can still be a prefix. -/
theorem prefix_zeros_iff (h : Dilated as bs) (n : Nat) :
    as <+: List.replicate (n + 1) 0 ++ bs ↔ ∀ b ∈ as, b = 0 := by
  induction h generalizing n with
  | nil => simp
  | cons b _ ih =>
      simp only [List.replicate_succ, List.cons_append, List.cons_prefix_cons, List.mem_cons,
        forall_eq_or_imp]
      constructor
      · rintro ⟨rfl, hpre⟩
        rw [replicate_append_cons] at hpre
        exact ⟨rfl, (ih n).mp hpre⟩
      · rintro ⟨rfl, hall⟩
        rw [replicate_append_cons]
        exact ⟨rfl, (ih n).mpr hall⟩
  | zero _ ih =>
      rw [replicate_append_cons]
      exact ih (n + 1)

end Dilated

theorem take_leBytes {k n : Nat} (hle : k ≤ n) (v : Nat) :
    (leBytes n v).take k = leBytes k v := by
  induction k generalizing n v with
  | zero => rfl
  | succ k ih =>
      cases n with
      | zero => exact absurd hle (Nat.not_succ_le_zero k)
      | succ n =>
          rw [leBytes, List.take_succ_cons, ih (Nat.le_of_succ_le_succ hle), leBytes]

/-- The number that bytes stand for. -/
theorem leValue_leBytes_mod (n v : Nat) : leValue (leBytes n v) = v % 256 ^ n := by
  have hmod : leBytes n v = leBytes n (v % 256 ^ n) := by
    induction n generalizing v with
    | zero => rfl
    | succ n ih =>
        have hdiv : v % 256 ^ (n + 1) / 256 = v / 256 % 256 ^ n := by
          rw [Nat.pow_succ', Nat.mod_mul_right_div_self]
        have hbyte : v % 256 ^ (n + 1) % 256 = v % 256 :=
          Nat.mod_mod_of_dvd v (Dvd.intro_left (256 ^ n) rfl)
        simp only [leBytes]
        rw [hdiv, ← ih (v / 256)]
        congr 1
        apply UInt8.toNat_inj.mp
        simp [hbyte]
  rw [hmod, leValue_leBytes n _ (Nat.mod_lt _ (Nat.pow_pos (by decide)))]

/-- The number that the leading bytes stand for. -/
theorem leValue_take (bs : List UInt8) (k : Nat) : leValue (bs.take k) = leValue bs % 256 ^ k := by
  rcases Nat.le_total k bs.length with hle | hle
  · rw [← leBytes_leValue bs, take_leBytes hle, leBytes_leValue, leValue_leBytes_mod]
  · have hlt : leValue bs < 256 ^ k :=
      lt_of_lt_of_le (leValue_lt bs) (Nat.pow_le_pow_right (by decide) hle)
    rw [List.take_of_length_le hle, Nat.mod_eq_of_lt hlt]

theorem leValue_zeros (k : Nat) : leValue (List.replicate k 0) = 0 := by
  induction k with
  | zero => rfl
  | succ k ih => simp [List.replicate_succ, leValue, ih]

theorem leValue_append_zeros (bs : List UInt8) (k : Nat) :
    leValue (bs ++ List.replicate k 0) = leValue bs := by
  induction bs with
  | nil => exact leValue_zeros k
  | cons b bs ih => rw [List.cons_append, leValue, leValue, ih]

/-- The leading bytes of a buffer with `n` bytes of a number and zeros behind them. -/
theorem leValue_take_leBytes {m n k : Nat} (hm : m ≤ n + k) (v : Nat) :
    leValue ((leBytes n v ++ List.replicate k 0).take m) = v % 256 ^ n % 256 ^ m := by
  rcases Nat.le_total m n with hle | hle
  · rw [List.take_append_of_le_length (by simpa using hle), take_leBytes hle, leValue_leBytes_mod]
    exact (Nat.mod_mod_of_dvd v (pow_dvd_pow 256 hle)).symm
  · have htake : (leBytes n v ++ List.replicate k 0).take m =
        leBytes n v ++ List.replicate (m - n) 0 := by
      rw [List.take_append, List.take_of_length_le (by simpa using hle), leBytes_length,
        List.take_replicate, Nat.min_eq_left (by omega)]
    have hlt : v % 256 ^ n < 256 ^ m :=
      lt_of_lt_of_le (Nat.mod_lt _ (Nat.pow_pos (by decide)))
        (Nat.pow_le_pow_right (by decide) hle)
    rw [htake, leValue_append_zeros, leValue_leBytes_mod, Nat.mod_eq_of_lt hlt]

theorem leBytes_zero (k : Nat) : leBytes k 0 = List.replicate k 0 := by
  induction k with
  | zero => rfl
  | succ k ih => simp [leBytes, ih, List.replicate_succ]

/-- A number written with more bytes has zeros behind it. -/
theorem leBytes_add (n k v : Nat) (hv : v < 256 ^ n) :
    leBytes (n + k) v = leBytes n v ++ List.replicate k 0 := by
  induction n generalizing v with
  | zero =>
      obtain rfl : v = 0 := by simpa using hv
      rw [Nat.zero_add, leBytes_zero]
      rfl
  | succ n ih =>
      have hdiv : v / 256 < 256 ^ n := by
        rw [Nat.pow_succ] at hv
        exact Nat.div_lt_of_lt_mul (by omega)
      rw [Nat.succ_add]
      simp only [leBytes, ih (v / 256) hdiv, List.cons_append]

/-- Only zero is written with zeros. -/
theorem leBytes_all_zero_iff {n v : Nat} (hv : v < 256 ^ n) :
    (∀ b ∈ leBytes n v, b = 0) ↔ v = 0 := by
  constructor
  · intro h
    have hzero : leBytes n v = leBytes n 0 := by
      rw [leBytes_zero]
      exact List.eq_replicate_iff.mpr ⟨leBytes_length n v, h⟩
    have hval := leValue_leBytes n v hv
    rw [hzero, leValue_leBytes n 0 (Nat.pow_pos (by omega))] at hval
    exact hval.symm
  · rintro rfl
    rw [leBytes_zero]
    exact fun b hb => List.eq_of_mem_replicate hb

/-- Only the empty string is zero in memory. -/
theorem CStr.withNul_all_zero_iff (s : CStr) : (∀ b ∈ s.withNul, b = 0) ↔ s = .nil := by
  constructor
  · intro h
    refine CStr.ext (List.eq_nil_iff_forall_not_mem.mpr ?_)
    intro b hb
    have hzero : b = 0 := h b (List.mem_append_left _ hb)
    exact s.nulFree (hzero ▸ hb)
  · rintro rfl
    simp [CStr.withNul, CStr.nil]

/-- A list that stays a prefix whatever is put behind the other one is a
prefix of it. -/
theorem prefix_of_append_replicate {as bs : List UInt8} {n : Nat}
    (h0 : as <+: bs ++ List.replicate n 0) (h1 : as <+: bs ++ List.replicate n 1) : as <+: bs := by
  refine List.prefix_of_prefix_length_le h0 (List.prefix_append _ _) ?_
  -- a byte past the end of `bs` would be both 0 and 1
  by_contra hlong
  have hlt : bs.length < as.length := by omega
  have hlen := h0.length_le
  simp only [List.length_append, List.length_replicate] at hlen
  have hget0 := h0.getElem hlt
  have hget1 := h1.getElem hlt
  rw [List.getElem_append_right (Nat.le_refl _), List.getElem_replicate] at hget0 hget1
  rw [hget0] at hget1
  exact absurd hget1 (by decide)
