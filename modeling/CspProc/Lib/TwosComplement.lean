import Mathlib.Data.Int.Bitwise
import Mathlib.Data.Nat.Bitwise
import Mathlib.Tactic.Positivity
import Mathlib.Tactic.Ring

/-! # Integers of a width

`reduce signed w x` is the integer `x` converted to the type of width `w`, signed
or not. What it depends on is `x` modulo `2 ^ w`, so that conversions to wider
types in between do not matter (`reduce_reduce`), but those to narrower ones do
(`reduce_emod_iff`).

The bits of a negative integer go on for ever: bitwise operations on integers
agree with those of every width (`land_emod` and so on).

A bit vector has the low bits of many integers (`Low`). The operations on bit
vectors are those on these integers.
-/

namespace TwosComplement

/-- The value of the type of width `w` that an integer is converted to. -/
def reduce (signed : Bool) (w : Nat) (x : Int) : Int :=
  if signed then x.bmod (2 ^ w) else x % 2 ^ w

section Reduce

variable (signed signed' : Bool) {w w' : Nat} {x y : Int}

@[simp] theorem reduce_emod (w : Nat) (x : Int) : reduce signed w x % 2 ^ w = x % 2 ^ w := by
  unfold reduce
  split
  · have h : x.bmod (2 ^ w) % ((2 ^ w : Nat) : Int) = x % ((2 ^ w : Nat) : Int) := Int.bmod_emod
    push_cast at h
    exact h
  · exact Int.emod_emod_of_dvd _ (Int.dvd_refl _)

/-- A conversion depends on the integer modulo `2 ^ w` only. -/
theorem reduce_eq_iff : reduce signed w x = reduce signed w y ↔ x % 2 ^ w = y % 2 ^ w := by
  constructor
  · intro h
    rw [← reduce_emod signed w x, h, reduce_emod]
  · intro h
    unfold reduce
    rw [h]
    split
    · have hx : (x % ((2 ^ w : Nat) : Int)).bmod (2 ^ w) = x.bmod (2 ^ w) := Int.emod_bmod ..
      have hy : (y % ((2 ^ w : Nat) : Int)).bmod (2 ^ w) = y.bmod (2 ^ w) := Int.emod_bmod ..
      push_cast at hx hy
      rw [← hx, ← hy, h]
    · rfl

/-- What agrees in a width agrees in every smaller one. -/
theorem emod_congr (hle : w ≤ w') (h : x % 2 ^ w' = y % 2 ^ w') : x % 2 ^ w = y % 2 ^ w := by
  have hdvd : (2 ^ w : Int) ∣ 2 ^ w' := pow_dvd_pow 2 hle
  rw [← Int.emod_emod_of_dvd x hdvd, h, Int.emod_emod_of_dvd y hdvd]

/-- A conversion to a wider type in between does not matter. -/
theorem reduce_reduce (hle : w ≤ w') (x : Int) :
    reduce signed w (reduce signed' w' x) = reduce signed w x :=
  (reduce_eq_iff signed).mpr (emod_congr hle (reduce_emod signed' w' x))

/-- After a conversion to `w'` unsigned bits, a conversion gives what it gives
without exactly when the integer, modulo `2 ^ w`, has `w'` bits. -/
theorem reduce_emod_iff (x : Int) :
    reduce signed w (x % 2 ^ w') = reduce signed w x ↔ x % 2 ^ w < 2 ^ w' := by
  have hpos : ∀ n : Nat, (0 : Int) < 2 ^ n := fun n => by positivity
  rw [reduce_eq_iff]
  rcases Nat.le_total w w' with hle | hle
  · have hlt : x % 2 ^ w < 2 ^ w := Int.emod_lt_of_pos _ (hpos w)
    have hpow : (2 ^ w : Int) ≤ 2 ^ w' := pow_le_pow_right₀ (by decide) hle
    constructor
    · exact fun _ => lt_of_lt_of_le hlt hpow
    · exact fun _ => Int.emod_emod_of_dvd x (pow_dvd_pow 2 hle)
  · have hlt : x % 2 ^ w' < 2 ^ w' := Int.emod_lt_of_pos _ (hpos w')
    have hpow : (2 ^ w' : Int) ≤ 2 ^ w := pow_le_pow_right₀ (by decide) hle
    have hnonneg : 0 ≤ x % 2 ^ w' := Int.emod_nonneg _ (hpos w').ne'
    rw [Int.emod_eq_of_lt hnonneg (lt_of_lt_of_le hlt hpow)]
    constructor
    · intro h
      rwa [← h]
    · intro h
      have hsmall := Int.emod_eq_of_lt (Int.emod_nonneg x (hpos w).ne') h
      rw [← hsmall]
      exact (Int.emod_emod_of_dvd x (pow_dvd_pow 2 hle)).symm

/-- An integer of the type is not changed. -/
theorem reduce_idem (w : Nat) (x : Int) :
    reduce signed w (reduce signed w x) = reduce signed w x :=
  reduce_reduce signed signed (Nat.le_refl w) x

/-- The values of the signed types of up to `n + 1` bits. -/
theorem reduce_signed_bounds {n : Nat} (hw : w ≤ n + 1) (x : Int) :
    -2 ^ n ≤ reduce true w x ∧ reduce true w x < 2 ^ n := by
  have hpow : (2 : Int) ^ w ≤ 2 * 2 ^ n := by
    rw [← pow_succ']
    exact pow_le_pow_right₀ (by decide) hw
  have hlow : -(((2 ^ w : Nat) : Int) / 2) ≤ x.bmod (2 ^ w) := Int.le_bmod (by positivity)
  have hhigh : x.bmod (2 ^ w) < (((2 ^ w : Nat) : Int) + 1) / 2 := Int.bmod_lt (by positivity)
  push_cast at hlow hhigh
  show -2 ^ n ≤ x.bmod (2 ^ w) ∧ x.bmod (2 ^ w) < 2 ^ n
  omega

end Reduce

section BitVec

variable {w : Nat} (v : BitVec w)

/-- The signed value of a bit vector is its number converted. -/
theorem toInt_eq_reduce : v.toInt = reduce true w v.toNat := BitVec.toInt_eq_toNat_bmod v

theorem toNat_emod : (v.toNat : Int) % 2 ^ w = v.toNat :=
  Int.emod_eq_of_lt (Int.natCast_nonneg _) (by exact_mod_cast v.isLt)

/-- Both values of a bit vector agree modulo `2 ^ w`. -/
theorem toInt_emod : v.toInt % 2 ^ w = v.toNat := by
  rw [toInt_eq_reduce, reduce_emod, toNat_emod]

variable {v} {n : Nat}

/-- The two values of a bit vector that has the low bits of a number. -/
theorem toInt_of_low (h : v.toNat = n % 2 ^ w) : v.toInt = reduce true w n := by
  rw [toInt_eq_reduce, reduce_eq_iff, h]
  push_cast
  exact Int.emod_emod_of_dvd _ (Int.dvd_refl _)

theorem toNat_of_low (h : v.toNat = n % 2 ^ w) : (v.toNat : Int) = reduce false w n := by
  rw [h]
  push_cast
  rfl

end BitVec

/-! ## Ring operations -/

section Ring

variable {n : Int} {x x' y y' : Int}

theorem add_congr (hx : x % n = x' % n) (hy : y % n = y' % n) : (x + y) % n = (x' + y') % n := by
  rw [Int.add_emod, hx, hy, ← Int.add_emod]

theorem sub_congr (hx : x % n = x' % n) (hy : y % n = y' % n) : (x - y) % n = (x' - y') % n := by
  rw [Int.sub_emod, hx, hy, ← Int.sub_emod]

theorem mul_congr (hx : x % n = x' % n) (hy : y % n = y' % n) : (x * y) % n = (x' * y') % n := by
  rw [Int.mul_emod, hx, hy, ← Int.mul_emod]

end Ring

/-! ## Bits -/

section Bits

/-- The bits of a remainder are the low bits of the integer. -/
theorem testBit_emod (x : Int) {w k : Nat} (hk : k < w) :
    (x % 2 ^ w).toNat.testBit k = x.testBit k := by
  cases x with
  | ofNat m =>
      have hmod : (Int.ofNat m % 2 ^ w).toNat = m % 2 ^ w := by
        have hcast : (Int.ofNat m % 2 ^ w : Int) = ((m % 2 ^ w : Nat) : Int) := by
          push_cast
          rfl
        rw [hcast, Int.toNat_natCast]
      rw [hmod, Nat.testBit_mod_two_pow]
      simp [hk, Int.testBit]
  | negSucc m =>
      have hlt : m % 2 ^ w < 2 ^ w := Nat.mod_lt _ (Nat.two_pow_pos w)
      have hmod : (Int.negSucc m % 2 ^ w).toNat = 2 ^ w - (m % 2 ^ w + 1) := by
        have hcast : (Int.negSucc m % 2 ^ w : Int) = ((2 ^ w - (m % 2 ^ w + 1) : Nat) : Int) := by
          rw [Int.negSucc_emod m (by positivity)]
          push_cast [Nat.cast_sub (Nat.succ_le_of_lt hlt)]
          ring
        rw [hcast, Int.toNat_natCast]
      rw [hmod, Nat.testBit_two_pow_sub_succ hlt, Nat.testBit_mod_two_pow]
      simp [hk, Int.testBit]

/-- A bitwise operation on integers, modulo `2 ^ w`, is one on their low bits. -/
theorem bitwise_emod {f : Int → Int → Int} {g : Nat → Nat → Nat} {b : Bool → Bool → Bool}
    (hb : b false false = false)
    (hf : ∀ x y k, (f x y).testBit k = b (x.testBit k) (y.testBit k))
    (hg : ∀ m n k, (g m n).testBit k = b (m.testBit k) (n.testBit k)) (x y : Int) (w : Nat) :
    f x y % 2 ^ w = (g (x % 2 ^ w).toNat (y % 2 ^ w).toNat : Nat) := by
  have hlow : ∀ z : Int, (z % 2 ^ w).toNat < 2 ^ w := by
    intro z
    have hlt : z % 2 ^ w < 2 ^ w := Int.emod_lt_of_pos _ (by positivity)
    have hcast : ((2 ^ w : Nat) : Int) = 2 ^ w := by push_cast; rfl
    omega
  have hbits : (f x y % 2 ^ w).toNat = g (x % 2 ^ w).toNat (y % 2 ^ w).toNat := by
    refine Nat.eq_of_testBit_eq fun k => ?_
    rw [hg]
    by_cases hk : k < w
    · rw [testBit_emod _ hk, testBit_emod _ hk, testBit_emod _ hk, hf]
    · -- above the width all bits are zero
      have hzero : ∀ z : Int, (z % 2 ^ w).toNat.testBit k = false := by
        intro z
        apply Nat.testBit_lt_two_pow
        exact lt_of_lt_of_le (hlow z) (Nat.pow_le_pow_right (by decide) (Nat.le_of_not_lt hk))
      rw [hzero, hzero, hzero, hb]
  rw [← hbits, Int.toNat_of_nonneg (Int.emod_nonneg _ (by positivity))]

theorem land_emod (x y : Int) (w : Nat) :
    Int.land x y % 2 ^ w = ((x % 2 ^ w).toNat &&& (y % 2 ^ w).toNat : Nat) :=
  bitwise_emod rfl Int.testBit_land Nat.testBit_and x y w

theorem lor_emod (x y : Int) (w : Nat) :
    Int.lor x y % 2 ^ w = ((x % 2 ^ w).toNat ||| (y % 2 ^ w).toNat : Nat) :=
  bitwise_emod rfl Int.testBit_lor Nat.testBit_or x y w

theorem lxor_emod (x y : Int) (w : Nat) :
    Int.xor x y % 2 ^ w = ((x % 2 ^ w).toNat ^^^ (y % 2 ^ w).toNat : Nat) :=
  bitwise_emod rfl Int.testBit_lxor Nat.testBit_xor x y w

end Bits

/-! ## Bit vectors -/

/-- A bit vector has the low bits of an integer. -/
def Low {w : Nat} (v : BitVec w) (x : Int) : Prop := (v.toNat : Int) = x % 2 ^ w

namespace Low

variable {w : Nat} {v v' : BitVec w} {x y : Int}

theorem of_toNat (v : BitVec w) : Low v v.toNat := (toNat_emod v).symm

theorem of_toInt (v : BitVec w) : Low v v.toInt := (toInt_emod v).symm

theorem congr (h : Low v x) (hxy : x % 2 ^ w = y % 2 ^ w) : Low v y := h.trans hxy

/-- Its number is one of them. -/
theorem toNat_emod_eq (h : Low v x) : (v.toNat : Int) % 2 ^ w = x % 2 ^ w := by
  rw [toNat_emod]
  exact h

theorem add (hx : Low v x) (hy : Low v' y) : Low (v + v') (x + y) := by
  unfold Low
  rw [BitVec.toNat_add]
  push_cast
  exact add_congr hx.toNat_emod_eq hy.toNat_emod_eq

theorem neg (hx : Low v x) : Low (-v) (-x) := by
  unfold Low
  rw [BitVec.toNat_neg]
  push_cast [Nat.cast_sub v.isLt.le]
  rw [Int.sub_emod, Int.emod_self, ← zero_sub x]
  exact sub_congr (by simp) (by rw [Int.emod_emod_of_dvd _ (Int.dvd_refl _), hx.toNat_emod_eq])

theorem sub (hx : Low v x) (hy : Low v' y) : Low (v - v') (x - y) := by
  rw [BitVec.sub_eq_add_neg, sub_eq_add_neg]
  exact hx.add hy.neg

theorem mul (hx : Low v x) (hy : Low v' y) : Low (v * v') (x * y) := by
  unfold Low
  rw [BitVec.toNat_mul]
  push_cast
  exact mul_congr hx.toNat_emod_eq hy.toNat_emod_eq

/-- The complement of an integer is `-1 - x`. -/
theorem not (hx : Low v x) : Low (~~~v) (-1 - x) := by
  have hneg : ~~~v = -v - 1#w := by
    rw [BitVec.neg_eq_not_add, BitVec.add_sub_cancel]
  have hone : Low (1#w) 1 := by
    unfold Low
    rw [BitVec.toNat_ofNat]
    push_cast
    rfl
  rw [hneg, show -1 - x = -x - 1 by ring]
  exact hx.neg.sub hone

theorem toNat_eq (h : Low v x) : (x % 2 ^ w).toNat = v.toNat := by
  rw [← h, Int.toNat_natCast]

theorem and (hx : Low v x) (hy : Low v' y) : Low (v &&& v') (Int.land x y) := by
  unfold Low
  rw [land_emod, hx.toNat_eq, hy.toNat_eq, BitVec.toNat_and]

theorem or (hx : Low v x) (hy : Low v' y) : Low (v ||| v') (Int.lor x y) := by
  unfold Low
  rw [lor_emod, hx.toNat_eq, hy.toNat_eq, BitVec.toNat_or]

theorem xor (hx : Low v x) (hy : Low v' y) : Low (v ^^^ v') (Int.xor x y) := by
  unfold Low
  rw [lxor_emod, hx.toNat_eq, hy.toNat_eq, BitVec.toNat_xor]

theorem shiftLeft (hx : Low v x) (n : Nat) : Low (v <<< n) (x * 2 ^ n) := by
  unfold Low
  rw [BitVec.toNat_shiftLeft, Nat.shiftLeft_eq]
  push_cast
  exact mul_congr hx.toNat_emod_eq rfl

end Low

end TwosComplement
