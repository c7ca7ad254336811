import Mathlib.Data.Nat.Bitwise
import RinhaBackend.Foundation.Double

/-!
# Doubles as number formats see them

What printing and parsing numbers needs of a `double` beyond the arithmetic of the
service: conversions from integers, powers of ten, the sign bit and the values that
have no decimal notation.  Exact arithmetic has none of the latter.  The program is
compiled with `-O3 -march=native`, which makes one operation of a product and a sum.
-/

namespace RinhaBackend.Foundation

class Ieee (α : Type) extends Double α where
  mul : α → α → α
  /-- The product of the first two and the sum with the third, rounded once. -/
  mulAdd : α → α → α → α
  neg : α → α
  /-- The conversion of an unsigned integer. -/
  ofNat : Nat → α
  pow10 : Nat → α
  sign : α → Bool
  isZero : α → Bool
  isNanOrInf : α → Bool
  /-- Larger than every finite double. -/
  aboveMax : α → Bool

namespace Ieee

def ofInt {α : Type} [Ieee α] (n : Int) : α :=
  if n < 0 then neg (ofNat n.natAbs) else ofNat n.natAbs

instance : Ieee ℚ where
  mul := (· * ·)
  mulAdd first second third := first * second + third
  neg := (- ·)
  ofNat n := n
  pow10 n := 10 ^ n
  sign number := decide (number < 0)
  isZero number := decide (number = 0)
  isNanOrInf _ := false
  aboveMax _ := false

open Float.Model Float.Model.UnpackedFloat in
/-- The fused operation of binary64: the exact product enters the sum. -/
def fusedMulAdd (first second third : Float) : Float :=
  let product := UnpackedFloat.mul Format.binary64 first.toModel.unpack second.toModel.unpack
  let sum :=
    match first.toModel.unpack, second.toModel.unpack, third.toModel.unpack with
    | .finite _ _ _ _, .finite _ _ _ _, .zero _ => product
    | .finite sign mantissa exponent hpos, .finite sign' mantissa' exponent' hpos', addend =>
        UnpackedFloat.add Format.binary64
          (.finite (sign * sign') (mantissa * mantissa') (exponent + exponent')
            (Nat.mul_pos hpos hpos')) addend
    | _, _, addend => UnpackedFloat.add Format.binary64 product addend
  Float.ofModel (Float.Model.pack sum)

/-- The bit tests of the class `Double` in RapidJSON's `ieee754.h`. -/
instance : Ieee Float where
  mul := (· * ·)
  mulAdd := fusedMulAdd
  neg := (- ·)
  ofNat := Float.ofNat
  pow10 n := Float.ofScientific 1 false n
  sign number := number.toBits &&& 0x8000000000000000 != 0
  isZero number := number.toBits &&& 0x7FFFFFFFFFFFFFFF == 0
  isNanOrInf number := number.toBits &&& 0x7FF0000000000000 == 0x7FF0000000000000
  aboveMax number := decide (Float.ofBits 0x7FEFFFFFFFFFFFFF < number)

/-! ## The bits of a double -/

section

open Float.Model Float.Model.UnpackedFloat

theorem unpackExponent_toNat (b : BitVec Format.binary64.numBits) :
    (unpackExponent b).toNat = b.toNat / 2 ^ 52 % 2 ^ 11 := by
  simp [unpackExponent, BitVec.extractLsb_toNat, Nat.shiftRight_eq_div_pow]

theorem unpackMantissa_toNat (b : BitVec Format.binary64.numBits) :
    (unpackMantissa b).toNat = b.toNat % 2 ^ 52 := by
  simp [unpackMantissa, BitVec.extractLsb_toNat]

theorem packComponents_toNat (sign : Sign) (exponent : BitVec 11) (mantissa : BitVec 52) :
    (packComponents Format.binary64 sign exponent mantissa).toNat % 2 ^ 63 =
      exponent.toNat * 2 ^ 52 + mantissa.toNat := by
  have hexponent := exponent.isLt
  have hmantissa := mantissa.isLt
  have hsign := sign.toBitVec.isLt
  rw [packComponents, BitVec.toNat_append, ← Nat.shiftLeft_add_eq_or_of_lt hmantissa,
    BitVec.toNat_append, ← Nat.shiftLeft_add_eq_or_of_lt hexponent, Nat.shiftLeft_eq,
    Nat.shiftLeft_eq]
  omega

theorem pack_finite (sign : Sign) {mantissa : Nat} (exponent : Int) (hpos : 0 < mantissa) :
    UnpackedFloat.pack Format.binary64 (.finite sign mantissa exponent hpos) =
      if 2 ^ 11 ≤ (exponent + (1023 : Nat) + (52 : Nat)).toNat + 1 then
        packedInfinity Format.binary64 sign
      else if mantissa.log2 + 1 = 53 then
        packComponents Format.binary64 sign
          (BitVec.ofNat 11 (exponent + (1023 : Nat) + (52 : Nat)).toNat) (BitVec.ofNat 52 mantissa)
      else packComponents Format.binary64 sign 0#11 (BitVec.ofNat 52 mantissa) :=
  rfl

theorem neg_finite (sign : Sign) {mantissa : Nat} (exponent : Int) (hpos : 0 < mantissa) :
    (UnpackedFloat.finite sign mantissa exponent hpos).neg =
      .finite (-sign) mantissa exponent hpos :=
  rfl

section

variable {b : BitVec Format.binary64.numBits}

theorem unpack_denormal (hdenormal : unpackExponent b = 0#11)
    (hmantissa : unpackMantissa b ≠ 0#52) :
    ∃ hpos, UnpackedFloat.unpack Format.binary64 b =
      .finite (Sign.ofBitVec (unpackSign b)) (unpackMantissa b).toNat
        (((unpackExponent b).toNat : Int) - ((1023 : Nat) + (52 : Nat)) + 1) hpos :=
  ⟨_, (if_neg (by rw [hdenormal]; decide)).trans
    ((if_pos hdenormal).trans (dif_neg hmantissa))⟩

theorem unpack_zero (hdenormal : unpackExponent b = 0#11) (hmantissa : unpackMantissa b = 0#52) :
    UnpackedFloat.unpack Format.binary64 b = .zero (Sign.ofBitVec (unpackSign b)) :=
  (if_neg (by rw [hdenormal]; decide)).trans ((if_pos hdenormal).trans (dif_pos hmantissa))

theorem unpack_normal (hinfinite : unpackExponent b ≠ -1#11)
    (hdenormal : unpackExponent b ≠ 0#11) :
    ∃ hpos, UnpackedFloat.unpack Format.binary64 b =
      .finite (Sign.ofBitVec (unpackSign b)) (1#1 ++ unpackMantissa b).toNat
        (((unpackExponent b).toNat : Int) - ((1023 : Nat) + (52 : Nat))) hpos :=
  ⟨_, (if_neg hinfinite).trans (if_neg hdenormal)⟩

/-- Negation changes the sign bit of a finite number only. -/
theorem pack_neg_unpack (hfinite : b.toNat / 2 ^ 52 % 2 ^ 11 ≠ 2047) :
    (UnpackedFloat.pack Format.binary64 (UnpackedFloat.unpack Format.binary64 b).neg).toNat %
      2 ^ 63 = b.toNat % 2 ^ 63 := by
  have hexponent := unpackExponent_toNat b
  have hmantissa := unpackMantissa_toNat b
  have hsplit : b.toNat % 2 ^ 63 =
      (unpackExponent b).toNat * 2 ^ 52 + (unpackMantissa b).toNat := by
    omega
  have hlt : (unpackMantissa b).toNat < 2 ^ 52 := (unpackMantissa b).isLt
  rw [hsplit]
  by_cases hdenormal : unpackExponent b = 0#11
  · by_cases hzero : unpackMantissa b = 0#52
    · rw [unpack_zero hdenormal hzero, hdenormal, hzero]
      exact packComponents_toNat _ _ _
    · obtain ⟨hpos, hunpack⟩ := unpack_denormal hdenormal hzero
      have hlog : (unpackMantissa b).toNat.log2 + 1 ≠ 53 := by
        have hbits := (Nat.log2_lt hpos.ne').mpr hlt
        omega
      rw [hunpack, neg_finite, pack_finite, if_neg hlog, hdenormal,
        if_neg (by decide), packComponents_toNat, BitVec.ofNat_toNat, BitVec.setWidth_eq]
  · have hinfinite : unpackExponent b ≠ -1#11 := by
      intro hall
      rw [hall] at hexponent
      exact hfinite hexponent.symm
    obtain ⟨hpos, hunpack⟩ := unpack_normal hinfinite hdenormal
    have hwhole : (1#1 ++ unpackMantissa b).toNat = 2 ^ 52 + (unpackMantissa b).toNat := by
      rw [BitVec.toNat_append, ← Nat.shiftLeft_add_eq_or_of_lt hlt]
      rfl
    have hlog : (1#1 ++ unpackMantissa b).toNat.log2 + 1 = 53 := by
      have hlow := (Nat.le_log2 hpos.ne').mpr (show 2 ^ 52 ≤ _ by omega)
      have hhigh := (Nat.log2_lt hpos.ne').mpr (show _ < 2 ^ 53 by omega)
      omega
    have hplace : (((unpackExponent b).toNat : Int) - ((1023 : Nat) + (52 : Nat)) +
        (1023 : Nat) + (52 : Nat)).toNat = (unpackExponent b).toNat := by omega
    rw [hunpack, neg_finite, pack_finite, hplace, if_pos hlog, if_neg (by omega),
      packComponents_toNat, BitVec.ofNat_toNat, BitVec.setWidth_eq, BitVec.toNat_ofNat, hwhole]
    omega

end

theorem toBits_neg {number : Float} (hfinite : number.toBits.toNat / 2 ^ 52 % 2 ^ 11 ≠ 2047) :
    (-number).toBits.toNat % 2 ^ 63 = number.toBits.toNat % 2 ^ 63 :=
  pack_neg_unpack hfinite

end

theorem exponentBits_toNat (u64 : UInt64) :
    ((u64 &&& 0x7FF0000000000000) >>> 52).toNat = u64.toNat / 2 ^ 52 % 2 ^ 11 := by
  have hshift : ((u64 &&& 0x7FF0000000000000) >>> 52).toNat =
      (u64.toNat &&& 0x7FF0000000000000) >>> 52 := by
    rw [UInt64.toNat_shiftRight, UInt64.toNat_and]
    rfl
  rw [hshift, Nat.shiftRight_and_distrib, Nat.shiftRight_eq_div_pow]
  exact Nat.and_two_pow_sub_one_eq_mod (u64.toNat / 2 ^ 52) 11

theorem exponent_ne_of_finite {number : Float} (h : isNanOrInf number = false) :
    number.toBits.toNat / 2 ^ 52 % 2 ^ 11 ≠ 2047 := by
  intro hall
  have hquotient := exponentBits_toNat number.toBits
  have hle : (number.toBits &&& 0x7FF0000000000000).toNat ≤ 0x7FF0000000000000 := by
    rw [UInt64.toNat_and]
    exact Nat.and_le_right
  have hdiv : ((number.toBits &&& 0x7FF0000000000000) >>> 52).toNat =
      (number.toBits &&& 0x7FF0000000000000).toNat / 2 ^ 52 := by
    rw [UInt64.toNat_shiftRight, Nat.shiftRight_eq_div_pow]
    rfl
  have hmask : number.toBits &&& 0x7FF0000000000000 = 0x7FF0000000000000 := by
    rw [← UInt64.toNat_inj]
    change _ = 0x7FF0000000000000
    omega
  simp [isNanOrInf, hmask] at h

theorem bits_ne_of_not_isZero {number : Float} (h : isZero number = false) :
    number.toBits.toNat % 2 ^ 63 ≠ 0 := by
  intro hzero
  have hmask : number.toBits &&& 0x7FFFFFFFFFFFFFFF = 0 := by
    rw [← UInt64.toNat_inj, UInt64.toNat_and]
    exact (Nat.and_two_pow_sub_one_eq_mod number.toBits.toNat 63).trans hzero
  simp [isZero, hmask] at h

end Ieee

/-- A natural number to the 53 significant bits of a double, ties to even. -/
def roundToDouble (n : Nat) : Nat :=
  let unit := 1 <<< (n.log2 + 1 - 53)
  let quotient := n / unit
  if unit < 2 * (n % unit) ∨ 2 * (n % unit) = unit ∧ quotient % 2 = 1 then
    (quotient + 1) * unit
  else quotient * unit

end RinhaBackend.Foundation
