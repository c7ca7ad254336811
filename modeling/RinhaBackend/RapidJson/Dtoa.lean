import RinhaBackend.Foundation.Ieee
import RinhaBackend.RapidJson.Itoa

/-!
# Doubles in decimal

The printer of doubles in RapidJSON.  `Grisu2` finds digits and an exponent, of which
only the form matters here; `Prettify` lays them out with a decimal point, with zeros,
or with an exponent.
-/

namespace RinhaBackend.RapidJson

open Foundation Json

/--
The form of what `Grisu2` finds for a positive double, as `grisu2_spec` proves: at most
seventeen digits, the first of them not zero, and the exponent of the last one.  The
leading digit stands between `10 ^ -324` and `10 ^ 308`.
-/
structure Decimal where
  lead : Digit
  lead_pos : 0 < lead.val
  digits : List Digit
  k : Int
  digits_le : digits.length ≤ 16
  lower : -324 ≤ k + digits.length
  upper : k + digits.length ≤ 308

namespace Decimal

def buffer (decimal : Decimal) : Bytes := renderDigits (decimal.lead :: decimal.digits)

def mantissa (decimal : Decimal) : Nat := readDecimal decimal.buffer

theorem lead_ne (decimal : Decimal) : decimal.lead ≠ 0 := by
  intro hzero
  have hpos := decimal.lead_pos
  rw [hzero] at hpos
  exact absurd hpos (lt_irrefl 0)

theorem buffer_length_le (decimal : Decimal) : decimal.buffer.length ≤ 17 := by
  rw [buffer, renderDigits, List.length_map, List.length_cons]
  exact Nat.succ_le_succ decimal.digits_le

end Decimal

def writeExponent (k : Int) : Bytes :=
  let magnitude := k.natAbs
  (if k < 0 then [45] else []) ++
    if 100 ≤ magnitude then
      digitByte (magnitude / 100) :: putTwo (magnitude % 100)
    else if 10 ≤ magnitude then putTwo magnitude
    else [digitByte magnitude]

/--
The loop that drops trailing zeros after a truncation: it looks at the indices from
the given one down to `floor + 1`, and keeps the byte at `floor`.
-/
def trimZeros (buffer : Bytes) (floor : Nat) : Nat → Bytes
  | 0 => buffer.take (floor + 1)
  | i + 1 =>
      if floor < i + 1 then
        if buffer.getD (i + 1) 0 ≠ 48 then buffer.take (i + 2)
        else trimZeros buffer floor i
      else buffer.take (floor + 1)

def prettify (buffer : Bytes) (k : Int) (maxDecimalPlaces : Nat) : Bytes :=
  let length := buffer.length
  let kk : Int := length + k
  if 0 ≤ k ∧ kk ≤ 21 then
    buffer ++ List.replicate (kk.toNat - length) 48 ++ [46, 48]
  else if 0 < kk ∧ kk ≤ 21 then
    let split := buffer.take kk.toNat ++ 46 :: buffer.drop kk.toNat
    if k + maxDecimalPlaces < 0 then
      trimZeros split (kk.toNat + 1) (kk.toNat + maxDecimalPlaces)
    else split
  else if -6 < kk ∧ kk ≤ 0 then
    let shifted := 48 :: 46 :: (List.replicate (-kk).toNat 48 ++ buffer)
    if (maxDecimalPlaces : Int) < length - kk then
      trimZeros shifted 2 (maxDecimalPlaces + 1)
    else shifted
  else if kk < -maxDecimalPlaces then [48, 46, 48]
  else if length = 1 then buffer ++ 101 :: writeExponent (kk - 1)
  else buffer.take 1 ++ 46 :: (buffer.drop 1 ++ 101 :: writeExponent (kk - 1))

/-- `Writer::kDefaultMaxDecimalPlaces`. -/
def kDefaultMaxDecimalPlaces : Nat := 324

section

variable {α : Type} [Ieee α] (grisu2 : α → Decimal)

def dtoa (value : α) (maxDecimalPlaces : Nat) : Bytes :=
  if Ieee.isZero value then
    (if Ieee.sign value then [45] else []) ++ [48, 46, 48]
  else
    let negative := Double.lt value Double.zero
    let value := if negative then Ieee.neg value else value
    let found := grisu2 value
    (if negative then [45] else []) ++ prettify found.buffer found.k maxDecimalPlaces

end

end RinhaBackend.RapidJson
