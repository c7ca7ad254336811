import Mathlib.Algebra.Field.Rat
import Mathlib.Algebra.Order.Field.Rat
import RinhaBackend.Foundation.Text

/-!
# Double-precision numbers

The operations of the C++ type `double` that the service uses, as a class with
two instances.  `Float` is the IEEE 754 binary64 arithmetic of the hardware,
`ℚ` is the exact arithmetic that it approximates.  Definitions over an arbitrary
instance are therefore the program's own, and results that need exact sums name
the rational instance.
-/

namespace RinhaBackend.Foundation

class Double (α : Type) where
  zero : α
  add : α → α → α
  div : α → α → α
  beq : α → α → Bool
  lt : α → α → Bool
  le : α → α → Bool
  /-- The conversion of `± mantissa * 10 ^ exponent`; `none` on a range error. -/
  ofDecimal : (negative : Bool) → (mantissa : Nat) → (exponent : Int) → Option α
  infinity : (negative : Bool) → Option α
  nan : (negative : Bool) → Option α
  /-- The number that a finite value stands for. -/
  value : α → Option ℚ
  add_comm : ∀ first second, add first second = add second first
  zero_add_zero : add zero zero = zero

namespace Double

def sum {α : Type} [Double α] (terms : List α) : α := terms.foldl add zero

@[simp] theorem sum_append_singleton {α : Type} [Double α] (terms : List α)
    (term : α) : sum (terms ++ [term]) = add (sum terms) term := by
  simp [sum]

/-! ## Exact arithmetic -/

def decimalValue (negative : Bool) (mantissa : Nat) (exponent : Int) : ℚ :=
  (if negative then -(mantissa : ℚ) else mantissa) * 10 ^ exponent

instance : Double ℚ where
  zero := 0
  add := (· + ·)
  div := (· / ·)
  beq first second := decide (first = second)
  lt first second := decide (first < second)
  le first second := decide (first ≤ second)
  ofDecimal negative mantissa exponent :=
    some (decimalValue negative mantissa exponent)
  infinity _ := none
  nan _ := none
  value number := some number
  add_comm := Rat.add_comm
  zero_add_zero := add_zero 0

theorem sum_rat (terms : List ℚ) : sum terms = terms.sum := by
  have hfold : ∀ start : ℚ, terms.foldl add start = start + terms.sum := by
    induction terms with
    | nil => simp
    | cons term terms ih =>
        intro start
        rw [List.foldl_cons, ih, List.sum_cons]
        change start + term + terms.sum = start + (term + terms.sum)
        rw [add_assoc]
  rw [sum, hfold]
  exact zero_add terms.sum

/-! ## Binary64 arithmetic -/

open Float.Model Float.Model.UnpackedFloat

def floatValue (number : Float) : Option ℚ :=
  match number.toModel.unpack with
  | .finite sign mantissa exponent _ =>
      some ((sign.apply mantissa : Int) * 2 ^ exponent)
  | .zero _ => some 0
  | _ => none

/--
The decimal conversion of `strtod`: the nearest binary64 value, with a range error on
overflow and on an inexact result that is tiny, which is to say that with an unbounded
exponent it would be rounded to less than the smallest normal number.
-/
def floatOfDecimal (negative : Bool) (mantissa : Nat) (exponent : Int) :
    Option Float :=
  let magnitude := Float.ofModel (Float.Model.ofScientific mantissa exponent)
  let bits := magnitude.toBits.toNat
  let scale := 10 ^ (-exponent).toNat
  let underflow :=
    if bits = 0 then mantissa != 0
    else decide (bits ≤ 2 ^ 52) && mantissa * 2 ^ 1074 != bits * scale &&
      decide (mantissa * 2 ^ 1076 < (2 ^ 54 - 1) * scale)
  if magnitude.isInf || underflow then none
  else some (if negative then -magnitude else magnitude)

private theorem unpackedAdd_comm (format : Format) (first second : UnpackedFloat) :
    UnpackedFloat.add format first second = UnpackedFloat.add format second first := by
  cases first with
  | notANumber => cases second <;> rfl
  | infinity sign =>
      cases second with
      | infinity sign' => cases sign <;> cases sign' <;> rfl
      | notANumber | zero | finite => rfl
  | zero sign =>
      cases second with
      | zero sign' => cases sign <;> cases sign' <;> rfl
      | notANumber | infinity | finite => rfl
  | finite sign mantissa exponent hpos =>
      cases second with
      | finite sign' mantissa' exponent' hpos' =>
          dsimp only [UnpackedFloat.add]
          rw [min_comm exponent' exponent, Int.add_comm]
      | notANumber | infinity | zero => rfl

instance : Double Float where
  zero := 0
  add := (· + ·)
  div := (· / ·)
  beq first second := first == second
  lt first second := decide (first < second)
  le first second := decide (first ≤ second)
  ofDecimal := floatOfDecimal
  infinity negative := some (if negative then -(1 / 0) else 1 / 0)
  nan negative := some (if negative then -(0 / 0) else 0 / 0)
  value := floatValue
  add_comm first second := by
    change Float.ofModel _ = Float.ofModel _
    congr 1
    exact congrArg Float.Model.pack (unpackedAdd_comm _ _ _)
  zero_add_zero := by decide +kernel

example : floatOfDecimal false 1 999 = none := by decide +kernel
example : floatOfDecimal false 1 (-999) = none := by decide +kernel
example : floatOfDecimal false 22250738585072012 (-324) = none := by decide +kernel
example : (floatOfDecimal false 22250738585072014 (-324)).isSome = true := by decide +kernel
example : (floatOfDecimal true 5 (-1)).bind floatValue = some (-1 / 2) := by
  decide +kernel

end Double

/-! ## Literals -/

def scanSign : Bytes → Bool × Bytes
  | 45 :: rest => (true, rest)
  | 43 :: rest => (false, rest)
  | rest => (false, rest)

/-- The exponent after one of the markers, zero when there is none. -/
def scanExponent (markers : Bytes) : Bytes → Int
  | [] => 0
  | marker :: rest =>
      if marker ∈ markers then
        let (negative, rest) := scanSign rest
        let digits := rest.takeWhile isDigit
        if negative then -(readDecimal digits : Int) else readDecimal digits
      else 0

def scanFraction (digit : UInt8 → Bool) : Bytes → Bytes × Bytes
  | 46 :: rest => (rest.takeWhile digit, rest.dropWhile digit)
  | rest => ([], rest)

/-- The longest decimal literal at the start, as a mantissa and an exponent of ten. -/
def scanDecimal (text : Bytes) : Option (Nat × Int) :=
  let whole := text.takeWhile isDigit
  let (fraction, text) := scanFraction isDigit (text.dropWhile isDigit)
  if whole ++ fraction = [] then none
  else some (readDecimal (whole ++ fraction),
    scanExponent (ascii "Ee") text - fraction.length)

/-- `mantissa * 2 ^ exponent` as a mantissa and an exponent of ten. -/
def decimalOfBinary (mantissa : Nat) (exponent : Int) : Nat × Int :=
  if 0 ≤ exponent then (mantissa * 2 ^ exponent.toNat, 0)
  else (mantissa * 5 ^ (-exponent).toNat, exponent)

def isHexDigit (b : UInt8) : Bool :=
  isDigit b || (65 ≤ b && b ≤ 70) || (97 ≤ b && b ≤ 102)

def hexDigitValue (b : UInt8) : Nat :=
  if isDigit b then digitValue b else b.toNat % 32 + 9

def readHexadecimal (digits : Bytes) : Nat :=
  digits.foldl (fun value b => 16 * value + hexDigitValue b) 0

/-- A hexadecimal literal with its exponent of two, as `scanDecimal` gives a number. -/
def scanHexadecimal : Bytes → Option (Nat × Int)
  | 48 :: marker :: text =>
      if marker ∈ ascii "Xx" then
        let whole := text.takeWhile isHexDigit
        let (fraction, text) := scanFraction isHexDigit (text.dropWhile isHexDigit)
        if whole ++ fraction = [] then none
        else some (decimalOfBinary (readHexadecimal (whole ++ fraction))
          (scanExponent (ascii "Pp") text - 4 * fraction.length))
      else none
  | _ => none

def lowerCase (b : UInt8) : UInt8 := if 65 ≤ b && b ≤ 90 then b + 32 else b

/-- The text starts with the word, in any mixture of cases. -/
def startsWith (word text : Bytes) : Bool :=
  (text.take word.length).map lowerCase == word

/-- `std::stod`; `none` when it throws. -/
def stod {α : Type} [Double α] (text : Bytes) : Option α :=
  let (negative, text) := scanSign (text.dropWhile isSpace)
  if startsWith (ascii "inf") text then Double.infinity negative
  else if startsWith (ascii "nan") text then Double.nan negative
  else
    match scanHexadecimal text with
    | some (mantissa, exponent) => Double.ofDecimal negative mantissa exponent
    | none =>
        match scanDecimal text with
        | some (mantissa, exponent) => Double.ofDecimal negative mantissa exponent
        | none => none

example : (stod (ascii " -0X1.8p1,") : Option ℚ) = some (-3) := by decide +kernel
example : (stod (ascii "0x") : Option ℚ) = some 0 := by decide +kernel

end RinhaBackend.Foundation
