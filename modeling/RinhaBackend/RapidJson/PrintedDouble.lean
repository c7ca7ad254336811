import Mathlib.Algebra.Order.Field.Power
import Mathlib.Tactic.FieldSimp
import RinhaBackend.RapidJson.ReadNumber

/-!
# Doubles, printed and read back

Every layout of `Prettify` is a literal of the grammar with a fraction or an exponent,
so it is read back as a double.  In exact arithmetic it is read as the number that
`Grisu2` found: its digits are few enough for the reader to keep all of them.
-/

namespace RinhaBackend.RapidJson

open Foundation Json

/-! ## The layouts as literals -/

@[simp] theorem lastDigit_zero_val : (lastDigit 0).val = 0 := rfl

def fractionOf : List Digit → Option (Digit × List Digit)
  | [] => none
  | digit :: digits => some (digit, digits)

def exponentDigits (magnitude : Nat) : Digit × List Digit :=
  if 100 ≤ magnitude then
    (lastDigit (magnitude / 100), [lastDigit (magnitude % 100 / 10), lastDigit magnitude])
  else if 10 ≤ magnitude then (lastDigit (magnitude / 10), [lastDigit magnitude])
  else (lastDigit magnitude, [])

def exponentOf (k : Int) : Exponent where
  upper := false
  sign := if k < 0 then some true else none
  lead := (exponentDigits k.natAbs).1
  digits := (exponentDigits k.natAbs).2

namespace Decimal

variable (found : Decimal)

/-- The exponent of ten just above the number. -/
def kk : Int := found.digits.length + 1 + found.k

def literal (negative : Bool) : Number :=
  if 0 ≤ found.k ∧ found.kk ≤ 21 then
    ⟨negative, .positive found.lead found.lead_ne
      (found.digits ++ List.replicate found.k.toNat (lastDigit 0)), some (lastDigit 0, []), none⟩
  else if 0 < found.kk ∧ found.kk ≤ 21 then
    ⟨negative, .positive found.lead found.lead_ne (found.digits.take (found.kk.toNat - 1)),
      fractionOf (found.digits.drop (found.kk.toNat - 1)), none⟩
  else if -6 < found.kk ∧ found.kk ≤ 0 then
    ⟨negative, .zero,
      fractionOf (List.replicate (-found.kk).toNat (lastDigit 0) ++
        found.lead :: found.digits), none⟩
  else
    ⟨negative, .positive found.lead found.lead_ne [], fractionOf found.digits,
      some (exponentOf (found.kk - 1))⟩

end Decimal

theorem fractionText_fractionOf (negative : Bool) (whole : Whole) (exponent : Option Exponent)
    {digits : List Digit} (h : digits ≠ []) :
    (⟨negative, whole, fractionOf digits, exponent⟩ : Number).fractionText =
      46 :: renderDigits digits := by
  cases digits with
  | nil => exact absurd rfl h
  | cons digit digits => rfl

theorem putTwo_digits {n : Nat} (h : n < 100) :
    putTwo n = renderDigits [lastDigit (n / 10), lastDigit n] := by
  rw [putTwo_eq h]
  rfl

theorem renderDigits_exponentDigits {n : Nat} (h : n < 1000) :
    renderDigits ((exponentDigits n).1 :: (exponentDigits n).2) =
      if 100 ≤ n then digitByte (n / 100) :: putTwo (n % 100)
      else if 10 ≤ n then putTwo n
      else [digitByte n] := by
  unfold exponentDigits
  split_ifs with hthree htwo
  · have hlead : n / 100 % 10 = n / 100 := by omega
    have hlast : n % 100 % 10 = n % 10 := by omega
    rw [putTwo_digits (by omega)]
    simp [renderDigits, lastDigit, hlead, hlast]
  · rw [putTwo_digits (by omega)]
  · have hlead : n % 10 = n := by omega
    simp [renderDigits, lastDigit, hlead]

theorem exponentOf_render {k : Int} (h : k.natAbs < 1000) :
    (exponentOf k).render = 101 :: writeExponent k := by
  have hdigits := renderDigits_exponentDigits h
  rw [Exponent.render, writeExponent, exponentOf, hdigits]
  by_cases hneg : k < 0
  · rw [if_pos hneg, if_pos hneg]
    rfl
  · rw [if_neg hneg, if_neg hneg]
    rfl

theorem renderDigits_replicate_zero (n : Nat) :
    renderDigits (List.replicate n (lastDigit 0)) = List.replicate n 48 := by
  rw [renderDigits, List.map_replicate]
  rfl

theorem prettify_eq (found : Decimal) :
    prettify found.buffer found.k kDefaultMaxDecimalPlaces = (found.literal false).render := by
  have hlength : found.buffer.length = found.digits.length + 1 := by
    simp [Decimal.buffer, renderDigits]
  have hkk : ((found.digits.length + 1 : Nat) : Int) + found.k = found.kk := by
    simp [Decimal.kk]
  have hmax : (kDefaultMaxDecimalPlaces : Int) = 324 := rfl
  have hle := found.digits_le
  have hlower := found.lower
  have hupper := found.upper
  unfold prettify Decimal.literal
  rw [hlength]
  dsimp only
  rw [hkk]
  by_cases hwhole : 0 ≤ found.k ∧ found.kk ≤ 21
  · rw [if_pos hwhole, if_pos hwhole]
    have hzeros : found.kk.toNat - (found.digits.length + 1) = found.k.toNat := by omega
    rw [hzeros]
    simp [Number.render, Whole.digits, Decimal.buffer, renderDigits, Number.fractionText,
      Number.exponentText, digitByte]
  rw [if_neg hwhole, if_neg hwhole]
  by_cases hpoint : 0 < found.kk ∧ found.kk ≤ 21
  · rw [if_pos hpoint, if_pos hpoint, if_neg (by omega)]
    obtain ⟨before, hbefore⟩ : ∃ before, found.kk.toNat = before + 1 :=
      ⟨found.kk.toNat - 1, by omega⟩
    have hne : found.digits.drop before ≠ [] := by
      rw [Ne, List.drop_eq_nil_iff]
      omega
    rw [hbefore, Nat.add_sub_cancel, Number.render,
      fractionText_fractionOf false _ none hne]
    simp [Whole.digits, Decimal.buffer, renderDigits, Number.exponentText, List.map_take,
      List.map_drop]
  rw [if_neg hpoint, if_neg hpoint]
  by_cases hsmall : -6 < found.kk ∧ found.kk ≤ 0
  · rw [if_pos hsmall, if_pos hsmall, if_neg (by omega), Number.render,
      fractionText_fractionOf false _ none (by simp)]
    simp [Whole.digits, Decimal.buffer, renderDigits, Number.exponentText, digitByte]
  rw [if_neg hsmall, if_neg hsmall, if_neg (by omega)]
  have hexponent : (exponentOf (found.kk - 1)).render = 101 :: writeExponent (found.kk - 1) :=
    exponentOf_render (by omega)
  cases hdigits : found.digits with
  | nil =>
      simp [Number.render, Whole.digits, Decimal.buffer, hdigits, renderDigits, fractionOf,
        Number.fractionText, Number.exponentText, hexponent]
  | cons digit digits =>
      simp [Number.render, Whole.digits, Decimal.buffer, hdigits, renderDigits, fractionOf,
        Number.fractionText, Number.exponentText, hexponent]

/-! ## Zero and the sign -/

section

variable {α : Type} [Ieee α] (grisu2 : α → Decimal)

/-- The literal that `dtoa` writes. -/
def doubleLiteral (value : α) : Number :=
  if Ieee.isZero value then ⟨Ieee.sign value, .zero, some (lastDigit 0, []), none⟩
  else
    let negative := Double.lt value Double.zero
    (grisu2 (if negative then Ieee.neg value else value)).literal negative

theorem literal_render (found : Decimal) (negative : Bool) :
    (found.literal negative).render =
      (if negative then [45] else []) ++ (found.literal false).render := by
  cases negative with
  | false => rfl
  | true =>
      rw [if_pos rfl]
      unfold Decimal.literal
      split_ifs <;> rfl

theorem dtoa_eq (value : α) :
    dtoa grisu2 value kDefaultMaxDecimalPlaces = (doubleLiteral grisu2 value).render := by
  unfold dtoa doubleLiteral
  by_cases hzero : Ieee.isZero value
  · rw [if_pos hzero, if_pos hzero]
    rfl
  · rw [if_neg hzero, if_neg hzero, literal_render]
    dsimp only
    rw [prettify_eq]

end

/-! ## Room for the digits -/

theorem putTwo_length {n : Nat} (h : n < 100) : (putTwo n).length = 2 := by
  rw [putTwo_eq h, fixedDigits_length]

theorem writeExponent_length_le (k : Int) : (writeExponent k).length ≤ 4 := by
  have hsign : (if k < 0 then [45] else [] : Bytes).length ≤ 1 := by
    split_ifs <;> simp
  have hmagnitude : (if 100 ≤ k.natAbs then
      digitByte (k.natAbs / 100) :: putTwo (k.natAbs % 100)
      else if 10 ≤ k.natAbs then putTwo k.natAbs else [digitByte k.natAbs]).length ≤ 3 := by
    split_ifs
    · rw [List.length_cons, putTwo_length (by omega)]
    · rw [putTwo_length (by omega)]
      decide
    · simp
  unfold writeExponent
  dsimp only
  rw [List.length_append]
  omega

/-- The layouts fit the buffer of `WriteDouble`, with a byte left for the sign. -/
theorem prettify_length_le (found : Decimal) :
    (prettify found.buffer found.k kDefaultMaxDecimalPlaces).length ≤ 24 := by
  have hlength : found.buffer.length = found.digits.length + 1 := by
    simp [Decimal.buffer, renderDigits]
  have hmax : (kDefaultMaxDecimalPlaces : Int) = 324 := rfl
  have hle := found.digits_le
  have hlower := found.lower
  have hupper := found.upper
  unfold prettify
  dsimp only
  rw [hlength]
  obtain ⟨kk, hkk⟩ : ∃ kk, ((found.digits.length + 1 : Nat) : Int) + found.k = kk := ⟨_, rfl⟩
  rw [hkk]
  by_cases hwhole : 0 ≤ found.k ∧ kk ≤ 21
  · rw [if_pos hwhole]
    simp [hlength]
    omega
  rw [if_neg hwhole]
  by_cases hpoint : 0 < kk ∧ kk ≤ 21
  · rw [if_pos hpoint, if_neg (by omega)]
    simp [hlength]
    omega
  rw [if_neg hpoint]
  by_cases hsmall : -6 < kk ∧ kk ≤ 0
  · rw [if_pos hsmall, if_neg (by omega)]
    simp [hlength]
    omega
  have hexponent := writeExponent_length_le (kk - 1)
  rw [if_neg hsmall, if_neg (by omega)]
  split_ifs
  · simp [hlength]
    omega
  · simp [hlength]
    omega

/-! ## Reading the literals back -/

/-- The literal has a fraction or an exponent. -/
def IsDouble (literal : Number) : Prop :=
  literal.fraction ≠ none ∨ literal.exponent ≠ none

theorem fractionOf_ne_none {digits : List Digit} (h : digits ≠ []) : fractionOf digits ≠ none := by
  cases digits with
  | nil => exact absurd rfl h
  | cons digit digits => simp [fractionOf]

theorem isDouble_literal (found : Decimal) (negative : Bool) :
    IsDouble (found.literal negative) := by
  unfold Decimal.literal
  split_ifs with hwhole hpoint hsmall
  · exact .inl (by simp)
  · refine .inl (fractionOf_ne_none ?_)
    have hkk : found.kk = found.digits.length + 1 + found.k := rfl
    rw [Ne, List.drop_eq_nil_iff]
    omega
  · exact .inl (fractionOf_ne_none (by simp))
  · exact .inr (by simp)

theorem isDouble_doubleLiteral {α : Type} [Ieee α] (grisu2 : α → Decimal) (value : α) :
    IsDouble (doubleLiteral grisu2 value) := by
  unfold doubleLiteral
  split_ifs
  · exact .inl (by simp)
  · exact isDouble_literal _ _

section

variable {α : Type} [Ieee α]

theorem parseFraction_double {significand : Significand α} {number : Nat}
    (h : significand.Holds number) (digits : Nat) (literal : Number) :
    ∃ significand' places,
      parseFraction significand digits literal.fractionText = .ok (significand', places, []) ∧
      (literal.fraction ≠ none → ∃ d, significand' = .double d) := by
  obtain ⟨negative, whole, fraction, exponent⟩ := literal
  cases fraction with
  | none => exact ⟨significand, 0, rfl, fun hnone => absurd rfl hnone⟩
  | some fraction =>
      obtain ⟨taken, left, d, -, hread, -, -⟩ :=
        fractionDigits_spec h digits (fraction.1 :: fraction.2)
      have hparse := parseFraction_some significand digits fraction.1 fraction.2
      rw [hread] at hparse
      exact ⟨.double d, taken.length, hparse, fun _ => ⟨d, rfl⟩⟩

theorem parseExponent_double (significand : Significand α) (places : Nat) {literal : Number}
    (h : (∃ d, significand = .double d) ∨ literal.exponent ≠ none) :
    (∃ d exp, parseExponent significand places literal.exponentText = .ok (.double d, exp, [])) ∨
      parseExponent significand places literal.exponentText = .error .numberTooBig := by
  obtain ⟨negative, whole, fraction, exponent⟩ := literal
  cases exponent with
  | none =>
      rcases h with ⟨d, rfl⟩ | hnone
      · exact .inl ⟨d, 0, rfl⟩
      · exact absurd rfl hnone
  | some exponent =>
      change (∃ d exp, parseExponent significand places exponent.render = _) ∨
        parseExponent significand places exponent.render = _
      rw [parseExponent_some]
      split_ifs with hsign
      · dsimp only
        rw [takeExponentMinus_digits]
        exact .inl ⟨_, _, rfl⟩
      · rcases takeExponentPlus_digits (308 + places) exponent.lead.val exponent.digits with
          ⟨exp, hread⟩ | hread
        · rw [hread]
          exact .inl ⟨_, _, rfl⟩
        · rw [hread]
          exact .inr rfl

/-- A literal with a fraction or an exponent is a double, or too big for one. -/
theorem readNumber_isDouble {literal : Number} (h : IsDouble literal) :
    (∃ d : α, readNumber literal = .ok (.double d)) ∨
      readNumber (α := α) literal = .error .numberTooBig := by
  obtain ⟨significand, digits, hwhole, hholds, -, -⟩ :=
    parseInteger_whole (α := α) literal.negative literal.whole
  obtain ⟨significand', places, hfraction, hdouble⟩ :=
    parseFraction_double hholds digits literal
  unfold readNumber
  rw [hwhole]
  dsimp only [bind, Except.bind]
  rw [hfraction]
  dsimp only
  rcases parseExponent_double significand' places (h.imp_left hdouble) with
    ⟨d, exp, hexponent⟩ | hexponent
  · rw [hexponent]
    dsimp only [finishNumber]
    by_cases hmax : Ieee.aboveMax (strtodNormalPrecision d (exp - places)) = true
    · exact .inr (if_pos hmax)
    · exact .inl ⟨_, if_neg hmax⟩
  · rw [hexponent]
    exact .inr rfl

end

/-! ## Exact arithmetic -/

theorem Significand.Holds.toDouble_rat {significand : Significand ℚ} {number : Nat}
    (h : significand.Holds number) : significand.toDouble = number := by
  cases significand with
  | int i | int64 i => exact congrArg Nat.cast h
  | double d =>
      obtain ⟨start, ds, rfl, rfl⟩ := h
      have hpush : ∀ (number : Nat) (digit : Digit),
          pushDigit (Ieee.ofNat number : ℚ) (digitByte digit.val) =
            Ieee.ofNat (number * 10 + digit.val) := by
        intro number digit
        rw [pushDigit, (digitByte_spec digit.isLt).2]
        change (number : ℚ) * ((10 : Nat) : ℚ) + (digit.val : ℚ) =
          ((number * 10 + digit.val : Nat) : ℚ)
        push_cast
        rfl
      change (renderDigits ds).foldl pushDigit (Ieee.ofNat start : ℚ) =
        Ieee.ofNat (pushDigits start ds)
      induction ds generalizing start with
      | nil => rfl
      | cons digit ds ih =>
          rw [renderDigits, List.map_cons, List.foldl_cons, hpush]
          exact ih _

theorem fastPath_rat {exp : Int} (h : -308 ≤ exp) (significand : ℚ) :
    fastPath significand exp = significand * 10 ^ exp := by
  rw [fastPath, if_neg (by omega)]
  by_cases hexp : 0 ≤ exp
  · rw [if_pos hexp]
    change significand * 10 ^ exp.toNat = significand * 10 ^ exp
    rw [← zpow_natCast, Int.toNat_of_nonneg hexp]
  · rw [if_neg hexp]
    change significand / 10 ^ (-exp).toNat = significand * 10 ^ exp
    rw [← zpow_natCast, Int.toNat_of_nonneg (by omega), zpow_neg, div_inv_eq_mul]

theorem strtodNormalPrecision_rat {p : Int} (h : -616 ≤ p) (d : ℚ) :
    strtodNormalPrecision d p = d * 10 ^ p := by
  have hten : (10 : ℚ) ≠ 0 := by norm_num
  unfold strtodNormalPrecision
  split_ifs with hlow
  · rw [fastPath_rat (by omega), fastPath_rat (by omega), mul_assoc, ← zpow_add₀ hten]
    congr 2
    omega
  · exact fastPath_rat (by omega) d

/-- The reader drops no digit of the fraction, or only a zero. -/
def Kept (literal : Number) : Prop :=
  literal.fractionDigits = [lastDigit 0] ∨
    literal.whole.digits.length + literal.fractionDigits.length ≤ 18 ∨
    literal.whole = .zero ∧ ∃ zeros ds,
      literal.fractionDigits = List.replicate zeros (lastDigit 0) ++ ds ∧ ds.length ≤ 17

theorem pushDigits_replicate_zero (number zeros : Nat) :
    pushDigits number (List.replicate zeros (lastDigit 0)) = number * 10 ^ zeros := by
  induction zeros generalizing number with
  | zero => simp [pushDigits]
  | succ zeros ih =>
      rw [List.replicate_succ, pushDigits_cons, ih, pow_succ']
      simp [Nat.mul_assoc]

theorem takeFractions_zeros (zeros : Nat) (ds : List Digit) :
    takeFractions 0 0 0 (renderDigits (List.replicate zeros (lastDigit 0) ++ ds)) =
      takeFractions (α := ℚ) 0 0 zeros (renderDigits ds) := by
  have hrender : renderDigits (List.replicate zeros (lastDigit 0) ++ ds) =
      List.replicate zeros 48 ++ renderDigits ds := by
    rw [← renderDigits_replicate_zero, renderDigits, List.map_append]
    rfl
  rw [takeFractions, takeFractions, hrender, takeFraction53_zeros, Nat.zero_add]

theorem mantissa_eq (literal : Number) :
    literal.mantissa = pushDigits (pushDigits 0 literal.whole.digits) literal.fractionDigits := by
  rw [Number.mantissa, ← pushDigits_append, ← readDecimal_renderDigits, renderDigits,
    renderDigits, renderDigits, List.map_append]

/-- What the reader keeps of a fraction stands for all of it. -/
theorem fractionDigits_kept {literal : Number} (hkept : Kept literal)
    {significand : Significand ℚ} {digits : Nat}
    (hwhole : parseInteger literal.negative (renderDigits literal.whole.digits) =
      .ok (significand, digits, []))
    (hholds : significand.Holds (pushDigits 0 literal.whole.digits))
    (hdigits : digits < literal.whole.digits.length) :
    ∃ d places,
      fractionDigits significand digits (renderDigits literal.fractionDigits) =
        (d, places, []) ∧
      places ≤ literal.fractionDigits.length ∧
      d * 10 ^ (-(places : Int)) =
        literal.mantissa * 10 ^ (-(literal.fractionDigits.length : Int)) := by
  obtain ⟨taken, left, d, hsplit, hread, hd, hdropped⟩ :=
    fractionDigits_spec hholds digits literal.fractionDigits
  have hexact := hd.toDouble_rat
  rw [Significand.toDouble] at hexact
  rw [mantissa_eq]
  rcases hkept with hzero | hshort | ⟨hzero, zeros, ds, hds, hlength⟩
  · refine ⟨d, taken.length, hread, by simp [hsplit], ?_⟩
    rw [hzero] at hsplit ⊢
    cases taken with
    | nil =>
        rw [hexact]
        simp [pushDigits]
    | cons digit taken =>
        obtain ⟨rfl, hnil⟩ := List.cons.inj hsplit
        obtain ⟨rfl, rfl⟩ := List.append_eq_nil_iff.mp hnil.symm
        rw [hexact]
  · refine ⟨d, taken.length, hread, by simp [hsplit], ?_⟩
    have hall : left = [] := by
      by_contra hleft
      have := hdropped hleft
      omega
    rw [hall, List.append_nil] at hsplit
    rw [hsplit, hexact]
  · rw [hzero] at hwhole ⊢
    obtain ⟨rfl, rfl, -⟩ : .int 0 = significand ∧ 0 = digits ∧ True := by
      have hint : parseInteger literal.negative (renderDigits Whole.zero.digits) =
          .ok (Significand.int (α := ℚ) 0, 0, []) := rfl
      rw [hint] at hwhole
      simpa using hwhole
    obtain ⟨taken, left, d, hsplit, hread, hd, hdropped⟩ :=
      takeFractions_spec (α := ℚ) 0 0 zeros ds
    have hall : left = [] := by
      by_contra hleft
      have := hdropped hleft
      omega
    have hexact := hd.toDouble_rat
    rw [Significand.toDouble] at hexact
    rw [hall, List.append_nil] at hsplit
    refine ⟨d, zeros + taken.length, ?_, by simp [hds, hsplit], ?_⟩
    · rw [fractionDigits, hds, takeFractions_zeros, hread]
    · rw [hds, pushDigits_append, pushDigits_replicate_zero, hexact, hsplit]
      simp [Whole.digits, pushDigits]

theorem parseFraction_kept {literal : Number} (hkept : Kept literal)
    {significand : Significand ℚ} {digits : Nat}
    (hwhole : parseInteger literal.negative (renderDigits literal.whole.digits) =
      .ok (significand, digits, []))
    (hholds : significand.Holds (pushDigits 0 literal.whole.digits))
    (hdigits : digits < literal.whole.digits.length) :
    ∃ significand' places,
      parseFraction significand digits literal.fractionText = .ok (significand', places, []) ∧
      places ≤ literal.fractionDigits.length ∧
      significand'.toDouble * 10 ^ (-(places : Int)) =
        literal.mantissa * 10 ^ (-(literal.fractionDigits.length : Int)) ∧
      (literal.fraction ≠ none → ∃ d, significand' = .double d) := by
  obtain ⟨d, places, hread, hplaces, hvalue⟩ :=
    fractionDigits_kept hkept hwhole hholds hdigits
  cases hfraction : literal.fraction with
  | none =>
      have htext : literal.fractionText = [] := by rw [Number.fractionText, hfraction]
      have hnone : literal.fractionDigits = [] := by rw [Number.fractionDigits, hfraction]
      refine ⟨significand, 0, by rw [htext]; rfl, Nat.zero_le _, ?_, fun h => absurd rfl h⟩
      rw [mantissa_eq, hnone, hholds.toDouble_rat]
      rfl
  | some fraction =>
      have htext : literal.fractionText = 46 :: renderDigits (fraction.1 :: fraction.2) := by
        rw [Number.fractionText, hfraction]
      have hsome : literal.fractionDigits = fraction.1 :: fraction.2 := by
        rw [Number.fractionDigits, hfraction]
      refine ⟨.double d, places, ?_, hplaces, hvalue, fun _ => ⟨d, rfl⟩⟩
      rw [hsome] at hread
      rw [htext, parseFraction_some, hread]

theorem exponentValue_eq (exponent : Exponent) :
    exponent.value =
      if exponent.sign = some true then -(pushDigits exponent.lead.val exponent.digits : Int)
      else pushDigits exponent.lead.val exponent.digits := by
  rw [Exponent.value, readDecimal_renderDigits, pushDigits_cons, Nat.zero_mul, Nat.zero_add]

theorem parseExponent_kept (significand : Significand ℚ) {places : Nat} {literal : Number}
    (hplaces : places ≤ 292) (hlower : -324 ≤ literal.exponentValue)
    (hupper : literal.exponentValue ≤ 308)
    (hdouble : (∃ d, significand = .double d) ∨ literal.exponent ≠ none) :
    parseExponent significand places literal.exponentText =
      .ok (.double significand.toDouble, literal.exponentValue, []) := by
  obtain ⟨negative, whole, fraction, exponent⟩ := literal
  cases exponent with
  | none =>
      rcases hdouble with ⟨d, rfl⟩ | hnone
      · rfl
      · exact absurd rfl hnone
  | some exponent =>
      change -324 ≤ exponent.value at hlower
      change exponent.value ≤ 308 at hupper
      change parseExponent significand places exponent.render =
        .ok (.double significand.toDouble, exponent.value, [])
      rw [exponentValue_eq] at hlower hupper ⊢
      rw [parseExponent_some]
      split_ifs at hlower hupper ⊢ with hsign
      · dsimp only
        rw [takeExponentMinus_small (by omega)]
      · rw [takeExponentPlus_small (by omega)]
        rfl

/-- A literal whose digits are all kept is read as the number it stands for. -/
theorem readNumber_exact {literal : Number} (hdouble : IsDouble literal)
    (hkept : Kept literal) (hlength : literal.fractionDigits.length ≤ 292)
    (hlower : -324 ≤ literal.exponentValue) (hupper : literal.exponentValue ≤ 308) :
    readNumber literal = .ok (.double literal.value) := by
  have hten : (10 : ℚ) ≠ 0 := by norm_num
  obtain ⟨significand, digits, hwhole, hholds, hdigits, -⟩ :=
    parseInteger_whole (α := ℚ) literal.negative literal.whole
  obtain ⟨significand', places, hfraction, hplaces, hvalue, hisDouble⟩ :=
    parseFraction_kept hkept hwhole hholds hdigits
  have hexponent := parseExponent_kept significand' (hplaces.trans hlength) hlower hupper
    (hdouble.imp_left hisDouble)
  have hread : strtodNormalPrecision significand'.toDouble (literal.exponentValue - places) =
      literal.mantissa * 10 ^ literal.scale := by
    rw [strtodNormalPrecision_rat (by omega), sub_eq_neg_add, zpow_add₀ hten, ← mul_assoc,
      hvalue, Number.scale, sub_eq_neg_add, zpow_add₀ hten, mul_assoc]
  unfold readNumber
  rw [hwhole]
  dsimp only [bind, Except.bind]
  rw [hfraction]
  dsimp only
  rw [hexponent]
  dsimp only [finishNumber]
  rw [hread, Number.value, Double.decimalValue]
  cases literal.negative with
  | false => rfl
  | true =>
      change Except.ok (Value.double (-(_ * _))) = Except.ok (Value.double _)
      rw [if_pos rfl, neg_mul]

/-! ## What `Grisu2` found, read back -/

@[simp] theorem fractionDigits_fractionOf (negative : Bool) (whole : Whole) (digits : List Digit)
    (exponent : Option Exponent) :
    (⟨negative, whole, fractionOf digits, exponent⟩ : Number).fractionDigits = digits := by
  cases digits <;> rfl

theorem exponentOf_value {k : Int} (h : k.natAbs < 1000) : (exponentOf k).value = k := by
  have hdigits : pushDigits 0 ((exponentDigits k.natAbs).1 :: (exponentDigits k.natAbs).2) =
      k.natAbs := by
    unfold exponentDigits
    split_ifs
    · simp only [pushDigits, lastDigit, List.foldl_cons, List.foldl_nil, Fin.val_ofNat]
      omega
    · simp only [pushDigits, lastDigit, List.foldl_cons, List.foldl_nil, Fin.val_ofNat]
      omega
    · simp only [pushDigits, lastDigit, List.foldl_cons, List.foldl_nil, Fin.val_ofNat]
      omega
  rw [Exponent.value, readDecimal_renderDigits, exponentOf, hdigits]
  by_cases hneg : k < 0
  · simp only [if_pos hneg, if_true]
    omega
  · simp only [if_neg hneg, reduceCtorEq, if_false]
    omega

namespace Decimal

variable (found : Decimal) (negative : Bool)

theorem mantissa_eq_pushDigits : found.mantissa = pushDigits 0 (found.lead :: found.digits) :=
  readDecimal_renderDigits _

/-- The literal is read without loss, as the number that was found. -/
structure Reads (literal : Number) : Prop where
  kept : Kept literal
  length_le : literal.fractionDigits.length ≤ 292
  lower : -324 ≤ literal.exponentValue
  upper : literal.exponentValue ≤ 308
  value_eq : literal.value = Double.decimalValue literal.negative found.mantissa found.k

variable {found negative}

theorem value_eq_of_digits {literal : Number}
    (hdigits : literal.whole.digits ++ literal.fractionDigits = found.lead :: found.digits)
    (hscale : literal.scale = found.k) :
    literal.value = Double.decimalValue literal.negative found.mantissa found.k := by
  rw [Number.value, hscale, mantissa_eq, ← pushDigits_append, hdigits, mantissa_eq_pushDigits]

theorem reads_whole (h : 0 ≤ found.k ∧ found.kk ≤ 21) :
    found.Reads ⟨negative, .positive found.lead found.lead_ne
      (found.digits ++ List.replicate found.k.toNat (lastDigit 0)),
      some (lastDigit 0, []), none⟩ := by
  refine ⟨.inl rfl, by simp [Number.fractionDigits], by simp [Number.exponentValue],
    by simp [Number.exponentValue], ?_⟩
  have hten : (10 : ℚ) ≠ 0 := by norm_num
  have hk : ((found.k.toNat : Nat) : Int) = found.k := Int.toNat_of_nonneg h.1
  have hmantissa : (⟨negative, .positive found.lead found.lead_ne
      (found.digits ++ List.replicate found.k.toNat (lastDigit 0)),
      some (lastDigit 0, []), none⟩ : Number).mantissa =
      found.mantissa * 10 ^ (found.k.toNat + 1) := by
    rw [mantissa_eq, mantissa_eq_pushDigits, Whole.digits, ← List.cons_append,
      pushDigits_append, ← pushDigits_replicate_zero, List.replicate_succ', pushDigits_append]
    rfl
  have hscale : (⟨negative, .positive found.lead found.lead_ne
      (found.digits ++ List.replicate found.k.toNat (lastDigit 0)),
      some (lastDigit 0, []), none⟩ : Number).scale =
      -1 := rfl
  have hpower : (10 : ℚ) ^ (found.k.toNat + 1) * 10 ^ (-1 : Int) = 10 ^ found.k := by
    rw [← zpow_natCast, ← zpow_add₀ hten]
    congr 1
    push_cast
    omega
  rw [Number.value, hmantissa, hscale, Double.decimalValue, Double.decimalValue, ← hpower]
  push_cast
  cases negative
  · simp [mul_assoc]
  · simp [mul_assoc]

theorem reads_point (hk : found.k < 0) (h : 0 < found.kk ∧ found.kk ≤ 21) :
    found.Reads ⟨negative, .positive found.lead found.lead_ne
      (found.digits.take (found.kk.toNat - 1)),
      fractionOf (found.digits.drop (found.kk.toNat - 1)), none⟩ := by
  have hle := found.digits_le
  have hkk : found.kk = found.digits.length + 1 + found.k := rfl
  refine ⟨.inr (.inl ?_), ?_, by simp [Number.exponentValue], by simp [Number.exponentValue],
    value_eq_of_digits ?_ ?_⟩
  · simp [Whole.digits]
    omega
  · simp
    omega
  · simp [Whole.digits]
  · simp [Number.scale, Number.exponentValue]
    omega

theorem reads_small (h : -6 < found.kk ∧ found.kk ≤ 0) :
    found.Reads ⟨negative, .zero,
      fractionOf (List.replicate (-found.kk).toNat (lastDigit 0) ++
        found.lead :: found.digits), none⟩ := by
  have hle := found.digits_le
  have hkk : found.kk = found.digits.length + 1 + found.k := rfl
  refine ⟨.inr (.inr ⟨rfl, (-found.kk).toNat, found.lead :: found.digits, ?_, ?_⟩), ?_,
    by simp [Number.exponentValue], by simp [Number.exponentValue], ?_⟩
  · simp
  · simp
    omega
  · simp
    omega
  · have hscale : (⟨negative, .zero,
        fractionOf (List.replicate (-found.kk).toNat (lastDigit 0) ++
          found.lead :: found.digits), none⟩ : Number).scale = found.k := by
      simp [Number.scale, Number.exponentValue]
      omega
    have hzero : pushDigits 0 Whole.zero.digits = 0 := rfl
    rw [Number.value, hscale, mantissa_eq, fractionDigits_fractionOf, pushDigits_append,
      pushDigits_replicate_zero, hzero, Nat.zero_mul, mantissa_eq_pushDigits]

theorem reads_exponent :
    found.Reads ⟨negative, .positive found.lead found.lead_ne [], fractionOf found.digits,
      some (exponentOf (found.kk - 1))⟩ := by
  have hle := found.digits_le
  have hlower := found.lower
  have hupper := found.upper
  have hkk : found.kk = found.digits.length + 1 + found.k := rfl
  have hexponent : (exponentOf (found.kk - 1)).value = found.kk - 1 :=
    exponentOf_value (by omega)
  refine ⟨.inr (.inl ?_), ?_, ?_, ?_, value_eq_of_digits ?_ ?_⟩
  · simp [Whole.digits]
    omega
  · simp
    omega
  · change -324 ≤ (exponentOf (found.kk - 1)).value
    omega
  · change (exponentOf (found.kk - 1)).value ≤ 308
    omega
  · simp [Whole.digits]
  · rw [Number.scale, fractionDigits_fractionOf]
    change (exponentOf (found.kk - 1)).value - found.digits.length = found.k
    omega

variable (found negative)

theorem reads_literal : found.Reads (found.literal negative) := by
  unfold Decimal.literal
  split_ifs with hwhole hpoint hsmall
  · exact reads_whole hwhole
  · exact reads_point (by omega) hpoint
  · exact reads_small hsmall
  · exact reads_exponent

end Decimal

/-- `Grisu2` found the magnitude of the number itself. -/
def Exact (grisu2 : ℚ → Decimal) (value : ℚ) : Prop :=
  Double.decimalValue false (grisu2 |value|).mantissa (grisu2 |value|).k = |value|

theorem literal_negative (found : Decimal) (negative : Bool) :
    (found.literal negative).negative = negative := by
  unfold Decimal.literal
  split_ifs <;> rfl

theorem readNumber_doubleLiteral {grisu2 : ℚ → Decimal} {value : ℚ}
    (h : value ≠ 0 → Exact grisu2 value) :
    readNumber (doubleLiteral grisu2 value) = .ok (.double value) := by
  unfold doubleLiteral
  by_cases hzero : value = 0
  · subst hzero
    have hvalue :
        (⟨Ieee.sign (0 : ℚ), .zero, some (lastDigit 0, []), none⟩ : Number).value = 0 := by
      rw [Number.value, mantissa_eq, Double.decimalValue]
      simp [Whole.digits, Number.fractionDigits, pushDigits]
    rw [if_pos (by simp [Ieee.isZero]), readNumber_exact (.inl (by simp)) (.inl rfl)
      (by simp [Number.fractionDigits]) (by simp [Number.exponentValue])
      (by simp [Number.exponentValue]), hvalue]
  have hlt : Double.lt value Double.zero = decide (value < 0) := rfl
  have habs : (if decide (value < 0) = true then Ieee.neg value else value) = |value| := by
    by_cases hneg : value < 0
    · rw [if_pos (by simpa using hneg), abs_of_neg hneg]
      rfl
    · rw [if_neg (by simpa using hneg), abs_of_nonneg (not_lt.mp hneg)]
  rw [if_neg (by simpa [Ieee.isZero] using hzero), hlt]
  dsimp only
  rw [habs]
  have hreads := (grisu2 |value|).reads_literal (decide (value < 0))
  rw [readNumber_exact (isDouble_literal _ _) hreads.kept hreads.length_le hreads.lower
    hreads.upper, hreads.value_eq, literal_negative]
  congr 2
  have hexact := h hzero
  rw [Exact, Double.decimalValue, if_neg (by simp)] at hexact
  rw [Double.decimalValue]
  by_cases hneg : value < 0
  · rw [if_pos (by simpa using hneg), neg_mul, hexact, abs_of_neg hneg, neg_neg]
  · rw [if_neg (by simpa using hneg), hexact, abs_of_nonneg (not_lt.mp hneg)]

/-- The decimal `12.5`, which is printed with a point. -/
def decimalPoint : Decimal :=
  ⟨lastDigit 1, lastDigit_one_pos, [lastDigit 2, lastDigit 5], -1, by decide, by decide,
    by decide⟩

/-- The decimal `1.5e-7`, which is printed with an exponent. -/
def decimalExponent : Decimal :=
  ⟨lastDigit 1, lastDigit_one_pos, [lastDigit 5], -8, by decide, by decide, by decide⟩

/-- The digits of two numbers. -/
def twoDecimals (value : ℚ) : Decimal :=
  if value = 25 / 2 then decimalPoint else decimalExponent

theorem exact_point : Exact twoDecimals (25 / 2) := by
  rw [Exact, abs_of_pos (by norm_num), twoDecimals, if_pos rfl]
  decide +kernel

theorem exact_exponent : Exact twoDecimals (3 / 20000000) := by
  rw [Exact, abs_of_pos (by norm_num), twoDecimals, if_neg (by norm_num)]
  decide +kernel

end RinhaBackend.RapidJson
