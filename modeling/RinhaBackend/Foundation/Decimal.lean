import Mathlib.Data.Nat.Log
import RinhaBackend.Foundation.Json

/-!
# Decimal notation

The plain decimal notation of a natural number, and how printers reach it: digits
written in groups, with the leading ones left out while the number stays below
their place.
-/

namespace RinhaBackend.Foundation

/-! ## Digits in groups -/

theorem fixedDigits_add (high low n : Nat) :
    fixedDigits (high + low) n = fixedDigits high (n / 10 ^ low) ++ fixedDigits low n := by
  induction low generalizing n with
  | zero => simp [fixedDigits]
  | succ low ih =>
      rw [← Nat.add_assoc, fixedDigits, ih, fixedDigits, Nat.div_div_eq_div_mul,
        pow_succ', List.append_assoc]

theorem fixedDigits_mod (width n : Nat) :
    fixedDigits width (n % 10 ^ width) = fixedDigits width n := by
  induction width generalizing n with
  | zero => rfl
  | succ width ih =>
      have hlast : n % 10 ^ (width + 1) % 10 = n % 10 :=
        Nat.mod_mod_of_dvd n (dvd_pow_self 10 width.succ_ne_zero)
      have hfirst : n % 10 ^ (width + 1) / 10 = n / 10 % 10 ^ width := by
        rw [pow_succ', Nat.mod_mul_right_div_self]
      rw [fixedDigits, hlast, hfirst, ih, fixedDigits]

/-! ## Digits as bytes -/

open Json (Digit renderDigits Whole)

theorem exists_digit {c : UInt8} (h : isDigit c = true) :
    ∃ digit : Digit, digitByte digit.val = c := by
  simp only [isDigit, Bool.and_eq_true, decide_eq_true_eq, UInt8.le_iff_toNat_le] at h
  have hlow : 48 ≤ c.toNat := h.1
  have hhigh : c.toNat ≤ 57 := h.2
  refine ⟨⟨c.toNat - 48, by omega⟩, ?_⟩
  rw [← UInt8.toNat_inj, digitByte, UInt8.toNat_ofNat']
  change (48 + (c.toNat - 48)) % 2 ^ 8 = c.toNat
  omega

theorem digitByte_lt_iff : ∀ first second : Digit,
    digitByte first.val < digitByte second.val ↔ first.val < second.val := by
  decide

theorem exists_digits {text : Bytes} (h : ∀ c ∈ text, isDigit c = true) :
    ∃ digits : List Digit, renderDigits digits = text := by
  induction text with
  | nil => exact ⟨[], rfl⟩
  | cons c text ih =>
      obtain ⟨digits, hdigits⟩ := ih fun c hc => h c (List.mem_cons_of_mem _ hc)
      obtain ⟨digit, hdigit⟩ := exists_digit (h c List.mem_cons_self)
      exact ⟨digit :: digits, by rw [← hdigits, ← hdigit]; rfl⟩

def pushDigits (number : Nat) (digits : List Digit) : Nat :=
  digits.foldl (fun number digit => number * 10 + digit.val) number

theorem pushDigits_cons (number : Nat) (digit : Digit) (digits : List Digit) :
    pushDigits number (digit :: digits) = pushDigits (number * 10 + digit.val) digits := rfl

theorem pushDigits_append (number : Nat) (first second : List Digit) :
    pushDigits number (first ++ second) = pushDigits (pushDigits number first) second :=
  List.foldl_append

theorem pushDigits_eq (number : Nat) (digits : List Digit) :
    pushDigits number digits = number * 10 ^ digits.length + pushDigits 0 digits := by
  induction digits generalizing number with
  | nil => simp [pushDigits]
  | cons digit digits ih =>
      rw [pushDigits_cons, pushDigits_cons, ih (number * 10 + digit.val),
        ih (0 * 10 + digit.val), List.length_cons, pow_succ]
      ring

theorem le_pushDigits (number : Nat) (digits : List Digit) :
    number ≤ pushDigits number digits := by
  rw [pushDigits_eq]
  exact (Nat.le_mul_of_pos_right number (by positivity)).trans (Nat.le_add_right _ _)

theorem readDecimal_renderDigits (digits : List Digit) :
    readDecimal (renderDigits digits) = pushDigits 0 digits := by
  simp only [readDecimal, renderDigits, pushDigits, List.foldl_map]
  congr 1
  funext number digit
  rw [(digitByte_spec digit.isLt).2, Nat.mul_comm]

/-! ## The notation without leading zeros -/

def decimal (n : Nat) : Bytes := zeroPad 1 n

theorem decimal_eq_fixedDigits (width : Nat) {n : Nat} (hlow : width = 0 ∨ 10 ^ width ≤ n)
    (hhigh : n < 10 ^ (width + 1)) : decimal n = fixedDigits (width + 1) n := by
  have hlength := zeroPad_length width.succ_pos hhigh
  have hwidth := lt_pow_decimalWidth (le_refl n)
  simp only [zeroPad, fixedDigits_length] at hlength
  have hexact : max 1 (decimalWidth n n) = width + 1 := by
    rcases hlow with rfl | hlow
    · omega
    · have hlt := (Nat.pow_lt_pow_iff_right (by decide : 1 < 10)).mp (hlow.trans_lt hwidth)
      omega
  rw [decimal, zeroPad, hexact]

@[simp] theorem readDecimal_decimal (n : Nat) : readDecimal (decimal n) = n :=
  readDecimal_zeroPad 1 n

theorem decimal_length_le {width n : Nat} (hwidth : 0 < width) (h : n < 10 ^ width) :
    (decimal n).length ≤ width := by
  have hlength := zeroPad_length hwidth h
  simp only [decimal, zeroPad, fixedDigits_length] at hlength ⊢
  omega

theorem decimal_append (low : Nat) {value : Nat} (h : 10 ^ low ≤ value) :
    decimal value = decimal (value / 10 ^ low) ++ fixedDigits low value := by
  obtain ⟨high, hhigh⟩ : ∃ high, value / 10 ^ low = high := ⟨_, rfl⟩
  have hpos : 0 < 10 ^ low := by positivity
  have hne : high ≠ 0 := by
    have := Nat.div_pos h hpos
    omega
  have hlower := Nat.pow_log_le_self 10 hne
  have hupper := Nat.lt_pow_succ_log_self (by decide : 1 < 10) high
  rw [← hhigh, Nat.le_div_iff_mul_le hpos, ← pow_add, hhigh] at hlower
  rw [← hhigh, Nat.div_lt_iff_lt_mul hpos, ← pow_add, hhigh] at hupper
  rw [hhigh, decimal_eq_fixedDigits (Nat.log 10 high + low) (.inr hlower)
      (by rwa [show Nat.log 10 high + low + 1 = (Nat.log 10 high).succ + low by omega]),
    decimal_eq_fixedDigits (Nat.log 10 high) (.inr (Nat.pow_log_le_self 10 hne))
      (Nat.lt_pow_succ_log_self (by decide) high),
    show Nat.log 10 high + low + 1 = Nat.log 10 high + 1 + low by omega,
    fixedDigits_add, hhigh]

/-- Digits that are put only if the value reaches the power of ten beside them. -/
def putAbove (value : Nat) : List Nat → Bytes → Bytes
  | limit :: limits, digit :: digits =>
      (if limit ≤ value then [digit] else []) ++ putAbove value limits digits
  | _, digits => digits

/-- The powers of ten from `10 ^ (low + count - 1)` down to `10 ^ low`. -/
def powersDown (low : Nat) : Nat → List Nat
  | 0 => []
  | count + 1 => 10 ^ (low + count) :: powersDown low count

theorem putAbove_eq_self {value low count : Nat} (h : count = 0 ∨ 10 ^ (low + count - 1) ≤ value)
    (digits : Bytes) : putAbove value (powersDown low count) digits = digits := by
  induction count generalizing digits with
  | zero => rfl
  | succ count ih =>
      have hlimit : 10 ^ (low + count) ≤ value := by simpa using h
      cases digits with
      | nil => rfl
      | cons digit digits =>
          have hrest : count = 0 ∨ 10 ^ (low + count - 1) ≤ value := by
            right
            exact (Nat.pow_le_pow_right (by decide) (Nat.sub_le _ _)).trans hlimit
          rw [powersDown, putAbove, if_pos hlimit, ih hrest, List.singleton_append]

/--
The first group of a number whose lower `low` digits are written after it: its
leading zeros are left out.
-/
theorem putAbove_fixedDigits {value : Nat} (low count : Nat) (hlow : low = 0 ∨ 10 ^ low ≤ value)
    (hhigh : value < 10 ^ (low + count + 1)) :
    putAbove value (powersDown (low + 1) count)
        (fixedDigits (count + 1) (value / 10 ^ low)) ++ fixedDigits low value =
      decimal value := by
  induction count with
  | zero =>
      change fixedDigits 1 (value / 10 ^ low) ++ fixedDigits low value = _
      rw [decimal_eq_fixedDigits low hlow hhigh, ← fixedDigits_add, Nat.add_comm]
  | succ count ih =>
      have hsplit := fixedDigits_add 1 (count + 1) (value / 10 ^ low)
      rw [Nat.add_comm 1 (count + 1)] at hsplit
      by_cases hreach : 10 ^ (low + 1 + count) ≤ value
      · have hall : count + 1 = 0 ∨ 10 ^ (low + 1 + (count + 1) - 1) ≤ value := .inr hreach
        rw [putAbove_eq_self hall, ← fixedDigits_add, decimal_eq_fixedDigits (low + (count + 1))
          (.inr (by rwa [show low + (count + 1) = low + 1 + count by omega])) hhigh]
        congr 1
        omega
      · rw [hsplit]
        change putAbove value (10 ^ (low + 1 + count) :: powersDown (low + 1) count)
          (digitByte _ :: fixedDigits (count + 1) (value / 10 ^ low)) ++ _ = _
        rw [putAbove, if_neg hreach, List.nil_append]
        exact ih (by
          rw [show low + count + 1 = low + 1 + count by omega]
          exact Nat.lt_of_not_le hreach)

end RinhaBackend.Foundation
