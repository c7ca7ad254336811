import Mathlib.Data.List.TakeWhile
import RinhaBackend.Foundation.JsonText
import RinhaBackend.RapidJson.Reader

/-!
# Reading numbers

`ParseNumber` on the literals of the grammar.  Its loops look at nothing but the
digits, so each part of a literal is read by itself, whatever comes after it.
-/

namespace RinhaBackend.RapidJson

open Foundation Json

/-! ## Where the digits end -/

def NoDigit (is : Bytes) : Prop := is.takeWhile isDigit = []

theorem noDigit_cons_iff {c : UInt8} {is : Bytes} :
    NoDigit (c :: is) ↔ isDigit c = false := by
  unfold NoDigit
  cases h : isDigit c <;> simp [h]

theorem NoDigit.dropWhile {is : Bytes} (h : NoDigit is) : is.dropWhile isDigit = is := by
  cases is with
  | nil => rfl
  | cons c is => simp [noDigit_cons_iff.mp h]

theorem noDigit_of_separated {is : Bytes} (h : Separated numberBytes is) : NoDigit is := by
  cases is with
  | nil => rfl
  | cons c is =>
      rw [noDigit_cons_iff]
      by_contra hdigit
      obtain ⟨digit, rfl⟩ := exists_digit (by simpa using hdigit)
      have hall : ∀ digit : Digit, digitByte digit.val ∈ numberBytes := by decide
      exact h (hall digit)

theorem isDigit_digit (digit : Digit) : isDigit (digitByte digit.val) = true :=
  (digitByte_spec digit.isLt).1

theorem parseExponentSign_append {rest : Bytes} (hsign : Separated [43, 45] rest)
    (text : Bytes) :
    parseExponentSign (text ++ rest) =
      ((parseExponentSign text).1, (parseExponentSign text).2 ++ rest) := by
  cases text with
  | nil =>
      cases rest with
      | nil => rfl
      | cons c rest =>
          have hplus : c ≠ 43 := fun h => hsign (by simp [h])
          have hminus : c ≠ 45 := fun h => hsign (by simp [h])
          simp [parseExponentSign, consume, hplus, hminus]
  | cons c text =>
      by_cases hplus : c = 43
      · simp [parseExponentSign, consume, hplus]
      · by_cases hminus : c = 45
        · simp [parseExponentSign, consume, hminus]
        · simp [parseExponentSign, consume, hplus, hminus]

section Append

variable {rest : Bytes} (hrest : NoDigit rest)

include hrest

theorem takeDigits_append (limit : Nat) (last : UInt8) (number digits : Nat) (text : Bytes) :
    takeDigits limit last number digits (text ++ rest) =
      ((takeDigits limit last number digits text).1,
        (takeDigits limit last number digits text).2.1,
        (takeDigits limit last number digits text).2.2.1,
        (takeDigits limit last number digits text).2.2.2 ++ rest) := by
  induction text generalizing number digits with
  | nil =>
      cases rest with
      | nil => rfl
      | cons c rest => simp [takeDigits, noDigit_cons_iff.mp hrest]
  | cons c text ih =>
      simp only [List.cons_append, takeDigits]
      split_ifs
      · rfl
      · exact ih _ _
      · rfl

theorem takeFraction53_append (i64 digits places : Nat) (text : Bytes) :
    takeFraction53 i64 digits places (text ++ rest) =
      ((takeFraction53 i64 digits places text).1,
        (takeFraction53 i64 digits places text).2.1,
        (takeFraction53 i64 digits places text).2.2.1,
        (takeFraction53 i64 digits places text).2.2.2 ++ rest) := by
  induction text generalizing i64 digits places with
  | nil =>
      cases rest with
      | nil => rfl
      | cons c rest => simp [takeFraction53, noDigit_cons_iff.mp hrest]
  | cons c text ih =>
      simp only [List.cons_append, takeFraction53]
      split_ifs
      · rfl
      · exact ih _ _ _
      · exact ih _ _ _
      · rfl

theorem takeExponentMinus_append (maxExp exp : Nat) (text : Bytes) :
    takeExponentMinus maxExp exp (text ++ rest) =
      ((takeExponentMinus maxExp exp text).1,
        (takeExponentMinus maxExp exp text).2 ++ rest) := by
  induction text generalizing exp with
  | nil =>
      cases rest with
      | nil => rfl
      | cons c rest => simp [takeExponentMinus, noDigit_cons_iff.mp hrest]
  | cons c text ih =>
      simp only [List.cons_append, takeExponentMinus]
      split_ifs
      · rw [List.dropWhile_append]
        split_ifs with hempty
        · rw [List.isEmpty_iff.mp hempty, hrest.dropWhile, List.nil_append]
        · rfl
      · exact ih _
      · rfl

theorem takeExponentPlus_append (maxExp exp : Nat) (text : Bytes) :
    takeExponentPlus maxExp exp (text ++ rest) =
      (takeExponentPlus maxExp exp text).map fun read => (read.1, read.2 ++ rest) := by
  induction text generalizing exp with
  | nil =>
      cases rest with
      | nil => rfl
      | cons c rest => simp [takeExponentPlus, noDigit_cons_iff.mp hrest, Except.map]
  | cons c text ih =>
      simp only [List.cons_append, takeExponentPlus]
      split_ifs
      · rfl
      · exact ih _
      · rfl

variable {α : Type} [Ieee α]

theorem takeDouble_append (d : α) (text : Bytes) :
    takeDouble d (text ++ rest) = ((takeDouble d text).1, (takeDouble d text).2 ++ rest) := by
  induction text generalizing d with
  | nil =>
      cases rest with
      | nil => rfl
      | cons c rest => simp [takeDouble, noDigit_cons_iff.mp hrest]
  | cons c text ih =>
      simp only [List.cons_append, takeDouble]
      split_ifs
      · exact ih _
      · rfl

theorem takeFraction_append (d : α) (digits places : Nat) (text : Bytes) :
    takeFraction d digits places (text ++ rest) =
      ((takeFraction d digits places text).1, (takeFraction d digits places text).2.1,
        (takeFraction d digits places text).2.2 ++ rest) := by
  induction text generalizing d digits places with
  | nil =>
      cases rest with
      | nil => rfl
      | cons c rest => simp [takeFraction, noDigit_cons_iff.mp hrest]
  | cons c text ih =>
      simp only [List.cons_append, takeFraction]
      split_ifs
      · exact ih _ _ _
      · exact ih _ _ _
      · exact ih _ _ _
      · rfl

theorem parseInteger64_append (minus : Bool) (i digits : Nat) (text : Bytes) :
    parseInteger64 (α := α) minus i digits (text ++ rest) =
      ((parseInteger64 minus i digits text).1, (parseInteger64 (α := α) minus i digits text).2.1,
        (parseInteger64 (α := α) minus i digits text).2.2 ++ rest) := by
  unfold parseInteger64
  rw [takeDigits_append hrest]
  obtain ⟨i64, digits, useDouble, is⟩ := takeDigits _ _ i digits text
  cases useDouble with
  | false => rfl
  | true => simp [takeDouble_append hrest]

theorem parseInteger32_append (minus : Bool) (i : Nat) (text : Bytes) :
    parseInteger32 (α := α) minus i (text ++ rest) =
      ((parseInteger32 minus i text).1, (parseInteger32 (α := α) minus i text).2.1,
        (parseInteger32 (α := α) minus i text).2.2 ++ rest) := by
  unfold parseInteger32
  rw [takeDigits_append hrest]
  obtain ⟨i, digits, use64bit, is⟩ := takeDigits _ _ i 0 text
  cases use64bit with
  | false => rfl
  | true => simp [parseInteger64_append hrest]

theorem parseInteger_append (minus : Bool) (text : Bytes) :
    parseInteger (α := α) minus (text ++ rest) =
      (parseInteger minus text).map fun read => (read.1, read.2.1, read.2.2 ++ rest) := by
  cases text with
  | nil =>
      cases rest with
      | nil => rfl
      | cons c rest =>
          have hdigit := noDigit_cons_iff.mp hrest
          have hzero : c ≠ 48 := by
            rintro rfl
            simp [isDigit] at hdigit
          simp [parseInteger, hdigit, hzero, Except.map]
  | cons c text =>
      rw [List.cons_append, parseInteger, parseInteger, parseInteger32_append hrest]
      split_ifs
      · rfl
      · rfl
      · rfl

theorem fractionDigits_append (significand : Significand α) (digits : Nat) (text : Bytes) :
    fractionDigits significand digits (text ++ rest) =
      ((fractionDigits significand digits text).1, (fractionDigits significand digits text).2.1,
        (fractionDigits significand digits text).2.2 ++ rest) := by
  cases significand with
  | int i =>
      simp only [fractionDigits, takeFractions, takeFraction53_append hrest,
        takeFraction_append hrest]
  | int64 i64 =>
      simp only [fractionDigits, takeFractions, takeFraction53_append hrest,
        takeFraction_append hrest]
  | double d => simp only [fractionDigits, takeFraction_append hrest]

theorem parseFraction_append (hpoint : Separated [46] rest) (significand : Significand α)
    (digits : Nat) (text : Bytes) :
    parseFraction significand digits (text ++ rest) =
      (parseFraction significand digits text).map
        fun read => (read.1, read.2.1, read.2.2 ++ rest) := by
  cases text with
  | nil =>
      have hconsume : consume 46 rest = none := by
        cases rest with
        | nil => rfl
        | cons c rest => exact if_neg fun h => hpoint (by simp [h])
      rw [List.nil_append, parseFraction, hconsume]
      rfl
  | cons c text =>
      simp only [parseFraction, List.cons_append, consume]
      split_ifs with hc
      · cases text with
        | nil =>
            cases rest with
            | nil => rfl
            | cons c' rest => simp [noDigit_cons_iff.mp hrest, Except.map]
        | cons c' text =>
            have hdigits := fractionDigits_append hrest significand digits (c' :: text)
            rw [List.cons_append] at hdigits ⊢
            simp only [hdigits]
            split_ifs
            · rfl
            · rfl
      · rfl

theorem parseExponent_append (hmarks : Separated [43, 45, 69, 101] rest)
    (significand : Significand α) (places : Nat) (text : Bytes) :
    parseExponent significand places (text ++ rest) =
      (parseExponent significand places text).map
        fun read => (read.1, read.2.1, read.2.2 ++ rest) := by
  cases text with
  | nil =>
      cases rest with
      | nil => rfl
      | cons c rest =>
          have hlower : c ≠ 101 := fun h => hmarks (by simp [h])
          have hupper : c ≠ 69 := fun h => hmarks (by simp [h])
          simp [parseExponent, hlower, hupper, Except.map]
  | cons c text =>
      have hsign := parseExponentSign_append (hmarks.mono (by simp)) text
      rw [List.cons_append, parseExponent, parseExponent, hsign]
      obtain ⟨expMinus, is⟩ := parseExponentSign text
      cases is with
      | nil =>
          cases rest with
          | nil =>
              split_ifs
              · rfl
              · rfl
          | cons c' rest =>
              simp only [List.nil_append, noDigit_cons_iff.mp hrest, Bool.false_eq_true, if_false]
              split_ifs
              · rfl
              · rfl
      | cons c' is =>
          simp only [List.cons_append, takeExponentMinus_append hrest,
            takeExponentPlus_append hrest]
          split_ifs
          · rfl
          · cases takeExponentPlus (308 + places) (digitValue c') is <;> rfl
          · rfl
          · rfl

end Append

/-! ## The loops on digits -/

theorem takeDigits_spec (limit : Nat) (last : Digit) (number digits : Nat)
    (ds : List Digit) :
    ∃ taken left, ds = taken ++ left ∧
      takeDigits limit (digitByte last.val) number digits (renderDigits ds) =
        (pushDigits number taken, digits + taken.length, !left.isEmpty, renderDigits left) ∧
      (left ≠ [] → 10 * limit + last.val < pushDigits number ds) := by
  induction ds generalizing number digits with
  | nil => exact ⟨[], [], rfl, rfl, fun h => absurd rfl h⟩
  | cons d ds ih =>
      have hvalue := (digitByte_spec d.isLt).2
      have hlast := digitByte_lt_iff last d
      by_cases hstop : limit ≤ number ∧ (number ≠ limit ∨ last.val < d.val)
      · refine ⟨[], d :: ds, rfl, ?_, fun _ => ?_⟩
        · simp only [renderDigits, List.map_cons, takeDigits, isDigit_digit, if_true, hlast,
            if_pos hstop]
          rfl
        · have hle := le_pushDigits (number * 10 + d.val) ds
          rw [pushDigits_cons]
          omega
      · obtain ⟨taken, left, hsplit, htake, hbig⟩ := ih (number * 10 + d.val) (digits + 1)
        refine ⟨d :: taken, left, by rw [hsplit, List.cons_append], ?_, hbig⟩
        simp only [renderDigits, List.map_cons, takeDigits, isDigit_digit, if_true, hlast,
          if_neg hstop, hvalue]
        simp only [renderDigits] at htake
        rw [htake, List.length_cons, pushDigits_cons, Nat.add_right_comm, Nat.add_assoc]

theorem takeFraction53_spec (i64 digits places : Nat) (ds : List Digit) :
    ∃ taken left digits', ds = taken ++ left ∧
      takeFraction53 i64 digits places (renderDigits ds) =
        (pushDigits i64 taken, digits', places + taken.length, renderDigits left) ∧
      digits' ≤ digits + taken.length := by
  induction ds generalizing i64 digits places with
  | nil => exact ⟨[], [], digits, rfl, rfl, le_rfl⟩
  | cons d ds ih =>
      have hvalue := (digitByte_spec d.isLt).2
      by_cases hstop : 0x1FFFFFFFFFFFFF < i64
      · refine ⟨[], d :: ds, digits, rfl, ?_, le_rfl⟩
        simp only [renderDigits, List.map_cons, takeFraction53, isDigit_digit, if_true,
          if_pos hstop]
        rfl
      · obtain ⟨taken, left, digits', hsplit, htake, hcount⟩ := ih (i64 * 10 + d.val)
          (if i64 * 10 + d.val ≠ 0 then digits + 1 else digits) (places + 1)
        refine ⟨d :: taken, left, digits', by rw [hsplit, List.cons_append], ?_, ?_⟩
        · simp only [renderDigits, List.map_cons, takeFraction53, isDigit_digit, if_true,
            if_neg hstop, hvalue]
          simp only [renderDigits] at htake
          rw [htake, List.length_cons, pushDigits_cons, Nat.add_right_comm, Nat.add_assoc]
        · rw [List.length_cons]
          split_ifs at hcount
          · omega
          · omega

theorem takeExponentMinus_digits (maxExp exp : Nat) (ds : List Digit) :
    (takeExponentMinus maxExp exp (renderDigits ds)).2 = [] := by
  induction ds generalizing exp with
  | nil => rfl
  | cons d ds ih =>
      simp only [renderDigits, List.map_cons, takeExponentMinus, isDigit_digit, if_true]
      split_ifs
      · exact List.dropWhile_eq_nil_iff.mpr (renderDigits_isDigit ds)
      · exact ih _

theorem takeExponentPlus_digits (maxExp exp : Nat) (ds : List Digit) :
    (∃ exp', takeExponentPlus maxExp exp (renderDigits ds) = .ok (exp', [])) ∨
      takeExponentPlus maxExp exp (renderDigits ds) = .error .numberTooBig := by
  induction ds generalizing exp with
  | nil => exact .inl ⟨exp, rfl⟩
  | cons d ds ih =>
      simp only [renderDigits, List.map_cons, takeExponentPlus, isDigit_digit, if_true]
      split_ifs
      · exact .inr rfl
      · exact ih _

section

variable {α : Type} [Ieee α]

theorem takeDouble_digits (d : α) (ds : List Digit) :
    takeDouble d (renderDigits ds) = ((renderDigits ds).foldl pushDigit d, []) := by
  induction ds generalizing d with
  | nil => rfl
  | cons digit ds ih =>
      simp only [renderDigits, List.map_cons, takeDouble, isDigit_digit, if_true,
        List.foldl_cons]
      exact ih _

theorem takeFraction_full (d : α) {digits : Nat} (hfull : 17 ≤ digits) (places : Nat)
    (ds : List Digit) : takeFraction d digits places (renderDigits ds) = (d, places, []) := by
  induction ds with
  | nil => rfl
  | cons digit ds ih =>
      simp only [renderDigits, List.map_cons, takeFraction, isDigit_digit, if_true,
        if_neg (Nat.not_lt.mpr hfull)]
      exact ih

theorem takeFraction_spec (d : α) (digits places : Nat) (ds : List Digit) :
    ∃ taken left, ds = taken ++ left ∧
      takeFraction d digits places (renderDigits ds) =
        ((renderDigits taken).foldl pushDigit d, places + taken.length, []) ∧
      (left ≠ [] → 17 < digits + ds.length) := by
  induction ds generalizing d digits places with
  | nil => exact ⟨[], [], rfl, rfl, fun h => absurd rfl h⟩
  | cons digit ds ih =>
      by_cases htaken : digits < 17
      · obtain ⟨taken, left, hsplit, htake, hdropped⟩ := ih (pushDigit d (digitByte digit.val))
          (if Double.lt Double.zero (pushDigit d (digitByte digit.val)) then digits + 1
            else digits) (places + 1)
        refine ⟨digit :: taken, left, by rw [hsplit, List.cons_append], ?_, fun hleft => ?_⟩
        · simp only [renderDigits, List.map_cons, takeFraction, isDigit_digit, if_true,
            if_pos htaken, List.foldl_cons]
          simp only [renderDigits] at htake
          rw [htake, List.length_cons, Nat.add_right_comm, Nat.add_assoc]
        · have hcount := hdropped hleft
          rw [List.length_cons]
          split_ifs at hcount
          · omega
          · omega
      · refine ⟨[], digit :: ds, rfl, ?_, fun _ => ?_⟩
        · exact takeFraction_full d (by omega) places (digit :: ds)
        · rw [List.length_cons]
          omega

/-! ## The parts of a literal -/

/--
The significand stands for the number.  In a double it was built digit by digit from
an integer.
-/
def Significand.Holds : Significand α → Nat → Prop
  | .int i, number => i = number
  | .int64 i64, number => i64 = number
  | .double d, number =>
      ∃ start ds, pushDigits start ds = number ∧
        d = (renderDigits ds).foldl pushDigit (Ieee.ofNat start)

theorem Significand.Holds.push {d : α} {number : Nat} (h : (double d).Holds number)
    (ds : List Digit) :
    (double ((renderDigits ds).foldl pushDigit d)).Holds (pushDigits number ds) := by
  obtain ⟨start, before, rfl, rfl⟩ := h
  exact ⟨start, before ++ ds, pushDigits_append start before ds, by simp [renderDigits]⟩

theorem Significand.holds_ofNat (number : Nat) :
    (double (Ieee.ofNat number : α)).Holds number :=
  ⟨number, [], rfl, rfl⟩

/-- The largest magnitude that 64 bits hold. -/
def maxInteger (minus : Bool) : Nat :=
  if minus then 9223372036854775808 else 18446744073709551615

theorem parseInteger64_digits (minus : Bool) (i digits : Nat) (ds : List Digit) :
    ∃ significand digits',
      parseInteger64 (α := α) minus i digits (renderDigits ds) =
        (significand, digits', []) ∧
      significand.Holds (pushDigits i ds) ∧ digits' ≤ digits + ds.length ∧
      (pushDigits i ds ≤ maxInteger minus → significand = .int64 (pushDigits i ds)) := by
  obtain ⟨taken, left, rfl, htake, hbig⟩ := takeDigits_spec
    (if minus then 0x0CCCCCCCCCCCCCCC else 0x1999999999999999)
    (if minus then 8 else 5) i digits ds
  have hlast : digitByte (if minus then 8 else 5 : Digit).val = if minus then 56 else 53 := by
    cases minus <;> rfl
  rw [hlast] at htake
  unfold parseInteger64
  rw [htake]
  cases left with
  | nil =>
      rw [List.append_nil]
      exact ⟨.int64 (pushDigits i taken), _, rfl, rfl, le_rfl, fun _ => rfl⟩
  | cons d left =>
      simp only [List.isEmpty_cons, Bool.not_false, if_true, takeDouble_digits]
      refine ⟨_, _, rfl, ?_, by simp, fun hsmall => ?_⟩
      · rw [pushDigits_append]
        exact (Significand.holds_ofNat (pushDigits i taken)).push (d :: left)
      · have hover := hbig (by simp)
        unfold maxInteger at hsmall
        cases minus <;> simp at hover hsmall <;> omega

theorem parseInteger_whole (minus : Bool) (whole : Whole) :
    ∃ significand digits,
      parseInteger (α := α) minus (renderDigits whole.digits) =
        .ok (significand, digits, []) ∧
      significand.Holds (pushDigits 0 whole.digits) ∧ digits < whole.digits.length ∧
      (pushDigits 0 whole.digits ≤ maxInteger minus →
        significand = .int (pushDigits 0 whole.digits) ∨
          significand = .int64 (pushDigits 0 whole.digits)) := by
  cases whole with
  | zero => exact ⟨.int 0, 0, rfl, rfl, by decide, fun _ => .inl rfl⟩
  | positive lead hlead ds =>
      have hvalue := (digitByte_spec lead.isLt).2
      have hzero : digitByte lead.val ≠ 48 := by
        revert hlead
        revert lead
        decide
      obtain ⟨taken, left, rfl, htake, -⟩ := takeDigits_spec
        (if minus then 214748364 else 429496729) (if minus then 8 else 5) lead.val 0 ds
      have hlast :
          digitByte (if minus then 8 else 5 : Digit).val = if minus then 56 else 53 := by
        cases minus <;> rfl
      have hnumber : pushDigits 0 (Whole.positive lead hlead (taken ++ left)).digits =
          pushDigits (pushDigits lead.val taken) left := by
        rw [Whole.digits, pushDigits_cons, pushDigits_append, Nat.zero_mul, Nat.zero_add]
      have hlength : (Whole.positive lead hlead (taken ++ left)).digits.length =
          taken.length + left.length + 1 := by
        simp [Whole.digits]
      rw [hlast] at htake
      rw [hnumber, hlength]
      simp only [Whole.digits, renderDigits, List.map_cons, parseInteger, if_neg hzero,
        isDigit_digit, if_true, hvalue, parseInteger32]
      simp only [renderDigits] at htake
      rw [htake]
      cases left with
      | nil => exact ⟨.int (pushDigits lead.val taken), _, rfl, rfl, by simp, fun _ => .inl rfl⟩
      | cons d left =>
          obtain ⟨significand, digits', hparse, hholds, hcount, hsmall⟩ :=
            parseInteger64_digits (α := α) minus (pushDigits lead.val taken)
              (0 + taken.length) (d :: left)
          simp only [renderDigits] at hparse
          simp only [List.isEmpty_cons, Bool.not_false, if_true, hparse]
          exact ⟨significand, digits', rfl, hholds, by omega, fun h => .inr (hsmall h)⟩

/-- Zeros at the start of a fraction count as places, not as digits. -/
theorem takeFraction53_zeros (zeros digits places : Nat) (text : Bytes) :
    takeFraction53 0 digits places (List.replicate zeros 48 ++ text) =
      takeFraction53 0 digits (places + zeros) text := by
  induction zeros generalizing places with
  | zero => rfl
  | succ zeros ih =>
      rw [List.replicate_succ, List.cons_append, takeFraction53]
      simp only [show isDigit 48 = true by decide, if_true, Nat.not_lt_zero, if_false,
        Nat.zero_mul, Nat.zero_add, show digitValue 48 = 0 by decide, ne_eq, not_true_eq_false]
      rw [ih, Nat.add_assoc, Nat.add_comm 1]

theorem takeFractions_spec (i64 digits places : Nat) (ds : List Digit) :
    ∃ taken left, ∃ d : α, ds = taken ++ left ∧
      takeFractions i64 digits places (renderDigits ds) = (d, places + taken.length, []) ∧
      (Significand.double d).Holds (pushDigits i64 taken) ∧
      (left ≠ [] → 17 < digits + ds.length) := by
  obtain ⟨first, rest, digits', rfl, hfirst, hcount⟩ :=
    takeFraction53_spec i64 digits places ds
  obtain ⟨second, left, rfl, hsecond, hdropped⟩ := takeFraction_spec
    (Ieee.ofNat (pushDigits i64 first) : α) digits' (places + first.length) rest
  rw [takeFractions, hfirst]
  dsimp only
  rw [hsecond]
  refine ⟨first ++ second, left,
    (renderDigits second).foldl pushDigit (Ieee.ofNat (pushDigits i64 first)),
    by rw [List.append_assoc], ?_, ?_, fun hleft => ?_⟩
  · rw [List.length_append, Nat.add_assoc]
  · rw [pushDigits_append]
    exact (Significand.holds_ofNat (pushDigits i64 first)).push second
  · have := hdropped hleft
    simp only [List.length_append] at this ⊢
    omega

theorem fractionDigits_spec {significand : Significand α} {number : Nat}
    (h : significand.Holds number) (digits : Nat) (ds : List Digit) :
    ∃ taken left, ∃ d : α, ds = taken ++ left ∧
      fractionDigits significand digits (renderDigits ds) = (d, taken.length, []) ∧
      (Significand.double d).Holds (pushDigits number taken) ∧
      (left ≠ [] → 17 < digits + ds.length) := by
  cases significand with
  | int i =>
      obtain rfl : i = number := h
      have hspec := takeFractions_spec (α := α) i digits 0 ds
      simp only [Nat.zero_add] at hspec
      exact hspec
  | int64 i64 =>
      obtain rfl : i64 = number := h
      have hspec := takeFractions_spec (α := α) i64 digits 0 ds
      simp only [Nat.zero_add] at hspec
      exact hspec
  | double d =>
      obtain ⟨taken, left, hsplit, htake, hdropped⟩ := takeFraction_spec d digits 0 ds
      refine ⟨taken, left, (renderDigits taken).foldl pushDigit d, hsplit, ?_, h.push taken,
        hdropped⟩
      rw [fractionDigits, htake, Nat.zero_add]

theorem parseFraction_some (significand : Significand α) (digits : Nat) (lead : Digit)
    (ds : List Digit) :
    parseFraction significand digits (46 :: renderDigits (lead :: ds)) =
      .ok (.double (fractionDigits significand digits (renderDigits (lead :: ds))).1,
        (fractionDigits significand digits (renderDigits (lead :: ds))).2.1,
        (fractionDigits significand digits (renderDigits (lead :: ds))).2.2) := by
  simp only [parseFraction, consume, if_true, renderDigits, List.map_cons, isDigit_digit]

theorem takeExponentPlus_small {maxExp exp : Nat} {ds : List Digit}
    (h : pushDigits exp ds ≤ maxExp) :
    takeExponentPlus maxExp exp (renderDigits ds) = .ok (pushDigits exp ds, []) := by
  induction ds generalizing exp with
  | nil => rfl
  | cons d ds ih =>
      have hle := (le_pushDigits (exp * 10 + d.val) ds).trans h
      simp only [renderDigits, List.map_cons, takeExponentPlus, isDigit_digit, if_true,
        (digitByte_spec d.isLt).2, if_neg (Nat.not_lt.mpr hle)]
      exact ih h

theorem takeExponentMinus_small {maxExp exp : Nat} {ds : List Digit}
    (h : pushDigits exp ds ≤ maxExp) :
    takeExponentMinus maxExp exp (renderDigits ds) = (pushDigits exp ds, []) := by
  induction ds generalizing exp with
  | nil => rfl
  | cons d ds ih =>
      have hle := (le_pushDigits (exp * 10 + d.val) ds).trans h
      simp only [renderDigits, List.map_cons, takeExponentMinus, isDigit_digit, if_true,
        (digitByte_spec d.isLt).2, if_neg (Nat.not_lt.mpr hle)]
      exact ih h

theorem exponent_render_eq_cons (exponent : Exponent) :
    ∃ marker signed, exponent.render = marker :: signed ∧ (marker = 101 ∨ marker = 69) ∧
      parseExponentSign signed =
        (exponent.sign == some true, renderDigits (exponent.lead :: exponent.digits)) := by
  have hnot : ∀ lead : Digit, digitByte lead.val ≠ 43 ∧ digitByte lead.val ≠ 45 := by decide
  obtain ⟨upper, sign, lead, ds⟩ := exponent
  refine ⟨_, _, rfl, by cases upper <;> simp, ?_⟩
  rcases sign with _ | negative
  · simp [parseExponentSign, consume, renderDigits, hnot]
  · cases negative <;> simp [parseExponentSign, consume]

theorem parseExponent_some (significand : Significand α) (places : Nat)
    (exponent : Exponent) :
    parseExponent significand places exponent.render =
      if exponent.sign = some true then
        let read := takeExponentMinus ((2147483639 - places) / 10) exponent.lead.val
          (renderDigits exponent.digits)
        .ok (Significand.double significand.toDouble, -(read.1 : Int), read.2)
      else
        (takeExponentPlus (308 + places) exponent.lead.val (renderDigits exponent.digits)).map
          fun read => (Significand.double significand.toDouble, (read.1 : Int), read.2) := by
  obtain ⟨marker, signed, hrender, hmarker, hsign⟩ := exponent_render_eq_cons exponent
  have hvalue := (digitByte_spec exponent.lead.isLt).2
  rw [hrender, parseExponent, if_pos hmarker, hsign]
  simp only [renderDigits, List.map_cons, isDigit_digit, if_true, hvalue, beq_iff_eq]
  split_ifs
  · rfl
  · cases takeExponentPlus (308 + places) exponent.lead.val
      (exponent.digits.map fun digit => digitByte digit.val) <;> rfl

/-! ## Whole literals -/

/-- The value of a literal, its parts read one by one. -/
def readNumber (literal : Number) : Parsing (Value α) := do
  let (significand, digits, _) ←
    parseInteger literal.negative (renderDigits literal.whole.digits)
  let (significand, places, _) ← parseFraction significand digits literal.fractionText
  let (significand, exp, _) ← parseExponent significand places literal.exponentText
  finishNumber literal.negative (exp - places) significand

theorem parseFraction_text (significand : Significand α) (digits : Nat) (literal : Number)
    {number : Nat} (h : significand.Holds number) :
    ∃ significand' places,
      parseFraction significand digits literal.fractionText =
        .ok (significand', places, []) := by
  unfold Number.fractionText
  split
  · exact ⟨significand, 0, rfl⟩
  · rename_i lead ds _
    obtain ⟨taken, left, d, -, hread, -, -⟩ := fractionDigits_spec h digits (lead :: ds)
    rw [parseFraction_some, hread]
    exact ⟨_, _, rfl⟩

theorem parseExponent_text (significand : Significand α) (places : Nat) (literal : Number) :
    (∃ significand' exp,
      parseExponent significand places literal.exponentText = .ok (significand', exp, [])) ∨
      parseExponent significand places literal.exponentText = .error .numberTooBig := by
  unfold Number.exponentText
  split
  · exact .inl ⟨significand, 0, rfl⟩
  · rename_i exponent _
    rw [parseExponent_some]
    split_ifs with hsign
    · dsimp only
      rw [takeExponentMinus_digits]
      exact .inl ⟨_, _, rfl⟩
    · rcases takeExponentPlus_digits (308 + places) exponent.lead.val exponent.digits with
        ⟨exp, hread⟩ | hread
      · rw [hread]
        exact .inl ⟨_, _, rfl⟩
      · rw [hread]
        exact .inr rfl

theorem separated_exponentText (marks : Bytes) (hmarks : marks ⊆ numberBytes)
    (hdisjoint : (69 : UInt8) ∉ marks ∧ (101 : UInt8) ∉ marks) (literal : Number)
    {rest : Bytes} (hrest : Separated numberBytes rest) :
    Separated marks (literal.exponentText ++ rest) := by
  unfold Number.exponentText
  split
  · exact hrest.mono hmarks
  · rename_i exponent _
    obtain ⟨marker, signed, hrender, hmarker, -⟩ := exponent_render_eq_cons exponent
    rw [hrender]
    rcases hmarker with rfl | rfl
    · exact hdisjoint.2
    · exact hdisjoint.1

theorem noDigit_exponentText (literal : Number) {rest : Bytes}
    (hrest : Separated numberBytes rest) : NoDigit (literal.exponentText ++ rest) := by
  unfold Number.exponentText
  split
  · exact noDigit_of_separated hrest
  · rename_i exponent _
    obtain ⟨marker, signed, hrender, hmarker, -⟩ := exponent_render_eq_cons exponent
    rw [hrender, List.cons_append, noDigit_cons_iff]
    rcases hmarker with rfl | rfl
    · decide
    · decide

theorem noDigit_fractionText (literal : Number) {rest : Bytes} (hrest : NoDigit rest) :
    NoDigit (literal.fractionText ++ rest) := by
  unfold Number.fractionText
  split
  · exact hrest
  · rfl

theorem parseMinus_render (literal : Number) (rest : Bytes) :
    parseMinus (literal.render ++ rest) =
      (literal.negative, renderDigits literal.whole.digits ++
        (literal.fractionText ++ (literal.exponentText ++ rest))) := by
  have hnot : ∀ lead : Digit, digitByte lead.val ≠ 45 := by decide
  unfold Number.render
  cases literal.negative with
  | true => simp [parseMinus, consume]
  | false =>
      cases literal.whole with
      | zero => simp [parseMinus, consume, Whole.digits, renderDigits, digitByte]
      | positive lead hlead ds => simp [parseMinus, consume, Whole.digits, renderDigits, hnot]

/-- A literal is read the same whatever ends it. -/
theorem parseNumber_render (literal : Number) {rest : Bytes}
    (hrest : Separated numberBytes rest) :
    parseNumber (literal.render ++ rest) =
      (readNumber literal).map fun value : Value α => (value, rest) := by
  have hmarks : Separated [43, 45, 69, 101] rest := hrest.mono (by decide)
  have hexponent := noDigit_exponentText literal hrest
  have hpoint := separated_exponentText [46] (by decide) (by decide) literal hrest
  obtain ⟨significand, digits, hwhole, hholds, -, -⟩ :=
    parseInteger_whole (α := α) literal.negative literal.whole
  obtain ⟨significand', places, hfraction⟩ :=
    parseFraction_text significand digits literal hholds
  unfold parseNumber readNumber
  rw [parseMinus_render]
  dsimp only
  rw [parseInteger_append (noDigit_fractionText literal hexponent), hwhole]
  dsimp only [Except.map, bind, Except.bind]
  rw [List.nil_append, parseFraction_append hexponent hpoint, hfraction]
  dsimp only [Except.map, bind, Except.bind]
  rw [List.nil_append, parseExponent_append (noDigit_of_separated hrest) hmarks]
  rcases parseExponent_text significand' places literal with ⟨significand'', exp, hread⟩ | hread
  · rw [hread]
    dsimp only [Except.map, bind, Except.bind]
    cases finishNumber (α := α) literal.negative (exp - places) significand'' <;> rfl
  · rw [hread]
    rfl

end

end RinhaBackend.RapidJson
