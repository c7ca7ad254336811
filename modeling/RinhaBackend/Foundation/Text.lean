import Mathlib.Algebra.Order.Group.Nat
import Mathlib.Data.List.Infix
import Mathlib.Tactic.IntervalCases
import Mathlib.Tactic.Ring

/-!
# Byte strings, decimal fields, and formatted input

Strings are lists of bytes, as in C++.  Decimal fields are written most
significant digit first and padded with zeros; `scanf` follows the C library on
integer conversions with a field width and on literal characters.
-/

namespace RinhaBackend.Foundation

abbrev Bytes := List UInt8

def ascii (literal : String) : Bytes :=
  literal.toList.map fun c => c.toNat.toUInt8

/-! ## Decimal fields -/

def isDigit (b : UInt8) : Bool := 48 ≤ b && b ≤ 57

def digitByte (d : Nat) : UInt8 := UInt8.ofNat (48 + d)

def digitValue (b : UInt8) : Nat := b.toNat - 48

theorem digitByte_spec {d : Nat} (h : d < 10) :
    isDigit (digitByte d) = true ∧ digitValue (digitByte d) = d := by
  interval_cases d <;> decide

def readDecimal (digits : Bytes) : Nat :=
  digits.foldl (fun value b => 10 * value + digitValue b) 0

theorem readDecimal_append_singleton (digits : Bytes) (b : UInt8) :
    readDecimal (digits ++ [b]) = 10 * readDecimal digits + digitValue b := by
  simp [readDecimal]

/-- Exactly `width` digits: the decimal digits of `n` modulo `10 ^ width`. -/
def fixedDigits : Nat → Nat → Bytes
  | 0, _ => []
  | width + 1, n => fixedDigits width (n / 10) ++ [digitByte (n % 10)]

@[simp] theorem fixedDigits_length (width n : Nat) :
    (fixedDigits width n).length = width := by
  induction width generalizing n with
  | zero => rfl
  | succ width ih => simp [fixedDigits, ih]

theorem fixedDigits_isDigit (width n : Nat) :
    ∀ b ∈ fixedDigits width n, isDigit b = true := by
  induction width generalizing n with
  | zero => simp [fixedDigits]
  | succ width ih =>
      intro b hb
      simp only [fixedDigits, List.mem_append, List.mem_singleton] at hb
      rcases hb with hb | rfl
      · exact ih _ b hb
      · exact (digitByte_spec (Nat.mod_lt n (by decide))).1

theorem readDecimal_fixedDigits (width n : Nat) :
    readDecimal (fixedDigits width n) = n % 10 ^ width := by
  induction width generalizing n with
  | zero => simp [fixedDigits, readDecimal, Nat.mod_one]
  | succ width ih =>
      have hlast := (digitByte_spec (Nat.mod_lt n (show 0 < 10 by decide))).2
      rw [fixedDigits, readDecimal_append_singleton, ih, hlast, pow_succ,
        Nat.mul_comm (10 ^ width) 10, Nat.mod_mul]
      ring

def decimalWidth : Nat → Nat → Nat
  | 0, _ => 1
  | fuel + 1, n => if n < 10 then 1 else decimalWidth fuel (n / 10) + 1

theorem lt_pow_decimalWidth {fuel n : Nat} (h : n ≤ fuel) :
    n < 10 ^ decimalWidth fuel n := by
  induction fuel generalizing n with
  | zero => simp [decimalWidth]; omega
  | succ fuel ih =>
      simp only [decimalWidth]
      split_ifs with hsmall
      · simpa using hsmall
      · have hrest := ih (n := n / 10) (by omega)
        rw [pow_succ]
        omega

/-- The conversion `%0<width>d` of `printf` for a natural number. -/
def zeroPad (width n : Nat) : Bytes :=
  fixedDigits (max width (decimalWidth n n)) n

theorem zeroPad_isDigit (width n : Nat) :
    ∀ b ∈ zeroPad width n, isDigit b = true :=
  fixedDigits_isDigit _ n

@[simp] theorem readDecimal_zeroPad (width n : Nat) :
    readDecimal (zeroPad width n) = n := by
  rw [zeroPad, readDecimal_fixedDigits]
  apply Nat.mod_eq_of_lt
  exact (lt_pow_decimalWidth le_rfl).trans_le
    (Nat.pow_le_pow_right (by decide) (le_max_right _ _))

private theorem decimalWidth_le {n width : Nat} (hwidth : 0 < width)
    (h : n < 10 ^ width) (fuel : Nat) : decimalWidth fuel n ≤ width := by
  induction fuel generalizing n width with
  | zero => exact hwidth
  | succ fuel ih =>
      simp only [decimalWidth]
      split_ifs with hsmall
      · exact hwidth
      · cases width with
        | zero => omega
        | succ width =>
            rw [pow_succ] at h
            have hpos : 0 < width := by
              rcases Nat.eq_zero_or_pos width with rfl | hpos
              · simp at h
                omega
              · exact hpos
            have hrest := ih (n := n / 10) hpos (by omega)
            omega

theorem zeroPad_length {width n : Nat} (hwidth : 0 < width)
    (h : n < 10 ^ width) : (zeroPad width n).length = width := by
  have hle := decimalWidth_le hwidth h n
  simp only [zeroPad, fixedDigits_length]
  omega

theorem zeroPad_injective (width : Nat) : Function.Injective (zeroPad width) := by
  intro first second h
  simpa using congrArg readDecimal h

/-! ## Formatted input -/

def isSpace (b : UInt8) : Bool := b == 32 || (9 ≤ b && b ≤ 13)

inductive Directive where
  | int (width : Nat)
  | char (b : UInt8)
  deriving DecidableEq, Repr

def scanDigits (width : Nat) (text : Bytes) : Option (Nat × Bytes) :=
  let digits := (text.take width).takeWhile isDigit
  if digits = [] then none
  else some (readDecimal digits, text.drop digits.length)

/-- `%<width>d`: leading blanks, an optional sign inside the width, digits. -/
def scanInt (width : Nat) (text : Bytes) : Option (Int × Bytes) :=
  match text.dropWhile isSpace with
  | 45 :: rest => (scanDigits (width - 1) rest).map fun (n, rest) => (-n, rest)
  | 43 :: rest => (scanDigits (width - 1) rest).map fun (n, rest) => (n, rest)
  | rest => (scanDigits width rest).map fun (n, rest) => (n, rest)

/-- The values converted by `sscanf` before the first directive that fails. -/
def scanf : List Directive → Bytes → List Int
  | [], _ => []
  | .int width :: format, text =>
      match scanInt width text with
      | none => []
      | some (value, rest) => value :: scanf format rest
  | .char _ :: _, [] => []
  | .char c :: format, b :: rest => if b = c then scanf format rest else []

theorem takeWhile_eq_self {test : UInt8 → Bool} {text : Bytes}
    (h : ∀ b ∈ text, test b = true) : text.takeWhile test = text := by
  rw [← List.append_nil text, List.takeWhile_append_of_pos h]
  simp

theorem scanDigits_append {digits : Bytes} (hne : digits ≠ [])
    (hdigits : ∀ b ∈ digits, isDigit b = true) (rest : Bytes) :
    scanDigits digits.length (digits ++ rest) =
      some (readDecimal digits, rest) := by
  have hall := takeWhile_eq_self hdigits
  simp [scanDigits, hall, hne]

theorem not_space_or_sign_of_isDigit {b : UInt8} (h : isDigit b = true) :
    isSpace b = false ∧ b ≠ 45 ∧ b ≠ 43 := by
  simp only [isDigit, Bool.and_eq_true, decide_eq_true_eq, UInt8.le_iff_toNat_le] at h
  have hne : ∀ c : UInt8, c.toNat < 48 → b ≠ c := by
    rintro c hc rfl
    have := h.1
    simp at this
    omega
  refine ⟨?_, hne 45 (by decide), hne 43 (by decide)⟩
  have h32 := hne 32 (by decide)
  have h13 : ¬ b ≤ 13 := by
    intro hle
    have hlow := h.1
    simp [UInt8.le_iff_toNat_le] at hle hlow
    omega
  simp [isSpace, h32, h13]

theorem scanInt_append {digits : Bytes} (hne : digits ≠ [])
    (hdigits : ∀ b ∈ digits, isDigit b = true) (rest : Bytes) :
    scanInt digits.length (digits ++ rest) =
      some ((readDecimal digits : Int), rest) := by
  obtain ⟨first, others, rfl⟩ := List.exists_cons_of_ne_nil hne
  obtain ⟨hspace, hminus, hplus⟩ :=
    not_space_or_sign_of_isDigit (hdigits first (by simp))
  have hscan := scanDigits_append hne hdigits rest
  simp only [List.cons_append, List.length_cons] at hscan
  simp [scanInt, hspace, hminus, hplus, hscan]

/-- A fact about each byte of a text, checked byte by byte. -/
theorem forall_mem_of_all {test : UInt8 → Prop} [DecidablePred test] {text : Bytes}
    (h : text.all (fun b => decide (test b)) = true) : ∀ b ∈ text, test b :=
  fun b hb => of_decide_eq_true (List.all_eq_true.mp h b hb)

/-! ## Searching -/

def find (pattern : Bytes) : Bytes → Option Nat
  | [] => if pattern = [] then some 0 else none
  | b :: rest =>
      if pattern <+: b :: rest then some 0
      else (find pattern rest).map (· + 1)

def findFirstOf (set text : Bytes) (start : Nat) : Option Nat :=
  ((text.drop start).findIdx? (· ∈ set)).map (start + ·)

def substr (text : Bytes) (start count : Nat) : Bytes :=
  (text.drop start).take count

/-- No occurrence of `pattern` in `before ++ after` starts inside `before`. -/
def Skips (pattern : Bytes) : Bytes → Bytes → Prop
  | [], _ => True
  | b :: before, after =>
      ¬ pattern <+: b :: (before ++ after) ∧ Skips pattern before after

theorem skips_append {pattern first second after : Bytes}
    (hfirst : Skips pattern first (second ++ after))
    (hsecond : Skips pattern second after) :
    Skips pattern (first ++ second) after := by
  induction first with
  | nil => exact hsecond
  | cons b first ih =>
      obtain ⟨hhere, hrest⟩ := hfirst
      exact ⟨by simpa using hhere, ih hrest⟩

theorem skips_of_not_mem {first : UInt8} {pattern before after : Bytes}
    (h : first ∉ before) : Skips (first :: pattern) before after := by
  induction before with
  | nil => trivial
  | cons b before ih =>
      simp only [List.mem_cons, not_or] at h
      refine ⟨fun hstarts => h.1 ?_, ih h.2⟩
      exact (List.cons_prefix_cons.mp hstarts).1

theorem find_of_skips {pattern before after : Bytes}
    (hskips : Skips pattern before (pattern ++ after)) :
    find pattern (before ++ (pattern ++ after)) = some before.length := by
  induction before with
  | nil =>
      cases hpattern : pattern with
      | nil => cases after <;> simp [find]
      | cons b pattern => simp [find]
  | cons b before ih =>
      obtain ⟨hhere, hrest⟩ := hskips
      simp [find, hhere, ih hrest]

theorem find_eq_none_of_skips {pattern text : Bytes} (hne : pattern ≠ [])
    (hskips : Skips pattern text []) : find pattern text = none := by
  induction text with
  | nil => simp [find, hne]
  | cons b text ih =>
      obtain ⟨hhere, hrest⟩ := hskips
      rw [List.append_nil] at hhere
      simp [find, hhere, ih hrest]

theorem findFirstOf_append {set stretch : Bytes} {stop : UInt8}
    (hstretch : ∀ b ∈ stretch, b ∉ set) (hstop : stop ∈ set)
    (before after : Bytes) :
    findFirstOf set (before ++ (stretch ++ stop :: after)) before.length =
      some (before.length + stretch.length) := by
  have hidx : (stretch ++ stop :: after).findIdx? (· ∈ set) =
      some stretch.length := by
    rw [List.findIdx?_append, List.findIdx?_eq_none_iff.mpr (by simpa using hstretch)]
    simp [List.findIdx?_cons, hstop]
  simp [findFirstOf, hidx]

theorem substr_append (before stretch after : Bytes) :
    substr (before ++ (stretch ++ after)) before.length stretch.length =
      stretch := by
  simp [substr]

/-! ## Where a stretch of bytes ends -/

/-- The text does not go on with one of `bytes`. -/
def Separated (bytes : Bytes) : Bytes → Prop
  | [] => True
  | b :: _ => b ∉ bytes

theorem Separated.mono {bytes fewer text : Bytes} (h : Separated bytes text)
    (hsubset : fewer ⊆ bytes) : Separated fewer text := by
  cases text with
  | nil => trivial
  | cons b text => exact fun hmem => h (hsubset hmem)

theorem append_inj_of_separated {bytes first second rest rest' : Bytes}
    (hfirst : first ⊆ bytes) (hsecond : second ⊆ bytes)
    (hrest : Separated bytes rest) (hrest' : Separated bytes rest')
    (h : first ++ rest = second ++ rest') : first = second ∧ rest = rest' := by
  induction first generalizing second with
  | nil =>
      cases second with
      | nil => exact ⟨rfl, h⟩
      | cons b second =>
          rw [List.nil_append] at h
          subst h
          exact absurd (hsecond (by simp)) hrest
  | cons b first ih =>
      cases second with
      | nil =>
          rw [List.nil_append] at h
          subst h
          exact absurd (hfirst (by simp)) hrest'
      | cons c second =>
          simp only [List.cons_append, List.cons.injEq] at h
          obtain ⟨rfl, h⟩ := h
          have hrec := ih (fun b hb => hfirst (by simp [hb]))
            (fun b hb => hsecond (by simp [hb])) h
          exact ⟨by rw [hrec.1], hrec.2⟩

end RinhaBackend.Foundation
