import RinhaBackend.Foundation.Double

/-!
# JSON strings and numbers

The lexical grammar of RFC 8259 as data: a string is a list of characters and
escapes, a number is a sign, a whole part, an optional fraction and an optional
exponent.  Only grammatical texts can be built, so `render` produces exactly the
string and number tokens of the grammar.
-/

namespace RinhaBackend.Foundation.Json

/-! ## Strings -/

inductive StringChar where
  /-- Any byte but a control character, a quotation mark or a backslash. -/
  | plain (b : UInt8) (valid : 32 ≤ b ∧ b ≠ 34 ∧ b ≠ 92)
  | escape (b : UInt8) (valid : b ∈ ascii "\"\\/bfnrt")
  | unicode (first second third fourth : UInt8)
      (valid : [first, second, third, fourth].all isHexDigit = true)

def StringChar.render : StringChar → Bytes
  | .plain b _ => [b]
  | .escape b _ => [92, b]
  | .unicode first second third fourth _ =>
      [92, 117, first, second, third, fourth]

def renderChars (chars : List StringChar) : Bytes :=
  chars.flatMap StringChar.render

def renderString (chars : List StringChar) : Bytes :=
  34 :: (renderChars chars ++ [34])

abbrev PlainByte (b : UInt8) : Prop := 32 ≤ b ∧ b ≠ 34 ∧ b ≠ 92

/-- The characters of a text that needs no escapes. -/
def plainChars (text : Bytes) (h : ∀ b ∈ text, PlainByte b) : List StringChar :=
  text.pmap StringChar.plain h

@[simp] theorem renderChars_plainChars (text : Bytes) (h : ∀ b ∈ text, PlainByte b) :
    renderChars (plainChars text h) = text := by
  induction text with
  | nil => rfl
  | cons b text ih =>
      have hrest := ih fun c hc => h c (List.mem_cons_of_mem b hc)
      simp only [renderChars, plainChars, List.pmap_cons, List.flatMap_cons] at hrest ⊢
      rw [hrest]
      rfl

private theorem hexDigit_ne_quote {b : UInt8} (h : isHexDigit b = true) :
    (34 : UInt8) ≠ b := by
  rintro rfl
  exact absurd h (by decide)

/--
A word without quotation marks or backslashes, closed by a quotation mark and a
colon, is not read inside a string that something other than a colon follows.
-/
theorem not_quoted_word_in_string {word : Bytes} (hquote : (34 : UInt8) ∉ word)
    (hbackslash : (92 : UInt8) ∉ word) {next : UInt8} (hnext : next ≠ 58)
    (chars : List StringChar) (after : Bytes) :
    ¬ word ++ [34, 58] <+: renderChars chars ++ 34 :: next :: after := by
  induction word generalizing chars with
  | nil =>
      intro hstarts
      cases chars with
      | nil =>
          simp only [renderChars, List.flatMap_nil, List.nil_append,
            List.cons_prefix_cons] at hstarts
          exact hnext hstarts.2.1.symm
      | cons char chars =>
          cases char with
          | plain b valid =>
              simp only [renderChars, List.flatMap_cons, StringChar.render,
                List.nil_append, List.cons_append, List.cons_prefix_cons] at hstarts
              exact valid.2.1 hstarts.1.symm
          | escape | unicode =>
              simp [renderChars, StringChar.render] at hstarts
  | cons b word ih =>
      intro hstarts
      simp only [List.mem_cons, not_or] at hquote hbackslash
      cases chars with
      | nil =>
          simp only [renderChars, List.flatMap_nil, List.nil_append,
            List.cons_append, List.cons_prefix_cons] at hstarts
          exact hquote.1 hstarts.1.symm
      | cons char chars =>
          cases char with
          | plain c valid =>
              simp only [renderChars, List.flatMap_cons, StringChar.render,
                List.nil_append, List.cons_append, List.cons_prefix_cons] at hstarts
              exact ih hquote.2 hbackslash.2 chars hstarts.2
          | escape | unicode =>
              simp only [renderChars, List.flatMap_cons, StringChar.render,
                List.cons_append, List.cons_prefix_cons] at hstarts
              exact hbackslash.1 hstarts.1.symm

section
variable {word : Bytes} (hquote : (34 : UInt8) ∉ word)
  (hbackslash : (92 : UInt8) ∉ word) {next : UInt8}
  (hnext : next ∉ word ++ [34, 58])

include hnext in
private theorem skips_closing_quote (after : Bytes) :
    Skips (34 :: (word ++ [34, 58])) [34] (next :: after) := by
  refine ⟨fun hstarts => ?_, trivial⟩
  simp only [List.nil_append, List.cons_prefix_cons, true_and] at hstarts
  cases word with
  | nil => simp_all
  | cons first rest =>
      simp only [List.cons_append, List.cons_prefix_cons] at hstarts
      simp [hstarts.1] at hnext

include hquote hbackslash hnext in
private theorem skips_renderChars (chars : List StringChar) (after : Bytes) :
    Skips (34 :: (word ++ [34, 58])) (renderChars chars ++ [34])
      (next :: after) := by
  induction chars with
  | nil => exact skips_closing_quote hnext after
  | cons char chars ih =>
      have hcolon : next ≠ 58 := by simp_all
      rw [renderChars, List.flatMap_cons, List.append_assoc]
      refine skips_append ?_ ih
      cases char with
      | plain b valid =>
          apply skips_of_not_mem
          simpa [StringChar.render] using valid.2.1.symm
      | escape b valid =>
          refine ⟨by simp [List.cons_prefix_cons], fun hstarts => ?_, trivial⟩
          simp only [List.nil_append, List.cons_prefix_cons] at hstarts
          refine not_quoted_word_in_string hquote hbackslash hcolon chars after ?_
          simpa [renderChars] using hstarts.2
      | unicode first second third fourth valid =>
          simp only [List.all_cons, List.all_nil, Bool.and_true,
            Bool.and_eq_true] at valid
          obtain ⟨hfirst, hsecond, hthird, hfourth⟩ := valid
          apply skips_of_not_mem
          simp [StringChar.render, hexDigit_ne_quote hfirst,
            hexDigit_ne_quote hsecond, hexDigit_ne_quote hthird,
            hexDigit_ne_quote hfourth]

include hquote hbackslash hnext in
theorem skips_renderString (chars : List StringChar) (after : Bytes) :
    Skips (34 :: (word ++ [34, 58])) (renderString chars) (next :: after) := by
  refine ⟨fun hstarts => ?_, skips_renderChars hquote hbackslash hnext chars after⟩
  simp only [List.append_assoc, List.cons_append, List.nil_append,
    List.cons_prefix_cons, true_and] at hstarts
  exact not_quoted_word_in_string hquote hbackslash (by simp_all) chars after hstarts

end

/-! ## One string, one list of characters -/

private theorem StringChar.render_append_inj {first second : StringChar}
    {rest rest' : Bytes} (h : first.render ++ rest = second.render ++ rest') :
    first = second ∧ rest = rest' := by
  have hescape : (117 : UInt8) ∉ ascii "\"\\/bfnrt" := by decide
  cases first with
  | plain b valid =>
      cases second with
      | plain c valid' => simpa [render] using h
      | escape | unicode =>
          simp only [render, List.cons_append, List.cons.injEq] at h
          exact absurd h.1 valid.2.2
  | escape b valid =>
      cases second with
      | plain c valid' =>
          simp only [render, List.cons_append, List.cons.injEq] at h
          exact absurd h.1.symm valid'.2.2
      | escape c valid' => simpa [render] using h
      | unicode =>
          simp only [render, List.cons_append, List.cons.injEq] at h
          exact absurd (h.2.1 ▸ valid) hescape
  | unicode =>
      cases second with
      | plain c valid' =>
          simp only [render, List.cons_append, List.cons.injEq] at h
          exact absurd h.1.symm valid'.2.2
      | escape c valid' =>
          simp only [render, List.cons_append, List.cons.injEq] at h
          exact absurd (h.2.1.symm ▸ valid') hescape
      | unicode => simpa [render, and_assoc] using h

private theorem quote_ne_render (char : StringChar) (rest bytes : Bytes) :
    34 :: bytes ≠ char.render ++ rest := by
  intro h
  cases char with
  | plain b valid =>
      simp only [StringChar.render, List.cons_append, List.cons.injEq] at h
      exact valid.2.1 h.1.symm
  | escape | unicode => simp [StringChar.render] at h

theorem renderString_append_inj {first second : List StringChar} {rest rest' : Bytes}
    (h : renderString first ++ rest = renderString second ++ rest') :
    first = second ∧ rest = rest' := by
  simp only [renderString, List.cons_append, List.append_assoc, List.cons.injEq,
    true_and, List.nil_append] at h
  induction first generalizing second with
  | nil =>
      cases second with
      | nil => simpa [renderChars] using h
      | cons char second =>
          rw [renderChars, renderChars, List.flatMap_nil, List.flatMap_cons,
            List.append_assoc] at h
          exact absurd h (quote_ne_render char _ rest)
  | cons char first ih =>
      cases second with
      | nil =>
          rw [renderChars, renderChars, List.flatMap_nil, List.flatMap_cons,
            List.append_assoc] at h
          exact absurd h.symm (quote_ne_render char _ rest')
      | cons char' second =>
          simp only [renderChars, List.flatMap_cons, List.append_assoc] at h
          obtain ⟨rfl, hchars⟩ := StringChar.render_append_inj h
          obtain ⟨rfl, hrest⟩ := ih hchars
          exact ⟨rfl, hrest⟩

/-! ## Numbers -/

abbrev Digit := Fin 10

def lastDigit (n : Nat) : Digit := Fin.ofNat 10 n

theorem lastDigit_one_pos : 0 < (lastDigit 1).val := by decide

theorem lastDigit_one_ne_zero : lastDigit 1 ≠ 0 := by decide

def renderDigits (digits : List Digit) : Bytes :=
  digits.map fun digit => digitByte digit.val

theorem renderDigits_isDigit (digits : List Digit) :
    ∀ b ∈ renderDigits digits, isDigit b = true := by
  intro b hb
  obtain ⟨digit, -, rfl⟩ := List.mem_map.mp hb
  exact (digitByte_spec digit.isLt).1

/-- The whole part: zero, or digits that do not start with a zero. -/
inductive Whole where
  | zero
  | positive (lead : Digit) (lead_ne : lead ≠ 0) (digits : List Digit)
  deriving DecidableEq

def Whole.digits : Whole → List Digit
  | .zero => [0]
  | .positive lead _ digits => lead :: digits

theorem Whole.exists_digits_eq_cons (whole : Whole) :
    ∃ lead digits, whole.digits = lead :: digits := by
  cases whole with
  | zero => exact ⟨0, [], rfl⟩
  | positive lead lead_ne digits => exact ⟨lead, digits, rfl⟩

structure Exponent where
  upper : Bool
  sign : Option Bool
  lead : Digit
  digits : List Digit
  deriving DecidableEq

structure Number where
  negative : Bool
  whole : Whole
  fraction : Option (Digit × List Digit)
  exponent : Option Exponent
  deriving DecidableEq

def Exponent.render (exponent : Exponent) : Bytes :=
  (if exponent.upper then 69 else 101) ::
    ((match exponent.sign with
      | none => []
      | some negative => if negative then [45] else [43]) ++
      renderDigits (exponent.lead :: exponent.digits))

def Exponent.value (exponent : Exponent) : Int :=
  let magnitude : Int := readDecimal (renderDigits (exponent.lead :: exponent.digits))
  if exponent.sign = some true then -magnitude else magnitude

namespace Number

def fractionDigits (number : Number) : List Digit :=
  match number.fraction with
  | none => []
  | some (lead, digits) => lead :: digits

def fractionText (number : Number) : Bytes :=
  match number.fraction with
  | none => []
  | some (lead, digits) => 46 :: renderDigits (lead :: digits)

def exponentText (number : Number) : Bytes :=
  match number.exponent with
  | none => []
  | some exponent => exponent.render

def exponentValue (number : Number) : Int :=
  match number.exponent with
  | none => 0
  | some exponent => exponent.value

def render (number : Number) : Bytes :=
  (if number.negative then [45] else []) ++
    (renderDigits number.whole.digits ++
      (number.fractionText ++ number.exponentText))

def mantissa (number : Number) : Nat :=
  readDecimal (renderDigits number.whole.digits ++ renderDigits number.fractionDigits)

def scale (number : Number) : Int :=
  number.exponentValue - number.fractionDigits.length

def value (number : Number) : ℚ :=
  Double.decimalValue number.negative number.mantissa number.scale

end Number

/-- The bytes that numbers are made of. -/
def numberBytes : Bytes := ascii "+-.0123456789Ee"

/-! ## Reading a number back -/

private theorem takeWhile_digits {digits rest : Bytes}
    (hdigits : ∀ b ∈ digits, isDigit b = true)
    (hrest : rest.takeWhile isDigit = []) :
    (digits ++ rest).takeWhile isDigit = digits ∧
      (digits ++ rest).dropWhile isDigit = rest := by
  have hdrop : rest.dropWhile isDigit = rest := by
    have := List.takeWhile_append_dropWhile (p := isDigit) (l := rest)
    rwa [hrest, List.nil_append] at this
  rw [List.takeWhile_append_of_pos hdigits, List.dropWhile_append_of_pos hdigits,
    hrest, hdrop]
  simp

private theorem scanSign_of_isDigit {b : UInt8} (h : isDigit b = true)
    (rest : Bytes) : scanSign (b :: rest) = (false, b :: rest) := by
  obtain ⟨-, hminus, hplus⟩ := not_space_or_sign_of_isDigit h
  unfold scanSign
  split <;> simp_all

private theorem isDigit_digitByte (digit : Digit) :
    isDigit (digitByte digit.val) = true :=
  (digitByte_spec digit.isLt).1

private theorem mem_of_isDigit {b : UInt8} (h : isDigit b = true) :
    b ∈ numberBytes := by
  simp only [isDigit, Bool.and_eq_true, decide_eq_true_eq, UInt8.le_iff_toNat_le] at h
  have hlow : 48 ≤ b.toNat := h.1
  have hhigh : b.toNat ≤ 57 := h.2
  obtain ⟨digit, hdigit, rfl⟩ : ∃ digit < 10, b = digitByte digit := by
    refine ⟨b.toNat - 48, by omega, ?_⟩
    rw [← UInt8.toNat_inj, digitByte, UInt8.toNat_ofNat']
    omega
  interval_cases digit <;> decide

private theorem takeWhile_of_separated {rest : Bytes}
    (h : Separated numberBytes rest) : rest.takeWhile isDigit = [] := by
  cases rest with
  | nil => rfl
  | cons b rest =>
      have hb : isDigit b = false := by
        by_contra hdigit
        exact h (mem_of_isDigit (by simpa using hdigit))
      simp [hb]

private theorem scanExponent_of_separated {rest : Bytes}
    (h : Separated numberBytes rest) : scanExponent (ascii "Ee") rest = 0 := by
  cases rest with
  | nil => rfl
  | cons b rest =>
      have hmarkers : ascii "Ee" ⊆ numberBytes := by decide
      exact if_neg fun hmarker => h (hmarkers hmarker)

private theorem scanFraction_of_separated {rest : Bytes}
    (h : Separated numberBytes rest) : scanFraction isDigit rest = ([], rest) := by
  unfold scanFraction
  split
  · exact absurd (by decide : (46 : UInt8) ∈ numberBytes) h
  · rfl

section
variable {rest : Bytes} (hrest : Separated numberBytes rest)

include hrest

private theorem scanExponent_render (exponent : Exponent) :
    scanExponent (ascii "Ee") (exponent.render ++ rest) = exponent.value := by
  obtain ⟨upper, sign, lead, digits⟩ := exponent
  obtain ⟨hdigits, -⟩ := takeWhile_digits (renderDigits_isDigit (lead :: digits))
    (takeWhile_of_separated hrest)
  have hplain : scanSign (renderDigits (lead :: digits) ++ rest) =
      (false, renderDigits (lead :: digits) ++ rest) :=
    scanSign_of_isDigit (isDigit_digitByte lead) _
  have hmarker : ∀ text : Bytes,
      scanExponent (ascii "Ee") ((if upper then 69 else 101) :: text) =
        (let digits := (scanSign text).2.takeWhile isDigit
         if (scanSign text).1 then -(readDecimal digits : Int)
         else readDecimal digits) := by
    intro text
    cases upper <;> rfl
  rw [Exponent.render, List.cons_append, hmarker]
  cases sign with
  | none => simp [hplain, hdigits, Exponent.value]
  | some negative =>
      cases negative <;> simp [scanSign, hdigits, Exponent.value]

namespace Number

private theorem exponentText_stops (number : Number) :
    (number.exponentText ++ rest).takeWhile isDigit = [] := by
  obtain ⟨negative, whole, fraction, exponent⟩ := number
  cases exponent with
  | none => exact takeWhile_of_separated hrest
  | some exponent =>
      obtain ⟨upper, sign, lead, digits⟩ := exponent
      cases upper <;> rfl

private theorem scanExponent_exponentText (number : Number) :
    scanExponent (ascii "Ee") (number.exponentText ++ rest) = number.exponentValue := by
  obtain ⟨negative, whole, fraction, exponent⟩ := number
  cases exponent with
  | none => exact scanExponent_of_separated hrest
  | some exponent => exact scanExponent_render hrest exponent

private theorem fractionText_stops (number : Number) :
    (number.fractionText ++ (number.exponentText ++ rest)).takeWhile isDigit = [] := by
  have hexponent := exponentText_stops hrest number
  obtain ⟨negative, whole, fraction, exponent⟩ := number
  cases fraction with
  | none => exact hexponent
  | some digits => rfl

private theorem scanFraction_text (number : Number) :
    scanFraction isDigit (number.fractionText ++ (number.exponentText ++ rest)) =
      (renderDigits number.fractionDigits, number.exponentText ++ rest) := by
  have hexponent := exponentText_stops hrest number
  obtain ⟨negative, whole, fraction, exponent⟩ := number
  cases fraction with
  | none =>
      cases exponent with
      | none => exact scanFraction_of_separated hrest
      | some exponent =>
          obtain ⟨upper, sign, lead, digits⟩ := exponent
          cases upper <;> rfl
  | some digits =>
      obtain ⟨lead, digits⟩ := digits
      obtain ⟨htake, hdrop⟩ :=
        takeWhile_digits (renderDigits_isDigit (lead :: digits)) hexponent
      simp only [fractionText, scanFraction, List.cons_append, fractionDigits,
        htake, hdrop]

end Number

end

namespace Number

private theorem scanSign_render (number : Number) {blanks : Bytes}
    (hblanks : ∀ b ∈ blanks, isSpace b = true) (rest : Bytes) :
    scanSign ((blanks ++ (number.render ++ rest)).dropWhile isSpace) =
      (number.negative, renderDigits number.whole.digits ++
        (number.fractionText ++ (number.exponentText ++ rest))) := by
  obtain ⟨lead, digits, hwhole⟩ := number.whole.exists_digits_eq_cons
  have hlead := isDigit_digitByte lead
  obtain ⟨hspace, -, -⟩ := not_space_or_sign_of_isDigit hlead
  rw [List.dropWhile_append_of_pos hblanks, render, hwhole]
  cases number.negative with
  | false =>
      simp only [Bool.false_eq_true, if_false, List.nil_append, renderDigits,
        List.map_cons, List.cons_append, List.append_assoc]
      rw [List.dropWhile_cons_of_neg (by simp [hspace])]
      exact scanSign_of_isDigit hlead _
  | true =>
      simp only [if_true, List.cons_append, List.nil_append, List.append_assoc]
      rfl

private theorem scanDecimal_render (number : Number) {rest : Bytes}
    (hrest : Separated numberBytes rest) :
    scanDecimal (renderDigits number.whole.digits ++
        (number.fractionText ++ (number.exponentText ++ rest))) =
      some (number.mantissa, number.scale) := by
  obtain ⟨htake, hdrop⟩ := takeWhile_digits
    (renderDigits_isDigit number.whole.digits) (fractionText_stops hrest number)
  have hne : renderDigits number.whole.digits ++
      renderDigits number.fractionDigits ≠ [] := by
    cases number.whole <;> simp [Whole.digits, renderDigits]
  simp only [scanDecimal, htake, hdrop, scanFraction_text hrest number, hne, if_false,
    scanExponent_exponentText hrest number]
  simp [mantissa, scale, renderDigits]

private theorem scanHexadecimal_of_ne {b : UInt8} (h : b ≠ 48) (rest : Bytes) :
    scanHexadecimal (b :: rest) = none := by
  unfold scanHexadecimal
  split
  · simp_all
  · rfl

private theorem scanHexadecimal_of_separated {rest : Bytes}
    (h : Separated (ascii "Xx") rest) : scanHexadecimal (48 :: rest) = none := by
  cases rest with
  | nil => rfl
  | cons b rest => exact if_neg h

/-- After a leading zero comes no `x`. -/
private theorem scanHexadecimal_render (number : Number) {rest : Bytes}
    (hrest : Separated (ascii "Xx") rest) :
    scanHexadecimal (renderDigits number.whole.digits ++
      (number.fractionText ++ (number.exponentText ++ rest))) = none := by
  obtain ⟨negative, whole, fraction, exponent⟩ := number
  cases whole with
  | zero =>
      refine scanHexadecimal_of_separated ?_
      cases fraction with
      | some digits => exact (by decide : (46 : UInt8) ∉ ascii "Xx")
      | none =>
          cases exponent with
          | none => exact hrest
          | some exponent =>
              obtain ⟨upper, sign, lead, digits⟩ := exponent
              cases upper
              · exact (by decide : (101 : UInt8) ∉ ascii "Xx")
              · exact (by decide : (69 : UInt8) ∉ ascii "Xx")
  | positive lead lead_ne digits =>
      have hlead : ∀ lead : Digit, lead ≠ 0 → digitByte lead.val ≠ 48 := by decide
      exact scanHexadecimal_of_ne (hlead lead lead_ne) _

private theorem startsWith_of_isDigit {b first : UInt8} (h : isDigit b = true)
    (hfirst : isDigit first = false) (word rest : Bytes) :
    startsWith (first :: word) (b :: rest) = false := by
  have hlow : lowerCase b = b := by
    simp only [isDigit, Bool.and_eq_true, decide_eq_true_eq, UInt8.le_iff_toNat_le] at h
    refine if_neg ?_
    simp only [Bool.and_eq_true, decide_eq_true_eq, UInt8.le_iff_toNat_le]
    exact fun hupper => absurd (hupper.1.trans h.2) (by decide)
  have hne : b ≠ first := by
    rintro rfl
    simp [h] at hfirst
  simp [startsWith, hlow, hne]

/-- The literal is read with blanks before it and anything that ends it after it. -/
private theorem stod_text {α : Type} [Double α] (number : Number) {blanks rest : Bytes}
    (hblanks : ∀ b ∈ blanks, isSpace b = true) (hrest : Separated numberBytes rest)
    (hhex : Separated (ascii "Xx") rest) :
    (stod (blanks ++ (number.render ++ rest)) : Option α) =
      Double.ofDecimal number.negative number.mantissa number.scale := by
  have hword : ∀ {first : UInt8}, isDigit first = false → ∀ word,
      startsWith (first :: word) (renderDigits number.whole.digits ++
        (number.fractionText ++ (number.exponentText ++ rest))) = false := by
    intro first hfirst word
    obtain ⟨lead, digits, hwhole⟩ := number.whole.exists_digits_eq_cons
    rw [hwhole]
    exact startsWith_of_isDigit (isDigit_digitByte lead) hfirst word _
  have hinf : startsWith (ascii "inf") _ = false := hword (by decide) (ascii "nf")
  have hnan : startsWith (ascii "nan") _ = false := hword (by decide) (ascii "an")
  unfold stod
  rw [number.scanSign_render hblanks rest]
  simp only [hinf, hnan, Bool.false_eq_true, if_false,
    number.scanHexadecimal_render hhex, number.scanDecimal_render hrest]

theorem stod_render {α : Type} [Double α] (number : Number) :
    (stod number.render : Option α) =
      Double.ofDecimal number.negative number.mantissa number.scale := by
  have hnil : Separated numberBytes [] := trivial
  rw [← List.append_nil number.render, ← List.nil_append (number.render ++ [])]
  exact number.stod_text (by simp) hnil trivial

theorem stod_spaced {α : Type} [Double α] (number : Number) {blanks rest : Bytes}
    (hblanks : ∀ b ∈ blanks, isSpace b = true) (hrest : Separated numberBytes rest)
    (hhex : Separated (ascii "Xx") rest) :
    (stod (blanks ++ (number.render ++ rest)) : Option α) = stod number.render := by
  rw [number.stod_render, number.stod_text hblanks hrest hhex]

/-! ## The bytes of a number -/

private theorem digitByte_mem (digit : Digit) :
    digitByte digit.val ∈ numberBytes := by
  revert digit
  decide

private theorem renderDigits_subset (digits : List Digit) :
    renderDigits digits ⊆ numberBytes := by
  intro b hb
  obtain ⟨digit, -, rfl⟩ := List.mem_map.mp hb
  exact digitByte_mem digit

private theorem exponent_render_subset (exponent : Exponent) :
    exponent.render ⊆ numberBytes := by
  have hdigits := renderDigits_subset (exponent.lead :: exponent.digits)
  refine List.cons_subset.mpr ⟨?_, List.append_subset.mpr ⟨?_, hdigits⟩⟩
  · cases exponent.upper <;> decide
  · rcases exponent.sign with _ | negative
    · simp
    · cases negative <;> decide

theorem render_subset (number : Number) :
    number.render ⊆ numberBytes := by
  refine List.append_subset.mpr ⟨?_, List.append_subset.mpr
    ⟨renderDigits_subset _, List.append_subset.mpr ⟨?_, ?_⟩⟩⟩
  · cases number.negative <;> decide
  · unfold fractionText
    split
    · simp
    · exact List.cons_subset.mpr ⟨by decide, renderDigits_subset _⟩
  · unfold exponentText
    split
    · simp
    · exact exponent_render_subset _

end Number

/-! ## One literal, one number -/

theorem Number.render_ne_nil (number : Number) : number.render ≠ [] := by
  cases hwhole : number.whole <;> simp [render, hwhole, Whole.digits, renderDigits]

private theorem renderDigits_mem (digits : List Digit) :
    renderDigits digits ⊆ ascii "0123456789" := by
  have hbyte : ∀ digit : Digit, digitByte digit.val ∈ ascii "0123456789" := by decide
  intro b hb
  obtain ⟨digit, -, rfl⟩ := List.mem_map.mp hb
  exact hbyte digit

private theorem renderDigits_injective : Function.Injective renderDigits := by
  apply List.map_injective_iff.mpr
  have hbyte : ∀ first second : Digit,
      digitByte first.val = digitByte second.val → first = second := by decide
  exact fun first second => hbyte first second

private theorem renderDigits_append_inj {first second : List Digit} {rest rest' : Bytes}
    (hrest : Separated (ascii "0123456789") rest)
    (hrest' : Separated (ascii "0123456789") rest')
    (h : renderDigits first ++ rest = renderDigits second ++ rest') :
    first = second ∧ rest = rest' := by
  obtain ⟨hdigits, htail⟩ := append_inj_of_separated (renderDigits_mem first)
    (renderDigits_mem second) hrest hrest' h
  exact ⟨renderDigits_injective hdigits, htail⟩

private theorem ne_renderDigits {b : UInt8} (hb : b ∉ ascii "0123456789") (lead : Digit)
    (digits : List Digit) (rest bytes : Bytes) :
    b :: bytes ≠ renderDigits (lead :: digits) ++ rest := by
  intro h
  have hlead : digitByte lead.val ∈ ascii "0123456789" :=
    renderDigits_mem (lead :: digits) (by simp [renderDigits])
  simp only [renderDigits, List.map_cons, List.cons_append, List.cons.injEq] at h
  exact hb (h.1 ▸ hlead)

private theorem Whole.digits_injective : Function.Injective Whole.digits := by
  intro first second h
  cases first with
  | zero =>
      cases second with
      | zero => rfl
      | positive lead lead_ne digits =>
          simp only [Whole.digits, List.cons.injEq] at h
          exact absurd h.1.symm lead_ne
  | positive lead lead_ne digits =>
      cases second with
      | zero =>
          simp only [Whole.digits, List.cons.injEq] at h
          exact absurd h.1 lead_ne
      | positive lead' lead_ne' digits' => simpa [Whole.digits] using h

private theorem Exponent.render_injective : Function.Injective Exponent.render := by
  rintro ⟨upper, sign, lead, digits⟩ ⟨upper', sign', lead', digits'⟩ h
  have hsign : ∀ (lead : Digit) (digits : List Digit) (bytes : Bytes),
      45 :: bytes ≠ renderDigits (lead :: digits) ∧
        43 :: bytes ≠ renderDigits (lead :: digits) := by
    intro lead digits bytes
    have hminus := @ne_renderDigits 45 (by decide) lead digits [] bytes
    have hplus := @ne_renderDigits 43 (by decide) lead digits [] bytes
    rw [List.append_nil] at hminus hplus
    exact ⟨hminus, hplus⟩
  simp only [Exponent.render, List.cons.injEq] at h
  obtain ⟨hmarker, h⟩ := h
  have hupper : upper = upper' := by
    cases upper <;> cases upper' <;> simp_all
  have hdigits : sign = sign' ∧ lead :: digits = lead' :: digits' := by
    cases sign with
    | none =>
        cases sign' with
        | none => exact ⟨rfl, renderDigits_injective h⟩
        | some negative' =>
            cases negative' with
            | false => exact absurd h.symm (hsign _ _ _).2
            | true => exact absurd h.symm (hsign _ _ _).1
    | some negative =>
        cases sign' with
        | none =>
            cases negative with
            | false => exact absurd h (hsign _ _ _).2
            | true => exact absurd h (hsign _ _ _).1
        | some negative' =>
            cases negative <;> cases negative' <;>
              simp_all [renderDigits_injective.eq_iff]
  obtain ⟨rfl, hdigits⟩ := hdigits
  obtain ⟨rfl, rfl⟩ := List.cons.inj hdigits
  rw [hupper]

namespace Number

private theorem exponentText_separated (number : Number) :
    Separated (ascii ".0123456789") number.exponentText := by
  obtain ⟨negative, whole, fraction, exponent⟩ := number
  cases exponent with
  | none => trivial
  | some exponent =>
      obtain ⟨upper, sign, lead, digits⟩ := exponent
      cases upper with
      | false => exact (show (101 : UInt8) ∉ ascii ".0123456789" by decide)
      | true => exact (show (69 : UInt8) ∉ ascii ".0123456789" by decide)

private theorem exponentText_injective {first second : Number}
    (h : first.exponentText = second.exponentText) : first.exponent = second.exponent := by
  unfold exponentText at h
  cases hfirst : first.exponent with
  | none =>
      cases hsecond : second.exponent with
      | none => rfl
      | some exponent => simp [hfirst, hsecond, Exponent.render] at h
  | some exponent =>
      cases hsecond : second.exponent with
      | none => simp [hfirst, hsecond, Exponent.render] at h
      | some exponent' =>
          simp only [hfirst, hsecond] at h
          rw [Exponent.render_injective h]

private theorem fractionText_separated (number : Number) :
    Separated (ascii "0123456789") (number.fractionText ++ number.exponentText) := by
  have hexponent := number.exponentText_separated
  obtain ⟨negative, whole, fraction, exponent⟩ := number
  cases fraction with
  | none => exact hexponent.mono (by decide)
  | some digits => exact (show (46 : UInt8) ∉ ascii "0123456789" by decide)

private theorem fractionText_injective {first second : Number}
    (h : first.fractionText ++ first.exponentText =
      second.fractionText ++ second.exponentText) :
    first.fraction = second.fraction ∧ first.exponent = second.exponent := by
  have hfirst := first.exponentText_separated
  have hsecond := second.exponentText_separated
  have hpoint : (46 : UInt8) ∈ ascii ".0123456789" := by decide
  unfold fractionText at h
  cases hfraction : first.fraction with
  | none =>
      cases hfraction' : second.fraction with
      | none =>
          simp only [hfraction, hfraction', List.nil_append] at h
          exact ⟨rfl, exponentText_injective h⟩
      | some digits' =>
          simp only [hfraction, hfraction', List.nil_append, List.cons_append] at h
          rw [h] at hfirst
          exact absurd hpoint hfirst
  | some digits =>
      cases hfraction' : second.fraction with
      | none =>
          simp only [hfraction, hfraction', List.nil_append, List.cons_append] at h
          rw [← h] at hsecond
          exact absurd hpoint hsecond
      | some digits' =>
          simp only [hfraction, hfraction', List.cons_append, List.cons.injEq,
            true_and] at h
          obtain ⟨hdigits, hexponent⟩ := renderDigits_append_inj
            (hfirst.mono (by decide)) (hsecond.mono (by decide)) h
          obtain ⟨hlead, hrest⟩ := List.cons.inj hdigits
          exact ⟨by rw [Prod.ext hlead hrest], exponentText_injective hexponent⟩

theorem render_injective : Function.Injective render := by
  intro first second h
  obtain ⟨lead, digits, hwhole⟩ := first.whole.exists_digits_eq_cons
  obtain ⟨lead', digits', hwhole'⟩ := second.whole.exists_digits_eq_cons
  have hminus : (45 : UInt8) ∉ ascii "0123456789" := by decide
  have hsign : first.negative = second.negative ∧
      renderDigits first.whole.digits ++ (first.fractionText ++ first.exponentText) =
        renderDigits second.whole.digits ++
          (second.fractionText ++ second.exponentText) := by
    rw [hwhole, hwhole']
    unfold render at h
    rw [hwhole, hwhole'] at h
    cases hnegative : first.negative with
    | false =>
        cases hnegative' : second.negative with
        | false => simpa [hnegative, hnegative'] using h
        | true =>
            simp only [hnegative, hnegative', Bool.false_eq_true, if_false, if_true,
              List.nil_append, List.cons_append] at h
            exact absurd h.symm (ne_renderDigits hminus _ _ _ _)
    | true =>
        cases hnegative' : second.negative with
        | false =>
            simp only [hnegative, hnegative', Bool.false_eq_true, if_false, if_true,
              List.nil_append, List.cons_append] at h
            exact absurd h (ne_renderDigits hminus _ _ _ _)
        | true => simpa [hnegative, hnegative'] using h
  obtain ⟨hdigits, htail⟩ := renderDigits_append_inj first.fractionText_separated
    second.fractionText_separated hsign.2
  obtain ⟨hfraction, hexponent⟩ := fractionText_injective htail
  have hwholes := Whole.digits_injective hdigits
  cases first
  cases second
  simp only [mk.injEq]
  exact ⟨hsign.1, hwholes, hfraction, hexponent⟩

theorem render_append_inj {first second : Number} {rest rest' : Bytes}
    (hrest : Separated numberBytes rest)
    (hrest' : Separated numberBytes rest')
    (h : first.render ++ rest = second.render ++ rest') :
    first = second ∧ rest = rest' := by
  obtain ⟨hrender, htail⟩ := append_inj_of_separated first.render_subset
    second.render_subset hrest hrest' h
  exact ⟨render_injective hrender, htail⟩

end Number

end RinhaBackend.Foundation.Json
