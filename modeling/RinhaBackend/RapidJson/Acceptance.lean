import RinhaBackend.RapidJson.ReadText

/-!
# What the parser accepts

The parser accepts grammatical texts only: whatever a parsing function takes off the
text is the rendering of a part of the grammar.
-/

namespace RinhaBackend.RapidJson

open Foundation Json

theorem eq_cons_of_consume {expect : UInt8} {is rest : Bytes}
    (h : consume expect is = some rest) : is = expect :: rest := by
  cases is with
  | nil => cases h
  | cons c is =>
      rw [consume] at h
      split_ifs at h with hc
      cases h
      rw [hc]

/-! ## Numbers

Every loop over digits leaves the text where its digits end, or hands on the digits
that it has not taken.
-/

theorem exists_digits_dropWhile (is : Bytes) :
    ∃ ds : List Digit, is = renderDigits ds ++ is.dropWhile isDigit := by
  obtain ⟨ds, hds⟩ := exists_digits fun c hc => List.mem_takeWhile_imp (p := isDigit) hc
  exact ⟨ds, by rw [hds, List.takeWhile_append_dropWhile]⟩

theorem dropWhile_digit {c : UInt8} (h : isDigit c = true) (is : Bytes) :
    (c :: is).dropWhile isDigit = is.dropWhile isDigit :=
  List.dropWhile_cons_of_pos h

theorem dropWhile_not_digit {c : UInt8} (h : ¬isDigit c = true) (is : Bytes) :
    (c :: is).dropWhile isDigit = c :: is :=
  List.dropWhile_cons_of_neg h

theorem takeDigits_dropWhile (limit : Nat) (last : UInt8) (number digits : Nat) (is : Bytes) :
    (takeDigits limit last number digits is).2.2.2.dropWhile isDigit = is.dropWhile isDigit ∧
      ((takeDigits limit last number digits is).2.2.1 = false →
        (takeDigits limit last number digits is).2.2.2 = is.dropWhile isDigit) := by
  induction is generalizing number digits with
  | nil => exact ⟨rfl, fun _ => rfl⟩
  | cons c is ih =>
      rw [takeDigits]
      split_ifs with hdigit hstop
      · exact ⟨rfl, fun h => absurd h (by simp)⟩
      · rw [dropWhile_digit hdigit]
        exact ih _ _
      · rw [dropWhile_not_digit hdigit]
        exact ⟨rfl, fun _ => rfl⟩

theorem takeFraction53_dropWhile (i64 digits places : Nat) (is : Bytes) :
    (takeFraction53 i64 digits places is).2.2.2.dropWhile isDigit = is.dropWhile isDigit := by
  induction is generalizing i64 digits places with
  | nil => rfl
  | cons c is ih =>
      rw [takeFraction53]
      split_ifs with hdigit hstop
      · rfl
      · rw [dropWhile_digit hdigit]
        exact ih _ _ _
      · rfl

theorem takeExponentMinus_dropWhile (maxExp exp : Nat) (is : Bytes) :
    (takeExponentMinus maxExp exp is).2 = is.dropWhile isDigit := by
  induction is generalizing exp with
  | nil => rfl
  | cons c is ih =>
      rw [takeExponentMinus]
      dsimp only
      split_ifs with hdigit hbig
      · rw [dropWhile_digit hdigit]
      · rw [dropWhile_digit hdigit]
        exact ih _
      · rw [dropWhile_not_digit hdigit]

theorem takeExponentPlus_dropWhile {maxExp exp exp' : Nat} {is rest : Bytes}
    (h : takeExponentPlus maxExp exp is = .ok (exp', rest)) : rest = is.dropWhile isDigit := by
  induction is generalizing exp with
  | nil =>
      cases h
      rfl
  | cons c is ih =>
      rw [takeExponentPlus] at h
      dsimp only at h
      split_ifs at h with hdigit hbig
      · rw [dropWhile_digit hdigit]
        exact ih h
      · cases h
        rw [dropWhile_not_digit hdigit]

section

variable {α : Type} [Ieee α]

theorem takeDouble_dropWhile (d : α) (is : Bytes) :
    (takeDouble d is).2 = is.dropWhile isDigit := by
  induction is generalizing d with
  | nil => rfl
  | cons c is ih =>
      rw [takeDouble]
      split_ifs with hdigit
      · rw [dropWhile_digit hdigit]
        exact ih _
      · rw [dropWhile_not_digit hdigit]

theorem takeFraction_dropWhile (d : α) (digits places : Nat) (is : Bytes) :
    (takeFraction d digits places is).2.2 = is.dropWhile isDigit := by
  induction is generalizing d digits places with
  | nil => rfl
  | cons c is ih =>
      rw [takeFraction]
      dsimp only
      split_ifs with hdigit hcounted
      · rw [dropWhile_digit hdigit]
        exact ih _ _ _
      · rw [dropWhile_digit hdigit]
        exact ih _ _ _
      · rw [dropWhile_digit hdigit]
        exact ih _ _ _
      · rw [dropWhile_not_digit hdigit]

theorem fractionDigits_dropWhile (significand : Significand α) (digits : Nat) (is : Bytes) :
    (fractionDigits significand digits is).2.2 = is.dropWhile isDigit := by
  cases significand with
  | int i => simp only [fractionDigits, takeFractions, takeFraction_dropWhile,
      takeFraction53_dropWhile]
  | int64 i64 => simp only [fractionDigits, takeFractions, takeFraction_dropWhile,
      takeFraction53_dropWhile]
  | double d => simp only [fractionDigits, takeFraction_dropWhile]

theorem parseInteger64_dropWhile (minus : Bool) (i digits : Nat) (is : Bytes) :
    (parseInteger64 (α := α) minus i digits is).2.2 = is.dropWhile isDigit := by
  unfold parseInteger64
  have hloop := takeDigits_dropWhile (if minus then 0x0CCCCCCCCCCCCCCC else 0x1999999999999999)
    (if minus then 56 else 53) i digits is
  revert hloop
  generalize takeDigits _ _ i digits is = read
  obtain ⟨i64, digits', useDouble, is'⟩ := read
  rintro ⟨hall, hdone⟩
  cases useDouble with
  | false => exact hdone rfl
  | true =>
      simp only [if_true, takeDouble_dropWhile]
      exact hall

theorem parseInteger32_dropWhile (minus : Bool) (i : Nat) (is : Bytes) :
    (parseInteger32 (α := α) minus i is).2.2 = is.dropWhile isDigit := by
  unfold parseInteger32
  have hloop := takeDigits_dropWhile (if minus then 214748364 else 429496729)
    (if minus then 56 else 53) i 0 is
  revert hloop
  generalize takeDigits _ _ i 0 is = read
  obtain ⟨i', digits', use64bit, is'⟩ := read
  rintro ⟨hall, hdone⟩
  cases use64bit with
  | false => exact hdone rfl
  | true =>
      simp only [if_true, parseInteger64_dropWhile]
      exact hall

theorem parseInteger_sound {minus : Bool} {is rest : Bytes} {significand : Significand α}
    {digits : Nat} (h : parseInteger minus is = .ok (significand, digits, rest)) :
    ∃ whole : Whole, is = renderDigits whole.digits ++ rest := by
  cases is with
  | nil => cases h
  | cons c is =>
      rw [parseInteger] at h
      by_cases hzero : c = 48
      · rw [if_pos hzero] at h
        cases h
        exact ⟨.zero, by rw [hzero]; rfl⟩
      rw [if_neg hzero] at h
      by_cases hdigit : isDigit c = true
      · rw [if_pos hdigit] at h
        obtain ⟨lead, rfl⟩ := exists_digit hdigit
        have hlead : lead ≠ 0 := by
          rintro rfl
          exact hzero rfl
        obtain ⟨ds, hds⟩ := exists_digits_dropWhile is
        have hrest := parseInteger32_dropWhile (α := α) minus (digitValue (digitByte lead.val)) is
        rw [Except.ok.inj h] at hrest
        refine ⟨.positive lead hlead ds, ?_⟩
        rw [show rest = is.dropWhile isDigit from hrest, Whole.digits]
        nth_rewrite 1 [hds]
        rfl
      · rw [if_neg hdigit] at h
        cases h

theorem parseFraction_sound {significand significand' : Significand α} {digits places : Nat}
    {is rest : Bytes}
    (h : parseFraction significand digits is = .ok (significand', places, rest)) :
    ∃ fraction, ∀ negative whole exponent,
      is = (⟨negative, whole, fraction, exponent⟩ : Number).fractionText ++ rest := by
  cases hconsume : consume 46 is with
  | none =>
      rw [parseFraction, hconsume] at h
      cases h
      exact ⟨none, fun _ _ _ => rfl⟩
  | some after =>
      obtain rfl := eq_cons_of_consume hconsume
      rw [parseFraction, hconsume] at h
      cases after with
      | nil => cases h
      | cons c is =>
          dsimp only at h
          split_ifs at h with hdigit
          · obtain ⟨lead, rfl⟩ := exists_digit hdigit
            obtain ⟨ds, hds⟩ := exists_digits_dropWhile is
            have hrest := fractionDigits_dropWhile significand digits (digitByte lead.val :: is)
            rw [dropWhile_digit hdigit] at hrest
            cases h
            refine ⟨some (lead, ds), fun _ _ _ => ?_⟩
            rw [hrest]
            nth_rewrite 1 [hds]
            rfl

theorem parseExponentSign_sound {is rest : Bytes} {expMinus : Bool}
    (h : parseExponentSign is = (expMinus, rest)) :
    ∃ sign : Option Bool, is = (match sign with
      | none => []
      | some negative => if negative then [45] else [43]) ++ rest := by
  cases hplus : consume 43 is with
  | some after =>
      rw [parseExponentSign, hplus] at h
      cases h
      exact ⟨some false, eq_cons_of_consume hplus⟩
  | none =>
      cases hminus : consume 45 is with
      | some after =>
          rw [parseExponentSign, hplus] at h
          simp only [hminus] at h
          cases h
          exact ⟨some true, eq_cons_of_consume hminus⟩
      | none =>
          rw [parseExponentSign, hplus] at h
          simp only [hminus] at h
          cases h
          exact ⟨none, rfl⟩

theorem parseExponent_sound {significand significand' : Significand α} {places : Nat}
    {exp : Int} {is rest : Bytes}
    (h : parseExponent significand places is = .ok (significand', exp, rest)) :
    ∃ exponent, ∀ negative whole fraction,
      is = (⟨negative, whole, fraction, exponent⟩ : Number).exponentText ++ rest := by
  cases is with
  | nil =>
      cases h
      exact ⟨none, fun _ _ _ => rfl⟩
  | cons c is =>
      rw [parseExponent] at h
      by_cases hmarker : c = 101 ∨ c = 69
      · rw [if_pos hmarker] at h
        rcases hsign : parseExponentSign is with ⟨expMinus, _ | ⟨c', signed⟩⟩
        · rw [hsign] at h
          cases h
        rw [hsign] at h
        dsimp only at h
        by_cases hdigit : isDigit c' = true
        · rw [if_pos hdigit] at h
          have hrest : rest = signed.dropWhile isDigit := by
            cases expMinus with
            | true =>
                rw [if_pos rfl] at h
                cases h
                exact takeExponentMinus_dropWhile _ _ signed
            | false =>
                rw [if_neg (by simp)] at h
                cases hread : takeExponentPlus (308 + places) (digitValue c') signed with
                | error code =>
                    rw [hread] at h
                    cases h
                | ok read =>
                    rw [hread] at h
                    cases h
                    exact takeExponentPlus_dropWhile hread
          obtain ⟨sign, his⟩ := parseExponentSign_sound hsign
          obtain ⟨lead, rfl⟩ := exists_digit hdigit
          obtain ⟨ds, hds⟩ := exists_digits_dropWhile signed
          refine ⟨some ⟨decide (c = 69), sign, lead, ds⟩, fun _ _ _ => ?_⟩
          have hupper : (if decide (c = 69) then 69 else 101) = c := by
            rcases hmarker with rfl | rfl <;> rfl
          rw [← hrest] at hds
          rw [his, hds]
          cases sign with
          | none | some negative =>
              simp only [Number.exponentText, Exponent.render, hupper, renderDigits,
                List.map_cons, List.cons_append, List.append_assoc]
        · rw [if_neg hdigit] at h
          cases h
      · rw [if_neg hmarker] at h
        cases h
        exact ⟨none, fun _ _ _ => rfl⟩

theorem parseMinus_sound {is rest : Bytes} {minus : Bool} (h : parseMinus is = (minus, rest)) :
    is = (if minus then [45] else []) ++ rest := by
  cases hconsume : consume 45 is with
  | some after =>
      rw [parseMinus, hconsume] at h
      cases h
      exact eq_cons_of_consume hconsume
  | none =>
      rw [parseMinus, hconsume] at h
      cases h
      rfl

theorem bind_eq_ok {β γ : Type} {read : Parsing β} {f : β → Parsing γ} {result : γ}
    (h : (read >>= f) = .ok result) : ∃ value, read = .ok value ∧ f value = .ok result := by
  cases read with
  | error code => cases h
  | ok value => exact ⟨value, rfl, h⟩

theorem parseNumber_sound {is rest : Bytes} {value : Value α}
    (h : parseNumber is = .ok (value, rest)) :
    ∃ literal : Number, is = literal.render ++ rest := by
  unfold parseNumber at h
  rcases hminus : parseMinus is with ⟨minus, unsigned⟩
  rw [hminus] at h
  obtain ⟨⟨significand, digits, is₁⟩, hinteger, h⟩ := bind_eq_ok h
  obtain ⟨⟨significand', places, is₂⟩, hfraction, h⟩ := bind_eq_ok h
  obtain ⟨⟨significand'', exp, is₃⟩, hexponent, h⟩ := bind_eq_ok h
  obtain ⟨number, -, h⟩ := bind_eq_ok h
  cases h
  obtain ⟨whole, hwhole⟩ := parseInteger_sound hinteger
  obtain ⟨fraction, hfraction⟩ := parseFraction_sound hfraction
  obtain ⟨exponent, hexponent⟩ := parseExponent_sound hexponent
  refine ⟨⟨minus, whole, fraction, exponent⟩, ?_⟩
  rw [parseMinus_sound hminus, hwhole, hfraction minus whole exponent,
    hexponent minus whole fraction]
  simp [Number.render]

end

/-! ## Strings -/

theorem isHexDigit_of_hexValue {c : UInt8} {v : Nat} (h : hexValue c = some v) :
    isHexDigit c = true := by
  unfold hexValue at h
  simp only [isHexDigit, isDigit, Bool.or_eq_true, Bool.and_eq_true, decide_eq_true_eq]
  split_ifs at h with hdigit hupper hlower
  · exact .inl (.inl hdigit)
  · exact .inl (.inr hupper)
  · exact .inr hlower

theorem parseHex_sound {codepoint codepoint' left : Nat} {is rest : Bytes}
    (h : parseHex codepoint left is = .ok (codepoint', rest)) :
    ∃ digits : Bytes, digits.length = left ∧ digits.all isHexDigit = true ∧
      is = digits ++ rest := by
  induction left generalizing codepoint is with
  | zero =>
      cases h
      exact ⟨[], rfl, rfl, rfl⟩
  | succ left ih =>
      cases is with
      | nil => cases h
      | cons c is =>
          rw [parseHex] at h
          cases hvalue : hexValue c with
          | none =>
              rw [hvalue] at h
              cases h
          | some v =>
              rw [hvalue] at h
              obtain ⟨digits, hlength, hall, rfl⟩ := ih h
              exact ⟨c :: digits, by rw [List.length_cons, hlength],
                by rw [List.all_cons, isHexDigit_of_hexValue hvalue, hall]; rfl, rfl⟩

theorem parseHex4_sound {is rest : Bytes} {codepoint : Nat}
    (h : parseHex4 is = .ok (codepoint, rest)) :
    ∃ char : StringChar, 92 :: 117 :: is = char.render ++ rest := by
  obtain ⟨digits, hlength, hall, rfl⟩ := parseHex_sound h
  match digits, hlength, hall with
  | [a, b, c, d], _, hall => exact ⟨.unicode a b c d hall, rfl⟩

theorem parseLowSurrogate_sound {high : Nat} {is rest decoded : Bytes}
    (h : parseLowSurrogate high is = .ok (decoded, rest)) :
    ∃ char : StringChar, is = char.render ++ rest := by
  unfold parseLowSurrogate at h
  cases hconsume : (consume 92 is).bind (consume 117) with
  | none =>
      rw [hconsume] at h
      cases h
  | some after =>
      rw [hconsume] at h
      obtain ⟨is', hslash, hletter⟩ := Option.bind_eq_some_iff.mp hconsume
      obtain rfl := eq_cons_of_consume hslash
      obtain rfl := eq_cons_of_consume hletter
      obtain ⟨⟨low, is''⟩, hhex, h⟩ := bind_eq_ok h
      dsimp only at h
      by_cases hlow : low < 0xDC00 ∨ 0xDFFF < low
      · rw [if_pos hlow] at h
        cases h
      · rw [if_neg hlow, Except.ok.injEq, Prod.mk.injEq] at h
        obtain ⟨-, rfl⟩ := h
        exact parseHex4_sound hhex

theorem parseEscape_sound {is rest decoded : Bytes}
    (h : parseEscape is = .ok (decoded, rest)) :
    ∃ chars, 92 :: is = renderChars chars ++ rest := by
  cases is with
  | nil => cases h
  | cons e is =>
      rw [parseEscape] at h
      split_ifs at h with hescape hunicode
      · cases h
        have hmem : e ∈ ascii "\"\\/bfnrt" := by
          by_contra hmem
          apply hescape
          simp [ascii] at hmem
          simp [readEscape, hmem]
        exact ⟨[.escape e hmem], rfl⟩
      · subst hunicode
        obtain ⟨⟨codepoint, is'⟩, hhex, h⟩ := bind_eq_ok h
        obtain ⟨char, hchar⟩ := parseHex4_sound hhex
        dsimp only at h
        split_ifs at h with hsurrogate hhigh
        · obtain ⟨char', rfl⟩ := parseLowSurrogate_sound h
          exact ⟨[char, char'], by rw [hchar]; simp [renderChars]⟩
        · cases h
          exact ⟨[char], by rw [hchar]; simp [renderChars]⟩

theorem parseStringToStream_sound {fuel : Nat} {os is s rest : Bytes}
    (h : parseStringToStream fuel os is = .ok (s, rest)) :
    ∃ chars, is = renderChars chars ++ 34 :: rest := by
  induction fuel generalizing os is with
  | zero => cases h
  | succ fuel ih =>
      cases is with
      | nil => cases h
      | cons c is =>
          rw [parseStringToStream] at h
          split_ifs at h with hslash hquote hcontrol hzero
          · obtain ⟨⟨decoded, is'⟩, hescape, h⟩ := bind_eq_ok h
            obtain ⟨first, hfirst⟩ := parseEscape_sound hescape
            obtain ⟨chars, rfl⟩ := ih h
            exact ⟨first ++ chars, by rw [hslash, hfirst]; simp [renderChars]⟩
          · cases h
            exact ⟨[], by rw [hquote]; rfl⟩
          · obtain ⟨chars, rfl⟩ := ih h
            exact ⟨.plain c ⟨UInt8.not_lt.mp hcontrol, hquote, hslash⟩ :: chars, rfl⟩

theorem parseString_sound {is s rest : Bytes} (h : parseString is = .ok (s, rest)) :
    ∃ chars, 34 :: is = renderString chars ++ rest := by
  obtain ⟨chars, rfl⟩ := parseStringToStream_sound h
  exact ⟨chars, by simp [renderString]⟩

theorem skipWhitespace_sound (is : Bytes) :
    ∃ blanks : Blanks, is = renderBlanks blanks ++ skipWhitespace is := by
  induction is with
  | nil => exact ⟨[], rfl⟩
  | cons c is ih =>
      by_cases hblank : isWhitespace c = true
      · obtain ⟨blanks, hblanks⟩ := ih
        obtain ⟨blank, rfl⟩ : ∃ blank : Blank, blank.byte = c := by
          have hmem := (isWhitespace_iff c).mp hblank
          simp only [blankBytes, List.mem_cons, List.not_mem_nil, or_false] at hmem
          rcases hmem with rfl | rfl | rfl | rfl
          · exact ⟨.space, rfl⟩
          · exact ⟨.tab, rfl⟩
          · exact ⟨.lineFeed, rfl⟩
          · exact ⟨.carriageReturn, rfl⟩
        refine ⟨blank :: blanks, ?_⟩
        rw [skipWhitespace, List.dropWhile_cons_of_pos hblank]
        nth_rewrite 1 [hblanks]
        rfl
      · refine ⟨[], ?_⟩
        rw [skipWhitespace, List.dropWhile_cons_of_neg hblank]
        rfl

/-! ## Values -/

section

variable {α : Type} [Ieee α]

omit [Ieee α] in
theorem parseLiteral_sound {word is rest : Bytes} {constant value : Value α}
    (h : parseLiteral word constant is = .ok (value, rest)) : is = word ++ rest := by
  unfold parseLiteral at h
  split_ifs at h with hprefix
  cases h
  exact (List.prefix_iff_eq_append.mp hprefix).symm

theorem map_eq_ok {β γ : Type} {read : Parsing β} {f : β → γ} {result : γ}
    (h : read.map f = .ok result) : ∃ value, read = .ok value ∧ f value = result := by
  cases read with
  | error code => cases h
  | ok value => exact ⟨value, rfl, Except.ok.inj h⟩

mutual

theorem parseValue_sound (fuel : Nat) {is rest : Bytes} {value : Value α}
    (h : parseValue fuel is = .ok (value, rest)) :
    ∃ tree : Json.Value Blanks, is = tree.render ++ rest := by
  cases fuel with
  | zero => cases h
  | succ fuel =>
      cases is with
      | nil => cases h
      | cons c is =>
          obtain ⟨blanks, hblanks⟩ := skipWhitespace_sound is
          by_cases hbrace : c = 123
          · rw [hbrace, parseValue_brace] at h
            rw [hbrace, hblanks]
            cases hclose : consume 125 (skipWhitespace is) with
            | some after =>
                rw [hclose] at h
                cases h
                exact ⟨.emptyObject blanks, by
                  rw [eq_cons_of_consume hclose]; simp [Json.Value.render]⟩
            | none =>
                rw [hclose] at h
                obtain ⟨⟨members, after⟩, hmembers, h⟩ := map_eq_ok h
                cases h
                obtain ⟨tree, htree⟩ := parseMembers_sound fuel hmembers blanks
                exact ⟨.object tree, by rw [htree]; simp [Json.Value.render]⟩
          by_cases hbracket : c = 91
          · rw [hbracket, parseValue_bracket] at h
            rw [hbracket, hblanks]
            cases hclose : consume 93 (skipWhitespace is) with
            | some after =>
                rw [hclose] at h
                cases h
                exact ⟨.emptyArray blanks, by
                  rw [eq_cons_of_consume hclose]; simp [Json.Value.render]⟩
            | none =>
                rw [hclose] at h
                obtain ⟨⟨elements, after⟩, helements, h⟩ := map_eq_ok h
                cases h
                obtain ⟨tree, htree⟩ := parseElements_sound fuel helements blanks
                exact ⟨.array tree, by rw [htree]; simp [Json.Value.render]⟩
          rw [parseValue] at h
          split_ifs at h with hnull htrue hfalse hquote
          · exact ⟨.null, by rw [hnull, parseLiteral_sound h]; rfl⟩
          · exact ⟨.boolean true, by rw [htrue, parseLiteral_sound h]; rfl⟩
          · exact ⟨.boolean false, by rw [hfalse, parseLiteral_sound h]; rfl⟩
          · obtain ⟨⟨s, is'⟩, hstring, h⟩ := bind_eq_ok h
            cases h
            obtain ⟨chars, hchars⟩ := parseString_sound hstring
            exact ⟨.string chars, by rw [hquote, hchars]; rfl⟩
          · obtain ⟨literal, hliteral⟩ := parseNumber_sound h
            exact ⟨.number literal, hliteral⟩

theorem parseMembers_sound (fuel : Nat) {is rest : Bytes} {members : List (Bytes × Value α)}
    (h : parseMembers fuel is = .ok (members, rest)) (blanks : Blanks) :
    ∃ tree : Members Blanks, renderBlanks blanks ++ is = tree.render ++ 125 :: rest := by
  cases fuel with
  | zero => cases h
  | succ fuel =>
      rw [parseMembers] at h
      cases hquote : consume 34 is with
      | none =>
          rw [hquote] at h
          cases h
      | some quoted =>
          rw [hquote] at h
          obtain rfl := eq_cons_of_consume hquote
          obtain ⟨⟨name, named⟩, hname, h⟩ := bind_eq_ok h
          dsimp only at h
          cases hcolon : consume 58 (skipWhitespace named) with
          | none =>
              rw [hcolon] at h
              cases h
          | some valued =>
              rw [hcolon] at h
              obtain ⟨⟨value, after⟩, hvalue, h⟩ := bind_eq_ok h
              dsimp only at h
              obtain ⟨key, hkey⟩ := parseString_sound hname
              obtain ⟨afterKey, hafterKey⟩ := skipWhitespace_sound named
              obtain ⟨beforeValue, hbeforeValue⟩ := skipWhitespace_sound valued
              obtain ⟨tree, htree⟩ := parseValue_sound fuel hvalue
              obtain ⟨afterValue, hafterValue⟩ := skipWhitespace_sound after
              rw [hkey, hafterKey, eq_cons_of_consume hcolon, hbeforeValue, htree]
              cases hrest : skipWhitespace after with
              | nil =>
                  rw [hrest] at h
                  cases h
              | cons c following =>
                  rw [hrest] at h hafterValue
                  dsimp only at h
                  split_ifs at h with hcomma hclose
                  · obtain ⟨⟨others, rest'⟩, hothers, h⟩ := bind_eq_ok h
                    cases h
                    obtain ⟨gap, hgap⟩ := skipWhitespace_sound following
                    obtain ⟨trees, htrees⟩ := parseMembers_sound fuel hothers gap
                    refine ⟨.next blanks key afterKey beforeValue tree afterValue trees, ?_⟩
                    rw [hafterValue, hcomma, hgap, htrees]
                    simp [Members.render]
                  · cases h
                    refine ⟨.last blanks key afterKey beforeValue tree afterValue, ?_⟩
                    rw [hafterValue, hclose]
                    simp [Members.render]

theorem parseElements_sound (fuel : Nat) {is rest : Bytes} {elements : List (Value α)}
    (h : parseElements fuel is = .ok (elements, rest)) (blanks : Blanks) :
    ∃ tree : Elements Blanks, renderBlanks blanks ++ is = tree.render ++ 93 :: rest := by
  cases fuel with
  | zero => cases h
  | succ fuel =>
      rw [parseElements] at h
      obtain ⟨⟨value, after⟩, hvalue, h⟩ := bind_eq_ok h
      dsimp only at h
      obtain ⟨tree, htree⟩ := parseValue_sound fuel hvalue
      obtain ⟨afterValue, hafterValue⟩ := skipWhitespace_sound after
      rw [htree]
      cases hrest : skipWhitespace after with
      | nil =>
          rw [hrest] at h
          cases h
      | cons c following =>
          rw [hrest] at h hafterValue
          dsimp only at h
          split_ifs at h with hcomma hclose
          · obtain ⟨⟨others, rest'⟩, hothers, h⟩ := bind_eq_ok h
            cases h
            obtain ⟨gap, hgap⟩ := skipWhitespace_sound following
            obtain ⟨trees, htrees⟩ := parseElements_sound fuel hothers gap
            refine ⟨.next blanks tree afterValue trees, ?_⟩
            rw [hafterValue, hcomma, hgap, htrees]
            simp [Elements.render]
          · cases h
            refine ⟨.last blanks tree afterValue, ?_⟩
            rw [hafterValue, hclose]
            simp [Elements.render]

end

theorem parse_sound {body : Bytes} {value : Value α} (h : parse body = .ok value) :
    ∃ text : Text, text.render = cString body := by
  unfold parse at h
  obtain ⟨before, hbefore⟩ := skipWhitespace_sound (cString body)
  dsimp only at h
  split_ifs at h
  obtain ⟨⟨root, rest⟩, hvalue, h⟩ := bind_eq_ok h
  dsimp only at h
  obtain ⟨tree, htree⟩ := parseValue_sound _ hvalue
  obtain ⟨after, hafter⟩ := skipWhitespace_sound rest
  split_ifs at h with hend
  refine ⟨⟨before, tree, after⟩, ?_⟩
  rw [hend, List.append_nil] at hafter
  rw [Text.render, ← hafter, ← htree, ← hbefore]

theorem parse_of_render {body : Bytes} {text : Text} (h : text.render = cString body) :
    parse (α := α) body = readValue text.value := by
  rw [← parse_render, parse, parse, cString_render, h]

/--
The parser accepts the texts of the grammar whose numbers and escapes it can
represent, and reads them as the grammar does.
-/
theorem parse_eq_ok_iff {body : Bytes} {value : Value α} :
    parse body = .ok value ↔
      ∃ text : Text, text.render = cString body ∧ readValue text.value = .ok value := by
  constructor
  · intro h
    obtain ⟨text, htext⟩ := parse_sound h
    exact ⟨text, htext, by rw [← parse_of_render htext, h]⟩
  · rintro ⟨text, htext, hread⟩
    rw [parse_of_render htext, hread]

end

end RinhaBackend.RapidJson
