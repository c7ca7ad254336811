import RinhaBackend.RapidJson.ReadNumber

/-!
# Reading texts

The parser on the texts of the grammar.  A grammatical text is read as its content
says, member by member, and fails only on a number that is too big or on an escape of
half a surrogate pair.
-/

namespace RinhaBackend.RapidJson

open Foundation Json

/-! ## Strings -/

def hexNumber (digits : Bytes) : Nat :=
  digits.foldl (fun number c => number * 16 + (hexValue c).getD 0) 0

theorem hexValue_isSome {c : UInt8} (h : isHexDigit c = true) : ∃ v, hexValue c = some v := by
  unfold hexValue
  simp only [isHexDigit, isDigit, Bool.or_eq_true, Bool.and_eq_true, decide_eq_true_eq] at h
  split_ifs with hdigit hupper hlower
  · exact ⟨_, rfl⟩
  · exact ⟨_, rfl⟩
  · exact ⟨_, rfl⟩
  · tauto

theorem parseHex_digits (codepoint : Nat) {digits : Bytes}
    (h : digits.all isHexDigit = true) (rest : Bytes) :
    parseHex codepoint digits.length (digits ++ rest) =
      .ok (digits.foldl (fun number c => number * 16 + (hexValue c).getD 0) codepoint, rest) := by
  induction digits generalizing codepoint with
  | nil => rfl
  | cons c digits ih =>
      rw [List.all_cons, Bool.and_eq_true] at h
      obtain ⟨v, hv⟩ := hexValue_isSome h.1
      simp only [List.length_cons, List.cons_append, parseHex, hv, List.foldl_cons,
        Option.getD_some]
      exact ih _ h.2

theorem parseHex4_digits {a b c d : UInt8} (h : [a, b, c, d].all isHexDigit = true)
    (rest : Bytes) :
    parseHex4 (a :: b :: c :: d :: rest) = .ok (hexNumber [a, b, c, d], rest) :=
  parseHex_digits 0 h rest

/-- The bytes that the characters of a string stand for. -/
def decode : List StringChar → Parsing Bytes
  | [] => .ok []
  | .plain b _ :: chars => do
      let s ← decode chars
      .ok (b :: s)
  | .escape b _ :: chars => do
      let s ← decode chars
      .ok (readEscape b :: s)
  | .unicode a b c d _ :: chars =>
      let codepoint := hexNumber [a, b, c, d]
      if isSurrogate codepoint then
        if codepoint ≤ 0xDBFF then
          match chars with
          | .unicode a b c d _ :: chars =>
              let low := hexNumber [a, b, c, d]
              if low < 0xDC00 ∨ 0xDFFF < low then .error .stringUnicodeSurrogateInvalid
              else do
                let s ← decode chars
                .ok (encode (joinSurrogates codepoint low) ++ s)
          | _ => .error .stringUnicodeSurrogateInvalid
        else .error .stringUnicodeSurrogateInvalid
      else do
        let s ← decode chars
        .ok (encode codepoint ++ s)

theorem readEscape_ne_zero {b : UInt8} (h : b ∈ ascii "\"\\/bfnrt") : readEscape b ≠ 0 := by
  have hall : ∀ b ∈ ascii "\"\\/bfnrt", readEscape b ≠ 0 := forall_mem_of_all (by decide)
  exact hall b h

/-- The loop of the parser over one escape. -/
theorem parseStringToStream_escape (fuel : Nat) (os is : Bytes) :
    parseStringToStream (fuel + 1) os (92 :: is) =
      (parseEscape is).bind fun read => parseStringToStream fuel (os ++ read.1) read.2 := by
  rw [parseStringToStream, if_pos rfl]
  rfl

theorem parseEscape_unicode {a b c d : UInt8} (h : [a, b, c, d].all isHexDigit = true)
    (rest : Bytes) :
    parseEscape (117 :: a :: b :: c :: d :: rest) =
      if isSurrogate (hexNumber [a, b, c, d]) then
        if hexNumber [a, b, c, d] ≤ 0xDBFF then
          parseLowSurrogate (hexNumber [a, b, c, d]) rest
        else .error .stringUnicodeSurrogateInvalid
      else .ok (encode (hexNumber [a, b, c, d]), rest) := by
  simp only [parseEscape, show readEscape 117 = 0 by decide, ne_eq, not_true_eq_false,
    if_false, if_true, parseUnicode, parseHex4_digits h]
  rfl

theorem parseLowSurrogate_some (high : Nat) {a b c d : UInt8}
    (h : [a, b, c, d].all isHexDigit = true) (rest : Bytes) :
    parseLowSurrogate high (92 :: 117 :: a :: b :: c :: d :: rest) =
      if hexNumber [a, b, c, d] < 0xDC00 ∨ 0xDFFF < hexNumber [a, b, c, d] then
        .error .stringUnicodeSurrogateInvalid
      else .ok (encode (joinSurrogates high (hexNumber [a, b, c, d])), rest) := by
  simp only [parseLowSurrogate, consume, if_true, Option.bind_some, parseHex4_digits h]
  rfl

theorem parseLowSurrogate_none {high : Nat} {chars : List StringChar} (rest : Bytes)
    (h : ∀ a b c d hhex tail, chars ≠ .unicode a b c d hhex :: tail) :
    parseLowSurrogate high (renderChars chars ++ 34 :: rest) =
      .error .stringUnicodeSurrogateInvalid := by
  have hconsume : (consume 92 (renderChars chars ++ 34 :: rest)).bind (consume 117) = none := by
    cases chars with
    | nil => rfl
    | cons char chars =>
        cases char with
        | plain b hb => simp [renderChars, StringChar.render, consume, hb.2.2]
        | escape b hb =>
            have hne : ∀ b ∈ ascii "\"\\/bfnrt", b ≠ 117 := forall_mem_of_all (by decide)
            simp [renderChars, StringChar.render, consume, hne b hb]
        | unicode a b c d hhex => exact absurd rfl (h a b c d hhex chars)
  rw [parseLowSurrogate, hconsume]

theorem map_bind_ok {β γ δ : Type} (read : Parsing β) (f : β → γ) (g : γ → δ) :
    Except.map g (do let s ← read; .ok (f s)) = Except.map (fun s => g (f s)) read := by
  cases read <;> rfl

theorem parseStringToStream_chars {chars : List StringChar} {fuel : Nat}
    (hfuel : chars.length < fuel) (os rest : Bytes) :
    parseStringToStream fuel os (renderChars chars ++ 34 :: rest) =
      (decode chars).map fun s => (os ++ s, rest) := by
  obtain ⟨fuel, rfl⟩ : ∃ left, fuel = left + 1 := ⟨fuel - 1, by omega⟩
  fun_induction decode chars generalizing fuel os with
  | case1 => simp [renderChars, parseStringToStream, Except.map]
  | case2 b hb chars ih =>
      obtain ⟨fuel, rfl⟩ : ∃ left, fuel = left + 1 := ⟨fuel - 1, by simp at hfuel; omega⟩
      have hcontrol : ¬b < 32 := UInt8.not_lt.mpr hb.1
      rw [map_bind_ok]
      change parseStringToStream (fuel + 2) os (b :: (renderChars chars ++ 34 :: rest)) = _
      rw [parseStringToStream, if_neg hb.2.2, if_neg hb.2.1, if_neg hcontrol,
        ih _ fuel (by simpa using hfuel)]
      simp
  | case3 b hb chars ih =>
      obtain ⟨fuel, rfl⟩ : ∃ left, fuel = left + 1 := ⟨fuel - 1, by simp at hfuel; omega⟩
      have hread : parseEscape (b :: (renderChars chars ++ 34 :: rest)) =
          .ok ([readEscape b], renderChars chars ++ 34 :: rest) :=
        if_pos (readEscape_ne_zero hb)
      rw [map_bind_ok]
      change parseStringToStream (fuel + 2) os (92 :: b :: (renderChars chars ++ 34 :: rest)) = _
      rw [parseStringToStream_escape, hread]
      change parseStringToStream (fuel + 1) _ _ = _
      rw [ih _ fuel (by simpa using hfuel)]
      simp
  | case4 a b c d hhex codepoint hhigh hlead a' b' c' d' hhex' chars low hlow =>
      change parseStringToStream (fuel + 1) os (92 :: 117 :: a :: b :: c :: d :: 92 :: 117 ::
        a' :: b' :: c' :: d' :: (renderChars chars ++ 34 :: rest)) = _
      rw [parseStringToStream_escape, parseEscape_unicode hhex, if_pos hhigh, if_pos hlead,
        parseLowSurrogate_some _ hhex', if_pos hlow]
      rfl
  | case5 a b c d hhex codepoint hhigh hlead a' b' c' d' hhex' chars low hlow ih =>
      obtain ⟨fuel, rfl⟩ : ∃ left, fuel = left + 1 := ⟨fuel - 1, by simp at hfuel; omega⟩
      rw [map_bind_ok]
      change parseStringToStream (fuel + 2) os (92 :: 117 :: a :: b :: c :: d :: 92 :: 117 ::
        a' :: b' :: c' :: d' :: (renderChars chars ++ 34 :: rest)) = _
      rw [parseStringToStream_escape, parseEscape_unicode hhex, if_pos hhigh, if_pos hlead,
        parseLowSurrogate_some _ hhex', if_neg hlow]
      change parseStringToStream (fuel + 1) _ _ = _
      rw [ih _ fuel (by simp at hfuel; omega)]
      simp only [List.append_assoc]
      rfl
  | case6 a b c d hhex chars codepoint hhigh hlead hother =>
      change parseStringToStream (fuel + 1) os
        (92 :: 117 :: a :: b :: c :: d :: (renderChars chars ++ 34 :: rest)) = _
      rw [parseStringToStream_escape, parseEscape_unicode hhex, if_pos hhigh, if_pos hlead,
        parseLowSurrogate_none rest hother]
      rfl
  | case7 a b c d hhex chars codepoint hhigh hlead =>
      change parseStringToStream (fuel + 1) os
        (92 :: 117 :: a :: b :: c :: d :: (renderChars chars ++ 34 :: rest)) = _
      rw [parseStringToStream_escape, parseEscape_unicode hhex, if_pos hhigh, if_neg hlead]
      rfl
  | case8 a b c d hhex chars codepoint hplain ih =>
      obtain ⟨fuel, rfl⟩ : ∃ left, fuel = left + 1 := ⟨fuel - 1, by simp at hfuel; omega⟩
      rw [map_bind_ok]
      change parseStringToStream (fuel + 2) os
        (92 :: 117 :: a :: b :: c :: d :: (renderChars chars ++ 34 :: rest)) = _
      rw [parseStringToStream_escape, parseEscape_unicode hhex, if_neg hplain]
      change parseStringToStream (fuel + 1) _ _ = _
      rw [ih _ fuel (by simpa using hfuel)]
      simp only [List.append_assoc]
      rfl

theorem length_le_renderChars (chars : List StringChar) :
    chars.length ≤ (renderChars chars).length := by
  induction chars with
  | nil => exact le_rfl
  | cons char chars ih =>
      have hchar : 1 ≤ char.render.length := by
        cases char <;> simp [StringChar.render]
      simp only [renderChars, List.flatMap_cons, List.length_append, List.length_cons] at ih ⊢
      omega

theorem parseString_chars (chars : List StringChar) (rest : Bytes) :
    parseString (renderChars chars ++ 34 :: rest) =
      (decode chars).map fun s => (s, rest) := by
  have hlength := length_le_renderChars chars
  exact parseStringToStream_chars (by simp; omega) [] rest

theorem parseString_of_ok {chars : List StringChar} {s : Bytes} (h : decode chars = .ok s)
    (rest : Bytes) : parseString (renderChars chars ++ 34 :: rest) = .ok (s, rest) := by
  rw [parseString_chars, h]
  rfl

theorem parseString_of_error {chars : List StringChar} {code : ParseErrorCode}
    (h : decode chars = .error code) (rest : Bytes) :
    parseString (renderChars chars ++ 34 :: rest) = .error code := by
  rw [parseString_chars, h]
  rfl

/-! ## Whitespace -/

theorem isWhitespace_iff (c : UInt8) : isWhitespace c = true ↔ c ∈ blankBytes := by
  simp only [isWhitespace, blankBytes, Bool.or_eq_true, beq_iff_eq, List.mem_cons,
    List.not_mem_nil, or_false]
  tauto

theorem skipWhitespace_of_separated {is : Bytes} (h : Separated blankBytes is) :
    skipWhitespace is = is := by
  cases is with
  | nil => rfl
  | cons c is =>
      have hc : isWhitespace c = false := by
        by_contra hblank
        exact h ((isWhitespace_iff c).mp (by simpa using hblank))
      simp [skipWhitespace, hc]

theorem skipWhitespace_blanks (blanks : Blanks) {rest : Bytes}
    (hrest : Separated blankBytes rest) :
    skipWhitespace (renderBlanks blanks ++ rest) = rest := by
  have hall : ∀ c ∈ renderBlanks blanks, isWhitespace c = true :=
    fun c hc => (isWhitespace_iff c).mpr (renderBlanks_subset blanks hc)
  rw [skipWhitespace, List.dropWhile_append_of_pos hall]
  exact skipWhitespace_of_separated hrest

theorem skipWhitespace_stop (blanks : Blanks) {stop : UInt8} (hstop : stop ∉ blankBytes)
    (rest : Bytes) :
    skipWhitespace (renderBlanks blanks ++ stop :: rest) = stop :: rest :=
  skipWhitespace_blanks blanks (show Separated blankBytes (stop :: rest) from hstop)

theorem separated_stop (blanks : Blanks) {stop : UInt8} (hstop : stop ∉ numberBytes)
    (rest : Bytes) : Separated numberBytes (renderBlanks blanks ++ stop :: rest) :=
  separated_renderBlanks blanks (show Separated numberBytes (stop :: rest) from hstop)

theorem skipWhitespace_value (blanks : Blanks) (value : Json.Value Blanks) (rest : Bytes) :
    skipWhitespace (renderBlanks blanks ++ (value.render ++ rest)) = value.render ++ rest :=
  skipWhitespace_blanks blanks ((value.render_separated rest).mono (by simp))

theorem skipWhitespace_name (blanks : Blanks) (key : List StringChar) (rest : Bytes) :
    skipWhitespace (renderBlanks blanks ++ (renderString key ++ rest)) =
      34 :: (renderChars key ++ 34 :: rest) := by
  rw [skipWhitespace_blanks blanks (separated_renderString key rest), renderString,
    List.cons_append, List.append_assoc, List.singleton_append]

/-! ## Values -/

section

variable {α : Type} [Ieee α] {Gap : Type}

mutual

/-- The document that a value of the grammar stands for. -/
def readValue : Json.Value Gap → Parsing (Value α)
  | .null => .ok .null
  | .boolean b => .ok (.bool b)
  | .number literal => readNumber literal
  | .string chars => do
      let s ← decode chars
      .ok (.string s)
  | .emptyArray _ => .ok (.array [])
  | .array elements => do
      let elements ← readElements elements
      .ok (.array elements)
  | .emptyObject _ => .ok (.object [])
  | .object members => do
      let members ← readMembers members
      .ok (.object members)

def readElements : Elements Gap → Parsing (List (Value α))
  | .last _ value _ => do
      let value ← readValue value
      .ok [value]
  | .next _ value _ rest => do
      let value ← readValue value
      let elements ← readElements rest
      .ok (value :: elements)

def readMembers : Members Gap → Parsing (List (Bytes × Value α))
  | .last _ key _ _ value _ => do
      let name ← decode key
      let value ← readValue value
      .ok [(name, value)]
  | .next _ key _ _ value _ rest => do
      let name ← decode key
      let value ← readValue value
      let members ← readMembers rest
      .ok ((name, value) :: members)

end

omit [Ieee α] in
theorem parseLiteral_append (word : Bytes) (value : Value α) (rest : Bytes) :
    parseLiteral word value (word ++ rest) = .ok (value, rest) := by
  rw [parseLiteral, if_pos (List.prefix_append word rest), List.drop_left]

theorem parseValue_number {fuel : Nat} (literal : Number) {rest : Bytes}
    (hrest : Separated numberBytes rest) :
    parseValue (fuel + 1) (literal.render ++ rest) =
      (readNumber literal).map fun value : Value α => (value, rest) := by
  obtain ⟨c, bytes, hrender⟩ := List.exists_cons_of_ne_nil literal.render_ne_nil
  have hc : c ∈ numberBytes := literal.render_subset (by simp [hrender])
  have hother : ∀ c ∈ numberBytes,
      c ≠ 110 ∧ c ≠ 116 ∧ c ≠ 102 ∧ c ≠ 34 ∧ c ≠ 123 ∧ c ≠ 91 :=
    forall_mem_of_all (by decide)
  obtain ⟨hn, ht, hf, hquote, hbrace, hbracket⟩ := hother c hc
  rw [← parseNumber_render literal hrest, hrender, List.cons_append, parseValue, if_neg hn,
    if_neg ht, if_neg hf, if_neg hquote, if_neg hbrace, if_neg hbracket]

theorem consume_ne {expect c : UInt8} (h : c ≠ expect) (is : Bytes) :
    consume expect (c :: is) = none :=
  if_neg h

theorem consume_value {close : UInt8} (hclose : close = 93 ∨ close = 125)
    (value : Json.Value Blanks) (rest : Bytes) : consume close (value.render ++ rest) = none := by
  obtain ⟨b, bytes, hrender, hb, -⟩ := value.render_eq_cons
  have hne : b ≠ close := by
    rintro rfl
    rcases hclose with rfl | rfl
    · exact hb (by decide)
    · exact hb (by decide)
  rw [hrender, List.cons_append, consume_ne hne]

theorem consume_elements (elements : Elements Blanks) (rest : Bytes) :
    consume 93 (skipWhitespace (elements.render ++ rest)) = none := by
  cases elements with
  | last before value after =>
      rw [Elements.render, List.append_assoc, List.append_assoc, skipWhitespace_value,
        consume_value (.inl rfl)]
  | next before value after others =>
      rw [Elements.render, List.append_assoc, List.append_assoc, skipWhitespace_value,
        consume_value (.inl rfl)]

theorem consume_members (members : Members Blanks) (rest : Bytes) :
    consume 125 (skipWhitespace (members.render ++ rest)) = none := by
  cases members with
  | last before key afterKey beforeValue value after =>
      rw [Members.render, List.append_assoc, List.append_assoc,
        skipWhitespace_blanks before (separated_renderString key _)]
      exact consume_ne (by decide) _
  | next before key afterKey beforeValue value after others =>
      rw [Members.render, List.append_assoc, List.append_assoc,
        skipWhitespace_blanks before (separated_renderString key _)]
      exact consume_ne (by decide) _

theorem parseValue_quote (fuel : Nat) (is : Bytes) :
    parseValue (fuel + 1) (34 :: is) =
      (parseString is).map fun read => ((.string read.1 : Value α), read.2) := by
  rw [parseValue]
  simp only [show (34 : UInt8) ≠ 110 by decide, show (34 : UInt8) ≠ 116 by decide,
    show (34 : UInt8) ≠ 102 by decide, if_false, if_true]
  cases parseString is <;> rfl

theorem parseValue_brace (fuel : Nat) (is : Bytes) :
    parseValue (α := α) (fuel + 1) (123 :: is) =
      (consume 125 (skipWhitespace is)).elim
        ((parseMembers fuel (skipWhitespace is)).map fun read => (.object read.1, read.2))
        fun is => .ok (.object [], is) := by
  rw [parseValue]
  simp only [show (123 : UInt8) ≠ 110 by decide, show (123 : UInt8) ≠ 116 by decide,
    show (123 : UInt8) ≠ 102 by decide, show (123 : UInt8) ≠ 34 by decide, if_false, if_true]
  cases consume 125 (skipWhitespace is) with
  | some is => rfl
  | none => cases parseMembers (α := α) fuel (skipWhitespace is) <;> rfl

theorem parseValue_bracket (fuel : Nat) (is : Bytes) :
    parseValue (α := α) (fuel + 1) (91 :: is) =
      (consume 93 (skipWhitespace is)).elim
        ((parseElements fuel (skipWhitespace is)).map fun read => (.array read.1, read.2))
        fun is => .ok (.array [], is) := by
  rw [parseValue]
  simp only [show (91 : UInt8) ≠ 110 by decide, show (91 : UInt8) ≠ 116 by decide,
    show (91 : UInt8) ≠ 102 by decide, show (91 : UInt8) ≠ 34 by decide,
    show (91 : UInt8) ≠ 123 by decide, if_false, if_true]
  cases consume 93 (skipWhitespace is) with
  | some is => rfl
  | none => cases parseElements (α := α) fuel (skipWhitespace is) <;> rfl

theorem parseElements_error {fuel : Nat} {is : Bytes} {code : ParseErrorCode}
    (h : parseValue (α := α) fuel is = .error code) :
    parseElements (α := α) (fuel + 1) is = .error code := by
  rw [parseElements, h]
  rfl

theorem parseElements_last {fuel : Nat} {is is' rest : Bytes} {value : Value α}
    (h : parseValue fuel is = .ok (value, is')) (hclose : skipWhitespace is' = 93 :: rest) :
    parseElements (fuel + 1) is = .ok ([value], rest) := by
  rw [parseElements, h]
  simp only [bind, Except.bind, hclose]
  rfl

theorem parseElements_next {fuel : Nat} {is is' rest : Bytes} {value : Value α}
    (h : parseValue fuel is = .ok (value, is')) (hcomma : skipWhitespace is' = 44 :: rest) :
    parseElements (fuel + 1) is =
      (parseElements fuel (skipWhitespace rest)).map fun read => (value :: read.1, read.2) := by
  rw [parseElements, h]
  simp only [bind, Except.bind, hcomma, if_true]
  cases parseElements (α := α) fuel (skipWhitespace rest) <;> rfl

theorem parseMembers_name_error {fuel : Nat} {is : Bytes} {code : ParseErrorCode}
    (h : parseString is = .error code) :
    parseMembers (α := α) (fuel + 1) (34 :: is) = .error code := by
  rw [parseMembers]
  simp only [consume, if_true, h]
  rfl

section

variable {fuel : Nat} {is named valued : Bytes} {name : Bytes}
  (hname : parseString is = .ok (name, named))
  (hcolon : skipWhitespace named = 58 :: valued)

include hname hcolon

theorem parseMembers_error {code : ParseErrorCode}
    (h : parseValue (α := α) fuel (skipWhitespace valued) = .error code) :
    parseMembers (α := α) (fuel + 1) (34 :: is) = .error code := by
  rw [parseMembers]
  simp only [consume, if_true, hname, bind, Except.bind, hcolon, h]

theorem parseMembers_last {is' rest : Bytes} {value : Value α}
    (h : parseValue fuel (skipWhitespace valued) = .ok (value, is'))
    (hclose : skipWhitespace is' = 125 :: rest) :
    parseMembers (fuel + 1) (34 :: is) = .ok ([(name, value)], rest) := by
  rw [parseMembers]
  simp only [consume, if_true, hname, bind, Except.bind, hcolon, h, hclose]
  rfl

theorem parseMembers_next {is' rest : Bytes} {value : Value α}
    (h : parseValue fuel (skipWhitespace valued) = .ok (value, is'))
    (hcomma : skipWhitespace is' = 44 :: rest) :
    parseMembers (fuel + 1) (34 :: is) =
      (parseMembers fuel (skipWhitespace rest)).map
        fun read => ((name, value) :: read.1, read.2) := by
  rw [parseMembers]
  simp only [consume, if_true, hname, bind, Except.bind, hcolon, h, hcomma]
  cases parseMembers (α := α) fuel (skipWhitespace rest) <;> rfl

end

mutual

theorem parseValue_render (value : Json.Value Blanks) {fuel : Nat}
    (hfuel : 2 * value.render.length < fuel) {rest : Bytes}
    (hrest : Separated numberBytes rest) :
    parseValue fuel (value.render ++ rest) =
      (readValue value).map fun value : Value α => (value, rest) := by
  obtain ⟨fuel, rfl⟩ : ∃ left, fuel = left + 1 := ⟨fuel - 1, by omega⟩
  cases value with
  | null => exact parseLiteral_append (ascii "ull") .null rest
  | boolean b =>
      cases b with
      | false => exact parseLiteral_append (ascii "alse") (.bool false) rest
      | true => exact parseLiteral_append (ascii "rue") (.bool true) rest
  | number literal => exact parseValue_number literal hrest
  | string chars =>
      rw [readValue, map_bind_ok, Json.Value.render, renderString, List.cons_append,
        List.append_assoc, parseValue_quote]
      change Except.map _ (parseString (renderChars chars ++ 34 :: rest)) = _
      rw [parseString_chars]
      cases decode chars <;> rfl
  | emptyArray inside =>
      rw [Json.Value.render, List.cons_append, List.append_assoc, parseValue_bracket]
      change (consume 93 (skipWhitespace (renderBlanks inside ++ 93 :: rest))).elim _ _ = _
      rw [skipWhitespace_stop inside (by decide)]
      rfl
  | array elements =>
      have hlength : 2 * elements.render.length + 1 < fuel := by
        simp [Json.Value.render] at hfuel
        omega
      rw [readValue, map_bind_ok, Json.Value.render, List.cons_append, List.append_assoc,
        parseValue_bracket]
      change (consume 93 (skipWhitespace (elements.render ++ 93 :: rest))).elim _ _ = _
      rw [consume_elements, Option.elim_none]
      change Except.map _ (parseElements fuel (skipWhitespace (elements.render ++ 93 :: rest))) = _
      rw [parseElements_render elements hlength]
      cases readElements (α := α) elements <;> rfl
  | emptyObject inside =>
      rw [Json.Value.render, List.cons_append, List.append_assoc, parseValue_brace]
      change (consume 125 (skipWhitespace (renderBlanks inside ++ 125 :: rest))).elim _ _ = _
      rw [skipWhitespace_stop inside (by decide)]
      rfl
  | object members =>
      have hlength : 2 * members.render.length + 1 < fuel := by
        simp [Json.Value.render] at hfuel
        omega
      rw [readValue, map_bind_ok, Json.Value.render, List.cons_append, List.append_assoc,
        parseValue_brace]
      change (consume 125 (skipWhitespace (members.render ++ 125 :: rest))).elim _ _ = _
      rw [consume_members, Option.elim_none]
      change Except.map _ (parseMembers fuel (skipWhitespace (members.render ++ 125 :: rest))) = _
      rw [parseMembers_render members hlength]
      cases readMembers (α := α) members <;> rfl

theorem parseElements_render (elements : Elements Blanks) {fuel : Nat}
    (hfuel : 2 * elements.render.length + 1 < fuel) (rest : Bytes) :
    parseElements fuel (skipWhitespace (elements.render ++ 93 :: rest)) =
      (readElements elements).map fun elements : List (Value α) => (elements, rest) := by
  obtain ⟨fuel, rfl⟩ : ∃ left, fuel = left + 1 := ⟨fuel - 1, by omega⟩
  cases elements with
  | last before value after =>
      have hvalue : parseValue fuel (value.render ++ (renderBlanks after ++ 93 :: rest)) = _ :=
        parseValue_render value (by simp [Elements.render] at hfuel; omega)
          (separated_stop after (by decide) rest)
      rw [readElements, map_bind_ok, Elements.render, List.append_assoc, List.append_assoc,
        skipWhitespace_value]
      cases hread : readValue (α := α) value with
      | error code =>
          rw [hread] at hvalue
          exact parseElements_error hvalue
      | ok v =>
          rw [hread] at hvalue
          exact parseElements_last hvalue (skipWhitespace_stop after (by decide) rest)
  | next before value after others =>
      have hlength : 2 * others.render.length + 1 < fuel := by
        simp [Elements.render] at hfuel
        omega
      have hvalue : parseValue fuel (value.render ++
          (renderBlanks after ++ 44 :: (others.render ++ 93 :: rest))) = _ :=
        parseValue_render value (by simp [Elements.render] at hfuel; omega)
          (separated_stop after (by decide) _)
      rw [readElements, Elements.render, List.append_assoc, List.append_assoc,
        List.append_assoc, List.cons_append, skipWhitespace_value]
      cases hread : readValue (α := α) value with
      | error code =>
          rw [hread] at hvalue
          exact parseElements_error hvalue
      | ok v =>
          rw [hread] at hvalue
          rw [parseElements_next hvalue (skipWhitespace_stop after (by decide) _),
            parseElements_render others hlength rest]
          cases readElements (α := α) others <;> rfl

theorem parseMembers_render (members : Members Blanks) {fuel : Nat}
    (hfuel : 2 * members.render.length + 1 < fuel) (rest : Bytes) :
    parseMembers fuel (skipWhitespace (members.render ++ 125 :: rest)) =
      (readMembers members).map fun members : List (Bytes × Value α) => (members, rest) := by
  obtain ⟨fuel, rfl⟩ : ∃ left, fuel = left + 1 := ⟨fuel - 1, by omega⟩
  cases members with
  | last beforeKey key afterKey beforeValue value after =>
      have hvalue : parseValue fuel (value.render ++ (renderBlanks after ++ 125 :: rest)) = _ :=
        parseValue_render value (by simp [Members.render] at hfuel; omega)
          (separated_stop after (by decide) rest)
      rw [readMembers, Members.render]
      simp only [List.append_assoc, List.cons_append]
      rw [skipWhitespace_name]
      cases hkey : decode key with
      | error code =>
          exact parseMembers_name_error (parseString_of_error hkey _)
      | ok name =>
          have hname := parseString_of_ok hkey (renderBlanks afterKey ++ 58 ::
            (renderBlanks beforeValue ++ (value.render ++ (renderBlanks after ++ 125 :: rest))))
          have hcolon := skipWhitespace_stop afterKey (by decide : (58 : UInt8) ∉ blankBytes)
            (renderBlanks beforeValue ++ (value.render ++ (renderBlanks after ++ 125 :: rest)))
          rw [← skipWhitespace_value beforeValue] at hvalue
          cases hread : readValue (α := α) value with
          | error code =>
              rw [hread] at hvalue
              exact parseMembers_error hname hcolon hvalue
          | ok v =>
              rw [hread] at hvalue
              exact parseMembers_last hname hcolon hvalue
                (skipWhitespace_stop after (by decide) rest)
  | next beforeKey key afterKey beforeValue value after others =>
      have hlength : 2 * others.render.length + 1 < fuel := by
        simp [Members.render] at hfuel
        omega
      have hvalue : parseValue fuel (value.render ++
          (renderBlanks after ++ 44 :: (others.render ++ 125 :: rest))) = _ :=
        parseValue_render value (by simp [Members.render] at hfuel; omega)
          (separated_stop after (by decide) _)
      rw [readMembers, Members.render]
      simp only [List.append_assoc, List.cons_append]
      rw [skipWhitespace_name]
      cases hkey : decode key with
      | error code =>
          exact parseMembers_name_error (parseString_of_error hkey _)
      | ok name =>
          have hname := parseString_of_ok hkey (renderBlanks afterKey ++ 58 ::
            (renderBlanks beforeValue ++ (value.render ++
              (renderBlanks after ++ 44 :: (others.render ++ 125 :: rest)))))
          have hcolon := skipWhitespace_stop afterKey (by decide : (58 : UInt8) ∉ blankBytes)
            (renderBlanks beforeValue ++ (value.render ++
              (renderBlanks after ++ 44 :: (others.render ++ 125 :: rest))))
          rw [← skipWhitespace_value beforeValue] at hvalue
          cases hread : readValue (α := α) value with
          | error code =>
              rw [hread] at hvalue
              exact parseMembers_error hname hcolon hvalue
          | ok v =>
              rw [hread] at hvalue
              rw [parseMembers_next hname hcolon hvalue
                  (skipWhitespace_stop after (by decide) _),
                parseMembers_render others hlength rest]
              cases readMembers (α := α) others <;> rfl

end

/-! ## Texts -/

theorem zero_not_mem_renderBlanks (blanks : Blanks) : (0 : UInt8) ∉ renderBlanks blanks :=
  fun h => absurd (renderBlanks_subset blanks h) (by decide)

theorem zero_not_mem_renderString (chars : List StringChar) :
    (0 : UInt8) ∉ renderString chars := by
  have hhex : ∀ b : UInt8, isHexDigit b = true → b ≠ 0 := by
    rintro b hb rfl
    exact absurd hb (by decide)
  have hchar : ∀ char : StringChar, (0 : UInt8) ∉ char.render := by
    intro char
    cases char with
    | plain b hb =>
        have hzero : b ≠ 0 := by
          rintro rfl
          exact absurd hb.1 (by decide)
        simpa [StringChar.render] using hzero.symm
    | escape b hb =>
        have hall : ∀ b ∈ ascii "\"\\/bfnrt", b ≠ 0 := forall_mem_of_all (by decide)
        simpa [StringChar.render] using (hall b hb).symm
    | unicode a b c d h =>
        simp only [List.all_cons, Bool.and_eq_true, List.all_nil] at h
        simp [StringChar.render, (hhex a h.1).symm, (hhex b h.2.1).symm, (hhex c h.2.2.1).symm,
          (hhex d h.2.2.2.1).symm]
  simp [renderString, renderChars, hchar]

theorem zero_not_mem_number (literal : Number) : (0 : UInt8) ∉ literal.render :=
  fun h => absurd (literal.render_subset h) (by decide)

mutual

theorem zero_not_mem_value (value : Json.Value Blanks) : (0 : UInt8) ∉ value.render := by
  cases value with
  | null => decide
  | boolean b => cases b <;> decide
  | number literal => exact zero_not_mem_number literal
  | string chars => exact zero_not_mem_renderString chars
  | emptyArray inside => simp [Json.Value.render, zero_not_mem_renderBlanks]
  | array elements => simp [Json.Value.render, zero_not_mem_elements elements]
  | emptyObject inside => simp [Json.Value.render, zero_not_mem_renderBlanks]
  | object members => simp [Json.Value.render, zero_not_mem_members members]

theorem zero_not_mem_elements (elements : Elements Blanks) : (0 : UInt8) ∉ elements.render := by
  cases elements with
  | last before value after =>
      simp [Elements.render, zero_not_mem_renderBlanks, zero_not_mem_value value]
  | next before value after rest =>
      simp [Elements.render, zero_not_mem_renderBlanks, zero_not_mem_value value,
        zero_not_mem_elements rest]

theorem zero_not_mem_members (members : Members Blanks) : (0 : UInt8) ∉ members.render := by
  cases members with
  | last beforeKey key afterKey beforeValue value after =>
      simp [Members.render, zero_not_mem_renderBlanks, zero_not_mem_renderString,
        zero_not_mem_value value]
  | next beforeKey key afterKey beforeValue value after rest =>
      simp [Members.render, zero_not_mem_renderBlanks, zero_not_mem_renderString,
        zero_not_mem_value value, zero_not_mem_members rest]

end

theorem cString_render (text : Text) : cString text.render = text.render := by
  refine List.takeWhile_eq_self_iff.mpr fun c hc => ?_
  rw [decide_eq_true_eq]
  rintro rfl
  simp [Text.render, zero_not_mem_renderBlanks, zero_not_mem_value] at hc

/-- A grammatical text is read as its content says. -/
theorem parse_render (text : Text) : parse (α := α) text.render = readValue text.value := by
  have hskip : skipWhitespace (cString text.render) =
      text.value.render ++ renderBlanks text.after := by
    rw [cString_render]
    exact skipWhitespace_value text.before text.value _
  have hne : text.value.render ++ renderBlanks text.after ≠ [] := by
    obtain ⟨b, bytes, hrender, -, -⟩ := text.value.render_eq_cons
    simp [hrender]
  have hend : skipWhitespace (renderBlanks text.after) = [] := by
    have hblanks : Separated blankBytes [] := trivial
    have hskipped := skipWhitespace_blanks text.after hblanks
    rwa [List.append_nil] at hskipped
  have hrest : Separated numberBytes (renderBlanks text.after) := by
    have hblanks : Separated numberBytes [] := trivial
    have hseparated := separated_renderBlanks text.after hblanks
    rwa [List.append_nil] at hseparated
  unfold parse
  rw [hskip]
  dsimp only
  rw [if_neg hne, parseValue_render text.value (by rw [List.length_append]; omega) hrest]
  cases readValue (α := α) text.value with
  | error code => rfl
  | ok value => simp [Except.map, bind, Except.bind, hend]

end

end RinhaBackend.RapidJson
