import RinhaBackend.RapidJson.Acceptance
import RinhaBackend.RapidJson.Grisu2
import RinhaBackend.RapidJson.PrintedDouble

/-!
# Printing and reading back

A printed document is a grammatical text, and reading it gives the document back:
strings and integers as they were, doubles as the reader makes them out of the
decimals that the printer found.
-/

namespace RinhaBackend.RapidJson

open Foundation Json

/-! ## Strings -/

/-- The character prints as the byte is written, and reads as the byte. -/
def Spells (char : StringChar) (c : UInt8) : Prop :=
  char.render = writeChar c ∧ ∀ chars, decode (char :: chars) = (decode chars).map (c :: ·)

theorem spells_plain {c : UInt8} (hplain : PlainByte c) : Spells (.plain c hplain) c := by
  have hescape : writeEscape c = 0 := by
    obtain ⟨hlow, hquote, hslash⟩ := hplain
    have hcontrol : ¬c < 32 := UInt8.not_lt.mpr hlow
    have hne : ∀ b : UInt8, b < 32 → c ≠ b := by
      rintro b hb rfl
      exact hcontrol hb
    simp [writeEscape, hcontrol, hquote, hslash, hne 8 (by decide), hne 9 (by decide),
      hne 10 (by decide), hne 12 (by decide), hne 13 (by decide)]
  refine ⟨?_, fun chars => ?_⟩
  · simp [writeChar, hescape, StringChar.render]
  · rw [decode]
    cases decode chars <;> rfl

theorem spells_escape {c e : UInt8} (he : e ∈ ascii "\"\\/bfnrt") (hwrite : writeEscape c = e)
    (hread : readEscape e = c) : Spells (.escape e he) c := by
  have hall : ∀ e ∈ ascii "\"\\/bfnrt", e ≠ 0 ∧ e ≠ 117 := forall_mem_of_all (by decide)
  obtain ⟨hzero, hunicode⟩ := hall e he
  refine ⟨?_, fun chars => ?_⟩
  · simp [writeChar, hwrite, StringChar.render, hzero, hunicode]
  · rw [decode, hread]
    cases decode chars <;> rfl

theorem spells_control {c : UInt8} (hcontrol : c < 32) (hwrite : writeEscape c = 117) :
    ∃ char, Spells char c := by
  have hall : ∀ n : Fin 32,
      [48, 48, hexDigit (n.val / 16), hexDigit (n.val % 16)].all isHexDigit = true ∧
        hexNumber [48, 48, hexDigit (n.val / 16), hexDigit (n.val % 16)] = n.val := by
    decide
  have hsmall : c.toNat < 32 := UInt8.lt_iff_toNat_lt.mp hcontrol
  obtain ⟨hhex, hnumber⟩ := hall ⟨c.toNat, hsmall⟩
  refine ⟨.unicode _ _ _ _ hhex, ?_, fun chars => ?_⟩
  · simp [writeChar, hwrite, StringChar.render]
  · have hplain : ¬isSurrogate c.toNat = true := by
      simp [isSurrogate]
      omega
    have hencode : encode c.toNat = [c] := by
      rw [encode, if_pos (by omega), UInt8.ofNat_toNat]
    dsimp only at hnumber
    rw [decode.eq_def]
    dsimp only
    rw [hnumber, if_neg hplain, hencode]
    cases decode chars <;> rfl

theorem exists_spells (c : UInt8) : ∃ char, Spells char c := by
  by_cases hplain : PlainByte c
  · exact ⟨_, spells_plain hplain⟩
  by_cases hnamed : c ∈ ([8, 9, 10, 12, 13, 34, 92] : Bytes)
  · have hall : ∀ c ∈ ([8, 9, 10, 12, 13, 34, 92] : Bytes),
        writeEscape c ∈ ascii "\"\\/bfnrt" ∧ readEscape (writeEscape c) = c :=
      forall_mem_of_all (by decide)
    obtain ⟨hmem, hread⟩ := hall c hnamed
    exact ⟨_, spells_escape hmem rfl hread⟩
  · simp only [List.mem_cons, List.not_mem_nil, or_false, not_or] at hnamed
    obtain ⟨hb, ht, hn, hf, hr, hquote, hslash⟩ := hnamed
    have hcontrol : c < 32 := by
      by_contra hlow
      exact hplain ⟨UInt8.not_lt.mp hlow, hquote, hslash⟩
    exact spells_control hcontrol (by simp [writeEscape, hb, ht, hn, hf, hr, hcontrol])

/-- The characters of a string as the printer spells it. -/
theorem exists_spelling (s : Bytes) :
    ∃ chars, renderString chars = writeString s ∧ decode chars = .ok s := by
  suffices h : ∃ chars, renderChars chars = s.flatMap writeChar ∧ decode chars = .ok s by
    obtain ⟨chars, hrender, hdecode⟩ := h
    exact ⟨chars, by rw [renderString, hrender, writeString], hdecode⟩
  induction s with
  | nil => exact ⟨[], rfl, rfl⟩
  | cons c s ih =>
      obtain ⟨chars, hrender, hdecode⟩ := ih
      obtain ⟨char, hchar, hread⟩ := exists_spells c
      refine ⟨char :: chars, ?_, by rw [hread, hdecode]; rfl⟩
      rw [renderChars, List.flatMap_cons, List.flatMap_cons, hchar, ← hrender]
      rfl

/-! ## Integers -/

theorem exists_whole (n : Nat) : ∃ whole : Whole, renderDigits whole.digits = decimal n := by
  rcases Nat.eq_zero_or_pos n with rfl | hpos
  · exact ⟨.zero, by decide⟩
  · have hlow := Nat.pow_log_le_self 10 hpos.ne'
    have hhigh := Nat.lt_pow_succ_log_self (by decide : 1 < 10) n
    obtain ⟨width, hwidth⟩ : ∃ width, Nat.log 10 n = width := ⟨_, rfl⟩
    rw [hwidth] at hlow hhigh
    obtain ⟨ds, hds⟩ := exists_digits (fixedDigits_isDigit width n)
    have hpower : 0 < 10 ^ width := by positivity
    have hlead : 0 < n / 10 ^ width := Nat.div_pos hlow hpower
    have hten : n / 10 ^ width < 10 := by
      rw [Nat.div_lt_iff_lt_mul hpower, ← pow_succ']
      exact hhigh
    refine ⟨.positive ⟨n / 10 ^ width, hten⟩ (fun h => ?_) ds, ?_⟩
    · have := congrArg Fin.val h
      simp at this
      omega
    · rw [decimal_eq_fixedDigits width (.inr hlow) hhigh, Nat.add_comm, fixedDigits_add, ← hds]
      simp [Whole.digits, renderDigits, fixedDigits, Nat.mod_eq_of_lt hten]

theorem integerText_eq {n : Int} (hlow : -9223372036854775808 ≤ n)
    (hhigh : n < 18446744073709551616) : integerText n = signedDecimal n := by
  unfold integerText
  split_ifs with hint huint hint64
  · exact i32toa_eq hint.1 hint.2
  · have hnat : (UInt32.ofNat n.toNat).toNat = n.natAbs := by
      rw [UInt32.toNat_ofNat_of_lt' (by simp [UInt32.size]; omega)]
      omega
    rw [u32toa_eq, hnat, signedDecimal, if_neg (by omega), List.nil_append]
  · exact i64toa_eq hlow hint64
  · have hnat : (UInt64.ofNat n.toNat).toNat = n.natAbs := by
      rw [UInt64.toNat_ofNat_of_lt' (by simp [UInt64.size]; omega)]
      omega
    rw [u64toa_eq, hnat, signedDecimal, if_neg (by omega), List.nil_append]

section

variable {α : Type} [Ieee α]

theorem readNumber_integer {literal : Number} (hfraction : literal.fraction = none)
    (hexponent : literal.exponent = none)
    (hsmall : pushDigits 0 literal.whole.digits ≤ maxInteger literal.negative) :
    readNumber literal = .ok (.integer (if literal.negative then
      -(pushDigits 0 literal.whole.digits : Int)
        else pushDigits 0 literal.whole.digits) : Value α) := by
  obtain ⟨significand, digits, hread, -, -, hinteger⟩ :=
    parseInteger_whole (α := α) literal.negative literal.whole
  unfold readNumber
  rw [hread]
  simp only [bind, Except.bind, Number.fractionText, hfraction, Number.exponentText, hexponent]
  rcases hinteger hsmall with rfl | rfl
  · rfl
  · rfl

theorem exists_integer_literal {n : Int} (hlow : -9223372036854775808 ≤ n)
    (hhigh : n < 18446744073709551616) :
    ∃ literal : Number, literal.render = integerText n ∧
      readNumber literal = .ok (.integer n : Value α) := by
  obtain ⟨whole, hwhole⟩ := exists_whole n.natAbs
  have hvalue : pushDigits 0 whole.digits = n.natAbs := by
    rw [← readDecimal_renderDigits, hwhole, readDecimal_decimal]
  refine ⟨⟨decide (n < 0), whole, none, none⟩, ?_, ?_⟩
  · rw [integerText_eq hlow hhigh]
    simp [Number.render, hwhole, signedDecimal, Number.fractionText, Number.exponentText]
  · rw [readNumber_integer rfl rfl]
    · have hsigned : (if decide (n < 0) then -(n.natAbs : Int) else n.natAbs) = n := by
        by_cases hneg : n < 0
        · rw [if_pos (by simpa using hneg)]
          omega
        · rw [if_neg (by simpa using hneg)]
          omega
      simp only [hvalue, hsigned]
    · simp only [hvalue, maxInteger, decide_eq_true_eq]
      split_ifs
      · omega
      · omega

end

/-! ## The printers of numbers -/

section

variable {α : Type} [Ieee α] (grisu2 : α → Decimal)

theorem signedDecimal_length_le {n : Int} {width : Nat} (hwidth : 0 < width)
    (h : n.natAbs < 10 ^ width) : (signedDecimal n).length ≤ width + 1 := by
  have hdecimal := decimal_length_le hwidth h
  have hsign : (if n < 0 then [45] else [] : Bytes).length ≤ 1 := by
    split_ifs <;> simp
  rw [signedDecimal, List.length_append]
  omega

theorem dtoa_length_le (value : α) :
    (dtoa grisu2 value kDefaultMaxDecimalPlaces).length ≤ 25 := by
  have hsign : ∀ negative : Bool, (if negative then [45] else [] : Bytes).length ≤ 1 := by
    decide
  unfold dtoa
  by_cases hzero : Ieee.isZero value
  · have hnegative := hsign (Ieee.sign value)
    rw [if_pos hzero, List.length_append]
    simp only [List.length_cons, List.length_nil]
    omega
  · rw [if_neg hzero]
    dsimp only
    have hnegative := hsign (Double.lt value Double.zero)
    have hdigits := prettify_length_le
      (grisu2 (if Double.lt value Double.zero then Ieee.neg value else value))
    rw [List.length_append]
    omega

end

/--
The printers of integers go two digits at a time, and write the plain decimal notation.
For every double that has digits `Grisu2` ends, having written seventeen at most.  No
printer writes more than the buffer that the writer asks for.
-/
theorem number_printers_fit :
    (∀ i : Int32, i32toa i.toInt = signedDecimal i.toInt ∧ (i32toa i.toInt).length ≤ 11) ∧
    (∀ u : UInt32, u32toa u = decimal u.toNat ∧ (u32toa u).length ≤ 10) ∧
    (∀ i64 : Int64, i64toa i64.toInt = signedDecimal i64.toInt ∧
      (i64toa i64.toInt).length ≤ 21) ∧
    (∀ u64 : UInt64, u64toa u64 = decimal u64.toNat ∧ (u64toa u64).length ≤ 20) ∧
    ∀ d : Float, Ieee.isNanOrInf d = false →
      (Ieee.isZero d = false → ∀ value, value = d ∨ value = Ieee.neg d →
        ∃ buffer k, grisu2 value.toBits = some (buffer, k) ∧ buffer.length ≤ 17 ∧
          (Decimal.ofDouble value).buffer = buffer ∧ (Decimal.ofDouble value).k = k) ∧
      (dtoa Decimal.ofDouble d kDefaultMaxDecimalPlaces).length ≤ 25 := by
  refine ⟨fun i => ?_, fun u => ?_, fun i64 => ?_, fun u64 => ?_, fun d hfinite => ?_⟩
  · have hlow : -2147483648 ≤ i.toInt := i.le_toInt
    have hhigh : i.toInt < 2147483648 := i.toInt_lt
    rw [i32toa_eq hlow hhigh]
    exact ⟨rfl, signedDecimal_length_le (by decide) (by omega)⟩
  · have hbound : u.toNat < 4294967296 := u.toNat_lt
    rw [u32toa_eq]
    exact ⟨rfl, decimal_length_le (by decide) (by omega)⟩
  · have hlow : -9223372036854775808 ≤ i64.toInt := i64.le_toInt
    have hhigh : i64.toInt < 9223372036854775808 := i64.toInt_lt
    rw [i64toa_eq hlow hhigh]
    exact ⟨rfl, signedDecimal_length_le (by decide) (by omega)⟩
  · have hbound : u64.toNat < 18446744073709551616 := u64.toNat_lt
    rw [u64toa_eq]
    exact ⟨rfl, decimal_length_le (by decide) (by omega)⟩
  · refine ⟨fun hzero value hvalue => ?_, dtoa_length_le Decimal.ofDouble d⟩
    refine ⟨_, _, Decimal.grisu2_eq_ofDouble hfinite hzero hvalue, ?_, rfl, rfl⟩
    exact Decimal.buffer_length_le (Decimal.ofDouble value)

theorem number_printers_fit_negative :
    let d : Float := -1.5e-7
    Ieee.isNanOrInf d = false ∧ Ieee.isZero d = false ∧
      grisu2 (Ieee.neg d).toBits = some (ascii "15", -8) ∧
      dtoa Decimal.ofDouble d kDefaultMaxDecimalPlaces = ascii "-1.5e-7" ∧
      (dtoa Decimal.ofDouble d kDefaultMaxDecimalPlaces).length ≤ 25 := by
  intro d
  have hfinite : Ieee.isNanOrInf d = false := by decide +kernel
  exact ⟨hfinite, by decide +kernel, by decide +kernel, by decide +kernel,
    (number_printers_fit.2.2.2.2 d hfinite).2⟩

/-! ## Documents -/

section

variable {α : Type}

mutual

/-- The integers of the document are those that 64 bits hold, signed or unsigned. -/
def InRange : Value α → Prop
  | .integer n => -9223372036854775808 ≤ n ∧ n < 18446744073709551616
  | .array elements => ElementsInRange elements
  | .object members => MembersInRange members
  | _ => True

def ElementsInRange : List (Value α) → Prop
  | [] => True
  | value :: elements => InRange value ∧ ElementsInRange elements

def MembersInRange : List (Bytes × Value α) → Prop
  | [] => True
  | (_, value) :: members => InRange value ∧ MembersInRange members

end

variable [Ieee α] (grisu2 : α → Decimal)

mutual

/-- The document with each double as it is read back. -/
def reread : Value α → Parsing (Value α)
  | .null => .ok .null
  | .bool b => .ok (.bool b)
  | .integer n => .ok (.integer n)
  | .double d => readNumber (doubleLiteral grisu2 d)
  | .string s => .ok (.string s)
  | .array elements => do
      let elements ← rereadElements elements
      .ok (.array elements)
  | .object members => do
      let members ← rereadMembers members
      .ok (.object members)

def rereadElements : List (Value α) → Parsing (List (Value α))
  | [] => .ok []
  | value :: elements => do
      let value ← reread value
      let elements ← rereadElements elements
      .ok (value :: elements)

def rereadMembers : List (Bytes × Value α) → Parsing (List (Bytes × Value α))
  | [] => .ok []
  | (name, value) :: members => do
      let value ← reread value
      let members ← rereadMembers members
      .ok ((name, value) :: members)

end

theorem Printed.andThen_complete_iff (first second : Printed) :
    (first.andThen second).complete = true ↔
      first.complete = true ∧ second.complete = true := by
  unfold Printed.andThen
  cases h : first.complete <;> simp [h]

theorem Printed.andThen_andThen (before : Bytes) {middle : Printed}
    (h : middle.complete = true) (last : Printed) :
    ((⟨true, before⟩ : Printed).andThen middle).andThen last =
      ⟨last.complete, before ++ middle.text ++ last.text⟩ := by
  simp [Printed.andThen, h]

mutual

theorem exists_tree {value : Value α} (hrange : InRange value)
    (hcomplete : (print grisu2 value).complete = true) :
    ∃ tree : Json.Value Blanks, tree.render = (print grisu2 value).text ∧
      readValue tree = reread grisu2 value := by
  cases value with
  | null => exact ⟨.null, rfl, rfl⟩
  | bool b => exact ⟨.boolean b, rfl, rfl⟩
  | integer n =>
      obtain ⟨literal, hrender, hread⟩ := exists_integer_literal (α := α) hrange.1 hrange.2
      exact ⟨.number literal, hrender, hread⟩
  | double d =>
      refine ⟨.number (doubleLiteral grisu2 d), ?_, rfl⟩
      rw [print] at hcomplete ⊢
      split_ifs at hcomplete ⊢
      exact (dtoa_eq grisu2 d).symm
  | string s =>
      obtain ⟨chars, hrender, hdecode⟩ := exists_spelling s
      refine ⟨.string chars, hrender, ?_⟩
      rw [readValue, hdecode]
      rfl
  | array elements =>
      rw [print, Printed.andThen_complete_iff, Printed.andThen_complete_iff] at hcomplete
      rw [print, Printed.andThen_andThen _ hcomplete.1.2]
      by_cases hempty : elements = []
      · rw [hempty]
        exact ⟨.emptyArray [], rfl, rfl⟩
      · obtain ⟨trees, hrender, hread⟩ :=
          exists_elements_tree true hempty hrange hcomplete.1.2
        refine ⟨.array trees, ?_, by rw [readValue, hread, reread]⟩
        rw [← hrender]
        rfl
  | object members =>
      rw [print, Printed.andThen_complete_iff, Printed.andThen_complete_iff] at hcomplete
      rw [print, Printed.andThen_andThen _ hcomplete.1.2]
      by_cases hempty : members = []
      · rw [hempty]
        exact ⟨.emptyObject [], rfl, rfl⟩
      · obtain ⟨trees, hrender, hread⟩ :=
          exists_members_tree true hempty hrange hcomplete.1.2
        refine ⟨.object trees, ?_, by rw [readValue, hread, reread]⟩
        rw [← hrender]
        rfl

theorem exists_elements_tree (first : Bool) {elements : List (Value α)}
    (hne : elements ≠ []) (hrange : ElementsInRange elements)
    (hcomplete : (printElements grisu2 first elements).complete = true) :
    ∃ trees : Elements Blanks,
      comma first ++ trees.render = (printElements grisu2 first elements).text ∧
      readElements trees = rereadElements grisu2 elements := by
  cases elements with
  | nil => exact absurd rfl hne
  | cons value elements =>
      rw [printElements, Printed.andThen_complete_iff,
        Printed.andThen_complete_iff] at hcomplete
      obtain ⟨tree, hrender, hread⟩ := exists_tree hrange.1 hcomplete.1.2
      rw [printElements, Printed.andThen_andThen _ hcomplete.1.2, ← hrender, rereadElements,
        ← hread]
      by_cases hempty : elements = []
      · rw [hempty]
        refine ⟨.last [] tree [], by simp [Elements.render, printElements], ?_⟩
        rw [readElements]
        rfl
      · obtain ⟨trees, hrest, hreadRest⟩ :=
          exists_elements_tree false hempty hrange.2 hcomplete.2
        refine ⟨.next [] tree [] trees, ?_, by rw [readElements, hreadRest]⟩
        dsimp only
        rw [← hrest]
        simp [Elements.render, comma]

theorem exists_members_tree (first : Bool) {members : List (Bytes × Value α)}
    (hne : members ≠ []) (hrange : MembersInRange members)
    (hcomplete : (printMembers grisu2 first members).complete = true) :
    ∃ trees : Members Blanks,
      comma first ++ trees.render = (printMembers grisu2 first members).text ∧
      readMembers trees = rereadMembers grisu2 members := by
  cases members with
  | nil => exact absurd rfl hne
  | cons member members =>
      obtain ⟨name, value⟩ := member
      rw [printMembers, Printed.andThen_complete_iff,
        Printed.andThen_complete_iff] at hcomplete
      obtain ⟨key, hkey, hdecode⟩ := exists_spelling name
      obtain ⟨tree, hrender, hread⟩ := exists_tree hrange.1 hcomplete.1.2
      rw [printMembers, Printed.andThen_andThen _ hcomplete.1.2, ← hrender, ← hkey,
        rereadMembers, ← hread]
      by_cases hempty : members = []
      · rw [hempty]
        refine ⟨.last [] key [] [] tree [], by simp [Members.render, printMembers], ?_⟩
        rw [readMembers, hdecode]
        rfl
      · obtain ⟨trees, hrest, hreadRest⟩ :=
          exists_members_tree false hempty hrange.2 hcomplete.2
        refine ⟨.next [] key [] [] tree [] trees, ?_, ?_⟩
        · dsimp only
          rw [← hrest]
          simp [Members.render, comma]
        · rw [readMembers, hdecode, hreadRest]
          rfl

end

/-! ## Texts that were cut short

Printing stops where a value should stand, so the text ends in the byte that announces
the value.  No grammatical text ends in one of those.
-/

/-- The text is empty or ends in a comma, a colon or an opening bracket. -/
def Dangling (text : Bytes) : Prop :=
  ∀ b ∈ text.getLast?, b ∈ ([44, 58, 91] : Bytes)

theorem dangling_append_singleton {b : UInt8} (h : b ∈ ([44, 58, 91] : Bytes)) (before : Bytes) :
    Dangling (before ++ [b]) := by
  intro b' hb'
  rw [List.getLast?_concat, Option.mem_some_iff] at hb'
  exact hb' ▸ h

theorem dangling_comma {first : Bool} {before : Bytes} (h : first = true → Dangling before) :
    Dangling (before ++ comma first) := by
  cases first with
  | true => simpa [comma] using h rfl
  | false => exact dangling_append_singleton (by decide) before

/-- A bracketed or separated text was cut short inside, or after it. -/
theorem Printed.cut_cases {before : Bytes} {middle last : Printed}
    (h : (((⟨true, before⟩ : Printed).andThen middle).andThen last).complete = false) :
    middle.complete = false ∧
        (((⟨true, before⟩ : Printed).andThen middle).andThen last).text =
          before ++ middle.text ∨
      last.complete = false ∧
        (((⟨true, before⟩ : Printed).andThen middle).andThen last).text =
          before ++ middle.text ++ last.text := by
  unfold Printed.andThen at h ⊢
  cases hmiddle : middle.complete with
  | false => exact .inl ⟨rfl, by simp⟩
  | true => exact .inr ⟨by simpa [hmiddle] using h, by simp⟩

mutual

theorem print_dangling {value : Value α} (hcut : (print grisu2 value).complete = false)
    {before : Bytes} (hbefore : Dangling before) :
    Dangling (before ++ (print grisu2 value).text) := by
  cases value with
  | null | bool | integer | string => simp [print] at hcut
  | double d =>
      rw [print] at hcut ⊢
      split_ifs at hcut ⊢
      rwa [List.append_nil]
  | array elements =>
      rw [print] at hcut ⊢
      rcases Printed.cut_cases hcut with ⟨hinside, htext⟩ | ⟨hnever, -⟩
      · rw [htext, ← List.append_assoc]
        exact printElements_dangling hinside fun _ =>
          dangling_append_singleton (by decide) before
      · simp at hnever
  | object members =>
      rw [print] at hcut ⊢
      rcases Printed.cut_cases hcut with ⟨hinside, htext⟩ | ⟨hnever, -⟩
      · rw [htext, ← List.append_assoc]
        exact printMembers_dangling hinside _
      · simp at hnever

theorem printElements_dangling {first : Bool} {elements : List (Value α)}
    (hcut : (printElements grisu2 first elements).complete = false) {before : Bytes}
    (hbefore : first = true → Dangling before) :
    Dangling (before ++ (printElements grisu2 first elements).text) := by
  cases elements with
  | nil => simp [printElements] at hcut
  | cons value elements =>
      rw [printElements] at hcut ⊢
      rcases Printed.cut_cases hcut with ⟨hvalue, htext⟩ | ⟨hrest, htext⟩
      · rw [htext, ← List.append_assoc]
        exact print_dangling hvalue (dangling_comma hbefore)
      · rw [htext, ← List.append_assoc]
        exact printElements_dangling hrest fun hfirst => absurd hfirst (by simp)

/-- A member starts with a name and a colon, whatever comes before it. -/
theorem printMembers_dangling {first : Bool} {members : List (Bytes × Value α)}
    (hcut : (printMembers grisu2 first members).complete = false) (before : Bytes) :
    Dangling (before ++ (printMembers grisu2 first members).text) := by
  cases members with
  | nil => simp [printMembers] at hcut
  | cons member members =>
      obtain ⟨name, value⟩ := member
      rw [printMembers] at hcut ⊢
      rcases Printed.cut_cases hcut with ⟨hvalue, htext⟩ | ⟨hrest, htext⟩
      · rw [htext, ← List.append_assoc]
        refine print_dangling hvalue ?_
        rw [← List.append_assoc, ← List.append_assoc]
        exact dangling_append_singleton (by decide) _
      · rw [htext, ← List.append_assoc]
        exact printMembers_dangling hrest _

end

omit [Ieee α] in
theorem not_dangling_append_singleton {b : UInt8} (h : b ∉ ([44, 58, 91] : Bytes))
    (before : Bytes) : ¬Dangling (before ++ [b]) :=
  fun hdangling => h (hdangling b (by rw [List.getLast?_concat]; rfl))

theorem exists_render_eq_concat (value : Json.Value Blanks) :
    ∃ before b, value.render = before ++ [b] ∧ b ∉ ([44, 58, 91] : Bytes) := by
  cases value with
  | null => exact ⟨ascii "nul", 108, by decide, by decide⟩
  | boolean b =>
      cases b with
      | false => exact ⟨ascii "fals", 101, by decide, by decide⟩
      | true => exact ⟨ascii "tru", 101, by decide, by decide⟩
  | number literal =>
      have hother : ∀ b ∈ numberBytes, b ∉ ([44, 58, 91] : Bytes) :=
        forall_mem_of_all (by decide)
      refine ⟨literal.render.dropLast, literal.render.getLast literal.render_ne_nil,
        (List.dropLast_append_getLast _).symm, hother _ (literal.render_subset ?_)⟩
      exact List.getLast_mem _
  | string chars => exact ⟨34 :: renderChars chars, 34, rfl, by decide⟩
  | emptyArray inside => exact ⟨91 :: renderBlanks inside, 93, rfl, by decide⟩
  | array elements => exact ⟨91 :: elements.render, 93, rfl, by decide⟩
  | emptyObject inside => exact ⟨123 :: renderBlanks inside, 125, rfl, by decide⟩
  | object members => exact ⟨123 :: members.render, 125, rfl, by decide⟩

/-- A grammatical text ends in a blank or in the last byte of a value. -/
theorem not_dangling_render (text : Text) : ¬Dangling text.render := by
  rw [Text.render]
  rcases List.eq_nil_or_concat text.after with hnone | ⟨blanks, blank, hblank⟩
  · obtain ⟨before, b, hvalue, hb⟩ := exists_render_eq_concat text.value
    rw [hnone, hvalue, renderBlanks_nil, List.append_nil, ← List.append_assoc]
    exact not_dangling_append_singleton hb _
  · have hb : blank.byte ∉ ([44, 58, 91] : Bytes) := by cases blank <;> decide
    rw [hblank, List.concat_eq_append, renderBlanks_append, ← List.append_assoc,
      ← List.append_assoc]
    exact not_dangling_append_singleton hb _

/-! ## What the reader makes of what the writer wrote -/

theorem zero_not_mem_writeString (s : Bytes) : (0 : UInt8) ∉ writeString s := by
  obtain ⟨chars, hrender, -⟩ := exists_spelling s
  rw [← hrender]
  exact zero_not_mem_renderString chars

theorem Printed.not_mem_andThen {b : UInt8} {first second : Printed} (hfirst : b ∉ first.text)
    (hsecond : b ∉ second.text) : b ∉ (first.andThen second).text := by
  unfold Printed.andThen
  split_ifs
  · simp [hfirst, hsecond]
  · exact hfirst

mutual

theorem zero_not_mem_print {value : Value α} (hrange : InRange value) :
    (0 : UInt8) ∉ (print grisu2 value).text := by
  cases value with
  | null =>
      change (0 : UInt8) ∉ ascii "null"
      decide
  | bool b =>
      have hboth : ∀ b : Bool, (0 : UInt8) ∉ if b then ascii "true" else ascii "false" := by
        decide
      exact hboth b
  | integer n =>
      obtain ⟨literal, hrender, -⟩ := exists_integer_literal (α := α) hrange.1 hrange.2
      rw [print, ← hrender]
      exact zero_not_mem_number literal
  | double d =>
      rw [print]
      split_ifs
      · simp
      · rw [dtoa_eq]
        exact zero_not_mem_number _
  | string s => exact zero_not_mem_writeString s
  | array elements =>
      exact Printed.not_mem_andThen (Printed.not_mem_andThen (by simp)
        (zero_not_mem_printElements true hrange)) (by simp)
  | object members =>
      exact Printed.not_mem_andThen (Printed.not_mem_andThen (by simp)
        (zero_not_mem_printMembers true hrange)) (by simp)

theorem zero_not_mem_printElements (first : Bool) {elements : List (Value α)}
    (hrange : ElementsInRange elements) :
    (0 : UInt8) ∉ (printElements grisu2 first elements).text := by
  cases elements with
  | nil => simp [printElements]
  | cons value elements =>
      refine Printed.not_mem_andThen (Printed.not_mem_andThen ?_ (zero_not_mem_print hrange.1))
        (zero_not_mem_printElements false hrange.2)
      cases first <;> decide

theorem zero_not_mem_printMembers (first : Bool) {members : List (Bytes × Value α)}
    (hrange : MembersInRange members) :
    (0 : UInt8) ∉ (printMembers grisu2 first members).text := by
  cases members with
  | nil => simp [printMembers]
  | cons member members =>
      refine Printed.not_mem_andThen (Printed.not_mem_andThen ?_ (zero_not_mem_print hrange.1))
        (zero_not_mem_printMembers false hrange.2)
      have hname := zero_not_mem_writeString member.1
      cases first <;> simp [comma, hname]

end

variable {grisu2}

theorem accept_initial (value : Value α) :
    (accept grisu2 value Writer.initial).1 = (print grisu2 value).complete ∧
      (accept grisu2 value Writer.initial).2.os = (print grisu2 value).text := by
  have hwrote := accept_wrote grisu2 value Writer.initial
  exact ⟨hwrote.complete, hwrote.os⟩

/-- What is written has no zero byte, so a C string holds all of it. -/
theorem cString_print {value : Value α} (hrange : InRange value) :
    cString (print grisu2 value).text = (print grisu2 value).text := by
  refine List.takeWhile_eq_self_iff.mpr fun c hc => ?_
  rw [decide_eq_true_eq]
  rintro rfl
  exact zero_not_mem_print grisu2 hrange hc

theorem parse_print {value : Value α} (hrange : InRange value)
    (hcomplete : (print grisu2 value).complete = true) :
    parse (print grisu2 value).text = reread grisu2 value := by
  obtain ⟨tree, hrender, hread⟩ := exists_tree grisu2 hrange hcomplete
  have htext : (⟨[], tree, []⟩ : Text).render = (print grisu2 value).text := by
    simp [Text.render, hrender]
  rw [← htext, parse_render, hread]

theorem parse_print_cut {value : Value α} (hrange : InRange value)
    (hcut : (print grisu2 value).complete = false) (read : Value α) :
    parse (print grisu2 value).text ≠ .ok read := by
  intro h
  obtain ⟨text, htext⟩ := parse_sound h
  have hdangling : Dangling ([] ++ (print grisu2 value).text) :=
    print_dangling grisu2 hcut (by simp [Dangling])
  rw [List.nil_append, ← cString_print hrange, ← htext] at hdangling
  exact not_dangling_render text hdangling

variable (grisu2) in
/--
A document is read back from what the writer writes, with each double as its decimal
says.  If the writer gave up on a double, what it has written is not accepted.
-/
theorem written_document_read_back {value : Value α} (hrange : InRange value) :
    if (accept grisu2 value Writer.initial).1 then
      parse (accept grisu2 value Writer.initial).2.os = reread grisu2 value
    else ∀ read : Value α, parse (accept grisu2 value Writer.initial).2.os ≠ .ok read := by
  obtain ⟨hcomplete, hos⟩ : (accept grisu2 value Writer.initial).1 = _ ∧
      (accept grisu2 value Writer.initial).2.os = _ := accept_initial value
  rw [hcomplete, hos]
  split_ifs with h
  · exact parse_print hrange h
  · exact parse_print_cut hrange (by simpa using h)

end

theorem written_document_read_back_nested :
    let value : Value ℚ := .object [(ascii "a", .array [.integer (-3), .null,
      .double (25 / 2), .double (3 / 20000000)])]
    let written := accept twoDecimals value Writer.initial
    written.1 = true ∧ written.2.os = ascii "\x7b\"a\":[-3,null,12.5,1.5e-7]\x7d" ∧
      parse written.2.os = reread twoDecimals value := by
  intro value written
  have hcomplete : written.1 = true := by decide +kernel
  have hrange : InRange value := by simp [value, InRange, ElementsInRange, MembersInRange]
  have hread := written_document_read_back twoDecimals hrange
  rw [if_pos hcomplete] at hread
  exact ⟨hcomplete, by decide +kernel, hread⟩

end RinhaBackend.RapidJson
