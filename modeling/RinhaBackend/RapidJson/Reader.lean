import RinhaBackend.RapidJson.Document

/-!
# The parser

The recursive parser of RapidJSON with its default flags: no comments, no trailing
commas, no validation of encodings, and numbers converted at normal precision.  A
function takes the text that is left and gives back what is left after it.  Recursion
is bounded by a counter; running out of it is reported as `termination`, the one code
that nothing else here reports.
-/

namespace RinhaBackend.RapidJson

open Foundation

inductive ParseErrorCode where
  | documentEmpty
  | documentRootNotSingular
  | valueInvalid
  | objectMissName
  | objectMissColon
  | objectMissCommaOrCurlyBracket
  | arrayMissCommaOrSquareBracket
  | stringUnicodeEscapeInvalidHex
  | stringUnicodeSurrogateInvalid
  | stringEscapeInvalid
  | stringMissQuotationMark
  | stringInvalidEncoding
  | numberTooBig
  | numberMissFraction
  | numberMissExponent
  | termination
  deriving DecidableEq

abbrev Parsing := Except ParseErrorCode

def isWhitespace (c : UInt8) : Bool := c == 32 || c == 10 || c == 13 || c == 9

def skipWhitespace (is : Bytes) : Bytes := is.dropWhile isWhitespace

def consume (expect : UInt8) : Bytes → Option Bytes
  | c :: is => if c = expect then some is else none
  | [] => none

/-! ## Strings -/

def hexValue (c : UInt8) : Option Nat :=
  if 48 ≤ c ∧ c ≤ 57 then some (c.toNat - 48)
  else if 65 ≤ c ∧ c ≤ 70 then some (c.toNat - 55)
  else if 97 ≤ c ∧ c ≤ 102 then some (c.toNat - 87)
  else none

/-- The loop of `ParseHex4` over the digits that are left. -/
def parseHex (codepoint : Nat) : Nat → Bytes → Parsing (Nat × Bytes)
  | 0, is => .ok (codepoint, is)
  | _ + 1, [] => .error .stringUnicodeEscapeInvalidHex
  | left + 1, c :: is =>
      match hexValue c with
      | some digit => parseHex (codepoint * 16 + digit) left is
      | none => .error .stringUnicodeEscapeInvalidHex

def parseHex4 (is : Bytes) : Parsing (Nat × Bytes) := parseHex 0 4 is

/-- `UTF8::Encode`. -/
def encode (codepoint : Nat) : Bytes :=
  if codepoint ≤ 0x7F then [UInt8.ofNat codepoint]
  else if codepoint ≤ 0x7FF then
    [UInt8.ofNat (0xC0 ||| codepoint >>> 6), UInt8.ofNat (0x80 ||| codepoint &&& 0x3F)]
  else if codepoint ≤ 0xFFFF then
    [UInt8.ofNat (0xE0 ||| codepoint >>> 12), UInt8.ofNat (0x80 ||| codepoint >>> 6 &&& 0x3F),
      UInt8.ofNat (0x80 ||| codepoint &&& 0x3F)]
  else
    [UInt8.ofNat (0xF0 ||| codepoint >>> 18), UInt8.ofNat (0x80 ||| codepoint >>> 12 &&& 0x3F),
      UInt8.ofNat (0x80 ||| codepoint >>> 6 &&& 0x3F), UInt8.ofNat (0x80 ||| codepoint &&& 0x3F)]

/-- The table `escape` of `ParseStringToStream`; zero for a byte it does not have. -/
def readEscape (e : UInt8) : UInt8 :=
  if e = 34 then 34
  else if e = 47 then 47
  else if e = 92 then 92
  else if e = 98 then 8
  else if e = 102 then 12
  else if e = 110 then 10
  else if e = 114 then 13
  else if e = 116 then 9
  else 0

def isSurrogate (codepoint : Nat) : Bool := 0xD800 ≤ codepoint && codepoint ≤ 0xDFFF

def joinSurrogates (high low : Nat) : Nat :=
  ((high - 0xD800) <<< 10 ||| (low - 0xDC00)) + 0x10000

/-- The second half of a surrogate pair. -/
def parseLowSurrogate (high : Nat) (is : Bytes) : Parsing (Bytes × Bytes) :=
  match (consume 92 is).bind (consume 117) with
  | none => .error .stringUnicodeSurrogateInvalid
  | some is => do
      let (low, is) ← parseHex4 is
      if low < 0xDC00 ∨ 0xDFFF < low then .error .stringUnicodeSurrogateInvalid
      else .ok (encode (joinSurrogates high low), is)

def parseUnicode (is : Bytes) : Parsing (Bytes × Bytes) := do
  let (codepoint, is) ← parseHex4 is
  if isSurrogate codepoint then
    if codepoint ≤ 0xDBFF then parseLowSurrogate codepoint is
    else .error .stringUnicodeSurrogateInvalid
  else .ok (encode codepoint, is)

/-- What follows a backslash. -/
def parseEscape : Bytes → Parsing (Bytes × Bytes)
  | [] => .error .stringEscapeInvalid
  | e :: is =>
      if readEscape e ≠ 0 then .ok ([readEscape e], is)
      else if e = 117 then parseUnicode is
      else .error .stringEscapeInvalid

def parseStringToStream : Nat → Bytes → Bytes → Parsing (Bytes × Bytes)
  | 0, _, _ => .error .termination
  | _ + 1, _, [] => .error .stringMissQuotationMark
  | fuel + 1, os, c :: is =>
      if c = 92 then do
        let (decoded, is) ← parseEscape is
        parseStringToStream fuel (os ++ decoded) is
      else if c = 34 then .ok (os, is)
      else if c < 32 then
        if c = 0 then .error .stringMissQuotationMark else .error .stringInvalidEncoding
      else parseStringToStream fuel (os ++ [c]) is

/-- `ParseString` after the quotation mark. -/
def parseString (is : Bytes) : Parsing (Bytes × Bytes) := parseStringToStream (is.length + 1) [] is

/-! ## Numbers -/

/-- The digits read so far: in a 32-bit or a 64-bit integer, or in a double. -/
inductive Significand (α : Type) where
  | int (i : Nat)
  | int64 (i64 : Nat)
  | double (d : α)

/--
The loops over the digits of an integer.  They stop before a digit that would take
the number past `10 * limit + last`, which the flag reports.  The count is the
variable `significandDigit`.
-/
def takeDigits (limit : Nat) (last : UInt8) :
    (number digits : Nat) → Bytes → Nat × Nat × Bool × Bytes
  | number, digits, [] => (number, digits, false, [])
  | number, digits, c :: is =>
      if isDigit c then
        if limit ≤ number ∧ (number ≠ limit ∨ last < c) then (number, digits, true, c :: is)
        else takeDigits limit last (number * 10 + digitValue c) (digits + 1) is
      else (number, digits, false, c :: is)

section

variable {α : Type} [Ieee α]

def pushDigit (d : α) (c : UInt8) : α :=
  Ieee.mulAdd d (Ieee.ofNat 10) (Ieee.ofNat (digitValue c))

def takeDouble : α → Bytes → α × Bytes
  | d, [] => (d, [])
  | d, c :: is => if isDigit c then takeDouble (pushDigit d c) is else (d, c :: is)

def Significand.toDouble : Significand α → α
  | .int i => Ieee.ofNat i
  | .int64 i64 => Ieee.ofNat i64
  | .double d => d

def parseInteger64 (minus : Bool) (i digits : Nat) (is : Bytes) :
    Significand α × Nat × Bytes :=
  let (i64, digits, useDouble, is) :=
    takeDigits (if minus then 0x0CCCCCCCCCCCCCCC else 0x1999999999999999)
      (if minus then 56 else 53) i digits is
  if useDouble then
    let (d, is) := takeDouble (Ieee.ofNat i64) is
    (.double d, digits, is)
  else (.int64 i64, digits, is)

def parseInteger32 (minus : Bool) (i : Nat) (is : Bytes) : Significand α × Nat × Bytes :=
  let (i, digits, use64bit, is) :=
    takeDigits (if minus then 214748364 else 429496729) (if minus then 56 else 53) i 0 is
  if use64bit then parseInteger64 minus i digits is else (.int i, digits, is)

def parseInteger (minus : Bool) : Bytes → Parsing (Significand α × Nat × Bytes)
  | [] => .error .valueInvalid
  | c :: is =>
      if c = 48 then .ok (.int 0, 0, is)
      else if isDigit c then .ok (parseInteger32 minus (digitValue c) is)
      else .error .valueInvalid

/-- The digits of a fraction while the significand is an integer below `2 ^ 53`. -/
def takeFraction53 : (i64 digits places : Nat) → Bytes → Nat × Nat × Nat × Bytes
  | i64, digits, places, [] => (i64, digits, places, [])
  | i64, digits, places, c :: is =>
      if isDigit c then
        if 0x1FFFFFFFFFFFFF < i64 then (i64, digits, places, c :: is)
        else
          let i64 := i64 * 10 + digitValue c
          takeFraction53 i64 (if i64 ≠ 0 then digits + 1 else digits) (places + 1) is
      else (i64, digits, places, c :: is)

/-- The digits of a fraction after that: the first seventeen count. -/
def takeFraction : α → (digits places : Nat) → Bytes → α × Nat × Bytes
  | d, _, places, [] => (d, places, [])
  | d, digits, places, c :: is =>
      if isDigit c then
        if digits < 17 then
          let d := pushDigit d c
          takeFraction d (if Double.lt Double.zero d then digits + 1 else digits)
            (places + 1) is
        else takeFraction d digits places is
      else (d, places, c :: is)

/-- Both loops over a fraction. -/
def takeFractions (i64 digits places : Nat) (is : Bytes) : α × Nat × Bytes :=
  let (i64, digits, places, is) := takeFraction53 i64 digits places is
  takeFraction (Ieee.ofNat i64) digits places is

/-- The significand with the digits of the fraction, and their number. -/
def fractionDigits (significand : Significand α) (digits : Nat) (is : Bytes) :
    α × Nat × Bytes :=
  match significand with
  | .int i64 | .int64 i64 => takeFractions i64 digits 0 is
  | .double d => takeFraction d digits 0 is

/-- The places are `-expFrac`. -/
def parseFraction (significand : Significand α) (digits : Nat) (is : Bytes) :
    Parsing (Significand α × Nat × Bytes) :=
  match consume 46 is with
  | none => .ok (significand, 0, is)
  | some [] => .error .numberMissFraction
  | some (c :: is) =>
      if isDigit c then
        let (d, places, is) := fractionDigits significand digits (c :: is)
        .ok (.double d, places, is)
      else .error .numberMissFraction

def takeExponentMinus (maxExp : Nat) : Nat → Bytes → Nat × Bytes
  | exp, [] => (exp, [])
  | exp, c :: is =>
      if isDigit c then
        let exp := exp * 10 + digitValue c
        if maxExp < exp then (exp, is.dropWhile isDigit) else takeExponentMinus maxExp exp is
      else (exp, c :: is)

def takeExponentPlus (maxExp : Nat) : Nat → Bytes → Parsing (Nat × Bytes)
  | exp, [] => .ok (exp, [])
  | exp, c :: is =>
      if isDigit c then
        let exp := exp * 10 + digitValue c
        if maxExp < exp then .error .numberTooBig else takeExponentPlus maxExp exp is
      else .ok (exp, c :: is)

def parseExponentSign (is : Bytes) : Bool × Bytes :=
  match consume 43 is with
  | some is => (false, is)
  | none =>
      match consume 45 is with
      | some is => (true, is)
      | none => (false, is)

def parseExponent (significand : Significand α) (places : Nat) :
    Bytes → Parsing (Significand α × Int × Bytes)
  | [] => .ok (significand, 0, [])
  | c :: is =>
      if c = 101 ∨ c = 69 then
        let significand := .double significand.toDouble
        match parseExponentSign is with
        | (_, []) => .error .numberMissExponent
        | (expMinus, c :: is) =>
            if isDigit c then
              if expMinus then
                let (exp, is) :=
                  takeExponentMinus ((2147483639 - places) / 10) (digitValue c) is
                .ok (significand, -exp, is)
              else do
                let (exp, is) ← takeExponentPlus (308 + places) (digitValue c) is
                .ok (significand, exp, is)
            else .error .numberMissExponent
      else .ok (significand, 0, c :: is)

def fastPath (significand : α) (exp : Int) : α :=
  if exp < -308 then Double.zero
  else if 0 ≤ exp then Ieee.mul significand (Ieee.pow10 exp.toNat)
  else Double.div significand (Ieee.pow10 (-exp).toNat)

def strtodNormalPrecision (d : α) (p : Int) : α :=
  if p < -308 then fastPath (fastPath d (-308)) (p + 308) else fastPath d p

/-- The event at the end of `ParseNumber`. -/
def finishNumber (minus : Bool) (exponent : Int) : Significand α → Parsing (Value α)
  | .int i => .ok (.integer (if minus then -i else i))
  | .int64 i64 => .ok (.integer (if minus then -i64 else i64))
  | .double d =>
      let d := strtodNormalPrecision d exponent
      if Ieee.aboveMax d then .error .numberTooBig
      else .ok (.double (if minus then Ieee.neg d else d))

def parseMinus (is : Bytes) : Bool × Bytes :=
  match consume 45 is with
  | some is => (true, is)
  | none => (false, is)

def parseNumber (is : Bytes) : Parsing (Value α × Bytes) := do
  let (minus, is) := parseMinus is
  let (significand, digits, is) ← parseInteger minus is
  let (significand, places, is) ← parseFraction significand digits is
  let (significand, exp, is) ← parseExponent significand places is
  let value ← finishNumber minus (exp - places) significand
  .ok (value, is)

/-! ## Values -/

def parseLiteral (word : Bytes) (value : Value α) (is : Bytes) : Parsing (Value α × Bytes) :=
  if word <+: is then .ok (value, is.drop word.length) else .error .valueInvalid

mutual

def parseValue : Nat → Bytes → Parsing (Value α × Bytes)
  | 0, _ => .error .termination
  | _ + 1, [] => parseNumber []
  | fuel + 1, c :: is =>
      if c = 110 then parseLiteral (ascii "ull") .null is
      else if c = 116 then parseLiteral (ascii "rue") (.bool true) is
      else if c = 102 then parseLiteral (ascii "alse") (.bool false) is
      else if c = 34 then do
        let (s, is) ← parseString is
        .ok (.string s, is)
      else if c = 123 then
        match consume 125 (skipWhitespace is) with
        | some is => .ok (.object [], is)
        | none => do
            let (members, is) ← parseMembers fuel (skipWhitespace is)
            .ok (.object members, is)
      else if c = 91 then
        match consume 93 (skipWhitespace is) with
        | some is => .ok (.array [], is)
        | none => do
            let (elements, is) ← parseElements fuel (skipWhitespace is)
            .ok (.array elements, is)
      else parseNumber (c :: is)

/-- The loop of `ParseObject`. -/
def parseMembers : Nat → Bytes → Parsing (List (Bytes × Value α) × Bytes)
  | 0, _ => .error .termination
  | fuel + 1, is =>
      match consume 34 is with
      | none => .error .objectMissName
      | some is => do
          let (name, is) ← parseString is
          match consume 58 (skipWhitespace is) with
          | none => .error .objectMissColon
          | some is => do
              let (value, is) ← parseValue fuel (skipWhitespace is)
              match skipWhitespace is with
              | [] => .error .objectMissCommaOrCurlyBracket
              | c :: is =>
                  if c = 44 then do
                    let (members, is) ← parseMembers fuel (skipWhitespace is)
                    .ok ((name, value) :: members, is)
                  else if c = 125 then .ok ([(name, value)], is)
                  else .error .objectMissCommaOrCurlyBracket

/-- The loop of `ParseArray`. -/
def parseElements : Nat → Bytes → Parsing (List (Value α) × Bytes)
  | 0, _ => .error .termination
  | fuel + 1, is => do
      let (value, is) ← parseValue fuel is
      match skipWhitespace is with
      | [] => .error .arrayMissCommaOrSquareBracket
      | c :: is =>
          if c = 44 then do
            let (elements, is) ← parseElements fuel (skipWhitespace is)
            .ok (value :: elements, is)
          else if c = 93 then .ok ([value], is)
          else .error .arrayMissCommaOrSquareBracket

end

/-- The bytes up to the first zero, which ends a C string. -/
def cString (bytes : Bytes) : Bytes := bytes.takeWhile (· ≠ 0)

/-- `Document::Parse` of a C string. -/
def parse (text : Bytes) : Parsing (Value α) := do
  let is := skipWhitespace (cString text)
  if is = [] then .error .documentEmpty
  else
    let (value, is) ← parseValue (2 * is.length + 1) is
    if skipWhitespace is = [] then .ok value else .error .documentRootNotSingular

end

end RinhaBackend.RapidJson
