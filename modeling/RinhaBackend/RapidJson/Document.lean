import RinhaBackend.RapidJson.Dtoa

/-!
# Documents and their printer

The value tree of RapidJSON with the accessors that the service uses, and the writer
that prints it.  The writer is a machine: it keeps a stack of levels with a count of
the values written in each, and decides from the count whether a comma or a colon
comes before the next one.  Printing stops at a double that has no decimal notation,
and leaves what was printed so far.
-/

namespace RinhaBackend.RapidJson

open Foundation

/--
`GenericValue`.  The type flags of an integer say which machine types hold it, so the
integer itself determines them.
-/
inductive Value (α : Type) where
  | null
  | bool (b : Bool)
  | integer (n : Int)
  | double (d : α)
  | string (s : Bytes)
  | array (elements : List (Value α))
  | object (members : List (Bytes × Value α))

variable {α : Type}

/-! ## Access

The assertions of the library are compiled out of the service.  A value without
members that is asked for one has none, since its data is zero; a missing member is
`null`, and `null` reads as the number zero.  What the remaining wrong accesses read
is the bytes of other data: `none` here.
-/

namespace Value

def findMember (name : Bytes) (members : List (Bytes × Value α)) : Option (Value α) :=
  (members.find? fun member => member.1 == name).map Prod.snd

def hasMember (value : Value α) (name : Bytes) : Option Bool :=
  match value with
  | .object members => some (findMember name members).isSome
  | .null | .bool _ => some false
  | _ => none

/-- `operator[]`. -/
def member (value : Value α) (name : Bytes) : Option (Value α) :=
  match value with
  | .object members => some ((findMember name members).getD .null)
  | .null | .bool _ => some .null
  | _ => none

def getUint64 : Value α → Option UInt64
  | .integer n => some (UInt64.ofNat (n % 2 ^ 64).toNat)
  | .null | .bool _ => some 0
  | _ => none

def getDouble [Ieee α] : Value α → Option α
  | .double d => some d
  | .integer n => some (Ieee.ofInt n)
  | .null | .bool _ => some Double.zero
  | _ => none

end Value

/-! ## The writer -/

structure Level where
  valueCount : Nat
  inArray : Bool
  deriving DecidableEq

structure Writer where
  os : Bytes
  levelStack : List Level
  hasRoot : Bool
  deriving DecidableEq

def hexDigit (n : Nat) : UInt8 := (ascii "0123456789ABCDEF").getD n 0

/-- The table `escape` of `WriteString`; zero for a byte that is written as it is. -/
def writeEscape (c : UInt8) : UInt8 :=
  if c = 8 then 98
  else if c = 9 then 116
  else if c = 10 then 110
  else if c = 12 then 102
  else if c = 13 then 114
  else if c < 32 then 117
  else if c = 34 then 34
  else if c = 92 then 92
  else 0

def writeChar (c : UInt8) : Bytes :=
  let escape := writeEscape c
  if escape ≠ 0 then
    92 :: escape ::
      if escape = 117 then [48, 48, hexDigit (c.toNat / 16), hexDigit (c.toNat % 16)] else []
  else [c]

def writeString (s : Bytes) : Bytes := 34 :: (s.flatMap writeChar ++ [34])

namespace Writer

def put (writer : Writer) (bytes : Bytes) : Writer :=
  { writer with os := writer.os ++ bytes }

def separator (level : Level) : Bytes :=
  if 0 < level.valueCount then
    if level.inArray then [44]
    else if level.valueCount % 2 = 0 then [44] else [58]
  else []

/-- `Prefix`. -/
def beginValue (writer : Writer) : Writer :=
  match writer.levelStack with
  | level :: levels =>
      { writer with
        os := writer.os ++ separator level
        levelStack := { level with valueCount := level.valueCount + 1 } :: levels }
  | [] => { writer with hasRoot := true }

/-- A value that is always printed in full. -/
def plain (text : Bytes) (writer : Writer) : Bool × Writer :=
  (true, writer.beginValue.put text)

def null : Writer → Bool × Writer := plain (ascii "null")

def bool (b : Bool) : Writer → Bool × Writer :=
  plain (if b then ascii "true" else ascii "false")

def int (i : Int) : Writer → Bool × Writer := plain (i32toa i)

def uint (u : Nat) : Writer → Bool × Writer := plain (u32toa (UInt32.ofNat u))

def int64 (i64 : Int) : Writer → Bool × Writer := plain (i64toa i64)

def uint64 (u64 : Nat) : Writer → Bool × Writer := plain (u64toa (UInt64.ofNat u64))

def string (s : Bytes) : Writer → Bool × Writer := plain (writeString s)

def key : Bytes → Writer → Bool × Writer := string

/-- The numbers that the flags of a value send to the narrowest printer. -/
def integer (n : Int) : Writer → Bool × Writer :=
  if -2147483648 ≤ n ∧ n < 2147483648 then int n
  else if 0 ≤ n ∧ n < 4294967296 then uint n.toNat
  else if n < 9223372036854775808 then int64 n
  else uint64 n.toNat

def double [Ieee α] (grisu2 : α → Decimal) (d : α) (writer : Writer) : Bool × Writer :=
  if Ieee.isNanOrInf d then (false, writer.beginValue)
  else (true, writer.beginValue.put (dtoa grisu2 d kDefaultMaxDecimalPlaces))

/-- `StartObject` and `StartArray`. -/
def start (inArray : Bool) (bracket : UInt8) (writer : Writer) : Bool × Writer :=
  let writer := writer.beginValue
  (true, { writer with levelStack := ⟨0, inArray⟩ :: writer.levelStack }.put [bracket])

def startObject : Writer → Bool × Writer := start false 123

def startArray : Writer → Bool × Writer := start true 91

/-- `EndObject` and `EndArray`. -/
def finish (bracket : UInt8) (writer : Writer) : Bool × Writer :=
  (true, { writer with levelStack := writer.levelStack.tail }.put [bracket])

def endObject : Writer → Bool × Writer := finish 125

def endArray : Writer → Bool × Writer := finish 93

/-- The next handler call, unless the one before it has failed. -/
def andThen (result : Bool × Writer) (next : Writer → Bool × Writer) : Bool × Writer :=
  if result.1 then next result.2 else result

def initial : Writer := ⟨[], [], false⟩

end Writer

section

variable [Ieee α] (grisu2 : α → Decimal)

mutual

def accept : Value α → Writer → Bool × Writer
  | .null, writer => writer.null
  | .bool b, writer => writer.bool b
  | .integer n, writer => writer.integer n
  | .double d, writer => writer.double grisu2 d
  | .string s, writer => writer.string s
  | .array elements, writer =>
      Writer.andThen (Writer.andThen writer.startArray (acceptElements elements))
        Writer.endArray
  | .object members, writer =>
      Writer.andThen (Writer.andThen writer.startObject (acceptMembers members))
        Writer.endObject

def acceptElements : List (Value α) → Writer → Bool × Writer
  | [], writer => (true, writer)
  | value :: elements, writer =>
      Writer.andThen (accept value writer) (acceptElements elements)

def acceptMembers : List (Bytes × Value α) → Writer → Bool × Writer
  | [], writer => (true, writer)
  | (name, value) :: members, writer =>
      Writer.andThen (Writer.andThen (writer.key name) (accept value))
        (acceptMembers members)

end

end

/-! ## The text of a value -/

/-- A text, and whether it was printed to its end. -/
structure Printed where
  complete : Bool
  text : Bytes
  deriving DecidableEq

def Printed.andThen (first second : Printed) : Printed :=
  if first.complete then ⟨second.complete, first.text ++ second.text⟩ else first

theorem Printed.andThen_of_complete {first : Printed} (h : first.complete = true)
    (second : Printed) : first.andThen second = ⟨second.complete, first.text ++ second.text⟩ :=
  if_pos h

def integerText (n : Int) : Bytes :=
  if -2147483648 ≤ n ∧ n < 2147483648 then i32toa n
  else if 0 ≤ n ∧ n < 4294967296 then u32toa (UInt32.ofNat n.toNat)
  else if n < 9223372036854775808 then i64toa n
  else u64toa (UInt64.ofNat n.toNat)

/-- The comma before every value or member but the first. -/
def comma (first : Bool) : Bytes := if first then [] else [44]

section

variable [Ieee α] (grisu2 : α → Decimal)

mutual

def print : Value α → Printed
  | .null => ⟨true, ascii "null"⟩
  | .bool b => ⟨true, if b then ascii "true" else ascii "false"⟩
  | .integer n => ⟨true, integerText n⟩
  | .double d =>
      if Ieee.isNanOrInf d then ⟨false, []⟩
      else ⟨true, dtoa grisu2 d kDefaultMaxDecimalPlaces⟩
  | .string s => ⟨true, writeString s⟩
  | .array elements =>
      ((⟨true, [91]⟩ : Printed).andThen (printElements true elements)).andThen ⟨true, [93]⟩
  | .object members =>
      ((⟨true, [123]⟩ : Printed).andThen (printMembers true members)).andThen ⟨true, [125]⟩

def printElements (first : Bool) : List (Value α) → Printed
  | [] => ⟨true, []⟩
  | value :: elements =>
      ((⟨true, comma first⟩ : Printed).andThen (print value)).andThen
        (printElements false elements)

def printMembers (first : Bool) : List (Bytes × Value α) → Printed
  | [] => ⟨true, []⟩
  | (name, value) :: members =>
      ((⟨true, comma first ++ (writeString name ++ [58])⟩ : Printed).andThen
        (print value)).andThen (printMembers false members)

end

end

/-! ## The writer prints the text -/

namespace Writer

/--
The call has written the text; if it was written in full, the writer stands as it
did with `levels` on its stack.
-/
structure Wrote (writer : Writer) (levels : List Level) (printed : Printed)
    (result : Bool × Writer) : Prop where
  complete : result.1 = printed.complete
  os : result.2.os = writer.os ++ printed.text
  levelStack : printed.complete = true → result.2.levelStack = levels
  hasRoot : result.2.hasRoot = writer.hasRoot

theorem Wrote.andThen {writer : Writer} {levels levels' : List Level}
    {printed printed' : Printed} {result : Bool × Writer} {next : Writer → Bool × Writer}
    (h : Wrote writer levels printed result)
    (hnext : ∀ writer : Writer, writer.levelStack = levels →
      Wrote writer levels' printed' (next writer)) :
    Wrote writer levels' (printed.andThen printed') (Writer.andThen result next) := by
  unfold Writer.andThen Printed.andThen
  rw [h.complete]
  cases hcomplete : printed.complete with
  | false =>
      refine ⟨h.complete, h.os, fun hfull => ?_, h.hasRoot⟩
      simp [hcomplete] at hfull
  | true =>
      have hrest := hnext result.2 (h.levelStack hcomplete)
      refine ⟨hrest.complete, ?_, hrest.levelStack, hrest.hasRoot.trans h.hasRoot⟩
      simp [hrest.os, h.os]

theorem beginValue_of_cons {writer : Writer} {level : Level} {levels : List Level}
    (h : writer.levelStack = level :: levels) :
    writer.beginValue =
      { writer with
        os := writer.os ++ separator level
        levelStack := { level with valueCount := level.valueCount + 1 } :: levels } := by
  simp only [beginValue, h]

/-- A value in an array or an object has the separator before it. -/
theorem Wrote.separated {writer : Writer} {level : Level} {levels levels' : List Level}
    {printed : Printed} {result : Bool × Writer} (hlevel : writer.levelStack = level :: levels)
    (h : Wrote writer.beginValue levels' printed result) :
    Wrote writer levels' ((⟨true, separator level⟩ : Printed).andThen printed) result := by
  rw [Printed.andThen_of_complete rfl]
  rw [beginValue_of_cons hlevel] at h
  refine ⟨h.complete, ?_, h.levelStack, h.hasRoot⟩
  rw [h.os, List.append_assoc]

theorem separator_even (pairs : Nat) :
    separator ⟨2 * pairs, false⟩ = comma (pairs == 0) := by
  cases pairs with
  | zero => rfl
  | succ pairs => simp [separator, comma]

theorem separator_odd (pairs : Nat) : separator ⟨2 * pairs + 1, false⟩ = [58] := by
  simp [separator, Nat.add_mod]

theorem wrote_plain (text : Bytes) (writer : Writer) :
    Wrote writer.beginValue writer.beginValue.levelStack ⟨true, text⟩ (plain text writer) :=
  ⟨rfl, rfl, fun _ => rfl, rfl⟩

theorem integer_eq_plain (n : Int) : integer n = plain (integerText n) := by
  unfold integer integerText
  split_ifs
  · rfl
  · rfl
  · rfl
  · rfl

theorem wrote_start (inArray : Bool) (bracket : UInt8) (writer : Writer) :
    Wrote writer.beginValue (⟨0, inArray⟩ :: writer.beginValue.levelStack)
      ⟨true, [bracket]⟩ (start inArray bracket writer) :=
  ⟨rfl, rfl, fun _ => rfl, rfl⟩

theorem wrote_finish {writer : Writer} {level : Level} {levels : List Level}
    (h : writer.levelStack = level :: levels) (bracket : UInt8) :
    Wrote writer levels ⟨true, [bracket]⟩ (finish bracket writer) :=
  ⟨rfl, rfl, fun _ => by simp [finish, put, h], rfl⟩

end Writer

section

variable [Ieee α] (grisu2 : α → Decimal)

open Writer

mutual

theorem accept_wrote (value : Value α) (writer : Writer) :
    Wrote writer.beginValue writer.beginValue.levelStack (print grisu2 value)
      (accept grisu2 value writer) := by
  cases value with
  | null => exact wrote_plain _ writer
  | bool b => exact wrote_plain _ writer
  | integer n =>
      rw [accept, integer_eq_plain]
      exact wrote_plain _ writer
  | double d =>
      rw [accept, print, Writer.double]
      split_ifs with hfinite
      · exact ⟨rfl, (List.append_nil _).symm, fun h => absurd h (by simp), rfl⟩
      · exact wrote_plain _ writer
  | string s => exact wrote_plain _ writer
  | array elements =>
      exact ((wrote_start true 91 writer).andThen fun writer' hlevels =>
        acceptElements_wrote elements hlevels).andThen fun writer' hlevels =>
          wrote_finish hlevels 93
  | object members =>
      exact ((wrote_start false 123 writer).andThen fun writer' hlevels =>
        acceptMembers_wrote 0 members hlevels).andThen fun writer' hlevels =>
          wrote_finish hlevels 125

theorem acceptElements_wrote (elements : List (Value α)) {writer : Writer} {count : Nat}
    {levels : List Level} (hlevels : writer.levelStack = ⟨count, true⟩ :: levels) :
    Wrote writer (⟨count + elements.length, true⟩ :: levels)
      (printElements grisu2 (count == 0) elements) (acceptElements grisu2 elements writer) := by
  cases elements with
  | nil => exact ⟨rfl, (List.append_nil _).symm, fun _ => hlevels, rfl⟩
  | cons value elements =>
      have hvalue := (accept_wrote value writer).separated hlevels
      rw [beginValue_of_cons hlevels] at hvalue
      have hcomma : separator ⟨count, true⟩ = comma (count == 0) := by
        cases count <;> rfl
      rw [hcomma] at hvalue
      refine hvalue.andThen fun writer' hlevels' => ?_
      have hrest := acceptElements_wrote elements hlevels'
      rw [Nat.add_right_comm] at hrest
      exact hrest

theorem acceptMembers_wrote (pairs : Nat) (members : List (Bytes × Value α))
    {writer : Writer} {levels : List Level}
    (hlevels : writer.levelStack = ⟨2 * pairs, false⟩ :: levels) :
    Wrote writer (⟨2 * (pairs + members.length), false⟩ :: levels)
      (printMembers grisu2 (pairs == 0) members) (acceptMembers grisu2 members writer) := by
  cases members with
  | nil => exact ⟨rfl, (List.append_nil _).symm, fun _ => hlevels, rfl⟩
  | cons member members =>
      obtain ⟨name, value⟩ := member
      have hkey := (wrote_plain (writeString name) writer).separated hlevels
      rw [beginValue_of_cons hlevels, separator_even] at hkey
      have hvalue : ∀ writer' : Writer,
          writer'.levelStack = ⟨2 * pairs + 1, false⟩ :: levels →
            Wrote writer' (⟨2 * (pairs + 1), false⟩ :: levels)
              ((⟨true, [58]⟩ : Printed).andThen (print grisu2 value))
              (accept grisu2 value writer') := by
        intro writer' hlevels'
        have hvalue := (accept_wrote value writer').separated hlevels'
        rwa [beginValue_of_cons hlevels', separator_odd] at hvalue
      have hpair := hkey.andThen hvalue
      rw [show ((⟨true, comma (pairs == 0)⟩ : Printed).andThen ⟨true, writeString name⟩).andThen
            ((⟨true, [58]⟩ : Printed).andThen (print grisu2 value)) =
          (⟨true, comma (pairs == 0) ++ (writeString name ++ [58])⟩ : Printed).andThen
            (print grisu2 value) by simp [Printed.andThen]] at hpair
      refine hpair.andThen fun writer' hlevels' => ?_
      have hrest := acceptMembers_wrote (pairs + 1) members hlevels'
      rw [show pairs + 1 + members.length = pairs + ((name, value) :: members).length by
        simp only [List.length_cons]
        omega] at hrest
      exact hrest

end

end

end RinhaBackend.RapidJson
