import RinhaBackend.Foundation.Json

/-!
# JSON texts

The structural grammar of RFC 8259 as data, over its strings and numbers.  A tree
has a place for whitespace wherever the grammar allows any; `Gap` is the type of
what stands there.  A text is a tree with blanks in its gaps, and its content is
the same tree with the blanks forgotten.  Only grammatical texts can be built.
The second half shows that the grammar is unambiguous: a text has one content.
-/

namespace RinhaBackend.Foundation.Json

/-! ## Texts and contents -/

inductive Blank where
  | space
  | tab
  | lineFeed
  | carriageReturn
  deriving DecidableEq

def Blank.byte : Blank → UInt8
  | .space => 32
  | .tab => 9
  | .lineFeed => 10
  | .carriageReturn => 13

abbrev Blanks := List Blank

def renderBlanks (blanks : Blanks) : Bytes := blanks.map Blank.byte

@[simp] theorem renderBlanks_nil : renderBlanks [] = [] := rfl

@[simp] theorem renderBlanks_append (first second : Blanks) :
    renderBlanks (first ++ second) = renderBlanks first ++ renderBlanks second :=
  List.map_append

mutual

inductive Value (Gap : Type) where
  | null
  | boolean (value : Bool)
  | number (literal : Number)
  | string (chars : List StringChar)
  | emptyArray (inside : Gap)
  | array (elements : Elements Gap)
  | emptyObject (inside : Gap)
  | object (members : Members Gap)

/-- The elements of an array that has any. -/
inductive Elements (Gap : Type) where
  | last (before : Gap) (value : Value Gap) (after : Gap)
  | next (before : Gap) (value : Value Gap) (after : Gap) (rest : Elements Gap)

/-- The members of an object that has any. -/
inductive Members (Gap : Type) where
  | last (beforeKey : Gap) (key : List StringChar) (afterKey beforeValue : Gap)
      (value : Value Gap) (afterValue : Gap)
  | next (beforeKey : Gap) (key : List StringChar) (afterKey beforeValue : Gap)
      (value : Value Gap) (afterValue : Gap) (rest : Members Gap)

end

mutual

def Value.render : Value Blanks → Bytes
  | .null => ascii "null"
  | .boolean value => if value then ascii "true" else ascii "false"
  | .number literal => literal.render
  | .string chars => renderString chars
  | .emptyArray inside => 91 :: (renderBlanks inside ++ [93])
  | .array elements => 91 :: (elements.render ++ [93])
  | .emptyObject inside => 123 :: (renderBlanks inside ++ [125])
  | .object members => 123 :: (members.render ++ [125])

def Elements.render : Elements Blanks → Bytes
  | .last before value after =>
      renderBlanks before ++ (value.render ++ renderBlanks after)
  | .next before value after rest =>
      renderBlanks before ++ (value.render ++ (renderBlanks after ++ 44 :: rest.render))

def Members.render : Members Blanks → Bytes
  | .last beforeKey key afterKey beforeValue value afterValue =>
      renderBlanks beforeKey ++ (renderString key ++ (renderBlanks afterKey ++
        58 :: (renderBlanks beforeValue ++ (value.render ++ renderBlanks afterValue))))
  | .next beforeKey key afterKey beforeValue value afterValue rest =>
      renderBlanks beforeKey ++ (renderString key ++ (renderBlanks afterKey ++
        58 :: (renderBlanks beforeValue ++ (value.render ++
          (renderBlanks afterValue ++ 44 :: rest.render)))))

end

section

variable {Gap : Type}

mutual

def Value.content : Value Gap → Value Unit
  | .null => .null
  | .boolean value => .boolean value
  | .number literal => .number literal
  | .string chars => .string chars
  | .emptyArray _ => .emptyArray ()
  | .array elements => .array elements.content
  | .emptyObject _ => .emptyObject ()
  | .object members => .object members.content

def Elements.content : Elements Gap → Elements Unit
  | .last _ value _ => .last () value.content ()
  | .next _ value _ rest => .next () value.content () rest.content

def Members.content : Members Gap → Members Unit
  | .last _ key _ _ value _ => .last () key () () value.content ()
  | .next _ key _ _ value _ rest => .next () key () () value.content () rest.content

end

end

/-- A member's name and content. -/
abbrev Member := List StringChar × Value Unit

def Members.list : Members Unit → List Member
  | .last _ key _ _ value _ => [(key, value)]
  | .next _ key _ _ value _ rest => (key, value) :: rest.list

theorem Members.list_ne_nil (members : Members Unit) : members.list ≠ [] := by
  cases members <;> simp [list]

/-- The members of an object, in order. -/
def Value.members : Value Unit → Option (List Member)
  | .emptyObject _ => some []
  | .object members => some members.list
  | _ => none

/-- A whole text: a value with blanks around it. -/
structure Text where
  before : Blanks
  value : Value Blanks
  after : Blanks

def Text.render (text : Text) : Bytes :=
  renderBlanks text.before ++ (text.value.render ++ renderBlanks text.after)

/-- The bytes are a JSON text of an object with these members. -/
def IsObjectText (bytes : Bytes) (members : List Member) : Prop :=
  ∃ text : Text, text.render = bytes ∧ text.value.content.members = some members

/-! ## Adding a member -/

namespace Members

variable {Gap : Type}

def append : Members Gap → Members Gap → Members Gap
  | .last beforeKey key afterKey beforeValue value afterValue, second =>
      .next beforeKey key afterKey beforeValue value afterValue second
  | .next beforeKey key afterKey beforeValue value afterValue rest, second =>
      .next beforeKey key afterKey beforeValue value afterValue (rest.append second)

theorem content_append : (first second : Members Gap) →
    (first.append second).content = first.content.append second.content
  | .last .., second => rfl
  | .next _ _ _ _ _ _ rest, second => by
      rw [append, content, content, append, content_append rest second]

theorem list_append : (first second : Members Unit) →
    (first.append second).list = first.list ++ second.list
  | .last .., second => rfl
  | .next _ _ _ _ _ _ rest, second => by
      rw [append, list, list, list_append rest second, List.cons_append]

theorem render_append : (first second : Members Blanks) →
    (first.append second).render = first.render ++ 44 :: second.render
  | .last .., second => by simp [append, render]
  | .next _ _ _ _ _ _ rest, second => by
      simp [append, render, render_append rest second]

end Members

/-! ## One text, one content -/

def blankBytes : Bytes := [32, 9, 10, 13]

theorem renderBlanks_subset (blanks : Blanks) : renderBlanks blanks ⊆ blankBytes := by
  intro b hb
  obtain ⟨blank, -, rfl⟩ := List.mem_map.mp hb
  cases blank <;> decide

theorem renderBlanks_append_inj {first second : Blanks} {rest rest' : Bytes}
    (hrest : Separated blankBytes rest) (hrest' : Separated blankBytes rest')
    (h : renderBlanks first ++ rest = renderBlanks second ++ rest') : rest = rest' :=
  (append_inj_of_separated (renderBlanks_subset first) (renderBlanks_subset second)
    hrest hrest' h).2

theorem renderBlanks_cons_inj {first second : Blanks} {stop stop' : UInt8}
    {rest rest' : Bytes} (hstop : stop ∉ blankBytes) (hstop' : stop' ∉ blankBytes)
    (h : renderBlanks first ++ stop :: rest = renderBlanks second ++ stop' :: rest') :
    stop = stop' ∧ rest = rest' := by
  have hrest : Separated blankBytes (stop :: rest) := hstop
  have hrest' : Separated blankBytes (stop' :: rest') := hstop'
  exact List.cons.inj (renderBlanks_append_inj hrest hrest' h)

theorem separated_renderString (chars : List StringChar) (rest : Bytes) :
    Separated blankBytes (renderString chars ++ rest) := by
  change (34 : UInt8) ∉ blankBytes
  decide

theorem separated_renderBlanks (blanks : Blanks) {rest : Bytes}
    (hrest : Separated numberBytes rest) :
    Separated numberBytes (renderBlanks blanks ++ rest) := by
  cases blanks with
  | nil => exact hrest
  | cons blank blanks =>
      change blank.byte ∉ numberBytes
      cases blank <;> decide

/-- What the first byte of a value tells about it. -/
inductive Kind where
  | null
  | boolean (value : Bool)
  | number
  | string
  | array
  | object
  deriving DecidableEq

def Kind.ofByte (b : UInt8) : Kind :=
  if b = 110 then .null
  else if b = 116 then .boolean true
  else if b = 102 then .boolean false
  else if b = 34 then .string
  else if b = 91 then .array
  else if b = 123 then .object
  else .number

namespace Value

def kind : Value Blanks → Kind
  | .null => .null
  | .boolean value => .boolean value
  | .number _ => .number
  | .string _ => .string
  | .emptyArray _ | .array _ => .array
  | .emptyObject _ | .object _ => .object

theorem render_eq_cons (value : Value Blanks) :
    ∃ b bytes, value.render = b :: bytes ∧ b ∉ blankBytes ++ [93, 125] ∧
      Kind.ofByte b = value.kind := by
  cases value with
  | null => exact ⟨110, _, rfl, by decide, rfl⟩
  | boolean value =>
      cases value with
      | false => exact ⟨102, _, rfl, by decide, rfl⟩
      | true => exact ⟨116, _, rfl, by decide, rfl⟩
  | number literal =>
      obtain ⟨b, bytes, hrender⟩ := List.exists_cons_of_ne_nil literal.render_ne_nil
      have hmem : b ∈ numberBytes := literal.render_subset (by simp [hrender])
      have hbytes : ∀ b ∈ numberBytes,
          b ∉ blankBytes ++ [93, 125] ∧ Kind.ofByte b = .number :=
        forall_mem_of_all (by decide)
      exact ⟨b, bytes, hrender, hbytes b hmem⟩
  | string chars => exact ⟨34, _, rfl, by decide, rfl⟩
  | emptyArray inside => exact ⟨91, _, rfl, by decide, rfl⟩
  | array elements => exact ⟨91, _, rfl, by decide, rfl⟩
  | emptyObject inside => exact ⟨123, _, rfl, by decide, rfl⟩
  | object members => exact ⟨123, _, rfl, by decide, rfl⟩

theorem kind_eq_of_render {first second : Value Blanks} {rest rest' : Bytes}
    (h : first.render ++ rest = second.render ++ rest') : first.kind = second.kind := by
  obtain ⟨b, bytes, hfirst, -, hkind⟩ := first.render_eq_cons
  obtain ⟨b', bytes', hsecond, -, hkind'⟩ := second.render_eq_cons
  rw [hfirst, hsecond, List.cons_append, List.cons_append, List.cons.injEq] at h
  rw [← hkind, ← hkind', h.1]

theorem render_separated (value : Value Blanks) (rest : Bytes) :
    Separated (blankBytes ++ [93, 125]) (value.render ++ rest) := by
  obtain ⟨b, bytes, hrender, hb, -⟩ := value.render_eq_cons
  rw [hrender]
  exact hb

end Value

theorem Elements.ne_empty (elements : Elements Blanks) (inside : Blanks)
    (rest rest' : Bytes) : renderBlanks inside ++ 93 :: rest ≠ elements.render ++ rest' := by
  obtain ⟨before, value, tail, hrender⟩ : ∃ before, ∃ value : Value Blanks, ∃ tail,
      elements.render = renderBlanks before ++ (value.render ++ tail) := by
    cases elements with
    | last before value after => exact ⟨before, value, _, rfl⟩
    | next before value after others => exact ⟨before, value, _, rfl⟩
  intro h
  rw [hrender, List.append_assoc, List.append_assoc] at h
  have hvalue := value.render_separated (tail ++ rest')
  have hclosing : Separated blankBytes (93 :: rest) :=
    show (93 : UInt8) ∉ blankBytes by decide
  have hstart := renderBlanks_append_inj hclosing (hvalue.mono (by simp)) h
  rw [← hstart] at hvalue
  exact absurd (by decide : (93 : UInt8) ∈ blankBytes ++ [93, 125]) hvalue

theorem Members.ne_empty (members : Members Blanks) (inside : Blanks)
    (rest rest' : Bytes) : renderBlanks inside ++ 125 :: rest ≠ members.render ++ rest' := by
  obtain ⟨before, key, tail, hrender⟩ : ∃ before key tail,
      members.render = renderBlanks before ++ (renderString key ++ tail) := by
    cases members with
    | last before key => exact ⟨before, key, _, rfl⟩
    | next before key => exact ⟨before, key, _, rfl⟩
  intro h
  rw [hrender, List.append_assoc, List.append_assoc] at h
  have hclosing : Separated blankBytes (125 :: rest) :=
    show (125 : UInt8) ∉ blankBytes by decide
  have hstart := renderBlanks_append_inj hclosing (separated_renderString key _) h
  simp [renderString] at hstart

theorem name_append_inj {beforeKey beforeKey' afterKey afterKey' : Blanks}
    {key key' : List StringChar} {rest rest' : Bytes}
    (h : renderBlanks beforeKey ++ (renderString key ++
        (renderBlanks afterKey ++ 58 :: rest)) =
      renderBlanks beforeKey' ++ (renderString key' ++
        (renderBlanks afterKey' ++ 58 :: rest'))) : key = key' ∧ rest = rest' := by
  have hkey := renderBlanks_append_inj (separated_renderString key _)
    (separated_renderString key' _) h
  obtain ⟨rfl, hcolon⟩ := renderString_append_inj hkey
  exact ⟨rfl, (renderBlanks_cons_inj (by decide) (by decide) hcolon).2⟩

theorem item_append_inj {value value' : Value Blanks} {before before' after after' : Blanks}
    {stop stop' : UInt8} {rest rest' : Bytes}
    (hstop : stop ∉ numberBytes ++ blankBytes) (hstop' : stop' ∉ numberBytes ++ blankBytes)
    (hvalue : ∀ {rest rest' : Bytes}, Separated numberBytes rest →
      Separated numberBytes rest' → value.render ++ rest = value'.render ++ rest' →
        value.content = value'.content ∧ rest = rest')
    (h : renderBlanks before ++ (value.render ++ (renderBlanks after ++ stop :: rest)) =
      renderBlanks before' ++
        (value'.render ++ (renderBlanks after' ++ stop' :: rest'))) :
    value.content = value'.content ∧ stop = stop' ∧ rest = rest' := by
  simp only [List.mem_append, not_or] at hstop hstop'
  have hstart := renderBlanks_append_inj ((value.render_separated _).mono (by simp))
    ((value'.render_separated _).mono (by simp)) h
  have hrest : Separated numberBytes (stop :: rest) := hstop.1
  have hrest' : Separated numberBytes (stop' :: rest') := hstop'.1
  obtain ⟨hcontent, hafter⟩ := hvalue (separated_renderBlanks after hrest)
    (separated_renderBlanks after' hrest') hstart
  exact ⟨hcontent, renderBlanks_cons_inj hstop.2 hstop'.2 hafter⟩

mutual

theorem Value.render_append_inj : (first second : Value Blanks) → {rest rest' : Bytes} →
    Separated numberBytes rest → Separated numberBytes rest' →
    first.render ++ rest = second.render ++ rest' →
    first.content = second.content ∧ rest = rest'
  | .null, second, rest, rest', hrest, hrest', h => by
      have hkind := Value.kind_eq_of_render h
      cases second <;> simp_all [Value.kind, Value.render, Value.content]
  | .boolean value, second, rest, rest', hrest, hrest', h => by
      have hkind := Value.kind_eq_of_render h
      cases second <;> simp_all [Value.kind, Value.render, Value.content]
  | .number literal, second, rest, rest', hrest, hrest', h => by
      have hkind := Value.kind_eq_of_render h
      cases second with
      | number literal' =>
          obtain ⟨rfl, htail⟩ := Number.render_append_inj hrest hrest' h
          exact ⟨rfl, htail⟩
      | _ => simp [Value.kind] at hkind
  | .string chars, second, rest, rest', hrest, hrest', h => by
      have hkind := Value.kind_eq_of_render h
      cases second with
      | string chars' =>
          obtain ⟨rfl, htail⟩ := renderString_append_inj h
          exact ⟨rfl, htail⟩
      | _ => simp [Value.kind] at hkind
  | .emptyArray inside, second, rest, rest', hrest, hrest', h => by
      have hkind := Value.kind_eq_of_render h
      cases second with
      | emptyArray inside' =>
          have hbody : renderBlanks inside ++ 93 :: rest =
              renderBlanks inside' ++ 93 :: rest' := by simpa [Value.render] using h
          exact ⟨rfl, (renderBlanks_cons_inj (by decide) (by decide) hbody).2⟩
      | array elements =>
          refine absurd ?_ (elements.ne_empty inside rest (93 :: rest'))
          simpa [Value.render] using h
      | _ => simp [Value.kind] at hkind
  | .array elements, second, rest, rest', hrest, hrest', h => by
      have hkind := Value.kind_eq_of_render h
      cases second with
      | emptyArray inside =>
          refine absurd ?_ (elements.ne_empty inside rest' (93 :: rest))
          simpa [Value.render] using h.symm
      | array elements' =>
          have hbody : elements.render ++ 93 :: rest = elements'.render ++ 93 :: rest' := by
            simpa [Value.render] using h
          obtain ⟨hcontent, htail⟩ := Elements.render_append_inj elements elements' hbody
          exact ⟨congrArg Value.array hcontent, htail⟩
      | _ => simp [Value.kind] at hkind
  | .emptyObject inside, second, rest, rest', hrest, hrest', h => by
      have hkind := Value.kind_eq_of_render h
      cases second with
      | emptyObject inside' =>
          have hbody : renderBlanks inside ++ 125 :: rest =
              renderBlanks inside' ++ 125 :: rest' := by simpa [Value.render] using h
          exact ⟨rfl, (renderBlanks_cons_inj (by decide) (by decide) hbody).2⟩
      | object members =>
          refine absurd ?_ (members.ne_empty inside rest (125 :: rest'))
          simpa [Value.render] using h
      | _ => simp [Value.kind] at hkind
  | .object members, second, rest, rest', hrest, hrest', h => by
      have hkind := Value.kind_eq_of_render h
      cases second with
      | emptyObject inside =>
          refine absurd ?_ (members.ne_empty inside rest' (125 :: rest))
          simpa [Value.render] using h.symm
      | object members' =>
          have hbody : members.render ++ 125 :: rest = members'.render ++ 125 :: rest' := by
            simpa [Value.render] using h
          obtain ⟨hcontent, htail⟩ := Members.render_append_inj members members' hbody
          exact ⟨congrArg Value.object hcontent, htail⟩
      | _ => simp [Value.kind] at hkind

theorem Elements.render_append_inj : (first second : Elements Blanks) →
    {rest rest' : Bytes} → first.render ++ 93 :: rest = second.render ++ 93 :: rest' →
    first.content = second.content ∧ rest = rest'
  | .last before value after, second, rest, rest', h => by
      cases second with
      | last before' value' after' =>
          simp only [Elements.render, List.append_assoc] at h
          obtain ⟨hcontent, -, htail⟩ := item_append_inj (by decide) (by decide)
            (value.render_append_inj value') h
          exact ⟨by simp [Elements.content, hcontent], htail⟩
      | next before' value' after' others' =>
          simp only [Elements.render, List.append_assoc, List.cons_append] at h
          obtain ⟨-, hstop, -⟩ := item_append_inj (by decide) (by decide)
            (value.render_append_inj value') h
          exact absurd hstop (by decide)
  | .next before value after others, second, rest, rest', h => by
      cases second with
      | last before' value' after' =>
          simp only [Elements.render, List.append_assoc, List.cons_append] at h
          obtain ⟨-, hstop, -⟩ := item_append_inj (by decide) (by decide)
            (value.render_append_inj value') h
          exact absurd hstop (by decide)
      | next before' value' after' others' =>
          simp only [Elements.render, List.append_assoc, List.cons_append] at h
          obtain ⟨hcontent, -, hothers⟩ := item_append_inj (by decide) (by decide)
            (value.render_append_inj value') h
          obtain ⟨hcontents, htail⟩ := others.render_append_inj others' hothers
          exact ⟨by simp [Elements.content, hcontent, hcontents], htail⟩

theorem Members.render_append_inj : (first second : Members Blanks) →
    {rest rest' : Bytes} → first.render ++ 125 :: rest = second.render ++ 125 :: rest' →
    first.content = second.content ∧ rest = rest'
  | .last beforeKey key afterKey beforeValue value afterValue, second, rest, rest', h => by
      cases second with
      | last beforeKey' key' afterKey' beforeValue' value' afterValue' =>
          simp only [Members.render, List.append_assoc, List.cons_append] at h
          obtain ⟨rfl, hvalue⟩ := name_append_inj h
          obtain ⟨hcontent, -, htail⟩ := item_append_inj (by decide) (by decide)
            (value.render_append_inj value') hvalue
          exact ⟨by simp [Members.content, hcontent], htail⟩
      | next beforeKey' key' afterKey' beforeValue' value' afterValue' others' =>
          simp only [Members.render, List.append_assoc, List.cons_append] at h
          obtain ⟨rfl, hvalue⟩ := name_append_inj h
          obtain ⟨-, hstop, -⟩ := item_append_inj (by decide) (by decide)
            (value.render_append_inj value') hvalue
          exact absurd hstop (by decide)
  | .next beforeKey key afterKey beforeValue value afterValue others, second, rest, rest',
      h => by
      cases second with
      | last beforeKey' key' afterKey' beforeValue' value' afterValue' =>
          simp only [Members.render, List.append_assoc, List.cons_append] at h
          obtain ⟨rfl, hvalue⟩ := name_append_inj h
          obtain ⟨-, hstop, -⟩ := item_append_inj (by decide) (by decide)
            (value.render_append_inj value') hvalue
          exact absurd hstop (by decide)
      | next beforeKey' key' afterKey' beforeValue' value' afterValue' others' =>
          simp only [Members.render, List.append_assoc, List.cons_append] at h
          obtain ⟨rfl, hvalue⟩ := name_append_inj h
          obtain ⟨hcontent, -, hothers⟩ := item_append_inj (by decide) (by decide)
            (value.render_append_inj value') hvalue
          obtain ⟨hcontents, htail⟩ := others.render_append_inj others' hothers
          exact ⟨by simp [Members.content, hcontent, hcontents], htail⟩

end

/-- Two ways to read a text as a value and what follows it are the same reading. -/
theorem Text.render_append_inj {before before' : Blanks} {value value' : Value Blanks}
    {rest rest' : Bytes} (hrest : Separated numberBytes rest)
    (hrest' : Separated numberBytes rest')
    (h : renderBlanks before ++ (value.render ++ rest) =
      renderBlanks before' ++ (value'.render ++ rest')) :
    value.content = value'.content ∧ rest = rest' := by
  have hvalue := renderBlanks_append_inj ((value.render_separated rest).mono (by simp))
    ((value'.render_separated rest').mono (by simp)) h
  exact value.render_append_inj value' hrest hrest' hvalue

theorem separated_trailing (blanks : Blanks) :
    Separated numberBytes (renderBlanks blanks) := by
  have hblanks := separated_renderBlanks blanks (show Separated numberBytes [] from trivial)
  rwa [List.append_nil] at hblanks

theorem IsObjectText.unique {bytes : Bytes} {members members' : List Member}
    (h : IsObjectText bytes members) (h' : IsObjectText bytes members') :
    members = members' := by
  obtain ⟨text, hrender, hmembers⟩ := h
  obtain ⟨text', hrender', hmembers'⟩ := h'
  obtain ⟨hcontent, -⟩ := Text.render_append_inj (separated_trailing text.after)
    (separated_trailing text'.after) (hrender.trans hrender'.symm)
  rw [hcontent, hmembers'] at hmembers
  exact (Option.some.inj hmembers).symm

/-- A value that something other than blanks follows does not begin a text. -/
theorem not_isObjectText_of_trailing {before : Blanks} {value : Value Blanks}
    {rest : Bytes} (hrest : Separated numberBytes rest)
    (hblank : ∀ blanks, rest ≠ renderBlanks blanks) (members : List Member) :
    ¬ IsObjectText (renderBlanks before ++ (value.render ++ rest)) members := by
  rintro ⟨text, hrender, -⟩
  obtain ⟨-, htail⟩ := Text.render_append_inj (separated_trailing text.after) hrest hrender
  exact hblank text.after htail.symm

end RinhaBackend.Foundation.Json
