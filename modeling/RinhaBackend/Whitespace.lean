import RinhaBackend.Substitution

/-!
# Insignificant whitespace

A payment may be written with blanks between its tokens.  `PaymentText` is such a
text, with its blanks; two texts of one payment differ in nothing else.  The
service looks at bytes: it takes the last one off and searches for a key with an
adjacent colon.  This module determines for which pairs of texts it cannot tell
one from the other in any run.
-/

namespace RinhaBackend

open Foundation
open Foundation.Json

/-! ## Payments with blanks -/

structure MemberGaps where
  beforeKey : Blanks
  afterKey : Blanks
  beforeValue : Blanks
  afterValue : Blanks

structure PaymentText where
  payment : PaymentObject
  before : Blanks
  correlationGaps : MemberGaps
  amountGaps : MemberGaps
  after : Blanks

def PaymentObject.memberList (payment : PaymentObject) : List Member :=
  let correlation : Member := (correlationIdName, .string payment.correlationId)
  let amount : Member := (amountName, .number payment.amount)
  if payment.amountFirst then [amount, correlation] else [correlation, amount]

namespace MemberGaps

def last (gaps : MemberGaps) (key : List StringChar) (value : Value Blanks) :
    Members Blanks :=
  .last gaps.beforeKey key gaps.afterKey gaps.beforeValue value gaps.afterValue

def next (gaps : MemberGaps) (key : List StringChar) (value : Value Blanks)
    (rest : Members Blanks) : Members Blanks :=
  .next gaps.beforeKey key gaps.afterKey gaps.beforeValue value gaps.afterValue rest

/-- A member up to the end of its value. -/
def member (gaps : MemberGaps) (key : List StringChar) (value : Value Blanks) : Bytes :=
  renderBlanks gaps.beforeKey ++ (renderString key ++ (renderBlanks gaps.afterKey ++
    58 :: (renderBlanks gaps.beforeValue ++ value.render)))

theorem render_last (gaps : MemberGaps) (key : List StringChar) (value : Value Blanks) :
    (gaps.last key value).render =
      gaps.member key value ++ renderBlanks gaps.afterValue := by
  simp [last, member, Members.render]

theorem render_next (gaps : MemberGaps) (key : List StringChar) (value : Value Blanks)
    (rest : Members Blanks) :
    (gaps.next key value rest).render =
      gaps.member key value ++ (renderBlanks gaps.afterValue ++ 44 :: rest.render) := by
  simp [next, member, Members.render]

theorem exists_of_content_list {members : Members Blanks} {first second : Member}
    (h : members.content.list = [first, second]) :
    ∃ (gaps gaps' : MemberGaps) (value value' : Value Blanks),
      members = gaps.next first.1 value (gaps'.last second.1 value') ∧
        value.content = first.2 ∧ value'.content = second.2 := by
  cases members with
  | last => simp [Members.content, Members.list] at h
  | next beforeKey key afterKey beforeValue value afterValue rest =>
      cases rest with
      | next => simp [Members.content, Members.list, Members.list_ne_nil] at h
      | last beforeKey' key' afterKey' beforeValue' value' afterValue' =>
          simp only [Members.content, Members.list, List.cons.injEq, and_true] at h
          obtain ⟨rfl, rfl⟩ := h
          exact ⟨⟨beforeKey, afterKey, beforeValue, afterValue⟩,
            ⟨beforeKey', afterKey', beforeValue', afterValue'⟩, value, value', rfl, rfl, rfl⟩

end MemberGaps

theorem eq_string_of_content {value : Value Blanks} {chars : List StringChar}
    (h : value.content = .string chars) : value = .string chars := by
  cases value with
  | string => simpa [Value.content] using h
  | _ => simp [Value.content] at h

theorem eq_number_of_content {value : Value Blanks} {literal : Number}
    (h : value.content = .number literal) : value = .number literal := by
  cases value with
  | number => simpa [Value.content] using h
  | _ => simp [Value.content] at h

namespace PaymentText

def members (text : PaymentText) : Members Blanks :=
  let correlationId : Value Blanks := .string text.payment.correlationId
  let amount : Value Blanks := .number text.payment.amount
  if text.payment.amountFirst then
    text.amountGaps.next amountName amount
      (text.correlationGaps.last correlationIdName correlationId)
  else
    text.correlationGaps.next correlationIdName correlationId
      (text.amountGaps.last amountName amount)

def text (text : PaymentText) : Text := ⟨text.before, .object text.members, text.after⟩

def render (text : PaymentText) : Bytes := text.text.render

theorem render_eq (text : PaymentText) :
    text.render = renderBlanks text.before ++
      ((Value.object text.members).render ++ renderBlanks text.after) := rfl

theorem render_of_after (text : PaymentText) (hafter : text.after = []) :
    text.render = renderBlanks text.before ++ 123 :: (text.members.render ++ [125]) := by
  rw [render_eq, hafter, Value.render, renderBlanks_nil, List.append_nil]

theorem render_ne_nil (text : PaymentText) : text.render ≠ [] := by
  simp [render_eq, Value.render]

theorem members_content (text : PaymentText) :
    text.members.content.list = text.payment.memberList := by
  unfold members PaymentObject.memberList
  split_ifs <;> rfl

theorem render_isObjectText (text : PaymentText) :
    IsObjectText text.render text.payment.memberList :=
  ⟨text.text, rfl, congrArg some text.members_content⟩

/-- The text of a payment without blanks. -/
def compact (payment : PaymentObject) : PaymentText :=
  ⟨payment, [], ⟨[], [], [], []⟩, ⟨[], [], [], []⟩, []⟩

theorem compact_render (payment : PaymentObject) :
    (compact payment).render = payment.render := by
  have hcorrelation : renderString correlationIdName ++ [58] = ascii "\"correlationId\":" := by
    decide
  have hamount : renderString amountName ++ [58] = amountKey := by decide
  rw [PaymentObject.render, PaymentObject.members, PaymentObject.correlationMember,
    PaymentObject.amountMember, ← hcorrelation, ← hamount, render_eq, Value.render, members]
  cases horder : payment.amountFirst with
  | true | false =>
      simp [compact, horder, MemberGaps.next, MemberGaps.last, Members.render, Value.render]

/-- Every JSON text of a payment is one of these texts. -/
theorem exists_of_isObjectText {body : Bytes} {payment : PaymentObject}
    (h : IsObjectText body payment.memberList) :
    ∃ text : PaymentText, text.payment = payment ∧ text.render = body := by
  obtain ⟨⟨before, value, after⟩, rfl, hmembers⟩ := h
  cases value with
  | object members =>
      simp only [Value.content, Value.members, Option.some.injEq] at hmembers
      cases horder : payment.amountFirst with
      | true =>
          simp only [PaymentObject.memberList, horder, if_true] at hmembers
          obtain ⟨gaps, gaps', value, value', rfl, hvalue, hvalue'⟩ :=
            MemberGaps.exists_of_content_list hmembers
          refine ⟨⟨payment, before, gaps', gaps, after⟩, rfl, ?_⟩
          rw [render, text, PaymentText.members, eq_number_of_content hvalue,
            eq_string_of_content hvalue']
          simp only [horder, if_true]
      | false =>
          simp only [PaymentObject.memberList, horder, Bool.false_eq_true, if_false]
            at hmembers
          obtain ⟨gaps, gaps', value, value', rfl, hvalue, hvalue'⟩ :=
            MemberGaps.exists_of_content_list hmembers
          refine ⟨⟨payment, before, gaps, gaps', after⟩, rfl, ?_⟩
          rw [render, text, PaymentText.members, eq_string_of_content hvalue,
            eq_number_of_content hvalue']
          simp only [horder, Bool.false_eq_true, if_false]
  | emptyObject =>
      simp only [Value.content, Value.members, PaymentObject.memberList] at hmembers
      split_ifs at hmembers <;> simp at hmembers
  | _ => simp [Value.content, Value.members] at hmembers

/-! ## The payload as a text -/

theorem stampable (text : PaymentText) (hafter : text.after = []) :
    StampableText text.render text.payment.memberList where
  isObjectText := text.render_isObjectText
  members_ne := by
    unfold PaymentObject.memberList
    split_ifs <;> simp
  closed := by
    rw [text.render_of_after hafter, ← List.cons_append, ← List.append_assoc,
      List.getLast?_concat]

theorem not_isObjectText_stamped (text : PaymentText) (hafter : text.after ≠ [])
    (requestedAt : Bytes) (members : List Member) :
    ¬ IsObjectText (stamped text.render requestedAt) members := by
  obtain ⟨blanks, blank, hblanks⟩ : ∃ blanks blank, text.after = blanks ++ [blank] :=
    ⟨_, _, (List.dropLast_append_getLast hafter).symm⟩
  have hstamped : stamped text.render requestedAt =
      renderBlanks text.before ++ ((Value.object text.members).render ++
        (renderBlanks blanks ++ (requestedAtKey ++ (requestedAt ++ requestedAtEnd)))) := by
    have hlast : renderBlanks [blank] = [blank.byte] := rfl
    rw [stamped, render_eq, hblanks, renderBlanks_append, hlast, ← List.append_assoc,
      ← List.append_assoc, List.dropLast_concat]
    simp only [List.append_assoc]
  rw [hstamped]
  refine not_isObjectText_of_trailing (separated_renderBlanks blanks ?_) ?_ members
  · rw [requestedAtKey_eq]
    change (44 : UInt8) ∉ numberBytes
    decide
  · intro others hothers
    have hcomma : (44 : UInt8) ∈ renderBlanks others := by
      rw [← hothers, requestedAtKey_eq]
      simp
    exact absurd (renderBlanks_subset others hcomma) (by decide)

/-! ## The amount in the payload -/

/-- The correlation id and the comma after it, on one side of the amount. -/
def correlationPart (text : PaymentText) (amountFirst : Bool) : Bytes :=
  if text.payment.amountFirst = amountFirst then
    text.correlationGaps.member correlationIdName (.string text.payment.correlationId) ++
      (renderBlanks text.correlationGaps.afterValue ++ [44])
  else []

def beforeAmount (text : PaymentText) : Bytes :=
  renderBlanks text.before ++
    123 :: (text.correlationPart false ++ renderBlanks text.amountGaps.beforeKey)

/-- The bytes between the colon of the amount and the comma after it. -/
def amountStretch (text : PaymentText) : Bytes :=
  renderBlanks text.amountGaps.beforeValue ++
    (text.payment.amount.render ++ renderBlanks text.amountGaps.afterValue)

def afterAmount (text : PaymentText) (requestedAt : Bytes) : Bytes :=
  text.correlationPart true ++
    (ascii "\"requestedAt\":\"" ++ (requestedAt ++ requestedAtEnd))

theorem stamped_eq (text : PaymentText) (hafter : text.after = []) (requestedAt : Bytes) :
    stamped text.render requestedAt =
      text.beforeAmount ++ (renderString amountName ++
        (renderBlanks text.amountGaps.afterKey ++
          58 :: (text.amountStretch ++ 44 :: text.afterAmount requestedAt))) := by
  rw [text.render_of_after hafter, stamped_object, requestedAtKey_eq]
  unfold members beforeAmount afterAmount correlationPart amountStretch
  cases horder : text.payment.amountFirst with
  | true =>
      simp only [if_true, MemberGaps.render_next, MemberGaps.render_last,
        MemberGaps.member, Value.render]
      simp
  | false =>
      simp only [if_true, Bool.false_eq_true, if_false, MemberGaps.render_next,
        MemberGaps.render_last, MemberGaps.member, Value.render]
      simp

theorem quote_not_mem_renderBlanks (blanks : Blanks) : (34 : UInt8) ∉ renderBlanks blanks :=
  fun hmem => absurd (renderBlanks_subset blanks hmem) (by decide)

theorem skips_renderBlanks (blanks : Blanks) (after : Bytes) :
    Skips amountKey (renderBlanks blanks) after :=
  skips_of_not_mem (quote_not_mem_renderBlanks blanks)

theorem skips_string (chars : List StringChar) (blanks : Blanks) {stop : UInt8}
    (hstop : stop ∉ ascii "amount\":") (after : Bytes) :
    Skips amountKey (renderString chars) (renderBlanks blanks ++ stop :: after) := by
  have hskips : ∀ next, next ∉ ascii "amount\":" → ∀ rest,
      Skips (34 :: (ascii "amount" ++ [34, 58])) (renderString chars) (next :: rest) :=
    fun next hnext => skips_renderString (by decide) (by decide) hnext chars
  cases blanks with
  | nil => exact hskips stop hstop after
  | cons blank blanks =>
      have hblank : blank.byte ∉ ascii "amount\":" := by cases blank <;> decide
      exact hskips blank.byte hblank _

theorem skips_amountName {blanks : Blanks} (hblanks : blanks ≠ []) (after : Bytes) :
    Skips amountKey (renderString amountName) (renderBlanks blanks ++ after) := by
  obtain ⟨blank, blanks, rfl⟩ := List.exists_cons_of_ne_nil hblanks
  have hblank : blank.byte ∉ ascii "amount\":" := by cases blank <;> decide
  exact skips_string amountName [] hblank (renderBlanks blanks ++ after)

theorem skips_correlationIdName (blanks : Blanks) (after : Bytes) :
    Skips amountKey (renderString correlationIdName) (renderBlanks blanks ++ 58 :: after) := by
  have hname : renderString correlationIdName = ascii "\"correlationId\"" := by decide
  rw [hname]
  cases blanks with
  | nil => simp [Skips, amountKey, ascii, List.cons_prefix_cons]
  | cons blank blanks =>
      cases blank <;>
        simp [Skips, amountKey, ascii, List.cons_prefix_cons, renderBlanks, Blank.byte]

theorem skips_byte {b : UInt8} (hb : b ≠ 34) (after : Bytes) : Skips amountKey [b] after :=
  skips_of_not_mem fun hmem => hb (List.mem_singleton.mp hmem).symm

theorem skips_member (gaps : MemberGaps) {key : List StringChar} {value : Value Blanks}
    {after : Bytes}
    (hkey : ∀ rest, Skips amountKey (renderString key)
      (renderBlanks gaps.afterKey ++ 58 :: rest))
    (hvalue : Skips amountKey value.render after) :
    Skips amountKey (gaps.member key value) after := by
  have hcolon : Skips amountKey ([58] ++ (renderBlanks gaps.beforeValue ++ value.render))
      after :=
    skips_append (skips_byte (by decide) _)
      (skips_append (skips_renderBlanks gaps.beforeValue _) hvalue)
  refine skips_append (skips_renderBlanks gaps.beforeKey _) (skips_append ?_
    (skips_append (skips_renderBlanks gaps.afterKey _) hcolon))
  simpa only [List.append_assoc, List.cons_append] using hkey _

theorem skips_correlationPart (text : PaymentText) (amountFirst : Bool) (after : Bytes) :
    Skips amountKey (text.correlationPart amountFirst) after := by
  unfold correlationPart
  split_ifs
  · have hvalue := skips_string text.payment.correlationId text.correlationGaps.afterValue
      (show (44 : UInt8) ∉ ascii "amount\":" by decide) after
    refine skips_append (skips_member text.correlationGaps (skips_correlationIdName _) ?_)
      (skips_append (skips_renderBlanks _ _) (skips_byte (by decide) after))
    simpa only [Value.render, List.append_assoc, List.cons_append, List.nil_append]
      using hvalue
  · trivial

theorem skips_beforeAmount (text : PaymentText) (after : Bytes) :
    Skips amountKey text.beforeAmount after := by
  have hbrace : Skips amountKey
      ([123] ++ (text.correlationPart false ++ renderBlanks text.amountGaps.beforeKey))
      after :=
    skips_append (skips_byte (by decide) _)
      (skips_append (text.skips_correlationPart false _) (skips_renderBlanks _ after))
  exact skips_append (skips_renderBlanks text.before _) hbrace

theorem skips_afterAmount (text : PaymentText) {requestedAt : Bytes}
    (hplain : ∀ b ∈ requestedAt, PlainByte b) :
    Skips amountKey (text.afterAmount requestedAt) [] := by
  have hname : ∀ after, Skips amountKey (ascii "\"requestedAt\":") (34 :: after) := by
    intro after
    simp [Skips, amountKey, ascii, List.cons_prefix_cons]
  have hstring := skips_string (plainChars requestedAt hplain) []
    (show (125 : UInt8) ∉ ascii "amount\":" by decide) []
  rw [renderString, renderChars_plainChars] at hstring
  have hkey : ascii "\"requestedAt\":\"" = ascii "\"requestedAt\":" ++ [34] := by decide
  have hend : requestedAtEnd = [34, 125] := by decide
  have hstamp : ascii "\"requestedAt\":\"" ++ (requestedAt ++ requestedAtEnd) =
      ascii "\"requestedAt\":" ++ ((34 :: (requestedAt ++ [34])) ++ [125]) := by
    simp only [hkey, hend, List.append_assoc, List.cons_append, List.nil_append]
  rw [afterAmount, hstamp]
  exact skips_append (text.skips_correlationPart true _)
    (skips_append (hname _) (skips_append hstring (skips_byte (by decide) [])))

theorem amountStretch_stops (text : PaymentText) :
    ∀ b ∈ text.amountStretch, b ∉ ascii ",\x7d" := by
  have hblanks : ∀ blanks, ∀ b ∈ renderBlanks blanks, b ∉ ascii ",\x7d" := by
    intro blanks b hb
    have hbytes : ∀ b ∈ blankBytes, b ∉ ascii ",\x7d" := forall_mem_of_all (by decide)
    exact hbytes b (renderBlanks_subset blanks hb)
  intro b hb
  simp only [amountStretch, List.mem_append] at hb
  rcases hb with hb | hb | hb
  · exact hblanks _ b hb
  · exact number_stops _ b hb
  · exact hblanks _ b hb

theorem stod_amountStretch {α : Type} [Double α] (text : PaymentText) :
    (stod text.amountStretch : Option α) = stod text.payment.amount.render := by
  refine text.payment.amount.stod_spaced ?_ ?_ ?_
  · intro b hb
    have hbytes : ∀ b ∈ blankBytes, isSpace b = true := forall_mem_of_all (by decide)
    exact hbytes b (renderBlanks_subset _ hb)
  · have hnil : Separated numberBytes [] := trivial
    rw [← List.append_nil (renderBlanks _)]
    exact separated_renderBlanks text.amountGaps.afterValue hnil
  · cases text.amountGaps.afterValue with
    | nil => exact trivial
    | cons blank blanks =>
        change blank.byte ∉ ascii "Xx"
        cases blank <;> decide

theorem skips_stamped (text : PaymentText) (hafter : text.after = [])
    (hafterKey : text.amountGaps.afterKey ≠ []) {requestedAt : Bytes}
    (hplain : ∀ b ∈ requestedAt, PlainByte b) :
    Skips amountKey (stamped text.render requestedAt) [] := by
  have hstretch : (34 : UInt8) ∉ text.amountStretch := by
    have hnumber : (34 : UInt8) ∉ text.payment.amount.render := fun hmem =>
      absurd (text.payment.amount.render_subset hmem) (by decide)
    simp [amountStretch, quote_not_mem_renderBlanks, hnumber]
  have hrest : Skips amountKey ([58] ++ (text.amountStretch ++
      ([44] ++ text.afterAmount requestedAt))) [] :=
    skips_append (skips_byte (by decide) _)
      (skips_append (skips_of_not_mem hstretch)
        (skips_append (skips_byte (by decide) _) (text.skips_afterAmount hplain)))
  rw [text.stamped_eq hafter]
  refine skips_append (text.skips_beforeAmount _) (skips_append ?_
    (skips_append (skips_renderBlanks _ _) hrest))
  simpa only [List.append_nil] using skips_amountName hafterKey _

theorem extractAmount_stamped {α : Type} [Double α] (text : PaymentText)
    (hafter : text.after = []) {requestedAt : Bytes}
    (hplain : ∀ b ∈ requestedAt, PlainByte b) :
    (extractAmount (stamped text.render requestedAt) : Option α) =
      if text.amountGaps.afterKey = [] then stod text.payment.amount.render
      else some Double.zero := by
  split_ifs with hafterKey
  · have hkey : renderString amountName ++ [58] = amountKey := by decide
    have htext : amountText (text.beforeAmount ++
        (amountKey ++ (text.amountStretch ++ 44 :: text.afterAmount requestedAt))) =
          some text.amountStretch :=
      amountText_of_skips (text.skips_beforeAmount _) text.amountStretch_stops (by decide)
    rw [text.stamped_eq hafter, hafterKey, renderBlanks_nil, List.nil_append,
      ← List.singleton_append, ← List.append_assoc (renderString amountName), hkey,
      extractAmount, htext]
    exact text.stod_amountStretch
  · have hfind : find amountKey (stamped text.render requestedAt) = none :=
      find_eq_none_of_skips (by decide) (text.skips_stamped hafter hafterKey hplain)
    simp [extractAmount, amountText, hfind]

end PaymentText

/-! ## Runs that differ in one body -/

variable {α : Type} [Double α]

def Action.replace (first second : Bytes) : Action α → Action α
  | .post body => .post (if body = first then second else body)
  | .run tid event => .run tid event

/-- Attempts in two runs; for a POST that brought `body` they carry one object. -/
structure SentAlike (state : Service α) (body : Bytes) (entry entry' : Nat × Attempt α) :
    Prop where
  serial : entry'.1 = entry.1
  processor : entry'.2.processor = entry.2.processor
  reply : entry'.2.reply = entry.2.reply
  texts : ∀ payment, (payment, body) ∈ state.history.accepted → payment.serial = entry.1 →
    ∃ members, IsObjectText entry.2.payload members ∧ IsObjectText entry'.2.payload members

structure StoredAlike (entry entry' : StoreEntry α) : Prop where
  serial : entry'.payment.serial = entry.payment.serial
  processor : entry'.processor = entry.processor
  ts : entry'.draft.ts = entry.draft.ts
  amount : entry'.amount = entry.amount

structure SameEffect (body : Bytes) (state state' : Service α) : Prop where
  attempts : List.Forall₂ (SentAlike state body) state.history.attempts
    state'.history.attempts
  stored : List.Forall₂ StoredAlike state.history.stored state'.history.stored
  ledger : state'.ledger = state.ledger
  terminated : state'.terminated = state.terminated

/--
Posting `second` wherever a run posts `first`, with the same clock readings and the
same replies, has the same effect.
-/
def Indistinguishable (α : Type) [Double α] (first second : Bytes) : Prop :=
  ∀ (config : Config α) (processedStart : UInt64) (actions : List (Action α))
    (state : Service α),
    execute (Service.step config) (Service.initial config processedStart) actions =
      some state →
    ∃ state', execute (Service.step config) (Service.initial config processedStart)
        (actions.map (Action.replace first second)) = some state' ∧
      SameEffect first state state'

/-- One body, posted, fetched, sent at clock reading `now` and answered 200. -/
def deliver (α : Type) [Double α] (now : Nat) (body : Bytes) : List (Action α) :=
  postAndFetch α body ++
    [.run 0 (.clock now), .run 0 .tau, .run 0 .tau,
      .run 0 (.reply (.ofCurl true 200 Double.zero)), .run 0 .tau, .run 0 .tau, .run 0 .tau]

/-- The payload of a body sent first by its thread. -/
def firstPayload (now : Nat) (body : Bytes) : Bytes :=
  stamped body (TimestampCache.initial.refresh now).requestedAt

theorem delivered {body : Bytes} {raw : RawPayment} (hraw : RawPayment.ofBody body = some raw)
    (hne : body ≠ []) (now : Nat) :
    ∃ state, execute (Service.step (singleWorker α))
        (Service.initial (singleWorker α) (.ofNat now)) (deliver α now body) =
          some state ∧
      state.history.accepted = [(⟨1, raw⟩, body)] ∧
      state.history.attempts.map (fun entry => (entry.1, entry.2.payload)) =
        [(1, firstPayload now body)] ∧
      state.history.stored.map StoreEntry.amount =
        (extractAmount (firstPayload now body)).toList := by
  have hjson := RawPayment.json_ofBody hraw
  have hpayload : createProcessorPayload .initial now body =
      some (firstPayload now body, UInt64.ofNat now, TimestampCache.initial.refresh now) := by
    rw [createProcessorPayload, if_neg hne]
    rfl
  have hindex : (Ledger.initial (.ofNat now) : Ledger α).storeIndex (.ofNat now) <
      processedCapacity := by
    simp [Ledger.storeIndex, Ledger.initial, processedCapacity]
  cases hamount : (extractAmount (firstPayload now body) : Option α) with
  | none | some =>
      simp [execute, deliver, postAndFetch, Service.step, Service.initial, singleWorker, hraw,
        Service.runThread, Service.accept, Service.fetch, Service.setPc, Service.setThread,
        Service.setQueue, WorkerQueue.initial, WorkerQueue.enqueue, WorkerQueue.fetchNext,
        callStep, hjson, hpayload, afterPrimary, Reply.ofCurl, Failover.initial,
        Service.finish, Service.terminate, Ledger.storeProcessed, hamount,
        Ledger.add_of_lt hindex]

theorem deliver_replace (now : Nat) (first second : Bytes) :
    (deliver α now first).map (Action.replace first second) = deliver α now second := by
  simp [deliver, postAndFetch, Action.replace]

omit [Double α] in
theorem SameEffect.amounts {body : Bytes} {state state' : Service α}
    (h : SameEffect body state state') :
    state.history.stored.map StoreEntry.amount =
      state'.history.stored.map StoreEntry.amount := by
  rw [← List.forall₂_eq_eq_eq, List.forall₂_map_left_iff, List.forall₂_map_right_iff]
  exact h.stored.imp fun _ _ hentry => hentry.amount.symm

theorem Indistinguishable.delivered {first second : Bytes}
    (h : Indistinguishable α first second) (hfirst : first.length ≤ 70)
    (hsecond : second.length ≤ 70) (hfirst_ne : first ≠ []) (hsecond_ne : second ≠ [])
    (now : Nat) :
    (∃ members, IsObjectText (firstPayload now first) members ∧
      IsObjectText (firstPayload now second) members) ∧
    (extractAmount (firstPayload now first) : Option α) =
      extractAmount (firstPayload now second) := by
  obtain ⟨raw, hraw⟩ :=
    Option.isSome_iff_exists.mp ((RawPayment.ofBody_isSome first).mpr hfirst)
  obtain ⟨raw', hraw'⟩ :=
    Option.isSome_iff_exists.mp ((RawPayment.ofBody_isSome second).mpr hsecond)
  obtain ⟨state, hrun, haccepted, hattempts, hstored⟩ :=
    RinhaBackend.delivered (α := α) hraw hfirst_ne now
  obtain ⟨state', hrun', -, hattempts', hstored'⟩ :=
    RinhaBackend.delivered (α := α) hraw' hsecond_ne now
  obtain ⟨final, hfinal, heffect⟩ := h _ _ _ _ hrun
  rw [deliver_replace, hrun'] at hfinal
  cases hfinal
  constructor
  · obtain ⟨entry, hentry, hpayload⟩ := List.map_eq_singleton_iff.mp hattempts
    obtain ⟨entry', hentry', hpayload'⟩ := List.map_eq_singleton_iff.mp hattempts'
    have hsent := heffect.attempts
    rw [hentry, hentry', List.forall₂_cons] at hsent
    simp only [Prod.mk.injEq] at hpayload hpayload'
    rw [← hpayload.2, ← hpayload'.2]
    exact hsent.1.texts ⟨1, raw⟩ (by simp [haccepted]) hpayload.1.symm
  · have hamounts := heffect.amounts
    rw [hstored, hstored'] at hamounts
    simpa using congrArg List.head? hamounts

/-! ## Which blanks matter -/

namespace PaymentText

theorem extractAmount_eq_iff {first second : PaymentText}
    (hpayment : second.payment = first.payment) (hfirst : first.after = [])
    (hsecond : second.after = []) {requestedAt : Bytes}
    (hplain : ∀ b ∈ requestedAt, PlainByte b) :
    (extractAmount (stamped first.render requestedAt) : Option α) =
        extractAmount (stamped second.render requestedAt) ↔
      (first.amountGaps.afterKey = [] ↔ second.amountGaps.afterKey = []) ∨
        (stod first.payment.amount.render : Option α) = some Double.zero := by
  rw [first.extractAmount_stamped hfirst hplain, second.extractAmount_stamped hsecond hplain,
    hpayment]
  by_cases hkey : first.amountGaps.afterKey = []
  · by_cases hkey' : second.amountGaps.afterKey = []
    · simp [hkey, hkey']
    · simp [hkey, hkey']
  · by_cases hkey' : second.amountGaps.afterKey = []
    · simp [hkey, hkey', eq_comm]
    · simp [hkey, hkey']

/-- The second text wherever the first is posted. -/
def substitution (first second : PaymentText) (hlength : second.render.length ≤ 70)
    (hamount : ∀ requestedAt : Bytes, (∀ b ∈ requestedAt, PlainByte b) →
      (extractAmount (stamped first.render requestedAt) : Option α) =
        extractAmount (stamped second.render requestedAt)) : Substitution α where
  body json := if json = first.render then second.render else json
  fits json hfits := by
    split_ifs
    · exact hlength
    · exact hfits
  eq_nil_iff json := by
    split_ifs with hjson
    · simp [hjson, render_ne_nil]
    · rfl
  amount json requestedAt hplain := by
    split_ifs with hjson
    · rw [hjson, hamount requestedAt hplain]
    · rfl

theorem indistinguishable_of_amount {first second : PaymentText}
    (hpayment : second.payment = first.payment) (hlength : second.render.length ≤ 70)
    (hfirst : first.after = []) (hsecond : second.after = [])
    (hamount : ∀ requestedAt : Bytes, (∀ b ∈ requestedAt, PlainByte b) →
      (extractAmount (stamped first.render requestedAt) : Option α) =
        extractAmount (stamped second.render requestedAt)) :
    Indistinguishable α first.render second.render := by
  intro config processedStart actions state hrun
  have hregular := Service.execute_regular hrun
  obtain ⟨state', hrun', h⟩ :=
    Substitution.execute_substitute (substitution first second hlength hamount) hrun
  have hreplace : actions.map (Action.substitute (substitution first second hlength hamount)) =
      actions.map (Action.replace first.render second.render) :=
    List.map_congr_left fun action _ => by cases action <;> rfl
  have hmembers : second.payment.memberList = first.payment.memberList := by rw [hpayment]
  refine ⟨state', hreplace ▸ hrun', ?_, ?_, h.ledger, h.terminated⟩
  · refine h.attempts.imp ?_
    rintro entry entry' ⟨hserial, payment, ⟨body, haccepted⟩, hentry, hprocessor, hreply,
      requestedAt, hplain, hpayload, hpayload'⟩
    refine ⟨hserial, hprocessor, hreply, fun posted hposted hsame => ?_⟩
    cases hregular.serial_inj haccepted hposted (hentry.trans hsame.symm)
    have hjson := RawPayment.json_ofBody (hregular.bodies _ hposted)
    dsimp only [substitution] at hpayload hpayload' hjson
    rw [hjson] at hpayload
    rw [hjson, if_pos rfl] at hpayload'
    rw [hpayload, hpayload']
    exact ⟨_, stamped_isObjectText (first.stampable hfirst) hplain,
      hmembers ▸ stamped_isObjectText (second.stampable hsecond) hplain⟩
  · exact h.stored.imp fun _ _ hentry =>
      ⟨hentry.payment.1, hentry.processor, hentry.ts, hentry.amount⟩

/--
The service cannot tell two texts of one payment apart exactly when no blank
follows either object, and blanks stand between the key and the colon of the amount
in both texts or in neither, or the amount is zero anyway.
-/
theorem indistinguishable_iff {first second : PaymentText}
    (hpayment : second.payment = first.payment) (hfirst : first.render.length ≤ 70)
    (hsecond : second.render.length ≤ 70) :
    Indistinguishable α first.render second.render ↔
      first.after = [] ∧ second.after = [] ∧
        ((first.amountGaps.afterKey = [] ↔ second.amountGaps.afterKey = []) ∨
          (stod first.payment.amount.render : Option α) = some Double.zero) := by
  constructor
  · intro h
    obtain ⟨⟨members, hobject, hobject'⟩, hamount⟩ :=
      h.delivered hfirst hsecond first.render_ne_nil second.render_ne_nil 1
    have hplain := TimestampCache.refresh_plain .initial 1 TimestampCache.initial_plain
    have hafter : first.after = [] := by
      by_contra hne
      exact first.not_isObjectText_stamped hne _ members hobject
    have hafter' : second.after = [] := by
      by_contra hne
      exact second.not_isObjectText_stamped hne _ members hobject'
    exact ⟨hafter, hafter', (extractAmount_eq_iff hpayment hafter hafter' hplain).mp hamount⟩
  · rintro ⟨hafter, hafter', hkeys⟩
    exact indistinguishable_of_amount hpayment hsecond hafter hafter' fun requestedAt hplain =>
      (extractAmount_eq_iff hpayment hafter hafter' hplain).mpr hkeys

def halfPayment : PaymentObject :=
  { Service.samplePayment with amount := ⟨false, .zero, some (lastDigit 5, []), none⟩ }

/-- Blanks everywhere but after the name of the amount and after the object. -/
def looseText : PaymentText :=
  ⟨halfPayment, [.lineFeed], ⟨[.tab], [.space], [.space], [.space]⟩,
    ⟨[.space], [], [.space], [.carriageReturn]⟩, []⟩

theorem loose_indistinguishable_from_compact :
    looseText.render =
        ascii "\n\x7b\t\"correlationId\" : \"\" , \"amount\": 0.5\r\x7d" ∧
      Indistinguishable Float looseText.render (compact halfPayment).render := by
  have hloose : looseText.render.length ≤ 70 := by decide
  have hcompact : (compact halfPayment).render.length ≤ 70 := by decide
  have hpayment : (compact halfPayment).payment = looseText.payment := rfl
  refine ⟨by decide, (indistinguishable_iff hpayment hloose hcompact).mpr ⟨rfl, rfl, ?_⟩⟩
  exact Or.inl Iff.rfl

/-- A blank between the name of the amount and its colon. -/
def spacedColon : PaymentText :=
  { compact halfPayment with amountGaps := ⟨[], [.space], [], []⟩ }

/-- A line feed after the object. -/
def endedLine : PaymentText := { compact halfPayment with after := [.lineFeed] }

/-- The body is answered 200 by the default processor ten seconds after the start. -/
def paidRun (body : Bytes) : Option (Service Float) :=
  execute (Service.step (singleWorker Float))
    (Service.initial (singleWorker Float) 1751328000)
    (deliver Float 1751328010 body)

theorem compact_paid : (paidRun (compact halfPayment).render).isSome = true := by
  decide +kernel

theorem spacedColon_paid : (paidRun spacedColon.render).isSome = true := by decide +kernel

/--
With a blank before its colon an amount of 0.5 is booked as 0, and with a line feed
after the object the payload is not a JSON text.
-/
theorem whitespace_changes_effect :
    (compact halfPayment).render =
        ascii "\x7b\"correlationId\":\"\",\"amount\":0.5\x7d" ∧
      spacedColon.render = ascii "\x7b\"correlationId\":\"\",\"amount\" :0.5\x7d" ∧
      endedLine.render = ascii "\x7b\"correlationId\":\"\",\"amount\":0.5\x7d\n" ∧
      Double.value (((paidRun (compact halfPayment).render).get compact_paid).ledger.bucket
        .default ⟨10, by decide⟩).totalAmount = some (1 / 2) ∧
      Double.value (((paidRun spacedColon.render).get spacedColon_paid).ledger.bucket
        .default ⟨10, by decide⟩).totalAmount = some 0 ∧
      ¬ Indistinguishable Float (compact halfPayment).render spacedColon.render ∧
      ¬ Indistinguishable Float (compact halfPayment).render endedLine.render := by
  refine ⟨by decide, by decide, by decide, by decide +kernel, by decide +kernel, ?_, ?_⟩
  · intro h
    have hamount := (h.delivered (by decide) (by decide) (render_ne_nil _)
      (render_ne_nil _) 1751328010).2
    have hvalue := congrArg (fun amount => amount.bind Double.value) hamount
    exact absurd hvalue (by decide +kernel)
  · intro h
    obtain ⟨members, -, hobject⟩ := (h.delivered (by decide) (by decide) (render_ne_nil _)
      (render_ne_nil _) 1751328010).1
    exact endedLine.not_isObjectText_stamped (by decide) _ members hobject

end PaymentText

end RinhaBackend
