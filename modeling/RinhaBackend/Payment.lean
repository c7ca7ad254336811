import RinhaBackend.Foundation.Json
import RinhaBackend.Timestamp

/-!
# Payments and payloads

A POST body is copied into a fixed-size `RawPayment`, rebuilt as a string by
`process`, stamped by `create_processor_payload` and searched for its amount by
`store_processed`.  `PaymentObject` describes the compact bodies that clients
send, and the last section shows what the payload of such a body carries.
-/

namespace RinhaBackend

open Foundation
open Foundation.Json

/-! ## Raw payments -/

structure RawPayment where
  data : Vector UInt8 70
  size : Nat
  size_le : size ≤ 70
  deriving DecidableEq

def RawPayment.empty : RawPayment := ⟨Vector.replicate 70 0, 0, by decide⟩

/--
The copy made by the POST handler.  The handler never looks at the length, so a
longer body makes `memcpy` leave `data`, which is undefined behaviour.
-/
def RawPayment.ofBody (body : Bytes) : Option RawPayment :=
  if h : body.length ≤ 70 then
    some ⟨Vector.ofFn fun index => body.getD index 0, body.length, h⟩
  else none

/-- The string that `process` rebuilds. -/
def RawPayment.json (r : RawPayment) : Bytes := r.data.toList.take r.size

theorem RawPayment.ofBody_isSome (body : Bytes) :
    (RawPayment.ofBody body).isSome = true ↔ body.length ≤ 70 := by
  unfold ofBody
  split_ifs with h <;> simp [h]

theorem RawPayment.json_ofBody {body : Bytes} {r : RawPayment}
    (h : RawPayment.ofBody body = some r) : r.json = body := by
  unfold ofBody at h
  split_ifs at h with hlength
  simp only [Option.some.injEq] at h
  subst h
  simp only [json]
  apply List.ext_getElem
  · simpa using hlength
  · intro index hleft hright
    simp [hright]

structure PostReply where
  status : Nat
  payment : Option RawPayment

def postPaymentHandler (body : Bytes) : PostReply :=
  { status := 202, payment := RawPayment.ofBody body }

/-! ## Finding the amount -/

def amountKey : Bytes := ascii "\"amount\":"

def amountText (json : Bytes) : Option Bytes := do
  let amountPos ← find amountKey json
  let startPos := amountPos + 9
  let endPos ← findFirstOf (ascii ",\x7d") json startPos
  some (substr json startPos (endPos - startPos))

/-- The amount of a payload, zero when no amount is found; `none` when `stod` throws. -/
def extractAmount {α : Type} [Double α] (json : Bytes) : Option α :=
  match amountText json with
  | none => some Double.zero
  | some text => stod text

/-! ## Compact payment objects -/

structure PaymentObject where
  correlationId : List StringChar
  amount : Number
  amountFirst : Bool

namespace PaymentObject

def correlationMember (payment : PaymentObject) : Bytes :=
  ascii "\"correlationId\":" ++ renderString payment.correlationId

def amountMember (payment : PaymentObject) : Bytes :=
  amountKey ++ payment.amount.render

def members (payment : PaymentObject) : Bytes :=
  if payment.amountFirst then
    payment.amountMember ++ 44 :: payment.correlationMember
  else payment.correlationMember ++ 44 :: payment.amountMember

def render (payment : PaymentObject) : Bytes :=
  123 :: (payment.members ++ [125])

theorem render_ne_nil (payment : PaymentObject) : payment.render ≠ [] := by
  simp [render]

end PaymentObject

def stampedPayload (members requestedAt : Bytes) : Bytes :=
  123 :: (members ++ (requestedAtKey ++ (requestedAt ++ requestedAtEnd)))

theorem requestedAtKey_eq : requestedAtKey = 44 :: ascii "\"requestedAt\":\"" := by decide

/-- The payload's last member is a `requestedAt` that denotes `second`. -/
def CarriesSecond (payload : Bytes) (second : Nat) : Prop :=
  ∃ members requestedAt, payload = stampedPayload members requestedAt ∧
    DenotesSecond requestedAt second

/-- The payload is a stamped payment object whose amount is the literal `amount`. -/
def CarriesAmount (payload : Bytes) (amount : Number) : Prop :=
  ∃ payment : PaymentObject, ∃ requestedAt,
    payload = stampedPayload payment.members requestedAt ∧ payment.amount = amount

/-! ## The payload of a compact payment -/

theorem dropLast_render (payment : PaymentObject) :
    payment.render.dropLast = 123 :: payment.members := by
  rw [PaymentObject.render, ← List.cons_append, List.dropLast_concat]

theorem amountText_of_skips {before stretch after : Bytes} {stop : UInt8}
    (hbefore : Skips amountKey before (amountKey ++ (stretch ++ stop :: after)))
    (hstretch : ∀ b ∈ stretch, b ∉ ascii ",\x7d") (hstop : stop ∈ ascii ",\x7d") :
    amountText (before ++ (amountKey ++ (stretch ++ stop :: after))) =
      some stretch := by
  have hfind := find_of_skips hbefore
  have hlength : before.length + 9 = (before ++ amountKey).length := by
    rw [List.length_append]
    rfl
  have hstop := findFirstOf_append hstretch hstop (before ++ amountKey) after
  have htext := substr_append (before ++ amountKey) stretch (stop :: after)
  rw [List.append_assoc] at hstop htext
  simp only [amountText, hfind, Option.bind_eq_bind, Option.bind_some, hlength,
    hstop, Nat.add_sub_cancel_left, htext]

theorem number_stops (number : Number) :
    ∀ b ∈ number.render, b ∉ ascii ",\x7d" := by
  have hbytes : ∀ b ∈ numberBytes, b ∉ ascii ",\x7d" :=
    forall_mem_of_all (by decide)
  exact fun b hb => hbytes b (number.render_subset hb)

private theorem skips_correlationMember (payment : PaymentObject) (after : Bytes) :
    Skips amountKey (123 :: (payment.correlationMember ++ [44])) after := by
  have hkey : Skips amountKey (123 :: ascii "\"correlationId\":")
      ((renderString payment.correlationId ++ [44]) ++ after) := by
    simp [Skips, amountKey, ascii, List.cons_prefix_cons]
  have hvalue : Skips (34 :: (ascii "amount" ++ [34, 58]))
      (renderString payment.correlationId) ([44] ++ after) :=
    skips_renderString (by decide) (by decide) (by decide) payment.correlationId after
  have hcomma : Skips amountKey [44] after := skips_of_not_mem (by decide)
  have hmember := skips_append hkey (skips_append hvalue hcomma)
  simpa only [PaymentObject.correlationMember, List.cons_append,
    List.append_assoc] using hmember

theorem amountText_stampedPayload (payment : PaymentObject) (requestedAt : Bytes) :
    amountText (stampedPayload payment.members requestedAt) =
      some payment.amount.render := by
  cases horder : payment.amountFirst with
  | true =>
      have hbrace : Skips amountKey [123] (amountKey ++ (payment.amount.render ++
          44 :: (payment.correlationMember ++
            (requestedAtKey ++ (requestedAt ++ requestedAtEnd))))) :=
        skips_of_not_mem (by decide)
      have htext := amountText_of_skips hbrace (number_stops payment.amount) (by decide)
      simpa [stampedPayload, PaymentObject.members, horder,
        PaymentObject.amountMember] using htext
  | false =>
      have hmember := skips_correlationMember payment
        (amountKey ++ (payment.amount.render ++
          44 :: (ascii "\"requestedAt\":\"" ++ (requestedAt ++ requestedAtEnd))))
      have htext := amountText_of_skips hmember (number_stops payment.amount) (by decide)
      simpa [stampedPayload, PaymentObject.members, horder,
        PaymentObject.amountMember, requestedAtKey_eq] using htext

/-- The payload of a compact payment hands `stod` the literal of its amount. -/
theorem amount_literal_reaches_stod (payment : PaymentObject) (cache : TimestampCache)
    (now : Nat) :
    ∃ payload ts cache',
      createProcessorPayload cache now payment.render = some (payload, ts, cache') ∧
        amountText payload = some payment.amount.render := by
  have hpayload : payment.render.dropLast ++ requestedAtKey ++
      (cache.refresh now).requestedAt ++ requestedAtEnd =
        stampedPayload payment.members (cache.refresh now).requestedAt := by
    rw [dropLast_render]
    simp only [stampedPayload, List.cons_append, List.append_assoc]
  refine ⟨_, _, _, if_neg payment.render_ne_nil, ?_⟩
  rw [hpayload]
  exact amountText_stampedPayload payment _

theorem extractAmount_of_carriesAmount {α : Type} [Double α] {payload : Bytes}
    {amount : Number} (h : CarriesAmount payload amount) :
    (extractAmount payload : Option α) = stod amount.render := by
  obtain ⟨payment, requestedAt, rfl, rfl⟩ := h
  simp [extractAmount, amountText_stampedPayload]

private theorem text_eq_of_last_quote {before before' text text' : Bytes}
    (htext : (34 : UInt8) ∉ text) (htext' : (34 : UInt8) ∉ text')
    (h : before ++ 34 :: text = before' ++ 34 :: text') : text = text' := by
  have hreverse := congrArg (fun bytes : Bytes => bytes.reverse.takeWhile (· != 34)) h
  have hall : ∀ {bytes : Bytes}, (34 : UInt8) ∉ bytes →
      ∀ b ∈ bytes.reverse, (b != 34) = true := by
    intro bytes hbytes b hb
    simp only [bne_iff_ne, ne_eq]
    rintro rfl
    exact hbytes (List.mem_reverse.mp hb)
  simp only [List.reverse_append, List.reverse_cons, List.append_assoc] at hreverse
  rw [List.takeWhile_append_of_pos (hall htext),
    List.takeWhile_append_of_pos (hall htext')] at hreverse
  simpa using hreverse

private theorem quote_not_mem_of_denotesSecond {text : Bytes} {second : Nat}
    (h : DenotesSecond text second) : (34 : UInt8) ∉ text := by
  obtain ⟨date, rfl, -⟩ := h
  have hdigits : ∀ width n, (34 : UInt8) ∉ zeroPad width n := fun width n hmem =>
    absurd (zeroPad_isDigit width n 34 hmem) (by decide)
  simp [DateTime.render, hdigits]

private theorem stampedPayload_inj {members members' text text' : Bytes}
    (htext : (34 : UInt8) ∉ text) (htext' : (34 : UInt8) ∉ text')
    (h : stampedPayload members text = stampedPayload members' text') :
    text = text' := by
  obtain ⟨key, hkey⟩ : ∃ key, requestedAtKey = key ++ [34] :=
    ⟨ascii ",\"requestedAt\":", by decide⟩
  have hstamps : (members ++ key) ++ 34 :: text ++ requestedAtEnd =
      (members' ++ key) ++ 34 :: text' ++ requestedAtEnd := by
    simpa [stampedPayload, hkey] using h
  exact text_eq_of_last_quote htext htext' (List.append_cancel_right hstamps)

theorem carriesSecond_stampedPayload (members : Bytes) (now second : Nat) :
    CarriesSecond (stampedPayload members (formatRequestedAt (gmtimeR now))) second ↔
      second = now := by
  have hnow : DenotesSecond (formatRequestedAt (gmtimeR now)) now :=
    (denotesSecond_formatRequestedAt now now).mpr rfl
  constructor
  · rintro ⟨members', requestedAt, hpayload, hdenotes⟩
    have htext := stampedPayload_inj (quote_not_mem_of_denotesSecond hnow)
      (quote_not_mem_of_denotesSecond hdenotes) hpayload
    rw [← htext] at hdenotes
    exact (denotesSecond_formatRequestedAt now second).mp hdenotes
  · rintro rfl
    exact ⟨members, _, rfl, hnow⟩

theorem not_carriesSecond_empty (members : Bytes) (second : Nat) :
    ¬ CarriesSecond (stampedPayload members []) second := by
  rintro ⟨members', requestedAt, hpayload, hdenotes⟩
  have htext := stampedPayload_inj (by simp) (quote_not_mem_of_denotesSecond hdenotes)
    hpayload
  obtain ⟨date, hdate, -⟩ := hdenotes
  simp [← htext, DateTime.render] at hdate

end RinhaBackend
