import RinhaBackend.Query
import RinhaBackend.RapidJson.RoundTrip

/-!
# Summaries on the wire

`payments_summary_handler` prints the two summaries as a JSON object, and
`call_other_instance` reads such an object back.  A reply that cannot be read, or that
lacks a member, counts as a summary of nothing.
-/

namespace RinhaBackend

open Foundation RapidJson

variable {α : Type} [Ieee α]

/-! ## The reply -/

def Summary.document (summary : Summary α) : Value α :=
  .object [(ascii "totalRequests", .integer summary.totalRequests.toNat),
    (ascii "totalAmount", .double summary.totalAmount)]

def SummaryPair.document (pair : SummaryPair α) : Value α :=
  .object [(ascii "default", pair.default.document),
    (ascii "fallback", pair.fallback.document)]

structure SummaryReply where
  body : Bytes
  contentLength : Nat
  deriving DecidableEq

/-- The end of `payments_summary_handler`: the body is passed as a C string. -/
def SummaryPair.reply (grisu2 : α → Decimal) (pair : SummaryPair α) : SummaryReply :=
  let sb := (accept grisu2 pair.document Writer.initial).2.os
  ⟨cString sb, sb.length⟩

/-! ## The response -/

def readSummary (value : Value α) : Option (Summary α) := do
  let totalRequests ← (← value.member (ascii "totalRequests")).getUint64
  let totalAmount ← (← value.member (ascii "totalAmount")).getDouble
  some ⟨totalRequests, totalAmount⟩

/-- The member's summary, or the initial one of the result. -/
def readSummaryMember (d : Value α) (name : Bytes) : Option (Summary α) := do
  if ← d.hasMember name then readSummary (← d.member name)
  else some .zero

/-- The end of `call_other_instance`; a document that was not parsed is `null`. -/
def readResponse (res : Bool) (code : Nat) (body : Bytes) : Option (SummaryPair α) :=
  if res = true ∧ code = 200 then do
    let d := (parse body).toOption.getD .null
    let default ← readSummaryMember d (ascii "default")
    let fallback ← readSummaryMember d (ascii "fallback")
    some ⟨default, fallback⟩
  else some Query.zero

/-! ## What comes through -/

section

variable (grisu2 : α → Decimal)

/-- An amount as the other instance reads it; `none` if it does not come through. -/
def rereadAmount (amount : α) : Option α :=
  if Ieee.isNanOrInf amount then none
  else
    match readNumber (doubleLiteral grisu2 amount) with
    | .ok (.double d) => some d
    | _ => none

omit [Ieee α] in
theorem SummaryPair.document_inRange (pair : SummaryPair α) : InRange pair.document := by
  have hdefault := pair.default.totalRequests.toNat_lt
  have hfallback := pair.fallback.totalRequests.toNat_lt
  simp only [document, Summary.document, InRange, MembersInRange, and_true]
  omega

theorem SummaryPair.document_complete_iff (pair : SummaryPair α) :
    (print grisu2 pair.document).complete = true ↔
      Ieee.isNanOrInf pair.default.totalAmount = false ∧
        Ieee.isNanOrInf pair.fallback.totalAmount = false := by
  have hamount : ∀ amount : α, (print grisu2 (.double amount)).complete = true ↔
      Ieee.isNanOrInf amount = false := by
    intro amount
    rw [print]
    cases Ieee.isNanOrInf amount <;> simp
  simp only [document, Summary.document, print, printMembers, Printed.andThen_complete_iff,
    true_and, and_true]
  simp only [print] at hamount
  rw [hamount, hamount]

theorem SummaryPair.reread_document (pair : SummaryPair α) :
    RapidJson.reread grisu2 pair.document =
      (readNumber (doubleLiteral grisu2 pair.default.totalAmount)).bind fun default =>
        (readNumber (doubleLiteral grisu2 pair.fallback.totalAmount)).bind fun fallback =>
          .ok (.object
            [(ascii "default", .object
              [(ascii "totalRequests", .integer pair.default.totalRequests.toNat),
                (ascii "totalAmount", default)]),
            (ascii "fallback", .object
              [(ascii "totalRequests", .integer pair.fallback.totalRequests.toNat),
                (ascii "totalAmount", fallback)])]) := by
  simp only [document, Summary.document, RapidJson.reread, rereadMembers]
  cases readNumber (α := α) (doubleLiteral grisu2 pair.default.totalAmount) with
  | error code => rfl
  | ok default =>
      cases readNumber (α := α) (doubleLiteral grisu2 pair.fallback.totalAmount) <;> rfl

/-- An amount is read as some double, or the whole reply is not read. -/
theorem rereadAmount_cases {amount : α} (hfinite : Ieee.isNanOrInf amount = false) :
    (∃ d, readNumber (doubleLiteral grisu2 amount) = .ok (.double d) ∧
      rereadAmount grisu2 amount = some d) ∨
    readNumber (α := α) (doubleLiteral grisu2 amount) = .error .numberTooBig ∧
      rereadAmount grisu2 amount = none := by
  unfold rereadAmount
  rw [if_neg (by simp [hfinite])]
  rcases readNumber_isDouble (α := α) (isDouble_doubleLiteral grisu2 amount) with ⟨d, h⟩ | h
  · rw [h]
    exact .inl ⟨d, rfl, rfl⟩
  · rw [h]
    exact .inr ⟨rfl, rfl⟩

theorem SummaryPair.reply_body (pair : SummaryPair α) :
    (pair.reply grisu2).body = (print grisu2 pair.document).text := by
  rw [reply, (accept_initial pair.document).2]
  exact cString_print pair.document_inRange

/-- The summaries that come through, if any do. -/
def SummaryPair.carried (pair : SummaryPair α) : Option (SummaryPair α) :=
  match rereadAmount grisu2 pair.default.totalAmount,
      rereadAmount grisu2 pair.fallback.totalAmount with
  | some default, some fallback =>
      some ⟨⟨pair.default.totalRequests, default⟩, ⟨pair.fallback.totalRequests, fallback⟩⟩
  | _, _ => none

/-- The summary that the other instance reads for the pair that was sent. -/
def SummaryPair.received (pair : SummaryPair α) : SummaryPair α :=
  (pair.carried grisu2).getD Query.zero

theorem SummaryPair.carried_eq_none {pair : SummaryPair α}
    (h : Ieee.isNanOrInf pair.default.totalAmount = true ∨
      Ieee.isNanOrInf pair.fallback.totalAmount = true) : pair.carried grisu2 = none := by
  unfold carried
  rcases h with hdefault | hfallback
  · simp [rereadAmount, hdefault]
  · rw [show rereadAmount grisu2 pair.fallback.totalAmount = none from if_pos hfallback]
    cases rereadAmount grisu2 pair.default.totalAmount <;> rfl

/-- What `parse` makes of a reply. -/
theorem SummaryPair.parse_reply (pair : SummaryPair α) :
    (parse (pair.reply grisu2).body).toOption = (pair.carried grisu2).map document := by
  have hrange := pair.document_inRange
  rw [reply_body]
  cases hcomplete : (print grisu2 pair.document).complete with
  | false =>
      have hlost : Ieee.isNanOrInf pair.default.totalAmount = true ∨
          Ieee.isNanOrInf pair.fallback.totalAmount = true := by
        by_contra hfinite
        simp only [not_or, Bool.not_eq_true] at hfinite
        rw [(pair.document_complete_iff grisu2).mpr hfinite] at hcomplete
        exact absurd hcomplete (by simp)
      rw [carried_eq_none grisu2 hlost]
      cases hparse : parse (α := α) (print grisu2 pair.document).text with
      | error code => rfl
      | ok value => exact absurd hparse (parse_print_cut hrange hcomplete value)
  | true =>
      obtain ⟨hdefault, hfallback⟩ := (pair.document_complete_iff grisu2).mp hcomplete
      rw [parse_print hrange hcomplete, reread_document, carried]
      rcases rereadAmount_cases grisu2 hdefault with ⟨default, hread, hamount⟩ | ⟨hread, hamount⟩
      · rw [hread, hamount]
        rcases rereadAmount_cases grisu2 hfallback with
          ⟨fallback, hread', hamount'⟩ | ⟨hread', hamount'⟩
        · rw [hamount']
          dsimp only [Except.bind]
          rw [hread']
          simp [document, Summary.document, Except.toOption]
        · rw [hamount']
          dsimp only [Except.bind]
          rw [hread']
          rfl
      · rw [hread, hamount]
        rfl

theorem readSummary_document (summary : Summary α) :
    readSummary summary.document = some summary := by
  have hlt := summary.totalRequests.toNat_lt
  have hcount : ((summary.totalRequests.toNat : Int) % 2 ^ 64).toNat =
      summary.totalRequests.toNat := by omega
  have hrequests : summary.document.member (ascii "totalRequests") =
      some (.integer summary.totalRequests.toNat) := rfl
  have hamount : summary.document.member (ascii "totalAmount") =
      some (.double summary.totalAmount) := rfl
  rw [readSummary, hrequests, hamount]
  simp only [Option.bind_eq_bind, Option.bind_some, Value.getUint64, hcount,
    UInt64.ofNat_toNat, Value.getDouble]

theorem SummaryPair.readSummaryMember_document (pair : SummaryPair α) :
    readSummaryMember pair.document (ascii "default") = readSummary pair.default.document ∧
      readSummaryMember pair.document (ascii "fallback") = readSummary pair.fallback.document :=
  ⟨rfl, rfl⟩

theorem SummaryPair.carried_requests {pair carried : SummaryPair α}
    (h : pair.carried grisu2 = some carried) :
    carried.default.totalRequests = pair.default.totalRequests ∧
      carried.fallback.totalRequests = pair.fallback.totalRequests := by
  unfold SummaryPair.carried at h
  split at h
  · cases h
    exact ⟨rfl, rfl⟩
  · simp at h

/-- Whatever was summed up, the other instance reads it, or a summary of nothing. -/
theorem SummaryPair.readResponse_reply (pair : SummaryPair α) :
    readResponse true 200 (pair.reply grisu2).body = some (pair.received grisu2) := by
  rw [readResponse, if_pos ⟨rfl, rfl⟩, received]
  dsimp only
  rw [parse_reply]
  cases hcarried : pair.carried grisu2 with
  | none => rfl
  | some carried =>
      obtain ⟨hreadDefault, hreadFallback⟩ := carried.readSummaryMember_document
      rw [Option.map_some, Option.getD_some, hreadDefault, hreadFallback, readSummary_document,
        readSummary_document]
      rfl

theorem SummaryPair.received_cases (pair : SummaryPair α) :
    pair.received grisu2 = Query.zero ∧ pair.carried grisu2 = none ∨
      (pair.received grisu2).default.totalRequests = pair.default.totalRequests ∧
        (pair.received grisu2).fallback.totalRequests = pair.fallback.totalRequests := by
  rw [received]
  cases hcarried : pair.carried grisu2 with
  | none => exact .inl ⟨rfl, rfl⟩
  | some carried => exact .inr (pair.carried_requests grisu2 hcarried)

/-- Both counts arrive as they were sent, or the reply counts as nothing at all. -/
theorem SummaryPair.reply_all_or_nothing (pair : SummaryPair α) :
    (pair.reply grisu2).contentLength = (pair.reply grisu2).body.length ∧
    (∃ read : SummaryPair α, readResponse true 200 (pair.reply grisu2).body = some read ∧
      (read = Query.zero ∨
        read.default.totalRequests = pair.default.totalRequests ∧
          read.fallback.totalRequests = pair.fallback.totalRequests)) ∧
    (Ieee.isNanOrInf pair.default.totalAmount = true ∨
        Ieee.isNanOrInf pair.fallback.totalAmount = true →
      readResponse true 200 (pair.reply grisu2).body = some (Query.zero (α := α))) := by
  refine ⟨?_, ⟨_, pair.readResponse_reply grisu2, ?_⟩, fun hlost => ?_⟩
  · rw [reply_body, reply, (accept_initial pair.document).2]
  · exact (pair.received_cases grisu2).imp_left And.left
  · rw [readResponse_reply, received, carried_eq_none grisu2 hlost]
    rfl

end

/-! ## Exact arithmetic -/

theorem rereadAmount_rat {grisu2 : ℚ → Decimal} {amount : ℚ}
    (h : amount ≠ 0 → Exact grisu2 amount) : rereadAmount grisu2 amount = some amount := by
  rw [rereadAmount, readNumber_doubleLiteral h]
  rfl

theorem SummaryPair.carried_rat {grisu2 : ℚ → Decimal} {pair : SummaryPair ℚ}
    (hdefault : pair.default.totalAmount ≠ 0 → Exact grisu2 pair.default.totalAmount)
    (hfallback : pair.fallback.totalAmount ≠ 0 → Exact grisu2 pair.fallback.totalAmount) :
    pair.carried grisu2 = some pair := by
  rw [carried, rereadAmount_rat hdefault, rereadAmount_rat hfallback]

/-- Amounts whose decimals `Grisu2` finds arrive unchanged. -/
theorem SummaryPair.reply_round_trip {grisu2 : ℚ → Decimal} {pair : SummaryPair ℚ}
    (hdefault : pair.default.totalAmount ≠ 0 → Exact grisu2 pair.default.totalAmount)
    (hfallback : pair.fallback.totalAmount ≠ 0 → Exact grisu2 pair.fallback.totalAmount) :
    readResponse true 200 (pair.reply grisu2).body = some pair := by
  rw [readResponse_reply, received, carried_rat hdefault hfallback]
  rfl

theorem SummaryPair.reply_round_trip_two :
    let pair : SummaryPair ℚ := ⟨⟨7, 25 / 2⟩, ⟨2, 3 / 20000000⟩⟩
    (pair.reply twoDecimals).body =
        ascii "\x7b\"default\":\x7b\"totalRequests\":7,\"totalAmount\":12.5\x7d," ++
          ascii "\"fallback\":\x7b\"totalRequests\":2,\"totalAmount\":1.5e-7\x7d\x7d" ∧
      readResponse true 200 (pair.reply twoDecimals).body = some pair := by
  intro pair
  exact ⟨by decide +kernel, reply_round_trip (fun _ => exact_point) fun _ => exact_exponent⟩

end RinhaBackend
