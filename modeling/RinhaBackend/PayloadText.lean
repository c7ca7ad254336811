import RinhaBackend.Conservation
import RinhaBackend.Foundation.JsonText

/-!
# Payloads as JSON texts

`create_processor_payload` removes the last byte of a body and appends a member.
On an object text that ends with its closing brace the result is again an object
text, with the members of the body and one more.  The second half follows such a
body through every run of the service, to the payload of each attempt.
-/

namespace RinhaBackend

open Foundation
open Foundation.Json

/-! ## One payload -/

def requestedAtName : List StringChar :=
  plainChars (ascii "requestedAt") (forall_mem_of_all (by decide))

def correlationIdName : List StringChar :=
  plainChars (ascii "correlationId") (forall_mem_of_all (by decide))

def amountName : List StringChar :=
  plainChars (ascii "amount") (forall_mem_of_all (by decide))

/-- A body with its last byte removed and the timestamp `requestedAt` appended. -/
def stamped (json requestedAt : Bytes) : Bytes :=
  json.dropLast ++ requestedAtKey ++ requestedAt ++ requestedAtEnd

/-- An object text with a member that ends with its closing brace. -/
structure StampableText (body : Bytes) (members : List Member) : Prop where
  isObjectText : IsObjectText body members
  members_ne : members ≠ []
  closed : body.getLast? = some 125

theorem after_eq_nil_of_closed {text : Text}
    (h : text.render.getLast? = some 125) : text.after = [] := by
  cases hafter : text.after using List.reverseRecOn with
  | nil => rfl
  | append_singleton blanks blank =>
      have hlast : renderBlanks [blank] = [blank.byte] := rfl
      rw [Text.render, hafter, renderBlanks_append, hlast, ← List.append_assoc,
        ← List.append_assoc, List.getLast?_concat] at h
      cases blank <;> simp [Blank.byte] at h

theorem StampableText.eq_render {body : Bytes} {members : List Member}
    (h : StampableText body members) :
    ∃ (before : Blanks) (inside : Members Blanks),
      body = renderBlanks before ++ 123 :: (inside.render ++ [125]) ∧
        inside.content.list = members := by
  obtain ⟨⟨text, rfl, hmembers⟩, hne, hclosed⟩ := h
  have hafter := after_eq_nil_of_closed hclosed
  obtain ⟨before, value, after⟩ := text
  subst hafter
  cases value with
  | object inside =>
      refine ⟨before, inside, ?_, by simpa [Value.content, Value.members] using hmembers⟩
      simp [Text.render, Value.render]
  | emptyObject inside =>
      simp only [Value.content, Value.members, Option.some.injEq] at hmembers
      exact absurd hmembers.symm hne
  | _ => simp [Value.content, Value.members] at hmembers

theorem stamped_object (before : Blanks) (inside requestedAt : Bytes) :
    stamped (renderBlanks before ++ 123 :: (inside ++ [125])) requestedAt =
      renderBlanks before ++
        123 :: (inside ++ (requestedAtKey ++ (requestedAt ++ requestedAtEnd))) := by
  rw [stamped, ← List.cons_append, ← List.append_assoc, List.dropLast_concat]
  simp only [List.append_assoc, List.cons_append]

theorem stamped_isObjectText {body requestedAt : Bytes} {members : List Member}
    (h : StampableText body members) (hplain : ∀ b ∈ requestedAt, PlainByte b) :
    IsObjectText (stamped body requestedAt)
      (members ++ [(requestedAtName, .string (plainChars requestedAt hplain))]) := by
  obtain ⟨before, inside, rfl, rfl⟩ := h.eq_render
  have hname : renderString requestedAtName = ascii "\"requestedAt\"" := by decide
  have hkey : requestedAtKey = 44 :: (ascii "\"requestedAt\"" ++ [58, 34]) := by decide
  have hend : requestedAtEnd = [34, 125] := by decide
  let stamp : Members Blanks :=
    .last [] requestedAtName [] [] (.string (plainChars requestedAt hplain)) []
  refine ⟨⟨before, .object (inside.append stamp), []⟩, ?_, ?_⟩
  · have hstring : renderString (plainChars requestedAt hplain) =
        34 :: (requestedAt ++ [34]) := by
      rw [renderString, renderChars_plainChars]
    simp only [Text.render, Value.render, Members.render_append, stamp, Members.render,
      stamped_object, hkey, hend, hname, hstring, renderBlanks_nil, List.nil_append,
      List.append_nil, List.append_assoc, List.cons_append]
  · rw [Value.content, Value.members, Members.content_append, Members.list_append]
    rfl

/-- The member list of a stamped body: the text has no other. -/
theorem stamped_isObjectText_iff {body requestedAt : Bytes} {members : List Member}
    (h : StampableText body members) (hplain : ∀ b ∈ requestedAt, PlainByte b)
    (other : List Member) :
    IsObjectText (stamped body requestedAt) other ↔
      other = members ++ [(requestedAtName, .string (plainChars requestedAt hplain))] := by
  have hobject := stamped_isObjectText h hplain
  constructor
  · intro hother
    exact hother.unique hobject
  · rintro rfl
    exact hobject

/-! ## The timestamps of a thread -/

/-- The text of the cache needs no escapes inside a JSON string. -/
def TimestampCache.Plain (cache : TimestampCache) : Prop :=
  ∀ b ∈ cache.requestedAt, PlainByte b

theorem TimestampCache.initial_plain : TimestampCache.initial.Plain := by
  simp [Plain, initial]

private theorem plainByte_of_isDigit {b : UInt8} (h : isDigit b = true) : PlainByte b := by
  simp only [isDigit, Bool.and_eq_true, decide_eq_true_eq, UInt8.le_iff_toNat_le] at h
  have hlow : 48 ≤ b.toNat := h.1
  have hhigh : b.toNat ≤ 57 := h.2
  refine ⟨?_, ?_, ?_⟩
  · rw [UInt8.le_iff_toNat_le]
    exact (by decide : (32 : UInt8).toNat ≤ 48).trans hlow
  · rintro rfl
    exact absurd hlow (by decide)
  · rintro rfl
    exact absurd hhigh (by decide)

theorem DateTime.render_plain (date : DateTime) (millis : Nat) :
    ∀ b ∈ date.render millis, PlainByte b := by
  have hdigits : ∀ width n, ∀ b ∈ zeroPad width n, PlainByte b := fun width n b hb =>
    plainByte_of_isDigit (zeroPad_isDigit width n b hb)
  have hseparators : PlainByte 45 ∧ PlainByte 84 ∧ PlainByte 58 ∧ PlainByte 46 ∧
      PlainByte 90 := by decide
  obtain ⟨hdash, hletter, hcolon, hpoint, hzone⟩ := hseparators
  intro b hb
  simp only [render, List.mem_append, List.mem_cons, List.not_mem_nil, or_false] at hb
  rcases hb with hb | rfl | hb | rfl | hb | rfl | hb | rfl | hb | rfl | hb | rfl | hb | rfl
  all_goals first
    | assumption
    | exact hdigits _ _ b hb

theorem TimestampCache.refresh_plain (cache : TimestampCache) (now : Nat)
    (h : cache.Plain) : (cache.refresh now).Plain := by
  unfold refresh
  split_ifs
  · intro b hb
    rw [DateTime.formatRequestedAt_gmtimeR] at hb
    exact DateTime.render_plain _ 0 b hb
  · exact h

/-- The cache of a thread whose calls so far read these clock values. -/
def TimestampCache.after (readings : List Nat) : TimestampCache :=
  readings.foldl TimestampCache.refresh .initial

theorem TimestampCache.after_plain (readings : List Nat) : (after readings).Plain := by
  unfold after
  induction readings using List.reverseRecOn with
  | nil => exact initial_plain
  | append_singleton readings now ih =>
      rw [List.foldl_concat]
      exact refresh_plain _ now ih

theorem createProcessorPayload_stamped_text {cache : TimestampCache} (hcache : cache.Plain)
    (now : Nat) {body : Bytes} {members : List Member} (h : StampableText body members) :
    ∃ payload ts cache' requestedAt,
      createProcessorPayload cache now body = some (payload, ts, cache') ∧
        ∀ other, IsObjectText payload other ↔
          other = members ++ [(requestedAtName, .string requestedAt)] := by
  have hne : body ≠ [] := by
    rintro rfl
    simpa using h.closed
  exact ⟨_, _, _, _, if_neg hne,
    stamped_isObjectText_iff h (TimestampCache.refresh_plain cache now hcache)⟩

/-! ## The payloads of a run -/

variable {α : Type} [Double α]

/-- The payload is the payment's body with a timestamp appended. -/
def Payment.StampedAs (payment : Payment) (payload : Bytes) : Prop :=
  ∃ requestedAt : Bytes, (∀ b ∈ requestedAt, PlainByte b) ∧
    payload = stamped payment.raw.json requestedAt

namespace Service

variable {config : Config α} {processedStart : UInt64} {state next : Service α}
variable {action : Action α}

structure Stamping (config : Config α) (processedStart : UInt64) (state : Service α) :
    Prop where
  regular : state.Regular config processedStart
  caches : ∀ thread ∈ state.threads, thread.cache.Plain
  drafts : ∀ thread ∈ state.threads,
    thread.pc.Drafted fun payment draft => payment.StampedAs draft.payload
  attempts : ∀ entry ∈ state.history.attempts, ∃ payment,
    state.Accepted payment ∧ payment.serial = entry.1 ∧
      payment.StampedAs entry.2.payload

theorem initial_stamping (config : Config α) (processedStart : UInt64) :
    (initial config processedStart).Stamping config processedStart where
  regular := initial_regular config processedStart
  caches := by
    intro thread hthread
    obtain ⟨worker, -, rfl⟩ := List.mem_map.mp hthread
    exact TimestampCache.initial_plain
  drafts := by simp [initial, Pc.Drafted]
  attempts := by simp [initial]

theorem Stamping.drafted (h : state.Stamping config processedStart)
    (hmove : Move config state action next) :
    ∀ thread ∈ next.threads,
      thread.pc.Drafted fun payment draft => payment.StampedAs draft.payload := by
  refine hmove.drafted ?_ h.drafts
  intro thread hthread tid payment now draft cache _ _ hpayload
  obtain ⟨-, hcache, -, hdraft⟩ := createProcessorPayload_eq_some hpayload
  have hplain := TimestampCache.refresh_plain _ now (h.caches thread hthread)
  rw [← hcache] at hplain
  exact ⟨cache.requestedAt, hplain, hdraft⟩

theorem Stamping.attempted (h : state.Stamping config processedStart)
    (hmove : Move config state action next) :
    ∀ entry ∈ next.history.attempts, ∃ payment,
      next.Accepted payment ∧ payment.serial = entry.1 ∧
        payment.StampedAs entry.2.payload := by
  have hkeep : ∀ entry ∈ state.history.attempts, ∃ payment,
      next.Accepted payment ∧ payment.serial = entry.1 ∧
        payment.StampedAs entry.2.payload := by
    intro entry hentry
    obtain ⟨payment, haccepted, hstamped⟩ := h.attempts entry hentry
    exact ⟨payment, hmove.accepted_mono haccepted, hstamped⟩
  cases hmove with
  | @call tid thread event payment call sent outcome hthread hpc hcall =>
      intro entry hentry
      rcases List.mem_append.mp hentry with hold | hnew
      · exact hkeep entry hold
      · obtain ⟨attempt, hattempt, rfl⟩ := List.mem_map.mp hnew
        have hheld := pc_of_thread h.regular.held hthread hpc payment rfl
        have hdrafts := pc_of_thread h.drafts hthread hpc
        rcases callStep_draft hcall with ⟨_, _, -, -, -, hsent, -⟩ | ⟨-, -, hpayloads⟩
        · simp [hsent] at hattempt
        · obtain ⟨draft, hdraft, hpayload⟩ := hpayloads attempt hattempt
          exact ⟨payment, hheld, rfl, hpayload ▸ hdrafts draft hdraft⟩
  | _ => exact hkeep

theorem execute_stamping {actions : List (Action α)}
    (hrun : execute (step config) (initial config processedStart) actions = some state) :
    state.Stamping config processedStart := by
  refine execute_invariant ?_ (initial_stamping config processedStart) (along_true _ actions)
    hrun
  intro state action next h _ hstep
  have hmove := step_move hstep
  exact
    { regular := step_regular h.regular hstep
      caches := hmove.caches TimestampCache.initial_plain TimestampCache.refresh_plain
        h.caches
      drafts := h.drafted hmove
      attempts := h.attempted hmove }

/--
On an object text that ends with its closing brace, whatever clock readings the
thread has used before, `create_processor_payload` gives an object text whose
members are those of the body and one more; and in every run the payload of every
attempt made for such a body, on the first try or after retries, is such a text.
-/
theorem payload_preserves_payment (config : Config α) (processedStart : UInt64)
    {body : Bytes} {members : List Member} (h : StampableText body members) :
    (∀ (readings : List Nat) (now : Nat), ∃ payload ts cache requestedAt,
      createProcessorPayload (.after readings) now body = some (payload, ts, cache) ∧
        ∀ other, IsObjectText payload other ↔
          other = members ++ [(requestedAtName, .string requestedAt)]) ∧
    ∀ (actions : List (Action α)) (state : Service α),
      execute (step config) (initial config processedStart) actions = some state →
      ∀ payment attempt, (payment, body) ∈ state.history.accepted →
        (payment.serial, attempt) ∈ state.history.attempts →
        ∃ requestedAt, ∀ other, IsObjectText attempt.payload other ↔
          other = members ++ [(requestedAtName, .string requestedAt)] := by
  constructor
  · intro readings now
    exact createProcessorPayload_stamped_text (TimestampCache.after_plain readings) now h
  · intro actions state hrun payment attempt haccepted hattempt
    have hstamping := execute_stamping hrun
    obtain ⟨payment', ⟨body', haccepted'⟩, hserial, requestedAt, hplain, hpayload⟩ :=
      hstamping.attempts _ hattempt
    cases hstamping.regular.serial_inj haccepted' haccepted hserial
    have hjson := RawPayment.json_ofBody (hstamping.regular.bodies _ haccepted)
    dsimp only at hpayload hjson
    rw [hpayload, hjson]
    exact ⟨_, stamped_isObjectText_iff h hplain⟩

/-- `"amount": 0.5`, an array of an empty and a nested object, and a string with escapes. -/
def nestedMembers : Members Blanks :=
  .next [] amountName [] [.space]
    (.number ⟨false, .zero, some (lastDigit 5, []), none⟩) []
    (.next [.lineFeed] (plainChars (ascii "x") (forall_mem_of_all (by decide))) [] []
      (.array (.next [] (.emptyObject []) []
        (.last [.space] (.object (.last [] [] [] [] .null [])) []))) []
      (.last [] (plainChars (ascii "id") (forall_mem_of_all (by decide))) [.tab] []
        (.string [.escape 34 (by decide), .plain 125 (by decide)]) [.space]))

def nestedBody : Bytes := Text.render ⟨[], .object nestedMembers, []⟩

theorem nestedBody_stampable : StampableText nestedBody nestedMembers.content.list where
  isObjectText := ⟨⟨[], .object nestedMembers, []⟩, rfl, rfl⟩
  members_ne := by simp [nestedMembers, Members.content, Members.list]
  closed := by decide

/-- The processor fails once; the second attempt succeeds. -/
def retried : Option (Service Float) :=
  execute (step (singleWorker Float)) (initial (singleWorker Float) 1751328000)
    (postAndFetch Float nestedBody ++ answer 1751328010 (.ofCurl true 500 1) ++
      .run 0 .tau :: answer 1751328011 (.ofCurl true 200 1))

theorem retried_isSome : retried.isSome = true := by decide +kernel

theorem payload_preserved_after_retry :
    nestedBody = ascii ("\x7b\"amount\": 0.5,\n\"x\":[\x7b\x7d, \x7b\"\":null\x7d]," ++
        "\"id\"\t:\"\\\"\x7d\" \x7d") ∧
      (retried.get retried_isSome).history.attempts.length = 2 ∧
      ∀ attempt, (1, attempt) ∈ (retried.get retried_isSome).history.attempts →
        ∃ requestedAt, ∀ other, IsObjectText attempt.payload other ↔
          other = nestedMembers.content.list ++
            [(requestedAtName, .string requestedAt)] := by
  refine ⟨by decide, by decide +kernel, fun attempt hattempt => ?_⟩
  have hentry : ∃ entry ∈ (retried.get retried_isSome).history.accepted,
      entry.1.serial = 1 ∧ entry.2 = nestedBody := by decide +kernel
  obtain ⟨⟨payment, body⟩, haccepted, hserial, rfl⟩ := hentry
  exact (payload_preserves_payment _ _ nestedBody_stampable).2 _ _
    (Option.some_get retried_isSome).symm payment attempt haccepted (hserial ▸ hattempt)

end Service

end RinhaBackend
