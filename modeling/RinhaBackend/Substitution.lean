import RinhaBackend.Foundation.Lockstep
import RinhaBackend.PayloadText

/-!
# Runs with other bodies

The service looks at a body when it copies it, when it takes its last byte off
and when it searches the payload for the amount, and nowhere else.  A
substitution replaces every body by one that fits as well and yields the same
amount.  Posting the replaced bodies then gives a run in lockstep with the first:
the same attempts at the same processors with the same replies, and the same
buckets.
-/

namespace RinhaBackend

open Foundation
open Foundation.Json

structure Substitution (α : Type) [Double α] where
  body : Bytes → Bytes
  fits : ∀ json, json.length ≤ 70 → (body json).length ≤ 70
  eq_nil_iff : ∀ json, body json = [] ↔ json = []
  amount : ∀ json requestedAt, (∀ b ∈ requestedAt, PlainByte b) →
    (extractAmount (stamped (body json) requestedAt) : Option α) =
      extractAmount (stamped json requestedAt)

variable {α : Type} [Double α]

/-- The call with another draft; a call that has none stays as it is. -/
def CallPc.withDraft (draft : Draft) : CallPc α → CallPc α
  | .entered => .entered
  | .built _ => .built draft
  | .labelled _ primary => .labelled draft primary
  | .ready _ primary secondary => .ready draft primary secondary
  | .answered _ primary secondary reply => .answered draft primary secondary reply
  | .handling _ primary secondary reply => .handling draft primary secondary reply
  | .retrying _ secondary code => .retrying draft secondary code
  | .handlingSecondary _ secondary code reply =>
      .handlingSecondary draft secondary code reply
  | .returned _ result => .returned draft result

/-- The service after a step of the call that a thread makes for a payment. -/
def Service.afterCall (state : Service α) (tid : Nat) (thread : Thread α)
    (payment : Payment) (sent : List (Attempt α)) (outcome : CallOutcome α) : Service α :=
  { state.setThread tid
      { thread with
        cache := outcome.cache
        pc := .processing payment outcome.pc (sent ++ outcome.sent) } with
    failover := outcome.failover
    history := { state.history with
      attempts := state.history.attempts ++
        outcome.sent.map fun attempt => (payment.serial, attempt) } }

def Action.substitute (substitution : Substitution α) : Action α → Action α
  | .post body => .post (substitution.body body)
  | .run tid event => .run tid event

namespace Substitution

/-! ## What corresponds to what -/

section

variable (substitution : Substitution α)

def Payments (payment payment' : Payment) : Prop :=
  payment'.serial = payment.serial ∧
    payment'.raw.json = substitution.body payment.raw.json

/-- Payloads of one body and of its replacement, with the same timestamp. -/
def Payloads (json payload payload' : Bytes) : Prop :=
  ∃ requestedAt : Bytes, (∀ b ∈ requestedAt, PlainByte b) ∧
    payload = stamped json requestedAt ∧
      payload' = stamped (substitution.body json) requestedAt

def Drafts (json : Bytes) (draft draft' : Draft) : Prop :=
  draft'.ts = draft.ts ∧ substitution.Payloads json draft.payload draft'.payload

def CallPcs (json : Bytes) (call call' : CallPc α) : Prop :=
  ∃ draft', call' = call.withDraft draft' ∧
    ∀ draft, call.draft = some draft → substitution.Drafts json draft draft'

def Attempts (json : Bytes) (attempt attempt' : Attempt α) : Prop :=
  attempt'.processor = attempt.processor ∧ attempt'.reply = attempt.reply ∧
    substitution.Payloads json attempt.payload attempt'.payload

inductive Pcs : Pc α → Pc α → Prop
  | posting {body : Bytes} {raw raw' : RawPayment} (queueIdx : Nat)
      (h : raw'.json = substitution.body raw.json) :
      Pcs (.posting body raw queueIdx) (.posting (substitution.body body) raw' queueIdx)
  | starting : Pcs .starting .starting
  | polling : Pcs .polling .polling
  | fetched {payment payment' : Payment} (h : substitution.Payments payment payment') :
      Pcs (.fetched payment) (.fetched payment')
  | timed {payment payment' : Payment} (h : substitution.Payments payment payment')
      (now : Int) : Pcs (.timed payment now) (.timed payment' now)
  | paced {payment payment' : Payment} (h : substitution.Payments payment payment')
      (elapsed : Int) : Pcs (.paced payment elapsed) (.paced payment' elapsed)
  | launching {payment payment' : Payment} (h : substitution.Payments payment payment') :
      Pcs (.launching payment) (.launching payment')
  | spawning {payment payment' : Payment} (h : substitution.Payments payment payment') :
      Pcs (.spawning payment) (.spawning payment')
  | processing {payment payment' : Payment} {call call' : CallPc α}
      (h : substitution.Payments payment payment')
      (hcall : substitution.CallPcs payment.raw.json call call')
      (sent sent' : List (Attempt α)) :
      Pcs (.processing payment call sent) (.processing payment' call' sent')
  | closing : Pcs .closing .closing
  | stamping : Pcs .stamping .stamping
  | exited : Pcs .exited .exited

structure Threads (thread thread' : Thread α) : Prop where
  workerId : thread'.workerId = thread.workerId
  isFallbackPool : thread'.isFallbackPool = thread.isFallbackPool
  cache : thread'.cache = thread.cache
  plain : thread.cache.Plain
  pc : substitution.Pcs thread.pc thread'.pc

structure Queues (q q' : WorkerQueue Payment) : Prop where
  size : q'.size = q.size
  head : q'.head = q.head
  tail : q'.tail = q.tail
  slots : ∀ pos, substitution.Payments (q.queue pos) (q'.queue pos)

def AcceptedEntries (entry entry' : Payment × Bytes) : Prop :=
  substitution.Payments entry.1 entry'.1 ∧ entry'.2 = substitution.body entry.2

/-- An attempt for an accepted payment and the attempt for its replacement. -/
def AttemptEntries (state : Service α) (entry entry' : Nat × Attempt α) : Prop :=
  entry'.1 = entry.1 ∧ ∃ payment, state.Accepted payment ∧ payment.serial = entry.1 ∧
    substitution.Attempts payment.raw.json entry.2 entry'.2

structure StoreEntries (entry entry' : StoreEntry α) : Prop where
  payment : substitution.Payments entry.payment entry'.payment
  processor : entry'.processor = entry.processor
  ts : entry'.draft.ts = entry.draft.ts
  amount : entry'.amount = entry.amount

structure Services (state state' : Service α) : Prop where
  failover : state'.failover = state.failover
  queues : List.Forall₂ substitution.Queues state.queues state'.queues
  queueIndex : state'.queueIndex = state.queueIndex
  ledger : state'.ledger = state.ledger
  fallbackIsRunning : state'.fallbackIsRunning = state.fallbackIsRunning
  lastFallback : state'.lastFallback = state.lastFallback
  terminated : state'.terminated = state.terminated
  threads : List.Forall₂ substitution.Threads state.threads state'.threads
  accepted : List.Forall₂ substitution.AcceptedEntries state.history.accepted
    state'.history.accepted
  attempts : List.Forall₂ (substitution.AttemptEntries state) state.history.attempts
    state'.history.attempts
  stored : List.Forall₂ substitution.StoreEntries state.history.stored
    state'.history.stored

end

variable {substitution : Substitution α}

/-! ## Calls -/

omit [Double α] in
theorem withDraft_afterPrimary (config : Config α) (draft draft' : Draft)
    (primary secondary : ProcessorResult) (reply : Reply α) :
    (afterPrimary config draft primary secondary reply).withDraft draft' =
        afterPrimary config draft' primary secondary reply ∧
      (afterPrimary config draft primary secondary reply).draft = some draft := by
  unfold afterPrimary
  split_ifs <;> exact ⟨rfl, rfl⟩

omit [Double α] in
theorem withDraft_afterSecondary (draft draft' : Draft) (secondary : ProcessorResult)
    (code : Int) (reply : Reply α) :
    (afterSecondary draft secondary code reply).withDraft draft' =
        afterSecondary draft' secondary code reply ∧
      (afterSecondary draft secondary code reply).draft = some draft := by
  unfold afterSecondary
  split_ifs <;> exact ⟨rfl, rfl⟩

theorem CallPcs.entered (json : Bytes) :
    substitution.CallPcs (α := α) json .entered .entered :=
  ⟨⟨[], 0⟩, rfl, by simp [CallPc.draft]⟩

theorem createProcessorPayload_drafts {json json' payload : Bytes}
    {cache cache' : TimestampCache} {now : Nat} {ts : UInt64} (hplain : cache.Plain)
    (hjson : json' = substitution.body json)
    (h : createProcessorPayload cache now json = some (payload, ts, cache')) :
    ∃ payload', createProcessorPayload cache now json' = some (payload', ts, cache') ∧
      substitution.Payloads json payload payload' := by
  obtain ⟨hne, hcache, rfl, rfl⟩ := createProcessorPayload_eq_some h
  have hne' : json' ≠ [] := fun hnil => hne ((substitution.eq_nil_iff json).mp (hjson ▸ hnil))
  have hplain' : cache'.Plain := hcache ▸ TimestampCache.refresh_plain cache now hplain
  refine ⟨stamped json' cache'.requestedAt, ?_, cache'.requestedAt, hplain', rfl,
    by rw [hjson]⟩
  rw [createProcessorPayload, if_neg hne', hcache]
  rfl

theorem callStep_substitute {config : Config α} {isFallbackPool : Bool} {json json' : Bytes}
    {cache : TimestampCache} {failover : Failover α} {call call' : CallPc α}
    {event : Event α} {outcome : CallOutcome α} (hplain : cache.Plain)
    (hjson : json' = substitution.body json) (hcall : substitution.CallPcs json call call')
    (h : callStep config isFallbackPool json cache failover call event = some outcome) :
    ∃ outcome', callStep config isFallbackPool json' cache failover call' event =
        some outcome' ∧
      outcome'.failover = outcome.failover ∧ outcome'.cache = outcome.cache ∧
      substitution.CallPcs json outcome.pc outcome'.pc ∧
      List.Forall₂ (substitution.Attempts json) outcome.sent outcome'.sent := by
  obtain ⟨draft', rfl, hdraft⟩ := hcall
  cases callStep_move h with
  | @build now payload ts newCache hpayload =>
      obtain ⟨payload', hpayload', hpayloads⟩ :=
        createProcessorPayload_drafts hplain hjson hpayload
      refine ⟨⟨.built ⟨payload', ts⟩, failover, newCache, []⟩, ?_, rfl, rfl,
        ⟨⟨payload', ts⟩, rfl, ?_⟩, .nil⟩
      · simp only [CallPc.withDraft, callStep, hpayload']
      · rintro draft ⟨⟩
        exact ⟨rfl, hpayloads⟩
  | label draft => exact ⟨_, rfl, rfl, rfl, ⟨draft', rfl, hdraft⟩, .nil⟩
  | pair draft primary => exact ⟨_, rfl, rfl, rfl, ⟨draft', rfl, hdraft⟩, .nil⟩
  | send draft primary secondary reply =>
      exact ⟨_, rfl, rfl, rfl, ⟨draft', rfl, hdraft⟩,
        .cons ⟨rfl, rfl, (hdraft draft rfl).2⟩ .nil⟩
  | probe draft primary secondary reply =>
      exact ⟨_, rfl, rfl, rfl, ⟨draft', rfl, hdraft⟩, .nil⟩
  | handle draft primary secondary reply =>
      obtain ⟨hwith, hsome⟩ :=
        withDraft_afterPrimary config draft draft' primary secondary reply
      refine ⟨_, rfl, rfl, rfl, ⟨draft', hwith.symm, ?_⟩, .nil⟩
      intro other hother
      cases hsome.symm.trans hother
      exact hdraft draft rfl
  | sendSecondary draft secondary code reply =>
      exact ⟨_, rfl, rfl, rfl, ⟨draft', rfl, hdraft⟩,
        .cons ⟨rfl, rfl, (hdraft draft rfl).2⟩ .nil⟩
  | handleSecondary draft secondary code reply =>
      obtain ⟨hwith, hsome⟩ := withDraft_afterSecondary draft draft' secondary code reply
      refine ⟨_, rfl, rfl, rfl, ⟨draft', hwith.symm, ?_⟩, .nil⟩
      intro other hother
      cases hsome.symm.trans hother
      exact hdraft draft rfl

/-! ## Queues and the ledger -/

theorem Queues.enqueue {q q' : WorkerQueue Payment} {payment payment' : Payment}
    (h : substitution.Queues q q') (hpayment : substitution.Payments payment payment') :
    substitution.Queues (q.enqueue payment) (q'.enqueue payment') where
  size := h.size
  head := h.head
  tail := congrArg (· + 1) h.tail
  slots := by
    intro pos
    simp only [WorkerQueue.enqueue, h.tail, h.size]
    by_cases hpos : pos = q.tail.toNat % q.size
    · simpa [hpos] using hpayment
    · simpa [Function.update_of_ne hpos] using h.slots pos

theorem Queues.fetchNext {q q' next : WorkerQueue Payment} {payment : Payment}
    (h : substitution.Queues q q') (hfetch : q.fetchNext true = some (payment, next)) :
    ∃ payment' next', q'.fetchNext true = some (payment', next') ∧
      substitution.Payments payment payment' ∧ substitution.Queues next next' := by
  unfold WorkerQueue.fetchNext at hfetch ⊢
  rw [h.head, h.tail, h.size]
  split_ifs at hfetch ⊢
  simp only [Option.some.injEq, Prod.mk.injEq] at hfetch
  obtain ⟨rfl, rfl⟩ := hfetch
  exact ⟨_, _, rfl, h.slots _, rfl, rfl, rfl, h.slots⟩

theorem Queues.fetchNext_none {q q' : WorkerQueue Payment} (h : substitution.Queues q q')
    (hfetch : q.fetchNext true = none) : q'.fetchNext true = none := by
  rw [WorkerQueue.fetchNext_eq_none_iff] at hfetch ⊢
  rwa [h.head, h.tail]

theorem Drafts.amount {json : Bytes} {draft draft' : Draft}
    (h : substitution.Drafts json draft draft') :
    (extractAmount draft'.payload : Option α) = extractAmount draft.payload := by
  obtain ⟨-, requestedAt, hplain, hpayload, hpayload'⟩ := h
  rw [hpayload, hpayload', substitution.amount json requestedAt hplain]

/-! ## One step of the service -/

namespace Services

variable {config : Config α} {state state' next : Service α} {tid : Nat}
variable {thread thread' : Thread α}

theorem setThread (h : substitution.Services state state') {thread thread' : Thread α}
    (hthread : substitution.Threads thread thread') (tid : Nat) :
    substitution.Services (state.setThread tid thread) (state'.setThread tid thread') :=
  { h with threads := forall₂_set h.threads hthread tid }

theorem setPc (h : substitution.Services state state')
    (hthread : substitution.Threads thread thread') {pc pc' : Pc α}
    (hpc : substitution.Pcs pc pc') (tid : Nat) :
    substitution.Services (state.setPc tid thread pc) (state'.setPc tid thread' pc') := by
  have hmoved : substitution.Threads { thread with pc } { thread' with pc := pc' } :=
    ⟨hthread.workerId, hthread.isFallbackPool, hthread.cache, hthread.plain, hpc⟩
  exact h.setThread hmoved tid

theorem setQueue (h : substitution.Services state state') {q q' : WorkerQueue Payment}
    (hq : substitution.Queues q q') (index : Nat) :
    substitution.Services (state.setQueue index q) (state'.setQueue index q') :=
  { h with queues := forall₂_set h.queues hq index }

theorem accept (h : substitution.Services state state')
    (hthread : substitution.Threads thread thread') {body : Bytes} {raw raw' : RawPayment}
    (hraw : raw'.json = substitution.body raw.json) {queueIdx : Nat}
    (hnext : state.accept tid thread body raw queueIdx = some next) :
    ∃ next', state'.accept tid thread' (substitution.body body) raw' queueIdx =
        some next' ∧ substitution.Services next next' := by
  unfold Service.accept at hnext ⊢
  cases hq : state.queues[queueIdx]? with
  | none => simp [hq] at hnext
  | some q =>
      obtain ⟨q', hq', hqueue⟩ := forall₂_getElem? h.queues hq
      simp only [hq, Option.some.injEq] at hnext
      subst hnext
      have hpayment : substitution.Payments ⟨state.history.accepted.length + 1, raw⟩
          ⟨state'.history.accepted.length + 1, raw'⟩ :=
        ⟨by rw [h.accepted.length_eq], hraw⟩
      have hmoved := (h.setQueue (hqueue.enqueue hpayment) queueIdx).setPc hthread
        Pcs.exited tid
      simp only [hq']
      refine ⟨_, rfl, ?_⟩
      refine { hmoved with accepted := ?_, attempts := ?_ }
      · exact forall₂_append_singleton h.accepted ⟨hpayment, rfl⟩
      · refine h.attempts.imp ?_
        rintro entry entry' ⟨hserial, payment, ⟨body, haccepted⟩, hrest⟩
        exact ⟨hserial, payment, ⟨body, List.mem_append_left _ haccepted⟩, hrest⟩

theorem fetch (h : substitution.Services state state')
    (hthread : substitution.Threads thread thread')
    (hnext : state.fetch config tid thread = some next) :
    ∃ next', state'.fetch config tid thread' = some next' ∧
      substitution.Services next next' := by
  unfold Service.fetch at hnext ⊢
  rw [hthread.workerId]
  cases hq : state.queues[thread.workerId]? with
  | none => simp [hq] at hnext
  | some q =>
      obtain ⟨q', hq', hqueue⟩ := forall₂_getElem? h.queues hq
      simp only [hq] at hnext
      simp only [hq']
      cases hfetch : q.fetchNext true with
      | none =>
          simp only [hfetch, Option.some.injEq] at hnext
          subst hnext
          exact ⟨state', by simp only [hqueue.fetchNext_none hfetch], h⟩
      | some fetched =>
          obtain ⟨payment, rest⟩ := fetched
          obtain ⟨payment', rest', hfetch', hpayment, hrest⟩ := hqueue.fetchNext hfetch
          simp only [hfetch, Option.some.injEq] at hnext
          subst hnext
          simp only [hfetch']
          refine ⟨_, rfl, ?_⟩
          refine (h.setQueue hrest _).setPc hthread ?_ tid
          split_ifs
          · exact .fetched hpayment
          · exact .processing hpayment (.entered _) [] []

theorem finish (h : substitution.Services state state')
    (hthread : substitution.Threads thread thread') {payment payment' : Payment}
    (hpayment : substitution.Payments payment payment') {draft draft' : Draft}
    (hdraft : substitution.Drafts payment.raw.json draft draft') {result : ProcessorResult}
    {sent : List (Attempt α)} (sent' : List (Attempt α))
    (hnext : state.finish config tid thread payment draft result sent = some next) :
    ∃ next', state'.finish config tid thread' payment' draft' result sent' = some next' ∧
      substitution.Services next next' := by
  have hpc : substitution.Pcs (α := α) (if thread.isFallbackPool then .closing else .polling)
      (if thread'.isFallbackPool then .closing else .polling) := by
    rw [hthread.isFallbackPool]
    split_ifs
    · exact .closing
    · exact .polling
  have hmoved := h.setPc hthread hpc tid
  have hstore : ∀ processor, state'.ledger.storeProcessed config draft'.payload processor
      draft'.ts = state.ledger.storeProcessed config draft.payload processor draft.ts := by
    intro processor
    rw [Ledger.storeProcessed, Ledger.storeProcessed, Drafts.amount hdraft, h.ledger, hdraft.1]
  cases result with
  | tryAgain =>
      simp only [Service.finish] at hnext ⊢
      rw [hthread.workerId]
      cases hq : state.queues[thread.workerId]? with
      | none => simp [hq] at hnext
      | some q =>
          obtain ⟨q', hq', hqueue⟩ := forall₂_getElem? h.queues hq
          simp only [hq, Option.some.injEq] at hnext
          subst hnext
          simp only [hq']
          refine ⟨_, rfl, ?_⟩
          exact { hmoved.setQueue (hqueue.enqueue hpayment) thread.workerId with }
  | discard =>
      simp only [Service.finish, Option.some.injEq] at hnext ⊢
      subst hnext
      exact ⟨_, rfl, { hmoved with }⟩
  | default | fallback =>
      simp only [Service.finish, hstore] at hnext ⊢
      split at hnext
      · simp only [Option.some.injEq] at hnext ⊢
        subst hnext
        exact ⟨_, rfl, { hmoved with
          ledger := rfl
          stored := forall₂_append_singleton h.stored ⟨hpayment, rfl, hdraft.1, rfl⟩ }⟩
      · simp only [Option.some.injEq] at hnext ⊢
        subst hnext
        exact ⟨_, rfl, { h with queues := .nil, threads := .nil, terminated := rfl }⟩
      · simp at hnext

theorem advance (h : substitution.Services state state')
    (hthread : substitution.Threads thread thread') {payment payment' : Payment}
    (hpayment : substitution.Payments payment payment') (haccepted : state.Accepted payment)
    {call call' : CallPc α} (hcall : substitution.CallPcs payment.raw.json call call')
    {event : Event α} {outcome : CallOutcome α}
    (hstep : callStep config thread.isFallbackPool payment.raw.json thread.cache
      state.failover call event = some outcome) (sent sent' : List (Attempt α)) (tid : Nat) :
    ∃ outcome', callStep config thread'.isFallbackPool payment'.raw.json thread'.cache
        state'.failover call' event = some outcome' ∧
      substitution.Services (state.afterCall tid thread payment sent outcome)
        (state'.afterCall tid thread' payment' sent' outcome') := by
  obtain ⟨outcome', hstep', hfailover, hcache, hpc, hsent⟩ :=
    callStep_substitute hthread.plain hpayment.2 hcall hstep
  have hplain : outcome.cache.Plain := by
    rcases callStep_draft hstep with ⟨now, draft, -, -, -, -, hpayload⟩ | ⟨-, hsame, -⟩
    · exact (createProcessorPayload_eq_some hpayload).2.1 ▸
        TimestampCache.refresh_plain _ now hthread.plain
    · exact hsame ▸ hthread.plain
  have hmoved : substitution.Threads
      { thread with
        cache := outcome.cache
        pc := .processing payment outcome.pc (sent ++ outcome.sent) }
      { thread' with
        cache := outcome'.cache
        pc := .processing payment' outcome'.pc (sent' ++ outcome'.sent) } :=
    ⟨hthread.workerId, hthread.isFallbackPool, hcache, hplain,
      .processing hpayment hpc _ _⟩
  refine ⟨outcome', ?_, { h.setThread hmoved tid with failover := hfailover, attempts := ?_ }⟩
  · rw [hthread.isFallbackPool, hthread.cache, h.failover]
    exact hstep'
  · refine List.rel_append h.attempts ?_
    rw [List.forall₂_map_left_iff, List.forall₂_map_right_iff]
    exact hsent.imp fun attempt attempt' hattempt =>
      ⟨hpayment.1, payment, haccepted, rfl, hattempt⟩

theorem runThread (h : substitution.Services state state')
    (hthread : substitution.Threads thread thread')
    (haccepted : thread.pc.Holds state.Accepted) {event : Event α}
    (hnext : state.runThread config tid thread event = some next) :
    ∃ next', state'.runThread config tid thread' event = some next' ∧
      substitution.Services next next' := by
  have hpcs := hthread.pc
  unfold Service.runThread at hnext ⊢
  generalize hpc : thread.pc = pc at hnext hpcs haccepted
  generalize hpc' : thread'.pc = pc' at hpcs ⊢
  cases hpcs with
  | posting queueIdx hraw =>
      cases event with
      | tau => exact h.accept hthread hraw hnext
      | clock | wall | reply => cases hnext
  | starting =>
      cases event with
      | wall now =>
          cases hnext
          exact ⟨_, rfl, { h.setPc hthread Pcs.polling tid with lastFallback := rfl }⟩
      | tau | clock | reply => cases hnext
  | polling =>
      cases event with
      | tau => exact h.fetch hthread hnext
      | clock | wall | reply => cases hnext
  | fetched hpayment =>
      cases event with
      | wall now =>
          cases hnext
          exact ⟨_, rfl, h.setPc hthread (.timed hpayment now) tid⟩
      | tau | clock | reply => cases hnext
  | timed hpayment now =>
      cases event with
      | tau =>
          cases hnext
          refine ⟨_, rfl, h.setPc hthread ?_ tid⟩
          rw [h.lastFallback]
          exact .paced hpayment _
      | clock | wall | reply => cases hnext
  | paced hpayment elapsed =>
      cases event with
      | tau =>
          dsimp only at hnext ⊢
          rw [h.fallbackIsRunning]
          split_ifs at hnext ⊢
          · cases hnext
            exact ⟨_, rfl, h.setPc hthread (.launching hpayment) tid⟩
          · cases hnext
            exact ⟨_, rfl, h.setPc hthread
              (.processing hpayment (.entered _) [] []) tid⟩
      | clock | wall | reply => cases hnext
  | launching hpayment =>
      cases event with
      | tau =>
          cases hnext
          exact ⟨_, rfl,
            { h.setPc hthread (.spawning hpayment) tid with fallbackIsRunning := rfl }⟩
      | clock | wall | reply => cases hnext
  | spawning hpayment =>
      cases event with
      | tau =>
          cases hnext
          have hmoved := h.setPc hthread Pcs.polling tid
          refine ⟨_, rfl, { hmoved with threads := ?_ }⟩
          exact forall₂_append_singleton hmoved.threads
            ⟨hthread.workerId, rfl, rfl, TimestampCache.initial_plain,
              .processing hpayment (.entered _) [] []⟩
      | clock | wall | reply => cases hnext
  | @processing payment payment' call call' hpayment hcall sent sent' =>
      have hheld := haccepted payment rfl
      obtain ⟨draft', rfl, hdraft⟩ := hcall
      cases call with
      | returned draft result =>
          cases event with
          | tau => exact h.finish hthread hpayment (hdraft draft rfl) sent' hnext
          | clock | wall | reply => cases hnext
      | entered | built | labelled | ready | answered | handling | retrying
      | handlingSecondary =>
          dsimp only [CallPc.withDraft] at hnext ⊢
          split at hnext
          · cases hnext
          · rename_i outcome houtcome
            cases hnext
            obtain ⟨outcome', hstep', hmoved⟩ := h.advance hthread hpayment hheld
              ⟨draft', rfl, hdraft⟩ houtcome sent sent' tid
            dsimp only [CallPc.withDraft] at hstep'
            refine ⟨_, ?_, hmoved⟩
            rw [hstep']
            rfl
  | closing =>
      cases event with
      | tau =>
          cases hnext
          exact ⟨_, rfl,
            { h.setPc hthread Pcs.stamping tid with fallbackIsRunning := rfl }⟩
      | clock | wall | reply => cases hnext
  | stamping =>
      cases event with
      | wall now =>
          cases hnext
          exact ⟨_, rfl, { h.setPc hthread Pcs.exited tid with lastFallback := rfl }⟩
      | tau | clock | reply => cases hnext
  | exited => cases event <;> cases hnext

theorem post (h : substitution.Services state state') {body : Bytes}
    (hnext : Service.step config state (.post body) = some next) :
    ∃ next', Service.step config state' (.post (substitution.body body)) = some next' ∧
      substitution.Services next next' := by
  simp only [Service.step] at hnext ⊢
  rw [h.terminated]
  split_ifs at hnext ⊢
  cases hraw : RawPayment.ofBody body with
  | none => simp [hraw] at hnext
  | some raw =>
      have hfits : body.length ≤ 70 := by
        rw [← RawPayment.ofBody_isSome, hraw]
        rfl
      obtain ⟨raw', hraw'⟩ := Option.isSome_iff_exists.mp
        ((RawPayment.ofBody_isSome _).mpr (substitution.fits body hfits))
      have hjson : raw'.json = substitution.body raw.json := by
        rw [RawPayment.json_ofBody hraw', RawPayment.json_ofBody hraw]
      simp only [hraw, Option.some.injEq] at hnext
      subst hnext
      simp only [hraw']
      refine ⟨_, rfl, ?_⟩
      rw [h.queueIndex, ← h.queues.length_eq]
      refine { h with queueIndex := rfl, terminated := rfl, threads := ?_ }
      exact forall₂_append_singleton h.threads
        ⟨rfl, rfl, rfl, TimestampCache.initial_plain, .posting _ hjson⟩

theorem step (h : substitution.Services state state')
    (hheld : ∀ thread ∈ state.threads, thread.pc.Holds state.Accepted) {action : Action α}
    (hnext : Service.step config state action = some next) :
    ∃ next', Service.step config state' (action.substitute substitution) = some next' ∧
      substitution.Services next next' := by
  cases action with
  | post body => exact h.post hnext
  | run tid event =>
      simp only [Service.step, Action.substitute] at hnext ⊢
      rw [h.terminated]
      split_ifs at hnext ⊢
      cases hthread : state.threads[tid]? with
      | none => simp [hthread] at hnext
      | some thread =>
          obtain ⟨thread', hthread', hthreads⟩ := forall₂_getElem? h.threads hthread
          simp only [hthread] at hnext
          simp only [hthread']
          exact h.runThread hthreads (hheld thread (List.mem_of_getElem? hthread)) hnext

theorem initial (config : Config α) (processedStart : UInt64) :
    substitution.Services (Service.initial config processedStart)
      (Service.initial config processedStart) := by
  have hempty : substitution.Payments Payment.empty Payment.empty :=
    ⟨rfl, ((substitution.eq_nil_iff []).mpr rfl).symm⟩
  have hqueue : ∀ q ∈ (Service.initial config processedStart).queues,
      substitution.Queues q q := by
    intro q hq
    rw [List.eq_of_mem_replicate hq]
    exact ⟨rfl, rfl, rfl, fun _ => hempty⟩
  have hthread : ∀ thread ∈ (Service.initial config processedStart).threads,
      substitution.Threads thread thread := by
    intro thread hthread
    obtain ⟨worker, -, rfl⟩ := List.mem_map.mp hthread
    exact ⟨rfl, rfl, rfl, TimestampCache.initial_plain, .starting⟩
  exact
    { failover := rfl
      queues := List.forall₂_same.mpr hqueue
      queueIndex := rfl
      ledger := rfl
      fallbackIsRunning := rfl
      lastFallback := rfl
      terminated := rfl
      threads := List.forall₂_same.mpr hthread
      accepted := .nil
      attempts := .nil
      stored := .nil }

end Services

/-! ## Whole runs -/

theorem execute_substitute (substitution : Substitution α) {config : Config α}
    {processedStart : UInt64} {actions : List (Action α)} {state : Service α}
    (hrun : execute (Service.step config) (Service.initial config processedStart) actions =
      some state) :
    ∃ state', execute (Service.step config) (Service.initial config processedStart)
        (actions.map (Action.substitute substitution)) = some state' ∧
      substitution.Services state state' := by
  have hanswers : ∀ (state state' : Service α) (action action' : Action α)
      (next : Service α),
      state.Regular config processedStart ∧ substitution.Services state state' →
      action' = action.substitute substitution →
      Service.step config state action = some next →
        ∃ next', Service.step config state' action' = some next' ∧
          next.Regular config processedStart ∧ substitution.Services next next' := by
    rintro state state' action _ next ⟨hregular, h⟩ rfl hstep
    obtain ⟨next', hstep', hnext⟩ := h.step hregular.held hstep
    exact ⟨next', hstep', Service.step_regular hregular hstep, hnext⟩
  have halong : List.Forall₂ (fun action action' => action' = action.substitute substitution)
      actions (actions.map (Action.substitute substitution)) := by
    rw [List.forall₂_map_right_iff, List.forall₂_same]
    exact fun _ _ => rfl
  obtain ⟨state', hrun', -, h⟩ := execute_lockstep hanswers
    ⟨Service.initial_regular config processedStart, Services.initial config processedStart⟩
    halong hrun
  exact ⟨state', hrun', h⟩

end Substitution

end RinhaBackend
