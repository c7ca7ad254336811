import RinhaBackend.Replies

/-!
# The ledger agrees with the processors

The label, the second and the amount of a stored payment travel by three routes:
the label is read before the send, the second is returned next to a text that a
thread formats at most once per second, and the amount is searched for in the
payload again.  This module follows all three through every interleaving and
shows that each bucket counts the attempts its own processor answered ok in its
own second.
-/

namespace RinhaBackend

open Foundation
open Foundation.Json

variable {α : Type} [Double α]

/-! ## Labels -/

def CallPc.Direct : CallPc α → Prop
  | .labelled _ primary | .ready _ primary _ => primary = .default
  | .answered _ primary _ _ | .handling _ primary _ _ => primary = .default
  | .retrying _ _ _ | .handlingSecondary _ _ _ _ => False
  | .returned _ result => result ≠ .fallback
  | .entered | .built _ => True

def Pc.Direct : Pc α → Prop
  | .fetched _ | .timed _ _ | .paced _ _ | .launching _ | .spawning _ => False
  | .processing _ call _ => call.Direct
  | _ => True

structure Thread.Direct (thread : Thread α) : Prop where
  pool : thread.isFallbackPool = false
  pc : thread.pc.Direct

theorem callStep_direct {config : Config α} {json : Bytes} {cache : TimestampCache}
    {failover : Failover α} {pc : CallPc α} {event : Event α} {outcome : CallOutcome α}
    (hdisabled : config.fallbackEnabled = false)
    (hprimary : failover.primaryLabel = .default) (hdirect : pc.Direct)
    (h : callStep config false json cache failover pc event = some outcome) :
    outcome.pc.Direct ∧ outcome.failover.primaryLabel = .default := by
  cases callStep_move h with
  | build => exact ⟨trivial, hprimary⟩
  | label => exact ⟨hprimary, hprimary⟩
  | pair | send | probe => exact ⟨hdirect, hprimary⟩
  | handle draft primary secondary reply =>
      obtain rfl : primary = .default := hdirect
      refine ⟨?_, by simpa [Failover.handleResponse, hdisabled] using hprimary⟩
      unfold afterPrimary
      split_ifs <;> simp_all [CallPc.Direct]
  | sendSecondary | handleSecondary => exact hdirect.elim

omit [Double α] in
theorem side_eq_self {config : Config α} {label : ProcessorResult}
    (hlabel : label.IsProcessor)
    (h : config.fallbackEnabled = false → label ≠ .fallback) :
    Ledger.side config label = label := by
  cases henabled : config.fallbackEnabled with
  | true => rcases hlabel with rfl | rfl <;> simp [Ledger.side, henabled]
  | false =>
      rcases hlabel with rfl | rfl
      · simp [Ledger.side, henabled]
      · exact absurd rfl (h henabled)

namespace Service

variable {config : Config α} {processedStart : UInt64} {state next : Service α}
variable {action : Action α}

structure Direct (state : Service α) : Prop where
  primary : state.failover.primaryLabel = .default
  threads : ∀ thread ∈ state.threads, thread.Direct

omit [Double α] in
theorem Control.keeps_direct {pc pc' : Pc α} (h : Control pc pc') (hdirect : pc.Direct) :
    pc'.Direct := by
  cases h <;> trivial

omit [Double α] in
theorem afterProcess_direct (thread : Thread α) : (afterProcess thread).Direct := by
  unfold afterProcess
  split_ifs <;> trivial

theorem initial_direct (config : Config α) (processedStart : UInt64) :
    (initial config processedStart).Direct := by
  refine ⟨rfl, ?_⟩
  intro thread hthread
  obtain ⟨worker, -, rfl⟩ := List.mem_map.mp hthread
  exact ⟨rfl, trivial⟩

theorem Move.direct (hmove : Move config state action next)
    (hdisabled : config.fallbackEnabled = false) (h : state.Direct) : next.Direct := by
  have hset : ∀ {tid : Nat} {thread : Thread α} {cache : TimestampCache} {pc : Pc α},
      state.threads[tid]? = some thread → pc.Direct →
      ∀ other ∈ state.threads.set tid { thread with cache, pc }, other.Direct :=
    fun hthread hpc =>
      all_set ⟨(h.threads _ (List.mem_of_getElem? hthread)).pool, hpc⟩ h.threads
  cases hmove with
  | post hraw =>
      exact ⟨h.primary, all_append_singleton ⟨rfl, trivial⟩ h.threads⟩
  | accept hthread hpc hq => exact ⟨h.primary, hset hthread trivial⟩
  | fetch hthread hpc hq hfetch hnext =>
      rcases hnext with ⟨henabled, -⟩ | rfl
      · simp [hdisabled] at henabled
      · exact ⟨h.primary, hset hthread trivial⟩
  | control hthread hcontrol =>
      have hold := (h.threads _ (List.mem_of_getElem? hthread)).pc
      exact ⟨h.primary, hset hthread (hcontrol.keeps_direct hold)⟩
  | spawn hthread hpc =>
      have hold := (h.threads _ (List.mem_of_getElem? hthread)).pc
      rw [hpc] at hold
      exact hold.elim
  | call hthread hpc hcall =>
      have hold := h.threads _ (List.mem_of_getElem? hthread)
      have hdirect := hold.pc
      rw [hpc] at hdirect
      rw [hold.pool] at hcall
      have hnext := callStep_direct hdisabled h.primary hdirect hcall
      exact ⟨hnext.2, hset hthread hnext.1⟩
  | requeue hthread hpc hq =>
      exact ⟨h.primary, hset hthread (afterProcess_direct _)⟩
  | discard hthread hpc => exact ⟨h.primary, hset hthread (afterProcess_direct _)⟩
  | store hthread hpc hprocessor hamount =>
      exact ⟨h.primary, hset hthread (afterProcess_direct _)⟩
  | idle => exact h
  | abort => exact ⟨h.primary, by simp⟩

end Service

/-! ## Stamps -/

def Compact (body : Bytes) : Prop := ∃ object : PaymentObject, body = object.render

/-- The draft stamps a payment object with a reading that the store covers. -/
def StampedObject (processedStart : UInt64) (draft : Draft) : Prop :=
  ∃ (object : PaymentObject) (now : Nat),
    draft.payload = stampedPayload object.members (formatRequestedAt (gmtimeR now)) ∧
    draft.ts = UInt64.ofNat now ∧ processedStart.toNat ≤ now ∧
    now < processedStart.toNat + processedCapacity

theorem createProcessorPayload_stamped {cache cache' : TimestampCache} {now : Nat}
    {object : PaymentObject} {payload : Bytes} {ts : UInt64} (hcache : cache.Valid)
    (hnow : 0 < now)
    (h : createProcessorPayload cache now object.render = some (payload, ts, cache')) :
    payload = stampedPayload object.members (formatRequestedAt (gmtimeR now)) := by
  obtain ⟨-, rfl, -, rfl⟩ := createProcessorPayload_eq_some h
  rw [dropLast_render, TimestampCache.refresh_requestedAt hcache hnow]
  simp [stampedPayload]

theorem StampedObject.carriesAmount {processedStart : UInt64} {draft : Draft}
    (h : StampedObject processedStart draft) :
    ∃ number, CarriesAmount draft.payload number := by
  obtain ⟨object, now, hpayload, -⟩ := h
  exact ⟨object.amount, object, _, hpayload, rfl⟩

theorem StampedObject.carriesSecond_iff {processedStart : UInt64} {draft : Draft}
    (h : StampedObject processedStart draft) (slot : Nat) :
    CarriesSecond draft.payload (processedStart.toNat + slot) ↔
      (draft.ts - processedStart).toNat = slot := by
  obtain ⟨object, now, hpayload, hts, hstart, hend⟩ := h
  rw [hpayload, carriesSecond_stampedPayload, hts,
    Service.storeIndex_ofNat hstart hend]
  omega

/-- A handler that is about to queue a body holds one of these. -/
def Pc.Posting (bodies : Bytes → Prop) : Pc α → Prop
  | .posting body _ _ => bodies body
  | _ => True

structure Thread.Prepared (thread : Thread α) : Prop where
  cache : thread.cache.Valid
  posted : ∀ body raw queueIdx, thread.pc = .posting body raw queueIdx → Compact body

namespace Service

/-- Compact bodies of at most 70 bytes, and positive readings inside the store. -/
def LedgerInput (processedStart : UInt64) : Action α → Prop
  | .post body => body.length ≤ 70 ∧ Compact body
  | .run _ (.clock now) =>
      0 < now ∧ processedStart.toNat ≤ now ∧
        now < processedStart.toNat + processedCapacity
  | _ => True

variable {config : Config α} {processedStart : UInt64} {state next : Service α}
variable {action : Action α}

theorem Move.prepared (hmove : Move config state action next)
    (hinput : LedgerInput processedStart action)
    (h : ∀ thread ∈ state.threads, thread.Prepared) :
    ∀ thread ∈ next.threads, thread.Prepared := by
  have hcaches := hmove.caches TimestampCache.initial_valid
    (fun _ now hcache => TimestampCache.refresh_valid hcache now)
    fun thread hthread => (h thread hthread).cache
  have hposting : ∀ thread ∈ state.threads, thread.pc.Posting Compact := by
    intro thread hthread
    cases hpc : thread.pc with
    | posting body raw queueIdx => exact (h thread hthread).posted body raw queueIdx hpc
    | _ => trivial
  have hposted : ∀ thread ∈ next.threads, thread.pc.Posting Compact := by
    refine hmove.allPcs ?_ ?_ (fun _ => trivial) (fun _ _ _ _ _ _ _ _ _ _ _ => trivial)
      hposting
    · rintro body raw queueIdx rfl -
      exact hinput.2
    · intro pc hpc
      cases pc with
      | posting | processing => cases hpc
      | _ => trivial
  intro thread hthread
  refine ⟨hcaches thread hthread, fun body raw queueIdx hpc => ?_⟩
  have hbody := hposted thread hthread
  rwa [hpc] at hbody

theorem Move.compact (hmove : Move config state action next)
    (hprepared : ∀ thread ∈ state.threads, thread.Prepared)
    (h : ∀ entry ∈ state.history.accepted, Compact entry.2) :
    ∀ entry ∈ next.history.accepted, Compact entry.2 := by
  cases hmove with
  | accept hthread hpc hq =>
      refine all_append_singleton ?_ h
      exact (hprepared _ (List.mem_of_getElem? hthread)).posted _ _ _ hpc
  | _ => exact h

/-! ## The invariant -/

structure Filed (config : Config α) (entry : StoreEntry α) : Prop where
  side : Ledger.side config entry.processor = entry.processor
  amount : extractAmount entry.draft.payload = some entry.amount

theorem Move.filed (hmove : Move config state action next)
    (hdirect : config.fallbackEnabled = false → state.Direct)
    (h : ∀ entry ∈ state.history.stored, Filed config entry) :
    ∀ entry ∈ next.history.stored, Filed config entry := by
  cases hmove with
  | store hthread hpc hprocessor hamount =>
      refine all_append_singleton
        ⟨side_eq_self hprocessor fun hdisabled => ?_, hamount⟩ h
      have hpcDirect := ((hdirect hdisabled).threads _ (List.mem_of_getElem? hthread)).pc
      rw [hpc] at hpcDirect
      exact hpcDirect
  | _ => exact h

structure Faithful (config : Config α) (processedStart : UInt64) (state : Service α) :
    Prop where
  regular : state.Regular config processedStart
  direct : config.fallbackEnabled = false → state.Direct
  prepared : ∀ thread ∈ state.threads, thread.Prepared
  compact : ∀ entry ∈ state.history.accepted, Compact entry.2
  drafts : ∀ thread ∈ state.threads,
    thread.pc.Drafted fun _ => StampedObject processedStart
  stored : ∀ entry ∈ state.history.stored, StampedObject processedStart entry.draft
  filed : ∀ entry ∈ state.history.stored, Filed config entry
  replies : state.terminated = false →
    state.answered = state.storedReplies + pendingReplies state.threads

theorem initial_faithful (config : Config α) (processedStart : UInt64) :
    (initial config processedStart).Faithful config processedStart where
  regular := initial_regular config processedStart
  direct _ := initial_direct config processedStart
  prepared := by
    intro thread hthread
    obtain ⟨worker, -, rfl⟩ := List.mem_map.mp hthread
    exact ⟨TimestampCache.initial_valid, by simp⟩
  compact := by simp [initial]
  drafts := by simp [initial, Pc.Drafted]
  stored := by simp [initial]
  filed := by simp [initial]
  replies _ := by
    rw [pendingReplies_of_quiet (by simp [Quiet, initial, Pc.pendingOk])]
    rfl

theorem Faithful.stamps (h : state.Faithful config processedStart) {thread : Thread α}
    (hthread : thread ∈ state.threads) {payment : Payment} {now : Nat} {draft : Draft}
    {cache : TimestampCache} (hpayment : thread.pc.payment = some payment)
    (hnow : 0 < now) (hstart : processedStart.toNat ≤ now)
    (hend : now < processedStart.toNat + processedCapacity)
    (hpayload : createProcessorPayload thread.cache now payment.raw.json =
      some (draft.payload, draft.ts, cache)) : StampedObject processedStart draft := by
  obtain ⟨body, hbody⟩ := h.regular.held thread hthread payment hpayment
  obtain ⟨object, hobject⟩ := h.compact _ hbody
  have hjson : payment.raw.json = object.render :=
    (RawPayment.json_ofBody (h.regular.bodies _ hbody)).trans hobject
  have hts := (createProcessorPayload_eq_some hpayload).2.2.1
  rw [hjson] at hpayload
  have hstamped := createProcessorPayload_stamped (h.prepared thread hthread).cache hnow
    hpayload
  exact ⟨object, now, hstamped, hts, hstart, hend⟩

theorem step_faithful (h : state.Faithful config processedStart)
    (hinput : LedgerInput processedStart action)
    (hstep : step config state action = some next) :
    next.Faithful config processedStart := by
  have hmove := step_move hstep
  exact
    { regular := step_regular h.regular hstep
      direct := fun hdisabled => hmove.direct hdisabled (h.direct hdisabled)
      prepared := hmove.prepared hinput h.prepared
      compact := hmove.compact h.prepared h.compact
      drafts := by
        refine hmove.drafted ?_ h.drafts
        rintro thread hthread tid payment now draft cache rfl hpayment hpayload
        exact h.stamps hthread hpayment hinput.1 hinput.2.1 hinput.2.2 hpayload
      stored := hmove.stored h.drafts h.stored
      filed := hmove.filed h.direct h.filed
      replies := fun hrunning =>
        hmove.replies hrunning h.regular.pcs (h.replies (running_of_step hstep)) }

theorem execute_faithful {actions : List (Action α)}
    (hrun : execute (step config) (initial config processedStart) actions = some state)
    (hinputs : ∀ action ∈ actions, LedgerInput processedStart action) :
    state.Faithful config processedStart :=
  execute_invariant (fun _ _ _ h hinput hstep => step_faithful h hinput hstep)
    (initial_faithful config processedStart) (along_of_forall hinputs _) hrun

/-! ## The agreement -/

open Classical in
/-- The payloads with a `requestedAt` in `second` that `processor` answered ok. -/
noncomputable def answeredBy (state : Service α) (processor : ProcessorResult)
    (second : Nat) : Multiset Bytes :=
  (state.answered.filter fun reply =>
    reply.1 = processor ∧ CarriesSecond reply.2 second).map Prod.snd

theorem Faithful.entriesAt_payloads (h : state.Faithful config processedStart)
    (hquiet : state.Quiet) (processor : ProcessorResult) (slot : Fin processedCapacity) :
    state.answeredBy processor (processedStart.toNat + slot.val) =
      (entriesAt config processedStart state.history.stored processor slot).map
        fun entry => entry.draft.payload := by
  classical
  have hanswered : state.answered = state.storedReplies := by
    rw [h.replies hquiet.1, pendingReplies_of_quiet hquiet, add_zero]
  rw [answeredBy, hanswered, storedReplies, Multiset.filter_coe, Multiset.map_coe,
    List.filter_map, List.map_map]
  refine congrArg _ (congrArg _ (List.filter_congr fun entry hentry => ?_))
  have hfiled := h.filed entry hentry
  have hsecond := (h.stored entry hentry).carriesSecond_iff slot.val
  simp only [Function.comp_apply, hsecond, hfiled.side]

/--
With compact bodies and positive clock readings inside the store, whenever no
payment is between its ok reply and its store, each bucket of each processor
counts, in 64 bits, the attempts that this processor answered ok with a `requestedAt`
in the bucket's second, and its amount is the sum, accumulated in the order of the
stores, of the doubles that the amounts in those payloads convert to.
-/
theorem ledger_agreement {actions : List (Action α)}
    (hrun : execute (step config) (initial config processedStart) actions = some state)
    (hinputs : ∀ action ∈ actions, LedgerInput processedStart action)
    (hquiet : state.Quiet) {processor : ProcessorResult}
    (hprocessor : processor.IsProcessor) (slot : Fin processedCapacity) :
    let second := processedStart.toNat + slot.val
    let entries := entriesAt config processedStart state.history.stored processor slot
    (entries.map fun entry => entry.draft.payload : Multiset Bytes) =
      state.answeredBy processor second ∧
    (state.ledger.bucket processor slot).totalRequests =
      UInt64.ofNat (state.answeredBy processor second).card ∧
    ((state.answeredBy processor second).card < 2 ^ 64 →
      (state.ledger.bucket processor slot).totalRequests.toNat =
        (state.answeredBy processor second).card) ∧
    (state.ledger.bucket processor slot).totalAmount =
      Double.sum (entries.map StoreEntry.amount) ∧
    ∀ entry ∈ entries, ∃ number : Number, CarriesAmount entry.draft.payload number ∧
      Double.ofDecimal number.negative number.mantissa number.scale =
        some entry.amount := by
  intro second entries
  have hfaithful := execute_faithful hrun hinputs
  have hpayloads := hfaithful.entriesAt_payloads hquiet processor slot
  have hbucket := hfaithful.regular.buckets processor hprocessor slot
  have hcount : (state.ledger.bucket processor slot).totalRequests =
      UInt64.ofNat (state.answeredBy processor second).card := by
    rw [hpayloads, hbucket]
    simp [Summary.ofAmounts]
  refine ⟨hpayloads.symm, hcount, fun hfits => ?_, ?_, ?_⟩
  · rw [hcount, UInt64.toNat_ofNat_of_lt' hfits]
  · rw [hbucket]
    rfl
  · intro entry hentry
    have hstored : entry ∈ state.history.stored := List.mem_of_mem_filter hentry
    obtain ⟨number, hnumber⟩ := (hfaithful.stored entry hstored).carriesAmount
    refine ⟨number, hnumber, ?_⟩
    rw [← number.stod_render, ← extractAmount_of_carriesAmount hnumber]
    exact (hfaithful.filed entry hstored).amount

theorem settle_ledgerInput (reply : Reply Float) :
    ∀ action ∈ settle 1751328010 reply, LedgerInput 1751328000 action := by
  have hcompact : Compact samplePayment.render := ⟨samplePayment, rfl⟩
  have hlength : samplePayment.render.length ≤ 70 := by decide
  have hcapacity : processedCapacity = 3000 := rfl
  simp [settle, postAndFetch, answer, LedgerInput, hcompact, hlength, hcapacity]

theorem ledger_agreement_settled :
    let state := (settled 1751328010).get settled_in_time
    (state.ledger.bucket .default ⟨10, by decide⟩).totalRequests = 1 ∧
      (state.answeredBy .default ((1751328000 : UInt64).toNat + 10)).card = 1 := by
  have hcount : ((settled 1751328010).get settled_in_time |>.ledger.bucket .default
      ⟨10, by decide⟩).totalRequests = 1 := by decide +kernel
  have hagree := ledger_agreement (Option.some_get settled_in_time).symm
    (settle_ledgerInput _) (by decide +kernel) (Or.inl rfl) ⟨10, by decide⟩
  refine ⟨hcount, ?_⟩
  rw [← hagree.1]
  decide +kernel

/-- Payments of 0.1 and 0.2, neither of which is a double. -/
def tenthPayment : PaymentObject :=
  { samplePayment with amount := ⟨false, .zero, some (lastDigit 1, []), none⟩ }

def fifthPayment : PaymentObject :=
  { samplePayment with amount := ⟨false, .zero, some (lastDigit 2, []), none⟩ }

def roundedRun : Option (Service Float) :=
  execute (step (singleWorker Float)) (initial (singleWorker Float) 1751328000)
    (postAndFetch Float tenthPayment.render ++ answer 1751328010 (.ofCurl true 200 1) ++
      [.post fifthPayment.render, .run 2 .tau, .run 0 .tau] ++
      answer 1751328010 (.ofCurl true 200 1))

theorem roundedRun_isSome : roundedRun.isSome = true := by decide +kernel

def rounded : Service Float := roundedRun.get roundedRun_isSome

/-- A service started at the epoch, whose clock still reads zero. -/
def epochRun : Option (Service Float) :=
  execute (step (singleWorker Float)) (initial (singleWorker Float) 0)
    (settle 0 (.ofCurl true 200 1))

theorem epochRun_isSome : epochRun.isSome = true := by decide +kernel

def atEpoch : Service Float := epochRun.get epochRun_isSome

def paidPayload (object : PaymentObject) : Bytes :=
  stampedPayload object.members (formatRequestedAt (gmtimeR 1751328010))

/--
The amount of a bucket can differ from the exact sum of the two amounts answered
in its second, and at clock reading zero the payload is sent with an empty stamp.
-/
theorem exact_agreement_fails :
    (rounded.Quiet ∧
      rounded.answeredBy .default 1751328010 =
        {paidPayload tenthPayment, paidPayload fifthPayment} ∧
      CarriesAmount (paidPayload tenthPayment) tenthPayment.amount ∧
      CarriesAmount (paidPayload fifthPayment) fifthPayment.amount ∧
      Double.value (rounded.ledger.bucket .default ⟨10, by decide⟩).totalAmount ≠
        some (tenthPayment.amount.value + fifthPayment.amount.value)) ∧
    atEpoch.Quiet ∧ (atEpoch.ledger.bucket .default ⟨0, by decide⟩).totalRequests = 1 ∧
      atEpoch.answeredBy .default 0 = 0 := by
  classical
  refine ⟨⟨by decide +kernel, ?_, ⟨_, _, rfl, rfl⟩, ⟨_, _, rfl, rfl⟩, by decide +kernel⟩,
    by decide +kernel, by decide +kernel, ?_⟩
  · have hanswered : rounded.answered =
        {(.default, paidPayload tenthPayment), (.default, paidPayload fifthPayment)} := by
      decide +kernel
    have hsecond : ∀ object, CarriesSecond (paidPayload object) 1751328010 :=
      fun object => (carriesSecond_stampedPayload object.members _ _).mpr rfl
    rw [answeredBy, hanswered, Multiset.filter_eq_self.mpr]
    · rfl
    · simp [hsecond]
  · have hanswered : atEpoch.answered =
        {(.default, stampedPayload samplePayment.members [])} := by decide +kernel
    rw [answeredBy, hanswered, Multiset.filter_eq_nil.mpr]
    · rfl
    · simp [not_carriesSecond_empty]

end Service

end RinhaBackend
