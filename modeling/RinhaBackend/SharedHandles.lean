import RinhaBackend.Agreement
import RinhaBackend.Foundation.Mailbox
import RinhaBackend.Switching

/-!
# Curl handles shared by a worker and its probe

A fallback-pool thread carries the id of the worker that detached it and looks up the
same two `CurlHandle` objects.  `send_to_processor` sets `CURLOPT_POSTFIELDS` on the
handle and then performs the request, in two steps; the handle keeps the last pointer
set.  The service is run with its handles and a log of the requests as they went out.
-/

namespace RinhaBackend

open Foundation

/-- The payload of one call, as `CURLOPT_POSTFIELDS` points at it. -/
structure Body where
  payment : Payment
  payload : Bytes
  deriving DecidableEq

/-- A request as it went out on the handle of `processor`, sent for `own`. -/
structure Request where
  processor : ProcessorResult
  own : Body
  body : Body
  performed : Bool
  code : Int

def Request.answeredOk (request : Request) : Prop :=
  request.performed = true ∧ request.code = 200

instance (request : Request) : Decidable request.answeredOk :=
  inferInstanceAs (Decidable (_ ∧ _))

/-- The handle that `send_to_processor` takes for a label. -/
def ProcessorResult.handle (processor : ProcessorResult) : ProcessorResult :=
  if processor = .default then .default else .fallback

variable {α : Type}

/-- The label and the payload of the `send_to_processor` that comes next. -/
def CallPc.sends : CallPc α → Option (ProcessorResult × Bytes)
  | .ready draft primary _ => some (primary, draft.payload)
  | .retrying draft secondary _ => some (secondary, draft.payload)
  | _ => none

def Pc.sends : Pc α → Option (ProcessorResult × Body)
  | .processing payment call _ =>
      call.sends.map fun (processor, payload) => (processor, ⟨payment, payload⟩)
  | _ => none

def Action.isReply : Action α → Bool
  | .run _ (.reply _) => true
  | _ => false

/-- `live worker label` says whether `curl_easy_init` gave the handle. -/
structure HandledService (α : Type) where
  service : Service α
  live : Nat → ProcessorResult → Bool
  handles : Mailboxes Nat (Nat × ProcessorResult) Body
  requests : List Request

inductive HandledAction (α : Type) where
  | act (action : Action α)
  | setPayload (tid : Nat)
  | perform (tid : Nat) (performed : Bool) (code : Int) (elapsed : α)
  | noHandle (tid : Nat)

namespace HandledService

variable [Double α]

def initial (config : Config α) (processedStart : UInt64)
    (live : Nat → ProcessorResult → Bool) : HandledService α :=
  ⟨.initial config processedStart, live, .empty, []⟩

/-- The handle and the body of the thread's next `send_to_processor`. -/
def sending (state : HandledService α) (tid : Nat) :
    Option ((Nat × ProcessorResult) × Body) :=
  match state.service.threads[tid]? with
  | none => none
  | some thread =>
      thread.pc.sends.map fun (processor, body) =>
        ((thread.workerId, processor.handle), body)

def setPayload (state : HandledService α) (tid : Nat) : Option (HandledService α) :=
  match state.sending tid with
  | none => none
  | some (key, body) =>
      if state.service.terminated || !state.live key.1 key.2 ||
          (state.handles.holdOf tid).isSome then none
      else some { state with handles := state.handles.put tid key body }

def perform (config : Config α) (state : HandledService α) (tid : Nat)
    (performed : Bool) (code : Int) (elapsed : α) : Option (HandledService α) :=
  match state.sending tid, state.handles.holdOf tid with
  | some (key, own), some _ =>
      match state.handles.slots key,
          Service.step config state.service
            (.run tid (.reply (.ofCurl performed code elapsed))) with
      | some body, some service =>
          some
            { state with
              service
              handles := state.handles.release tid
              requests := state.requests ++ [⟨key.2, own, body, performed, code⟩] }
      | _, _ => none
  | _, _ => none

def noHandle (config : Config α) (state : HandledService α) (tid : Nat) :
    Option (HandledService α) :=
  match state.sending tid with
  | none => none
  | some (key, _) =>
      if state.live key.1 key.2 then none
      else
        match Service.step config state.service
            (.run tid (.reply ⟨false, 0, Double.zero⟩)) with
        | none => none
        | some service => some { state with service }

def step (config : Config α) (state : HandledService α) :
    HandledAction α → Option (HandledService α)
  | .act action =>
      if action.isReply then none
      else
        match Service.step config state.service action with
        | none => none
        | some service => some { state with service }
  | .setPayload tid => state.setPayload tid
  | .perform tid performed code elapsed => state.perform config tid performed code elapsed
  | .noHandle tid => state.noHandle config tid

end HandledService

/-! ## Threads about to send -/

section Sends

variable [Double α] {config : Config α}

theorem callStep_sends {isFallbackPool : Bool} {json : Bytes} {cache : TimestampCache}
    {failover : Failover α} {pc : CallPc α} {event : Event α} {outcome : CallOutcome α}
    {label : ProcessorResult × Bytes} (hsends : pc.sends = some label)
    (h : callStep config isFallbackPool json cache failover pc event = some outcome) :
    ∃ reply, event = .reply reply := by
  cases callStep_move h with
  | send | sendSecondary => exact ⟨_, rfl⟩
  | build | label | pair | probe | handle | handleSecondary =>
      simp [CallPc.sends] at hsends

theorem callStep_attempt {isFallbackPool : Bool} {json : Bytes} {cache : TimestampCache}
    {failover : Failover α} {pc : CallPc α} {event : Event α} {outcome : CallOutcome α}
    (h : callStep config isFallbackPool json cache failover pc event = some outcome)
    {attempt : Attempt α} (hattempt : attempt ∈ outcome.sent) :
    event = .reply attempt.reply ∧
      pc.sends = some (attempt.processor, attempt.payload) := by
  cases callStep_move h with
  | send | sendSecondary =>
      rw [List.mem_singleton.mp hattempt]
      exact ⟨rfl, rfl⟩
  | build | label | pair | probe | handle | handleSecondary => simp at hattempt

omit [Double α] in
theorem sends_of_control {source target : Pc α} (h : Service.Control source target) :
    source.sends = none := by
  cases h <;> rfl

/-- A thread about to send waits for its reply. -/
theorem step_keeps_sender {state next : Service α} {action : Action α} {tid : Nat}
    {thread : Thread α} {label : ProcessorResult × Body}
    (hthread : state.threads[tid]? = some thread) (hsends : thread.pc.sends = some label)
    (haction : ∀ reply, action ≠ .run tid (.reply reply))
    (hstep : Service.step config state action = some next)
    (hrunning : next.terminated = false) : next.threads[tid]? = some thread := by
  have hset : ∀ {other : Nat} {mover new : Thread α},
      state.threads[other]? = some mover → mover.pc.sends = none →
      (state.threads.set other new)[tid]? = some thread := by
    intro other mover new hmover hnone
    rw [List.getElem?_set_ne, hthread]
    rintro rfl
    rw [Option.some.inj (hmover.symm.trans hthread), hsends] at hnone
    simp at hnone
  have hlength := (List.getElem?_eq_some_iff.mp hthread).1
  cases Service.step_move hstep with
  | post hraw => exact (List.getElem?_append_left hlength).trans hthread
  | accept hmover hpc hq => exact hset hmover (by rw [hpc]; rfl)
  | idle => exact hthread
  | abort => simp [Service.terminate] at hrunning
  | fetch hmover hpc hq hfetch hnext => exact hset hmover (by rw [hpc]; rfl)
  | control hmover hcontrol => exact hset hmover (sends_of_control hcontrol)
  | spawn hmover hpc =>
      refine (List.getElem?_append_left ?_).trans (hset hmover (by rw [hpc]; rfl))
      rw [List.length_set]
      exact hlength
  | @call other mover event payment call sent outcome hmover hpc hcall =>
      refine (List.getElem?_set_ne ?_).trans hthread
      rintro rfl
      rw [← Option.some.inj (hmover.symm.trans hthread), hpc] at hsends
      obtain ⟨callLabel, hcallLabel, -⟩ := Option.map_eq_some_iff.mp hsends
      obtain ⟨reply, rfl⟩ := callStep_sends hcallLabel hcall
      exact haction reply rfl
  | requeue hmover hpc hq => exact hset hmover (by rw [hpc]; rfl)
  | discard hmover hpc => exact hset hmover (by rw [hpc]; rfl)
  | store hmover hpc hprocessor hamount => exact hset hmover (by rw [hpc]; rfl)

end Sends

/-! ## What a step of the handled service does -/

namespace HandledService

variable [Double α] {config : Config α} {processedStart : UInt64}
variable {state next : HandledService α} {action : HandledAction α}

inductive Move (config : Config α) (state : HandledService α) :
    HandledAction α → HandledService α → Prop
  | act {action : Action α} {service : Service α} (hreply : action.isReply = false)
      (hservice : Service.step config state.service action = some service) :
      Move config state (.act action) { state with service }
  | arm {tid : Nat} {key : Nat × ProcessorResult} {body : Body}
      (hsending : state.sending tid = some (key, body))
      (hlive : state.live key.1 key.2 = true) :
      Move config state (.setPayload tid)
        { state with handles := state.handles.put tid key body }
  | sent {tid : Nat} {performed : Bool} {code : Int} {elapsed : α}
      {key : Nat × ProcessorResult} {own body : Body}
      {hold : Hold Nat (Nat × ProcessorResult) Body} {service : Service α}
      (hsending : state.sending tid = some (key, own))
      (hhold : state.handles.holdOf tid = some hold)
      (hslot : state.handles.slots key = some body)
      (hservice : Service.step config state.service
        (.run tid (.reply (.ofCurl performed code elapsed))) = some service) :
      Move config state (.perform tid performed code elapsed)
        { state with
          service
          handles := state.handles.release tid
          requests := state.requests ++ [⟨key.2, own, body, performed, code⟩] }
  | skipped {tid : Nat} {key : Nat × ProcessorResult} {own : Body} {service : Service α}
      (hsending : state.sending tid = some (key, own))
      (hlive : state.live key.1 key.2 = false)
      (hservice : Service.step config state.service
        (.run tid (.reply ⟨false, 0, Double.zero⟩)) = some service) :
      Move config state (.noHandle tid) { state with service }

theorem step_move (h : step config state action = some next) :
    Move config state action next := by
  cases action with
  | act action =>
      simp only [step] at h
      split at h
      · simp at h
      case isFalse hreply =>
          split at h
          · simp at h
          · cases h
            exact .act (by simpa using hreply) ‹_›
  | setPayload tid =>
      simp only [step, setPayload] at h
      split at h
      · simp at h
      case h_2 hsending =>
          split_ifs at h with hrefused
          cases h
          simp only [Bool.or_eq_true, Bool.not_eq_true', not_or, Bool.not_eq_false] at hrefused
          exact .arm hsending hrefused.1.2
  | perform tid performed code elapsed =>
      simp only [step, perform] at h
      split at h
      case h_1 hsending hhold =>
          split at h
          case h_1 hslot hservice =>
              cases h
              exact .sent hsending hhold hslot hservice
          case h_2 => simp at h
      case h_2 => simp at h
  | noHandle tid =>
      simp only [step, noHandle] at h
      split at h
      · simp at h
      case h_2 hsending =>
          split_ifs at h with hlive
          split at h
          · simp at h
          · cases h
            exact .skipped hsending (by simpa using hlive) ‹_›

theorem Move.service (hmove : Move config state action next) :
    next.service = state.service ∨
      ∃ action, Service.step config state.service action = some next.service := by
  cases hmove with
  | act hreply hservice => exact Or.inr ⟨_, hservice⟩
  | arm hsending hlive => exact Or.inl rfl
  | sent hsending hhold hslot hservice => exact Or.inr ⟨_, hservice⟩
  | skipped hsending hlive hservice => exact Or.inr ⟨_, hservice⟩

theorem execute_service {live : Nat → ProcessorResult → Bool}
    {actions : List (HandledAction α)}
    (hrun : execute (step config) (initial config processedStart live) actions = some state) :
    ∃ serviceActions, execute (Service.step config) (.initial config processedStart)
      serviceActions = some state.service :=
  execute_refines (fun _ _ _ hstep => (step_move hstep).service) hrun

/-! ## Bodies and requests -/

/-- The processor answered 200 to a request that carried the body. -/
def Backing (requests : List Request) (processor : ProcessorResult) (body : Body) : Prop :=
  ∃ request ∈ requests, request.processor = processor ∧ request.body = body ∧
    request.answeredOk

omit [Double α] in
theorem Backing.append {requests : List Request} {processor : ProcessorResult}
    {body : Body} (h : Backing requests processor body) (request : Request) :
    Backing (requests ++ [request]) processor body := by
  obtain ⟨earlier, hmem, hbacks⟩ := h
  exact ⟨earlier, List.mem_append_left _ hmem, hbacks⟩

def Backed (requests : List Request) : Pc α → Prop
  | .processing payment _ sent => ∀ attempt ∈ sent, attempt.reply.ok = true →
      Backing requests attempt.processor ⟨payment, attempt.payload⟩
  | _ => True

structure Accounted (requests : List Request) (service : Service α) : Prop where
  threads : ∀ thread ∈ service.threads, Backed requests thread.pc
  stored : ∀ entry ∈ service.history.stored,
    Backing requests entry.processor ⟨entry.payment, entry.draft.payload⟩

omit [Double α] in
theorem Accounted.append {requests : List Request} {service : Service α}
    (h : Accounted requests service) (request : Request) :
    Accounted (requests ++ [request]) service where
  threads := by
    intro thread hthread
    have hbacked := h.threads thread hthread
    cases hpc : thread.pc with
    | processing payment call sent =>
        rw [hpc] at hbacked
        exact fun attempt hattempt hok => (hbacked attempt hattempt hok).append request
    | _ => trivial
  stored := fun entry hentry => (h.stored entry hentry).append request

omit [Double α] in
theorem Backed.of_returned {requests : List Request} {payment : Payment} {draft : Draft}
    {processor : ProcessorResult} {sent : List (Attempt α)}
    (hprocessor : processor = .default ∨ processor = .fallback)
    (htrace : CallPc.Trace (.returned draft processor) sent)
    (h : Backed requests (.processing payment (.returned draft processor) sent)) :
    Backing requests processor ⟨payment, draft.payload⟩ := by
  rcases hprocessor with rfl | rfl
  all_goals
    obtain ⟨before, reply, rfl, hok, -⟩ := htrace
    exact h ⟨_, draft.payload, reply⟩ (by simp) hok

theorem step_accounted {requests : List Request} {service service' : Service α}
    {action : Action α} (hregular : service.Regular config processedStart)
    (h : Accounted requests service)
    (hnew : ∀ (tid : Nat) (reply : Reply α) (thread : Thread α)
      (processor : ProcessorResult) (body : Body), action = .run tid (.reply reply) →
      reply.ok = true → service.threads[tid]? = some thread →
      thread.pc.sends = some (processor, body) → Backing requests processor body)
    (hstep : Service.step config service action = some service') :
    Accounted requests service' := by
  have hmove := Service.step_move hstep
  constructor
  · refine hmove.allPcs (fun _ _ _ _ _ => trivial) ?_ (fun _ => by simp [Backed]) ?_ h.threads
    · intro pc hpc
      cases pc with
      | posting | processing => cases hpc
      | _ => trivial
    · intro tid thread event payment call sent outcome haction hthread hpc hcall attempt
        hattempt hok
      rcases List.mem_append.mp hattempt with hold | hsent
      · exact Service.pc_of_thread h.threads hthread hpc attempt hold hok
      · obtain ⟨rfl, hsends⟩ := callStep_attempt hcall hsent
        apply hnew tid attempt.reply thread _ _ haction hok hthread
        rw [hpc, Pc.sends, hsends]
        rfl
  · cases hmove with
    | store hthread hpc hprocessor hamount =>
        have htrace := Service.trace_of_thread hregular.pcs hthread hpc
        have hbacked := Service.pc_of_thread h.threads hthread hpc
        exact all_append_singleton (Backed.of_returned hprocessor htrace hbacked) h.stored
    | _ => exact h.stored

theorem sending_kept {tid : Nat} {point : (Nat × ProcessorResult) × Body}
    {action : Action α} {service : Service α} (hsending : state.sending tid = some point)
    (haction : ∀ reply, action ≠ .run tid (.reply reply))
    (hservice : Service.step config state.service action = some service)
    (hrunning : service.terminated = false) :
    sending { state with service } tid = some point := by
  unfold sending at hsending ⊢
  cases hthread : state.service.threads[tid]? with
  | none => simp [hthread] at hsending
  | some thread =>
      simp only [hthread] at hsending
      obtain ⟨label, hlabel, hpoint⟩ := Option.map_eq_some_iff.mp hsending
      simp only [step_keeps_sender hthread hlabel haction hservice hrunning]
      exact hsending

omit [Double α] in
theorem handle_of_sends {thread : Thread α} {processor : ProcessorResult} {body : Body}
    (hvalid : Service.PcValid thread.pc) (hsends : thread.pc.sends = some (processor, body)) :
    processor.handle = processor := by
  have hprocessor : processor.IsProcessor := by
    cases hpc : thread.pc with
    | processing payment call sent =>
        rw [hpc] at hvalid hsends
        cases call with
        | ready draft primary secondary =>
            cases hsends
            exact hvalid.2.1
        | retrying draft secondary code =>
            cases hsends
            exact hvalid.2.2
        | _ => cases hsends
    | _ => simp [hpc, Pc.sends] at hsends
  rcases hprocessor with rfl | rfl <;> rfl

/-- A payload is set only on a handle that no other thread is about to perform on. -/
def Admissible (state : HandledService α) : HandledAction α → Prop
  | .setPayload tid => ∀ point ∈ state.sending tid, state.handles.Free point.1
  | _ => True

instance (state : HandledService α) (action : HandledAction α) :
    Decidable (state.Admissible action) :=
  match action with
  | .setPayload tid => inferInstanceAs (Decidable (∀ point ∈ state.sending tid, _))
  | .act _ | .perform _ _ _ _ | .noHandle _ => .isTrue trivial

structure Grounded (config : Config α) (processedStart : UInt64) (service : Service α) :
    Prop where
  regular : service.Regular config processedStart
  direct : config.fallbackEnabled = false → service.Direct
  filed : ∀ entry ∈ service.history.stored, Service.Filed config entry

theorem step_grounded {service service' : Service α} {action : Action α}
    (h : Grounded config processedStart service)
    (hstep : Service.step config service action = some service') :
    Grounded config processedStart service' where
  regular := Service.step_regular h.regular hstep
  direct := fun hdisabled => (Service.step_move hstep).direct hdisabled (h.direct hdisabled)
  filed := (Service.step_move hstep).filed h.direct h.filed

structure Honest (config : Config α) (processedStart : UInt64) (state : HandledService α) :
    Prop where
  grounded : Grounded config processedStart state.service
  intact : state.handles.Intact
  waiting : state.service.terminated = false → ∀ hold ∈ state.handles.holds,
    state.sending hold.client = some (hold.key, hold.value) ∧
      state.live hold.key.1 hold.key.2 = true
  own : ∀ request ∈ state.requests, request.body = request.own
  accounted : Accounted state.requests state.service

theorem initial_honest (config : Config α) (processedStart : UInt64)
    (live : Nat → ProcessorResult → Bool) :
    (initial config processedStart live).Honest config processedStart where
  grounded :=
    ⟨Service.initial_regular config processedStart,
      fun _ => Service.initial_direct config processedStart,
      by simp [initial, Service.initial]⟩
  intact := Mailboxes.intact_empty
  waiting := by simp [initial, Mailboxes.empty]
  own := by simp [initial]
  accounted := ⟨by simp [initial, Service.initial, Backed], by simp [initial, Service.initial]⟩

theorem Honest.body_eq_own (h : state.Honest config processedStart)
    (hrunning : state.service.terminated = false) {tid : Nat}
    {key : Nat × ProcessorResult} {own body : Body}
    {hold : Hold Nat (Nat × ProcessorResult) Body}
    (hsending : state.sending tid = some (key, own))
    (hhold : state.handles.holdOf tid = some hold)
    (hslot : state.handles.slots key = some body) : body = own := by
  obtain ⟨hmem, rfl⟩ := Mailboxes.mem_of_holdOf hhold
  have hwaiting := (h.waiting hrunning hold hmem).1
  rw [hsending, Option.some.injEq, Prod.mk.injEq] at hwaiting
  obtain ⟨rfl, rfl⟩ := hwaiting
  exact Option.some.inj (hslot.symm.trans (h.intact hold hmem))

theorem Honest.waiting_step (h : state.Honest config processedStart)
    {hold : Hold Nat (Nat × ProcessorResult) Body} (hhold : hold ∈ state.handles.holds)
    {action : Action α} {service : Service α}
    (haction : ∀ reply, action ≠ .run hold.client (.reply reply))
    (hservice : Service.step config state.service action = some service)
    (hrunning : service.terminated = false) :
    sending { state with service } hold.client = some (hold.key, hold.value) ∧
      state.live hold.key.1 hold.key.2 = true := by
  have hwaiting := h.waiting (Service.running_of_step hservice) hold hhold
  exact ⟨sending_kept hwaiting.1 haction hservice hrunning, hwaiting.2⟩

theorem step_honest (h : state.Honest config processedStart)
    (hguard : state.Admissible action) (hstep : step config state action = some next) :
    next.Honest config processedStart := by
  cases step_move hstep with
  | act hreply hservice =>
      refine ⟨step_grounded h.grounded hservice, h.intact, ?_, h.own, ?_⟩
      · intro hrunning hold hmem
        apply h.waiting_step hmem _ hservice hrunning
        rintro reply rfl
        simp [Action.isReply] at hreply
      · apply step_accounted h.grounded.regular h.accounted _ hservice
        rintro tid reply thread processor body rfl
        simp [Action.isReply] at hreply
  | arm hsending hlive =>
      refine ⟨h.grounded, h.intact.put (hguard _ hsending), ?_, h.own, h.accounted⟩
      intro hrunning hold hmem
      rcases Mailboxes.mem_put hmem with hold' | rfl
      · exact h.waiting hrunning hold hold'
      · exact ⟨hsending, hlive⟩
  | @sent tid performed code elapsed key own body hold service hsending hhold hslot hservice =>
      obtain rfl := h.body_eq_own (Service.running_of_step hservice) hsending hhold hslot
      refine ⟨step_grounded h.grounded hservice, h.intact.release, ?_,
        all_append_singleton rfl h.own, ?_⟩
      · intro hrunning other hmem
        obtain ⟨hother, hclient⟩ := Mailboxes.mem_release hmem
        apply h.waiting_step hother _ hservice hrunning
        rintro reply hsame
        cases hsame
        exact hclient rfl
      · apply step_accounted h.grounded.regular (h.accounted.append _) _ hservice
        rintro sender reply thread processor carried hsame hok hthread hsends
        cases hsame
        have hvalid := h.grounded.regular.pcs _ (List.mem_of_getElem? hthread)
        have hhandle := handle_of_sends hvalid hsends
        simp only [sending, hthread, hsends, Option.map_some, hhandle, Option.some.injEq,
          Prod.mk.injEq] at hsending
        obtain ⟨rfl, rfl⟩ := hsending
        simp only [Reply.ofCurl, Bool.and_eq_true, decide_eq_true_eq] at hok
        exact ⟨_, List.mem_append_right _ (List.mem_singleton.mpr rfl), rfl, rfl, hok⟩
  | @skipped tid key own service hsending hlive hservice =>
      refine ⟨step_grounded h.grounded hservice, h.intact, ?_, h.own, ?_⟩
      · intro hrunning hold hmem
        apply h.waiting_step hmem _ hservice hrunning
        rintro reply hsame
        cases hsame
        obtain ⟨hheld, hheldLive⟩ := h.waiting (Service.running_of_step hservice) hold hmem
        rw [hsending, Option.some.injEq, Prod.mk.injEq] at hheld
        rw [← hheld.1, hlive] at hheldLive
        exact Bool.false_ne_true hheldLive
      · apply step_accounted h.grounded.regular h.accounted _ hservice
        rintro sender reply thread processor carried hsame hok
        cases hsame
        simp at hok

/-! ## What is counted is what was sent -/

/--
In every run in which no payload is set on a handle that another thread is about to
perform on, every request carries the body it was sent for, and every payment counted
in a bucket of a processor was the body of a request which that processor answered 200.
-/
theorem counted_was_sent {live : Nat → ProcessorResult → Bool}
    {actions : List (HandledAction α)}
    (hrun : execute (step config) (initial config processedStart live) actions = some state)
    (hadmissible : Along (step config) Admissible (initial config processedStart live)
      actions) :
    (∀ request ∈ state.requests, request.body = request.own) ∧
    ∀ processor : ProcessorResult, processor.IsProcessor → ∀ slot,
      let entries := entriesAt config processedStart state.service.history.stored processor
        slot
      state.service.ledger.bucket processor slot =
        .ofAmounts (entries.map StoreEntry.amount) ∧
      ∀ entry ∈ entries, ∃ request ∈ state.requests, request.processor = processor ∧
        request.body = ⟨entry.payment, entry.draft.payload⟩ ∧ request.answeredOk := by
  have hhonest := execute_invariant (fun _ _ _ h hguard hstep => step_honest h hguard hstep)
    (initial_honest config processedStart live) hadmissible hrun
  refine ⟨hhonest.own, fun processor hprocessor slot => ?_⟩
  refine ⟨hhonest.grounded.regular.buckets processor hprocessor slot, fun entry hentry => ?_⟩
  simp only [entriesAt, List.mem_filter, decide_eq_true_eq] at hentry
  obtain ⟨hstored, hside, -⟩ := hentry
  have hfiled := (hhonest.grounded.filed entry hstored).side
  rw [hside.symm.trans hfiled]
  exact hhonest.accounted.stored entry hstored

/-- Payment 1 goes to the probe, payment 2 to the worker, whose first attempt fails. -/
def probeAndRetry : List (HandledAction Float) :=
  [.act (.post Service.samplePayment.render), .act (.run 1 .tau),
    .act (.post Service.tenthPayment.render), .act (.run 2 .tau),
    .act (.run 0 (.wall 0)), .act (.run 0 .tau), .act (.run 0 (.wall 1000000000)),
    .act (.run 0 .tau), .act (.run 0 .tau), .act (.run 0 .tau), .act (.run 0 .tau),
    .act (.run 3 (.clock 1751328010)), .act (.run 3 .tau), .act (.run 3 .tau),
    .act (.run 0 .tau), .act (.run 0 (.wall 1000000000)), .act (.run 0 .tau),
    .act (.run 0 .tau), .act (.run 0 (.clock 1751328010)), .act (.run 0 .tau),
    .act (.run 0 .tau), .setPayload 0, .perform 0 true 500 1, .act (.run 0 .tau),
    .act (.run 0 .tau)]

/-- The reply of the retry is handled and its payment stored. -/
def retryStored : List (HandledAction Float) :=
  [.perform 0 true 200 1, .act (.run 0 .tau), .act (.run 0 .tau)]

def afterRetry (sends : List (HandledAction Float)) : Option (HandledService Float) :=
  execute (step twoProcessors) (initial twoProcessors 1751328000 fun _ _ => true)
    (probeAndRetry ++ sends ++ retryStored)

theorem afterRetry_alone : (afterRetry [.setPayload 0]).isSome = true := by decide +kernel

theorem afterRetry_overlapping :
    (afterRetry [.setPayload 0, .setPayload 3]).isSome = true := by decide +kernel

theorem counted_was_sent_alone :
    let state := (afterRetry [.setPayload 0]).get afterRetry_alone
    (state.service.ledger.bucket .fallback ⟨10, by decide⟩).totalRequests = 1 ∧
      ∀ request ∈ state.requests, request.body = request.own :=
  ⟨by decide +kernel,
    (counted_was_sent (Option.some_get afterRetry_alone).symm (by decide +kernel)).1⟩

/-- The probe sets its payload on the Fallback handle before the worker performs. -/
theorem probe_body_sent_for_retry :
    let state := (afterRetry [.setPayload 0, .setPayload 3]).get afterRetry_overlapping
    (∃ request ∈ state.requests, request.own.payment.serial = 2 ∧
      request.body.payment.serial = 1 ∧ request.body.payload ≠ request.own.payload) ∧
    (state.service.ledger.bucket .fallback ⟨10, by decide⟩).totalRequests = 1 ∧
    ∃ entry ∈ entriesAt twoProcessors 1751328000 state.service.history.stored .fallback
        ⟨10, by decide⟩,
      ∀ request ∈ state.requests, request.answeredOk →
        request.body ≠ ⟨entry.payment, entry.draft.payload⟩ := by
  decide +kernel

end HandledService

end RinhaBackend
