import RinhaBackend.FallbackDisabled
import RinhaBackend.Threads

/-!
# The backlog drains

Outages leave payments in the queues, in retries and in the hands of probes.  Once
every request is answered and no POST arrives, each step that does anything lowers
a count of the work left, and until all of it is done some thread has such a step.
-/

namespace RinhaBackend

open Foundation

variable {α : Type}

/-! ## The work left -/

/-- An upper bound on the steps that a queued payment still takes. -/
def queuedBurden : Nat := 15

/-- A call whose reply was no success may put its payment back into the queue. -/
def Reply.burden (reply : Reply α) : Nat := if reply.ok then 0 else queuedBurden

def CallPc.burden : CallPc α → Nat
  | .entered => 9
  | .built _ => 8
  | .labelled _ _ => 7
  | .ready _ _ _ => 6
  | .answered _ _ _ reply => 5 + reply.burden
  | .handling _ _ _ reply => 4 + reply.burden
  | .retrying _ _ _ => 5
  | .handlingSecondary _ _ _ reply => 4 + reply.burden
  | .returned _ .tryAgain => 3 + queuedBurden
  | .returned _ _ => 3

def Pc.burden : Pc α → Nat
  | .posting _ _ _ => 1 + queuedBurden
  | .starting => 1
  | .polling => 0
  | .fetched _ => 14
  | .timed _ _ => 13
  | .paced _ _ => 12
  | .launching _ => 11
  | .spawning _ => 10
  | .processing _ call _ => call.burden
  | .closing => 2
  | .stamping => 1
  | .exited => 0

def queuesBurden (queues : List (WorkerQueue Payment)) : Nat :=
  (queues.map fun q => queuedBurden * q.outstanding).sum

def threadsBurden (threads : List (Thread α)) : Nat :=
  (threads.map fun thread => thread.pc.burden).sum

def Service.burden (state : Service α) : Nat :=
  queuesBurden state.queues + threadsBurden state.threads

/-- Nothing is queued or in hand: the workers poll and every other thread has ended. -/
structure Service.Drained (config : Config α) (state : Service α) : Prop where
  queues : ∀ q ∈ state.queues, q.fetchNext true = none
  workers : ∀ worker < config.workerCount, ∃ thread,
    state.threads[worker]? = some thread ∧ thread.pc = .polling
  others : ∀ tid thread, config.workerCount ≤ tid → state.threads[tid]? = some thread →
    thread.pc = .exited

/-- No POST, and every request is answered with success. -/
def Calm : Action α → Prop
  | .post _ => False
  | .run _ (.reply reply) => reply.ok = true
  | _ => True

variable [Double α] {config : Config α}

omit [Double α] in
theorem afterPrimary_burden {draft : Draft} {primary secondary : ProcessorResult}
    (hprimary : primary.IsProcessor) (reply : Reply α) :
    (afterPrimary config draft primary secondary reply).burden < 4 + reply.burden := by
  unfold afterPrimary Reply.burden
  split_ifs
  · rcases hprimary with rfl | rfl <;> simp [CallPc.burden]
  · simp [CallPc.burden, queuedBurden]
  · simp [CallPc.burden]
  · simp [CallPc.burden, queuedBurden]

omit [Double α] in
theorem afterSecondary_burden {draft : Draft} {secondary : ProcessorResult}
    (hsecondary : secondary.IsProcessor) (code : Int) (reply : Reply α) :
    (afterSecondary draft secondary code reply).burden < 4 + reply.burden := by
  unfold afterSecondary Reply.burden
  split_ifs
  · rcases hsecondary with rfl | rfl <;> simp [CallPc.burden]
  · simp [CallPc.burden, queuedBurden]
  · simp [CallPc.burden]

theorem callStep_burden {isFallbackPool : Bool} {json : Bytes} {cache : TimestampCache}
    {failover : Failover α} {pc : CallPc α} {event : Event α} {outcome : CallOutcome α}
    {sent : List (Attempt α)} (htrace : pc.Trace sent)
    (hcalm : ∀ reply, event = .reply reply → reply.ok = true)
    (h : callStep config isFallbackPool json cache failover pc event = some outcome) :
    outcome.pc.burden < pc.burden := by
  cases callStep_move h with
  | build | label | pair => simp [CallPc.burden]
  | send draft primary secondary reply =>
      simp [CallPc.burden, Reply.burden, hcalm reply rfl]
  | probe => simp [CallPc.burden]
  | handle draft primary secondary reply => exact afterPrimary_burden htrace.2.1 reply
  | sendSecondary draft secondary code reply =>
      simp [CallPc.burden, Reply.burden, hcalm reply rfl]
  | handleSecondary draft secondary code reply =>
      exact afterSecondary_burden htrace.2.2 code reply

namespace WorkerQueue

variable {Item : Type}

theorem outstanding_enqueue_le (q : WorkerQueue Item) (r : Item) :
    (q.enqueue r).outstanding ≤ q.outstanding + 1 := by
  have hle := Nat.mod_le (q.tail.toNat + 1) (2 ^ 64)
  simp only [outstanding, enqueue, UInt64.toNat_add, UInt64.reduceToNat]
  omega

theorem outstanding_fetchNext {q q' : WorkerQueue Item} {r : Item}
    (h : q.fetchNext true = some (r, q')) : q'.outstanding + 1 = q.outstanding := by
  obtain ⟨hlt, -, hhead, htail, -⟩ := fetchNext_eq_some h
  simp only [outstanding, hhead, htail]
  omega

end WorkerQueue

namespace Service

variable {processedStart : UInt64} {state next : Service α} {action : Action α}

omit [Double α] in
theorem Control.burden {pc pc' : Pc α} (h : Control pc pc') : pc'.burden < pc.burden := by
  cases h <;> simp [Pc.burden, CallPc.burden]

omit [Double α] in
theorem afterProcess_burden (thread : Thread α) : (afterProcess thread).burden ≤ 2 := by
  unfold afterProcess
  split_ifs <;> simp [Pc.burden]

omit [Double α] in
theorem threadsBurden_set {threads : List (Thread α)} {tid : Nat} {thread : Thread α}
    (hthread : threads[tid]? = some thread) (new : Thread α) :
    threadsBurden (threads.set tid new) + thread.pc.burden =
      threadsBurden threads + new.pc.burden :=
  sum_map_set (fun thread : Thread α => thread.pc.burden) hthread new

theorem queuesBurden_enqueue {queues : List (WorkerQueue Payment)} {index : Nat}
    {q : WorkerQueue Payment} (hq : queues[index]? = some q) (payment : Payment) :
    queuesBurden (queues.set index (q.enqueue payment)) ≤
      queuesBurden queues + queuedBurden := by
  have hsum := sum_map_set (fun q : WorkerQueue Payment => queuedBurden * q.outstanding) hq
    (q.enqueue payment)
  have hmore := Nat.mul_le_mul_left queuedBurden (q.outstanding_enqueue_le payment)
  rw [Nat.mul_succ] at hmore
  simp only [queuesBurden]
  omega

theorem queuesBurden_fetch {queues : List (WorkerQueue Payment)} {index : Nat}
    {q q' : WorkerQueue Payment} {payment : Payment} (hq : queues[index]? = some q)
    (hfetch : q.fetchNext true = some (payment, q')) :
    queuesBurden (queues.set index q') + queuedBurden = queuesBurden queues := by
  have hsum := sum_map_set (fun q : WorkerQueue Payment => queuedBurden * q.outstanding) hq q'
  rw [← WorkerQueue.outstanding_fetchNext hfetch, Nat.mul_succ] at hsum
  simp only [queuesBurden]
  omega

omit [Double α] in
theorem burden_lt_of_set {tid : Nat} {thread new : Thread α}
    (hthread : state.threads[tid]? = some thread)
    (hburden : new.pc.burden < thread.pc.burden) (hqueues : next.queues = state.queues)
    (hthreads : next.threads = state.threads.set tid new) : next.burden < state.burden := by
  have hset := threadsBurden_set hthread new
  simp only [Service.burden, hqueues, hthreads]
  omega

omit [Double α] in
theorem afterProcess_burden_lt {thread : Thread α} {payment : Payment} {draft : Draft}
    {result : ProcessorResult} {sent : List (Attempt α)}
    (hpc : thread.pc = .processing payment (.returned draft result) sent) :
    (afterProcess thread).burden < thread.pc.burden := by
  have hnew := afterProcess_burden thread
  have hold : 3 ≤ thread.pc.burden := by
    rw [hpc]
    cases result <;> simp [Pc.burden, CallPc.burden]
  omega

/-- Without POSTs and failures a step leaves the state as it is or lowers the burden. -/
theorem Move.burden (hmove : Move config state action next)
    (hpcs : ∀ thread ∈ state.threads, PcValid thread.pc) (hcalm : Calm action) :
    next = state ∨ next.terminated = true ∨ next.burden < state.burden := by
  cases hmove with
  | post hraw => exact hcalm.elim
  | idle => exact Or.inl rfl
  | abort => exact Or.inr (Or.inl rfl)
  | @accept tid thread body raw queueIdx q hthread hpc hq =>
      have hthreads := threadsBurden_set hthread { thread with pc := .exited }
      have hqueues := queuesBurden_enqueue hq ⟨state.history.accepted.length + 1, raw⟩
      have hold : thread.pc.burden = 1 + queuedBurden := by rw [hpc]; rfl
      have hnew : (Pc.exited : Pc α).burden = 0 := rfl
      refine Or.inr (Or.inr ?_)
      simp only [Service.burden, setPc, setThread, setQueue]
      dsimp only at hthreads
      omega
  | @fetch tid thread q q' payment pc hthread hpc hq hfetch hnext =>
      have hthreads := threadsBurden_set hthread { thread with pc }
      have hqueues := queuesBurden_fetch hq hfetch
      have hold : thread.pc.burden = 0 := by rw [hpc]; rfl
      have hnew : pc.burden < queuedBurden := by
        rcases hnext with ⟨-, rfl⟩ | rfl <;> simp [Pc.burden, CallPc.burden, queuedBurden]
      refine Or.inr (Or.inr ?_)
      simp only [Service.burden, setPc, setThread, setQueue]
      dsimp only at hthreads
      omega
  | control hthread hcontrol =>
      exact Or.inr (Or.inr (burden_lt_of_set hthread hcontrol.burden rfl rfl))
  | @spawn tid thread payment hthread hpc =>
      have hthreads := threadsBurden_set hthread { thread with pc := .polling }
      have hold : thread.pc.burden = 10 := by rw [hpc]; rfl
      have hworker : (Pc.polling : Pc α).burden = 0 := rfl
      have hpool : (Pc.processing payment .entered [] : Pc α).burden = 9 := rfl
      refine Or.inr (Or.inr ?_)
      simp only [Service.burden, threadsBurden, List.map_append, List.sum_append,
        List.map_singleton, List.sum_singleton] at hthreads ⊢
      omega
  | @call tid thread event payment call sent outcome hthread hpc hcall =>
      have hburden : outcome.pc.burden < call.burden := by
        apply callStep_burden (trace_of_thread hpcs hthread hpc) _ hcall
        rintro reply rfl
        exact hcalm
      have hold : thread.pc.burden = call.burden := by rw [hpc]; rfl
      exact Or.inr (Or.inr (burden_lt_of_set hthread (hold ▸ hburden) rfl rfl))
  | @requeue tid thread payment draft sent q hthread hpc hq =>
      have hthreads := threadsBurden_set hthread { thread with pc := afterProcess thread }
      have hqueues := queuesBurden_enqueue hq payment
      have hnew := afterProcess_burden thread
      have hold : thread.pc.burden = 3 + queuedBurden := by rw [hpc]; rfl
      refine Or.inr (Or.inr ?_)
      simp only [Service.burden, setPc, setThread, setQueue, logReturn]
      dsimp only at hthreads
      omega
  | discard hthread hpc =>
      exact Or.inr (Or.inr (burden_lt_of_set hthread (afterProcess_burden_lt hpc) rfl rfl))
  | store hthread hpc hprocessor hamount =>
      exact Or.inr (Or.inr (burden_lt_of_set hthread (afterProcess_burden_lt hpc) rfl rfl))

end Service

/-! ## Every queue has its worker -/

/-- Where a worker thread can stand. -/
def Pc.isWorking : Pc α → Bool
  | .posting _ _ _ | .closing | .stamping | .exited => false
  | _ => true

omit [Double α] in
theorem Pc.Advances.isWorking {pc pc' : Pc α} (h : Pc.Advances false pc pc')
    (hworking : pc.isWorking = true) : pc'.isWorking = true := by
  cases h with
  | accept => simp [Pc.isWorking] at hworking
  | control hcontrol => cases hcontrol <;> simp_all [Pc.isWorking]
  | _ => rfl

omit [Double α] in
theorem Pc.eq_polling {pc : Pc α} (hburden : pc.burden = 0) (hworking : pc.isWorking = true) :
    pc = .polling := by
  cases pc with
  | polling => rfl
  | processing payment call sent =>
      cases call with
      | returned draft result => cases result <;> simp [Pc.burden, CallPc.burden] at hburden
      | _ => simp [Pc.burden, CallPc.burden] at hburden
  | posting | closing | stamping | exited => simp [Pc.isWorking] at hworking
  | starting | fetched | timed | paced | launching | spawning =>
      simp [Pc.burden] at hburden

/-- Where a handler or a probe can stand; neither ever polls a queue. -/
def Thread.isPassing (thread : Thread α) : Bool :=
  match thread.pc with
  | .posting _ _ _ => !thread.isFallbackPool
  | .processing _ _ _ | .closing | .stamping => thread.isFallbackPool
  | .exited => true
  | _ => false

omit [Double α] in
theorem Pc.Advances.isPassing {thread new : Thread α}
    (hpool : new.isFallbackPool = thread.isFallbackPool)
    (h : Pc.Advances thread.isFallbackPool thread.pc new.pc)
    (hpassing : thread.isPassing = true) : new.isPassing = true := by
  unfold Thread.isPassing at hpassing ⊢
  rw [hpool]
  generalize thread.pc = old at h hpassing
  generalize new.pc = pc at h
  cases h with
  | control hcontrol => cases hcontrol <;> simp_all
  | _ => simp_all

omit [Double α] in
theorem Pc.eq_exited {thread : Thread α} (hburden : thread.pc.burden = 0)
    (hpassing : thread.isPassing = true) : thread.pc = .exited := by
  unfold Thread.isPassing at hpassing
  generalize thread.pc = pc at hburden hpassing
  cases pc with
  | exited => rfl
  | processing payment call sent =>
      cases call with
      | returned draft result => cases result <;> simp [Pc.burden, CallPc.burden] at hburden
      | _ => simp [Pc.burden, CallPc.burden] at hburden
  | posting | closing | stamping => simp [Pc.burden] at hburden
  | polling | starting | fetched | timed | paced | launching | spawning =>
      simp at hpassing

structure Staffed (config : Config α) (state : Service α) : Prop where
  queues : state.queues.length = config.workerCount
  workerIds : ∀ thread ∈ state.threads, thread.workerId < config.workerCount
  posting : ∀ thread ∈ state.threads, ∀ body raw queueIdx,
    thread.pc = .posting body raw queueIdx → queueIdx = thread.workerId
  workers : ∀ worker < config.workerCount, ∃ thread,
    state.threads[worker]? = some thread ∧ thread.workerId = worker ∧
      thread.isFallbackPool = false ∧ thread.pc.isWorking = true
  others : ∀ tid thread, config.workerCount ≤ tid → state.threads[tid]? = some thread →
    thread.isPassing = true

namespace Service

variable {processedStart : UInt64} {state next : Service α} {action : Action α}

theorem initial_staffed (config : Config α) (processedStart : UInt64) :
    Staffed config (initial config processedStart) where
  queues := List.length_replicate
  workerIds := by
    intro thread hthread
    obtain ⟨worker, hworker, rfl⟩ := List.mem_map.mp hthread
    exact List.mem_range.mp hworker
  posting := by
    intro thread hthread body raw queueIdx hpc
    obtain ⟨worker, -, rfl⟩ := List.mem_map.mp hthread
    cases hpc
  workers := by
    intro worker hworker
    exact ⟨⟨worker, false, .initial, .starting⟩, by simp [initial, hworker], rfl, rfl, rfl⟩
  others := by
    intro tid thread htid hthread
    have hlength := (List.getElem?_eq_some_iff.mp hthread).1
    simp only [initial, List.length_map, List.length_range] at hlength
    omega

theorem step_post_idx {body : Bytes} (hstep : step config state (.post body) = some next) :
    ∃ raw, next.threads = state.threads ++
      [⟨state.queueIndex.toNat % state.queues.length, false, .initial,
        .posting body raw (state.queueIndex.toNat % state.queues.length)⟩] := by
  simp only [step] at hstep
  split_ifs at hstep
  split at hstep
  · simp at hstep
  · cases hstep
    exact ⟨_, rfl⟩

theorem Move.queues_length (hmove : Move config state action next)
    (hruns : next ≠ state.terminate) : next.queues.length = state.queues.length := by
  cases hmove with
  | abort => exact absurd rfl hruns
  | _ => simp [setPc, setThread, setQueue, logReturn]

theorem step_staffed (hworkers : 0 < config.workerCount) (h : Staffed config state)
    (hstep : step config state action = some next) (hrunning : next.terminated = false) :
    Staffed config next := by
  have hmove := step_move hstep
  have hruns : next ≠ state.terminate := ne_terminate_of_running hrunning
  refine ⟨(hmove.queues_length hruns).trans h.queues, ?_, ?_, ?_, ?_⟩
  · intro new hnew
    obtain ⟨tid, htid⟩ := List.mem_iff_getElem?.mp hnew
    rcases hmove.thread_cases htid with
      ⟨thread, hthread, hworker, -⟩ | ⟨hlast, ⟨body, raw, queueIdx, rfl, rfl⟩ |
        ⟨parent, mover, payment, hmover, -, rfl⟩⟩
    · rw [hworker]
      exact h.workerIds thread (List.mem_of_getElem? hthread)
    · obtain ⟨raw, hthreads⟩ := step_post_idx hstep
      rw [hthreads, hlast, List.getElem?_concat_length] at htid
      cases htid
      exact h.queues ▸ Nat.mod_lt _ (h.queues ▸ hworkers)
    · exact h.workerIds mover (List.mem_of_getElem? hmover)
  · intro new hnew body raw queueIdx hpc
    obtain ⟨tid, htid⟩ := List.mem_iff_getElem?.mp hnew
    rcases hmove.thread_cases htid with
      ⟨thread, hthread, hworker, -, hsame | hadvances⟩ |
        ⟨hlast, ⟨body, raw, queueIdx, rfl, rfl⟩ | ⟨parent, mover, payment, hmover, -, rfl⟩⟩
    · rw [hworker]
      exact h.posting thread (List.mem_of_getElem? hthread) body raw queueIdx
        (hsame.symm.trans hpc)
    · exact absurd hpc (hadvances.ne_posting body raw queueIdx)
    · cases hpc
      rfl
    · cases hpc
  · intro worker hworker
    obtain ⟨thread, hthread, hid, hpool, hworking⟩ := h.workers worker hworker
    obtain ⟨new, hnew, hnewId, hnewPool, hpc⟩ := hmove.thread_step hruns hthread
    refine ⟨new, hnew, hnewId.trans hid, hnewPool.trans hpool, ?_⟩
    rcases hpc with hsame | hadvances
    · rw [hsame, hworking]
    · exact (hpool ▸ hadvances).isWorking hworking
  · intro tid new htid hnew
    rcases hmove.thread_cases hnew with
      ⟨thread, hthread, -, hpool, hsame | hadvances⟩ |
        ⟨-, ⟨body, raw, queueIdx, -, rfl⟩ | ⟨parent, mover, payment, -, -, rfl⟩⟩
    · have hpassing := h.others tid thread htid hthread
      rw [Thread.isPassing] at hpassing ⊢
      rw [hsame, hpool, hpassing]
    · exact hadvances.isPassing hpool (h.others tid thread htid hthread)
    · rfl
    · rfl

end Service

/-! ## No payment stops its thread -/

/-- A body that can be stamped and whose amount is accepted by `stod` at any time. -/
def Deliverable (α : Type) [Double α] (body : Bytes) : Prop :=
  body ≠ [] ∧ ∀ cache now payload ts cache',
    createProcessorPayload cache now body = some (payload, ts, cache') →
      (extractAmount payload : Option α).isSome = true

namespace Service

variable {processedStart : UInt64} {state next : Service α} {action : Action α}

def PostsDeliverable : Action α → Prop
  | .post body => Deliverable α body
  | _ => True

/-- Bodies can be delivered, and a payment is stamped with a second that has a bucket. -/
def Storable (processedStart : UInt64) (action : Action α) : Prop :=
  PostsDeliverable action ∧ ClockWithin processedStart action

structure Serviceable (config : Config α) (processedStart : UInt64) (state : Service α) :
    Prop where
  regular : state.Regular config processedStart
  staffed : Staffed config state
  running : state.terminated = false
  stamped : state.Stamped processedStart
  accepted : ∀ entry ∈ state.history.accepted, Deliverable α entry.2
  posts : ∀ thread ∈ state.threads, thread.pc.Posting (Deliverable α)
  drafts : ∀ thread ∈ state.threads, thread.pc.Drafted fun _ draft =>
    (extractAmount draft.payload : Option α).isSome = true

theorem initial_serviceable (config : Config α) (processedStart : UInt64) :
    (initial config processedStart).Serviceable config processedStart where
  regular := initial_regular config processedStart
  staffed := initial_staffed config processedStart
  running := rfl
  stamped := initial_stamped config processedStart
  accepted := by simp [initial]
  posts := by simp [initial, Pc.Posting]
  drafts := by simp [initial, Pc.Drafted]

theorem Serviceable.deliverable (h : state.Serviceable config processedStart)
    {thread : Thread α} (hthread : thread ∈ state.threads) {payment : Payment}
    (hpayment : thread.pc.payment = some payment) : Deliverable α payment.raw.json := by
  obtain ⟨body, hbody⟩ := h.regular.held thread hthread payment hpayment
  rw [RawPayment.json_ofBody (h.regular.bodies _ hbody)]
  exact h.accepted _ hbody

theorem Serviceable.amountConverts (h : state.Serviceable config processedStart)
    (action : Action α) : state.AmountConverts action := by
  cases action with
  | post body => trivial
  | run tid event =>
      intro thread hthread
      have hdraft := h.drafts thread (List.mem_of_getElem? hthread)
      unfold Pc.storeConverts
      split
      case h_1 hpc | h_2 hpc =>
          rw [hpc] at hdraft
          exact hdraft _ rfl
      case h_3 => rfl

theorem step_serviceable (hworkers : 0 < config.workerCount)
    (h : state.Serviceable config processedStart) (hstorable : Storable processedStart action)
    (hstep : step config state action = some next) :
    next.Serviceable config processedStart := by
  have hmove := step_move hstep
  have hrunning := step_terminated (h.amountConverts action) hstep
  refine ⟨step_regular h.regular hstep, step_staffed hworkers h.staffed hstep hrunning,
    hrunning, step_stamped h.stamped hstorable.2 hstep, ?_, ?_, ?_⟩
  · cases hmove with
    | accept hthread hpc hq =>
        exact all_append_singleton (pc_of_thread h.posts hthread hpc) h.accepted
    | _ => exact h.accepted
  · refine hmove.allPcs ?_ ?_ (fun _ => trivial) (fun _ _ _ _ _ _ _ _ _ _ _ => trivial)
      h.posts
    · rintro body raw queueIdx rfl -
      exact hstorable.1
    · intro pc hpc
      cases pc with
      | posting | processing => cases hpc
      | _ => trivial
  · refine hmove.drafted ?_ h.drafts
    intro thread hthread tid payment now draft cache _ hpayment hcreated
    exact (h.deliverable hthread hpayment).2 _ _ _ _ _ hcreated

/-! ## Some thread can move -/

theorem exists_callStep {isFallbackPool : Bool} {json : Bytes} {cache : TimestampCache}
    {failover : Failover α} {call : CallPc α} (hjson : json ≠ [])
    (hcall : ∀ draft result, call ≠ .returned draft result) (tid : Nat)
    (processedStart : UInt64) :
    ∃ event outcome, Calm (.run tid event) ∧ ClockWithin processedStart (.run tid event) ∧
      callStep config isFallbackPool json cache failover call event = some outcome := by
  cases call with
  | entered =>
      obtain ⟨payload, ts, cache', hpayload⟩ : ∃ payload ts cache',
          createProcessorPayload cache processedStart.toNat json =
            some (payload, ts, cache') :=
        ⟨_, _, _, if_neg hjson⟩
      exact ⟨.clock processedStart.toNat, ⟨.built ⟨payload, ts⟩, failover, cache', []⟩,
        trivial, ⟨le_rfl, Nat.lt_add_of_pos_right (by decide)⟩,
        by simp only [callStep, hpayload]⟩
  | ready draft primary secondary =>
      exact ⟨.reply ⟨true, 200, Double.zero⟩, _, rfl, trivial, rfl⟩
  | retrying draft secondary code =>
      exact ⟨.reply ⟨true, 200, Double.zero⟩, _, rfl, trivial, rfl⟩
  | returned draft result => exact absurd rfl (hcall draft result)
  | built | labelled | answered | handling | handlingSecondary =>
      exact ⟨.tau, _, trivial, trivial, rfl⟩

theorem step_run {tid : Nat} {thread : Thread α} (hrunning : state.terminated = false)
    (hthread : state.threads[tid]? = some thread) (event : Event α) :
    step config state (.run tid event) = state.runThread config tid thread event := by
  simp [step, hrunning, hthread]

theorem step_call {tid : Nat} {thread : Thread α} {payment : Payment} {call : CallPc α}
    {sent : List (Attempt α)} {event : Event α} {outcome : CallOutcome α}
    (hrunning : state.terminated = false) (hthread : state.threads[tid]? = some thread)
    (hpc : thread.pc = .processing payment call sent)
    (hcall : callStep config thread.isFallbackPool payment.raw.json thread.cache
      state.failover call event = some outcome) :
    ∃ next, step config state (.run tid event) = some next ∧
      next.threads[tid]? = some { thread with
        cache := outcome.cache
        pc := .processing payment outcome.pc (sent ++ outcome.sent) } := by
  have hget := getElem?_set_of_getElem? hthread { thread with
    cache := outcome.cache
    pc := .processing payment outcome.pc (sent ++ outcome.sent) }
  rw [step_run hrunning hthread]
  simp only [runThread, hpc]
  cases call with
  | returned draft result => cases event <;> simp [callStep] at hcall
  | _ =>
      simp only [hcall]
      exact ⟨_, rfl, hget⟩

section Progress

variable {tid : Nat} {thread : Thread α}

omit [Double α] in
theorem ne_of_pc_ne {new : Thread α} (hthread : state.threads[tid]? = some thread)
    (hnew : next.threads[tid]? = some new) (hpc : new.pc ≠ thread.pc) : next ≠ state := by
  rintro rfl
  exact hpc (congrArg Thread.pc (Option.some.inj (hnew.symm.trans hthread)))

/-- Between two calls a worker and a closing probe move whatever the shared state. -/
theorem exists_control_step (hrunning : state.terminated = false)
    (hthread : state.threads[tid]? = some thread) (hburden : thread.pc.burden ≠ 0)
    (hcontrol : thread.pc.isControl = true)
    (hspawning : ∀ payment, thread.pc ≠ .spawning payment) :
    ∃ event pc fallbackIsRunning lastFallback, Calm (.run tid event) ∧
      ClockWithin processedStart (.run tid event) ∧ pc ≠ thread.pc ∧
      step config state (.run tid event) =
        some { state.setPc tid thread pc with fallbackIsRunning, lastFallback } := by
  cases hpc : thread.pc with
  | posting | processing => simp [hpc, Pc.isControl] at hcontrol
  | polling | exited => simp [hpc, Pc.burden] at hburden
  | spawning payment => exact absurd hpc (hspawning payment)
  | starting =>
      refine ⟨.wall 0, .polling, state.fallbackIsRunning, 0, trivial, trivial, by simp, ?_⟩
      rw [step_run hrunning hthread]
      simp only [runThread, hpc]
      rfl
  | fetched payment =>
      refine ⟨.wall 0, .timed payment 0, state.fallbackIsRunning, state.lastFallback,
        trivial, trivial, by simp, ?_⟩
      rw [step_run hrunning hthread]
      simp only [runThread, hpc]
      rfl
  | timed payment now =>
      refine ⟨.tau, .paced payment (elapsedMs now state.lastFallback),
        state.fallbackIsRunning, state.lastFallback, trivial, trivial, by simp, ?_⟩
      rw [step_run hrunning hthread]
      simp only [runThread, hpc]
      rfl
  | paced payment elapsed =>
      by_cases hdue : (!state.fallbackIsRunning &&
          decide (elapsed ≥ config.fallbackIntervalMs)) = true
      · refine ⟨.tau, .launching payment, state.fallbackIsRunning, state.lastFallback,
          trivial, trivial, by simp, ?_⟩
        rw [step_run hrunning hthread]
        simp only [runThread, hpc, hdue]
        rfl
      · refine ⟨.tau, .processing payment .entered [], state.fallbackIsRunning,
          state.lastFallback, trivial, trivial, by simp, ?_⟩
        rw [step_run hrunning hthread]
        simp only [runThread, hpc, hdue]
        rfl
  | launching payment =>
      refine ⟨.tau, .spawning payment, true, state.lastFallback, trivial, trivial, by simp, ?_⟩
      rw [step_run hrunning hthread]
      simp only [runThread, hpc]
      rfl
  | closing =>
      refine ⟨.tau, .stamping, false, state.lastFallback, trivial, trivial, by simp, ?_⟩
      rw [step_run hrunning hthread]
      simp only [runThread, hpc]
      rfl
  | stamping =>
      refine ⟨.wall 0, .exited, state.fallbackIsRunning, 0, trivial, trivial, by simp, ?_⟩
      rw [step_run hrunning hthread]
      simp only [runThread, hpc]
      rfl

theorem exists_fetch_step (hrunning : state.terminated = false)
    (hthread : state.threads[tid]? = some thread) (hpc : thread.pc = .polling)
    {q : WorkerQueue Payment} (hq : state.queues[thread.workerId]? = some q)
    (houtstanding : q.outstanding ≠ 0) :
    ∃ next, step config state (.run tid .tau) = some next ∧ next ≠ state := by
  cases hfetch : q.fetchNext true with
  | none =>
      have hempty := (q.fetchNext_eq_none_iff).mp hfetch
      exact absurd (Nat.sub_eq_zero_of_le hempty) houtstanding
  | some fetched =>
      obtain ⟨payment, q'⟩ := fetched
      rw [step_run hrunning hthread]
      simp only [runThread, hpc, fetch, hq, hfetch]
      refine ⟨_, rfl, ne_of_pc_ne hthread (getElem?_set_of_getElem? hthread _) ?_⟩
      rw [hpc]
      dsimp only
      split_ifs <;> simp

theorem Serviceable.exists_queue (h : state.Serviceable config processedStart)
    (hthread : state.threads[tid]? = some thread) :
    ∃ q, state.queues[thread.workerId]? = some q := by
  have hid := h.staffed.workerIds thread (List.mem_of_getElem? hthread)
  rw [← h.staffed.queues] at hid
  exact ⟨_, List.getElem?_eq_getElem hid⟩

theorem Serviceable.exists_finish_step (h : state.Serviceable config processedStart)
    (hthread : state.threads[tid]? = some thread) {payment : Payment} {draft : Draft}
    {result : ProcessorResult} {sent : List (Attempt α)}
    (hpc : thread.pc = .processing payment (.returned draft result) sent) :
    ∃ next, step config state (.run tid .tau) = some next ∧
      next.threads[tid]? = some { thread with pc := afterProcess thread } := by
  have hset := getElem?_set_of_getElem? hthread { thread with pc := afterProcess thread }
  rw [step_run h.running hthread]
  simp only [runThread, hpc]
  cases result with
  | tryAgain =>
      obtain ⟨q, hq⟩ := h.exists_queue hthread
      simp only [finish, hq]
      exact ⟨_, rfl, hset⟩
  | discard => exact ⟨_, rfl, hset⟩
  | default | fallback =>
      have hdraft := pc_of_thread h.drafts hthread hpc draft rfl
      obtain ⟨amount, hamount⟩ := Option.isSome_iff_exists.mp hdraft
      have hindex := h.stamped.storesWithin h.regular.start_eq thread
        (List.mem_of_getElem? hthread) payment draft _ sent hpc
      simp only [finish, Ledger.storeProcessed, hamount, Ledger.add_of_lt hindex]
      exact ⟨_, rfl, hset⟩

/-- A thread with work left has a step that changes the state. -/
theorem Serviceable.exists_thread_step (h : state.Serviceable config processedStart)
    (hthread : state.threads[tid]? = some thread) (hburden : thread.pc.burden ≠ 0) :
    ∃ event next, Calm (.run tid event) ∧ ClockWithin processedStart (.run tid event) ∧
      step config state (.run tid event) = some next ∧ next ≠ state := by
  have hrunning := h.running
  have hset := fun new => getElem?_set_of_getElem? hthread new
  cases hcontrol : thread.pc.isControl with
  | true =>
      by_cases hspawning : ∃ payment, thread.pc = .spawning payment
      · obtain ⟨payment, hpc⟩ := hspawning
        refine ⟨.tau, { state with
          threads := state.threads.set tid { thread with pc := .polling } ++
            [⟨thread.workerId, true, .initial, .processing payment .entered []⟩] },
          trivial, trivial, ?_, fun hsame => ?_⟩
        · rw [step_run hrunning hthread]
          simp only [runThread, hpc]
          rfl
        · simpa using congrArg (fun state : Service α => state.threads.length) hsame
      · push Not at hspawning
        obtain ⟨event, pc, fallbackIsRunning, lastFallback, hcalm, hclock, hpc, hstep⟩ :=
          exists_control_step hrunning hthread hburden hcontrol hspawning
        exact ⟨event, _, hcalm, hclock, hstep, ne_of_pc_ne hthread (hset _) hpc⟩
  | false =>
      cases hpc : thread.pc with
      | posting body raw queueIdx =>
          obtain ⟨q, hq⟩ := h.exists_queue hthread
          have hidx := h.staffed.posting thread (List.mem_of_getElem? hthread) body raw
            queueIdx hpc
          rw [← hidx] at hq
          obtain ⟨next, hstep, hnew⟩ : ∃ next, step config state (.run tid .tau) = some next ∧
              next.threads[tid]? = some { thread with pc := .exited } := by
            rw [step_run hrunning hthread]
            simp only [runThread, hpc, accept, hq]
            exact ⟨_, rfl, hset _⟩
          exact ⟨.tau, next, trivial, trivial, hstep,
            ne_of_pc_ne hthread hnew (by simp [hpc])⟩
      | processing payment call sent =>
          by_cases hreturned : ∃ draft result, call = .returned draft result
          · obtain ⟨draft, result, rfl⟩ := hreturned
            obtain ⟨next, hstep, hnew⟩ := h.exists_finish_step hthread hpc
            refine ⟨.tau, next, trivial, trivial, hstep,
              ne_of_pc_ne hthread hnew fun hsame => ?_⟩
            have hless := afterProcess_burden_lt hpc
            rw [← hsame] at hless
            exact absurd hless (lt_irrefl _)
          · push Not at hreturned
            have hjson := (h.deliverable (List.mem_of_getElem? hthread)
              (by rw [hpc]; rfl)).1
            obtain ⟨event, outcome, hcalm, hclock, hcall⟩ : ∃ event outcome,
                Calm (.run tid event) ∧ ClockWithin processedStart (.run tid event) ∧
                callStep config thread.isFallbackPool payment.raw.json thread.cache
                  state.failover call event = some outcome :=
              exists_callStep hjson hreturned tid processedStart
            obtain ⟨next, hstep, hnew⟩ := step_call hrunning hthread hpc hcall
            have hless : outcome.pc.burden < call.burden := by
              apply callStep_burden (trace_of_thread h.regular.pcs hthread hpc) _ hcall
              rintro reply rfl
              exact hcalm
            refine ⟨event, next, hcalm, hclock, hstep,
              ne_of_pc_ne hthread hnew fun hsame => ?_⟩
            rw [hpc] at hsame
            rw [(Pc.processing.inj hsame).2.1] at hless
            exact absurd hless (lt_irrefl _)
      | _ => simp [hpc, Pc.isControl] at hcontrol

end Progress

/-! ## Runs without failures -/

/-- A calm step that changes the state: not a poll of an empty queue. -/
def Effective (config : Config α) (processedStart : UInt64) (state : Service α)
    (action : Action α) : Prop :=
  Calm action ∧ ClockWithin processedStart action ∧ step config state action ≠ some state

theorem Effective.storable (h : Effective config processedStart state action) :
    Storable processedStart action := by
  refine ⟨?_, h.2.1⟩
  cases action with
  | post body => exact h.1.elim
  | run tid event => trivial

theorem Effective.lowers (hworkers : 0 < config.workerCount)
    (h : state.Serviceable config processedStart)
    (heffective : Effective config processedStart state action)
    (hstep : step config state action = some next) : next.burden < state.burden := by
  have hnext := step_serviceable hworkers h heffective.storable hstep
  rcases (step_move hstep).burden h.regular.pcs heffective.1 with hsame | hterminated | hless
  · exact absurd (hsame ▸ hstep) heffective.2.2
  · simp [hnext.running] at hterminated
  · exact hless

omit [Double α] in
theorem drained_of_staffed (h : Staffed config state)
    (hqueues : ∀ q ∈ state.queues, q.outstanding = 0)
    (hthreads : ∀ thread ∈ state.threads, thread.pc.burden = 0) : state.Drained config where
  queues := fun q hq => (q.fetchNext_eq_none_iff).mpr (Nat.sub_eq_zero_iff_le.mp (hqueues q hq))
  workers := by
    intro worker hworker
    obtain ⟨thread, hthread, -, -, hworking⟩ := h.workers worker hworker
    exact ⟨thread, hthread,
      Pc.eq_polling (hthreads thread (List.mem_of_getElem? hthread)) hworking⟩
  others := fun tid thread htid hthread =>
    Pc.eq_exited (hthreads thread (List.mem_of_getElem? hthread))
      (h.others tid thread htid hthread)

theorem Serviceable.advances (h : state.Serviceable config processedStart) :
    state.Drained config ∨ ∃ action next, Effective config processedStart state action ∧
      step config state action = some next := by
  by_cases hthreads : ∀ thread ∈ state.threads, thread.pc.burden = 0
  · by_cases hqueues : ∀ q ∈ state.queues, q.outstanding = 0
    · exact Or.inl (drained_of_staffed h.staffed hqueues hthreads)
    · right
      push Not at hqueues
      obtain ⟨q, hmem, hq⟩ := hqueues
      obtain ⟨worker, hworker⟩ := List.mem_iff_getElem?.mp hmem
      have hlt : worker < config.workerCount := by
        rw [← h.staffed.queues]
        exact (List.getElem?_eq_some_iff.mp hworker).1
      obtain ⟨thread, hthread, rfl, -, hworking⟩ := h.staffed.workers worker hlt
      have hpolling := Pc.eq_polling (hthreads thread (List.mem_of_getElem? hthread)) hworking
      obtain ⟨next, hstep, hne⟩ := exists_fetch_step h.running hthread hpolling hworker hq
      refine ⟨.run thread.workerId .tau, next, ⟨trivial, trivial, ?_⟩, hstep⟩
      rw [hstep]
      exact fun hsame => hne (Option.some.inj hsame)
  · right
    push Not at hthreads
    obtain ⟨thread, hmem, hburden⟩ := hthreads
    obtain ⟨tid, hthread⟩ := List.mem_iff_getElem?.mp hmem
    obtain ⟨event, next, hcalm, hclock, hstep, hne⟩ := h.exists_thread_step hthread hburden
    refine ⟨_, next, ⟨hcalm, hclock, ?_⟩, hstep⟩
    rw [hstep]
    exact fun hsame => hne (Option.some.inj hsame)

theorem execute_serviceable (hworkers : 0 < config.workerCount) {actions : List (Action α)}
    (hstorable : Along (step config) (fun _ action => Storable processedStart action)
      (initial config processedStart) actions)
    (hrun : execute (step config) (initial config processedStart) actions = some state) :
    state.Serviceable config processedStart :=
  execute_invariant (fun _ _ _ h hguard hstep => step_serviceable hworkers h hguard hstep)
    (initial_serviceable config processedStart) hstorable hrun

/--
From every state that any run reaches, steps without failures end after at most
`burden` of them, in whatever order the threads move and whatever second the clock
shows: they cannot stop before every payment has left its queue and its thread.
-/
theorem backlog_drains (hworkers : 0 < config.workerCount) {actions : List (Action α)}
    (hstorable : Along (step config) (fun _ action => Storable processedStart action)
      (initial config processedStart) actions)
    (hrun : execute (step config) (initial config processedStart) actions = some state) :
    (∀ rest final, Along (step config) (Effective config processedStart) state rest →
      execute (step config) state rest = some final →
      rest.length ≤ state.burden ∧
        (final.Drained config ∨ ∃ action next, Effective config processedStart final action ∧
          step config final action = some next)) ∧
    ∃ rest final, Along (step config) (Effective config processedStart) state rest ∧
      execute (step config) state rest = some final ∧ final.Drained config := by
  have hstart := execute_serviceable hworkers hstorable hrun
  have hpreserves : ∀ (state : Service α) action next,
      state.Serviceable config processedStart →
      Effective config processedStart state action →
      step config state action = some next → next.Serviceable config processedStart :=
    fun _ _ _ h heffective hstep => step_serviceable hworkers h heffective.storable hstep
  have hlowers : ∀ (state : Service α) action next,
      state.Serviceable config processedStart →
      Effective config processedStart state action →
      step config state action = some next → next.burden < state.burden :=
    fun _ _ _ h heffective hstep => heffective.lowers hworkers h hstep
  refine ⟨fun rest final halong hrest => ⟨?_, ?_⟩, ?_⟩
  · exact le_of_add_le_left (execute_length_le hpreserves hlowers hstart halong hrest)
  · exact (execute_invariant hpreserves hstart halong hrest).advances
  · exact exists_execute_done hpreserves hlowers (fun _ h => h.advances) hstart

theorem deliverable_render (payment : PaymentObject) : Deliverable ℚ payment.render := by
  refine ⟨payment.render_ne_nil, fun cache now payload ts cache' hpayload => ?_⟩
  obtain ⟨-, -, -, rfl⟩ := createProcessorPayload_eq_some hpayload
  have hcarries : CarriesAmount (payment.render.dropLast ++ requestedAtKey ++
      cache'.requestedAt ++ requestedAtEnd) payment.amount := by
    refine ⟨payment, cache'.requestedAt, ?_, rfl⟩
    rw [dropLast_render]
    simp only [stampedPayload, List.cons_append, List.append_assoc]
  rw [extractAmount_of_carriesAmount hcarries, Json.Number.stod_render]
  rfl

/-- The processor answers 500 and the payment goes back into its queue. -/
def outage : List (Action ℚ) :=
  postAndFetch ℚ samplePayment.render ++
    [.run 0 (.clock 1751328010), .run 0 .tau, .run 0 .tau,
      .run 0 (.reply (.ofCurl true 500 1)), .run 0 .tau, .run 0 .tau, .run 0 .tau]

def afterOutage : Option (Service ℚ) :=
  execute (step (singleWorker ℚ)) (initial (singleWorker ℚ) 1751328000) outage

theorem afterOutage_isSome : afterOutage.isSome = true := by decide +kernel

theorem outage_storable :
    Along (step (singleWorker ℚ)) (fun _ action => Storable 1751328000 action)
      (initial (singleWorker ℚ) 1751328000) outage := by
  refine along_of_forall (fun action haction => ?_) _
  simp only [outage, postAndFetch, List.cons_append, List.nil_append, List.mem_cons,
    List.not_mem_nil, or_false] at haction
  rcases haction with rfl | rfl | rfl | rfl | rfl | rfl | rfl | rfl | rfl | rfl | rfl
  · exact ⟨deliverable_render samplePayment, trivial⟩
  all_goals exact ⟨trivial, by decide⟩

theorem backlog_drains_after_outage :
    let state := afterOutage.get afterOutage_isSome
    state.burden = queuedBurden ∧ (∃ q ∈ state.queues, q.fetchNext true ≠ none) ∧
      ∃ rest final, Along (step (singleWorker ℚ)) (Effective (singleWorker ℚ) 1751328000)
          state rest ∧
        execute (step (singleWorker ℚ)) state rest = some final ∧
        final.Drained (singleWorker ℚ) ∧ rest.length ≤ queuedBurden := by
  intro state
  have hburden : state.burden = queuedBurden := by decide +kernel
  obtain ⟨hshort, rest, final, halong, hrest, hdrained⟩ := backlog_drains (by decide)
    outage_storable (Option.some_get afterOutage_isSome).symm
  exact ⟨hburden, by decide +kernel, rest, final, halong, hrest, hdrained,
    hburden ▸ (hshort rest final halong hrest).1⟩

end Service

end RinhaBackend
