import RinhaBackend.Call
import RinhaBackend.Ledger
import RinhaBackend.Queue

/-!
# The service and its threads

HTTP handlers, worker threads and detached fallback-pool threads over one shared
state.  A step is one access to shared state by one thread; any thread may move
at any time.  The history records what the outside world sees: the bodies
answered 202, the attempts made, the calls returned and the payments stored.
-/

namespace RinhaBackend

open Foundation

def queueCapacity : Nat := 100000

/-- A queued payment with the number of the POST that brought it, counted from 1. -/
structure Payment where
  serial : Nat
  raw : RawPayment
  deriving DecidableEq

def Payment.empty : Payment := ⟨0, .empty⟩

inductive Pc (α : Type) where
  | posting (body : Bytes) (raw : RawPayment) (queueIdx : Nat)
  | starting
  | polling
  | fetched (payment : Payment)
  | timed (payment : Payment) (now : Int)
  | paced (payment : Payment) (elapsed : Int)
  | launching (payment : Payment)
  | spawning (payment : Payment)
  | processing (payment : Payment) (call : CallPc α) (sent : List (Attempt α))
  | closing
  | stamping
  | exited

structure Thread (α : Type) where
  workerId : Nat
  isFallbackPool : Bool
  cache : TimestampCache
  pc : Pc α

structure StoreEntry (α : Type) where
  payment : Payment
  processor : ProcessorResult
  draft : Draft
  amount : α

structure CallRecord (α : Type) where
  payment : Payment
  sent : List (Attempt α)
  result : ProcessorResult

structure History (α : Type) where
  accepted : List (Payment × Bytes)
  attempts : List (Nat × Attempt α)
  returned : List (CallRecord α)
  stored : List (StoreEntry α)

structure Service (α : Type) where
  failover : Failover α
  queues : List (WorkerQueue Payment)
  queueIndex : UInt64
  ledger : Ledger α
  fallbackIsRunning : Bool
  lastFallback : Int
  terminated : Bool
  threads : List (Thread α)
  history : History α

inductive Action (α : Type) where
  | post (body : Bytes)
  | run (tid : Nat) (event : Event α)

namespace Service

variable {α : Type} [Double α]

def initial (config : Config α) (processedStart : UInt64) : Service α where
  failover := .initial config
  queues := List.replicate config.workerCount (.initial queueCapacity .empty)
  queueIndex := 0
  ledger := .initial processedStart
  fallbackIsRunning := false
  lastFallback := 0
  terminated := false
  threads := (List.range config.workerCount).map fun worker =>
    ⟨worker, false, .initial, .starting⟩
  history := ⟨[], [], [], []⟩

def setThread (state : Service α) (tid : Nat) (thread : Thread α) : Service α :=
  { state with threads := state.threads.set tid thread }

def setPc (state : Service α) (tid : Nat) (thread : Thread α) (pc : Pc α) : Service α :=
  state.setThread tid { thread with pc }

def setQueue (state : Service α) (index : Nat) (q : WorkerQueue Payment) : Service α :=
  { state with queues := state.queues.set index q }

/--
The end of the process, after an exception that no thread catches: its threads and
what it holds in memory are gone.  The buckets keep their last contents, which nothing
can read any more.
-/
def terminate (state : Service α) : Service α :=
  { state with queues := [], threads := [], terminated := true }

omit [Double α] in
@[simp] theorem terminate_threads (state : Service α) : state.terminate.threads = [] := rfl

omit [Double α] in
@[simp] theorem terminate_queues (state : Service α) : state.terminate.queues = [] := rfl

/-- `int elapsed`: whole milliseconds, converted to 32 bits. -/
def elapsedMs (now lastFallback : Int) : Int :=
  Int.bmod ((now - lastFallback).tdiv 1000000) (2 ^ 32)

/-- The end of an HTTP handler: the payment is queued and answered 202. -/
def accept (state : Service α) (tid : Nat) (thread : Thread α) (body : Bytes)
    (raw : RawPayment) (queueIdx : Nat) : Option (Service α) :=
  match state.queues[queueIdx]? with
  | none => none
  | some q =>
      let payment : Payment := ⟨state.history.accepted.length + 1, raw⟩
      some
        { (state.setQueue queueIdx (q.enqueue payment)).setPc tid thread .exited with
          history := { state.history with
            accepted := state.history.accepted ++ [(payment, body)] } }

def fetch (config : Config α) (state : Service α) (tid : Nat) (thread : Thread α) :
    Option (Service α) :=
  match state.queues[thread.workerId]? with
  | none => none
  | some q =>
      match q.fetchNext true with
      | none => some state
      | some (payment, q) =>
          let pc :=
            if config.fallbackEnabled then .fetched payment
            else .processing payment .entered []
          some ((state.setQueue thread.workerId q).setPc tid thread pc)

/-- The rest of `process` after `process_payment` returned. -/
def finish (config : Config α) (state : Service α) (tid : Nat) (thread : Thread α)
    (payment : Payment) (draft : Draft) (result : ProcessorResult)
    (sent : List (Attempt α)) : Option (Service α) :=
  let pc := if thread.isFallbackPool then .closing else .polling
  let record : CallRecord α := ⟨payment, sent, result⟩
  let history := { state.history with returned := state.history.returned ++ [record] }
  let state' := { state.setPc tid thread pc with history }
  match result with
  | .tryAgain =>
      match state.queues[thread.workerId]? with
      | none => none
      | some q => some (state'.setQueue thread.workerId (q.enqueue payment))
  | .discard => some state'
  | processor =>
      match state.ledger.storeProcessed config draft.payload processor draft.ts with
      | .stored amount ledger =>
          some { state' with
            ledger
            history := { history with
              stored := history.stored ++ [⟨payment, processor, draft, amount⟩] } }
      | .thrown => some state.terminate
      | .undefined => none

def runThread (config : Config α) (state : Service α) (tid : Nat) (thread : Thread α)
    (event : Event α) : Option (Service α) :=
  match thread.pc, event with
  | .posting body raw queueIdx, .tau => state.accept tid thread body raw queueIdx
  | .starting, .wall now =>
      some { state.setPc tid thread .polling with lastFallback := now }
  | .polling, .tau => state.fetch config tid thread
  | .fetched payment, .wall now => some (state.setPc tid thread (.timed payment now))
  | .timed payment now, .tau =>
      some (state.setPc tid thread (.paced payment (elapsedMs now state.lastFallback)))
  | .paced payment elapsed, .tau =>
      if !state.fallbackIsRunning && decide (elapsed ≥ config.fallbackIntervalMs) then
        some (state.setPc tid thread (.launching payment))
      else some (state.setPc tid thread (.processing payment .entered []))
  | .launching payment, .tau =>
      some { state.setPc tid thread (.spawning payment) with fallbackIsRunning := true }
  | .spawning payment, .tau =>
      let pool : Thread α :=
        ⟨thread.workerId, true, .initial, .processing payment .entered []⟩
      let state := state.setPc tid thread .polling
      some { state with threads := state.threads ++ [pool] }
  | .processing payment (.returned draft result) sent, .tau =>
      state.finish config tid thread payment draft result sent
  | .processing payment call sent, event =>
      match callStep config thread.isFallbackPool payment.raw.json thread.cache
          state.failover call event with
      | none => none
      | some outcome =>
          let pc := .processing payment outcome.pc (sent ++ outcome.sent)
          some
            { state.setThread tid { thread with cache := outcome.cache, pc } with
              failover := outcome.failover
              history := { state.history with
                attempts := state.history.attempts ++
                  outcome.sent.map fun attempt => (payment.serial, attempt) } }
  | .closing, .tau =>
      some { state.setPc tid thread .stamping with fallbackIsRunning := false }
  | .stamping, .wall now =>
      some { state.setPc tid thread .exited with lastFallback := now }
  | _, _ => none

/--
One step of the service; `none` where the step is not enabled and where the source
has no defined behaviour.
-/
def step (config : Config α) (state : Service α) : Action α → Option (Service α)
  | .post body =>
      if state.terminated then none
      else
        match RawPayment.ofBody body with
        | none => none
        | some raw =>
            let idx := state.queueIndex.toNat % state.queues.length
            some { state with
              queueIndex := state.queueIndex + 1
              threads := state.threads ++ [⟨idx, false, .initial, .posting body raw idx⟩] }
  | .run tid event =>
      if state.terminated then none
      else
        match state.threads[tid]? with
        | none => none
        | some thread => state.runThread config tid thread event

/-! ## What a step can do -/

/-- The moves of a thread that touch neither a queue, the ledger nor a call. -/
inductive Control : Pc α → Pc α → Prop
  | start : Control .starting .polling
  | time (payment : Payment) (now : Int) : Control (.fetched payment) (.timed payment now)
  | pace (payment : Payment) (now elapsed : Int) :
      Control (.timed payment now) (.paced payment elapsed)
  | launch (payment : Payment) (elapsed : Int) :
      Control (.paced payment elapsed) (.launching payment)
  | direct (payment : Payment) (elapsed : Int) :
      Control (.paced payment elapsed) (.processing payment .entered [])
  | mark (payment : Payment) : Control (.launching payment) (.spawning payment)
  | close : Control .closing .stamping
  | stamp : Control .stamping .exited

def afterProcess (thread : Thread α) : Pc α :=
  if thread.isFallbackPool then .closing else .polling

def logReturn (state : Service α) (record : CallRecord α) : Service α :=
  { state with history := { state.history with
      returned := state.history.returned ++ [record] } }

inductive Move (config : Config α) (state : Service α) : Action α → Service α → Prop
  | post {body : Bytes} {raw : RawPayment} {queueIdx : Nat} {queueIndex : UInt64}
      (hraw : RawPayment.ofBody body = some raw) :
      Move config state (.post body)
        { state with
          queueIndex
          threads := state.threads ++
            [⟨queueIdx, false, .initial, .posting body raw queueIdx⟩] }
  | accept {tid : Nat} {thread : Thread α} {body : Bytes} {raw : RawPayment}
      {queueIdx : Nat} {q : WorkerQueue Payment}
      (hthread : state.threads[tid]? = some thread)
      (hpc : thread.pc = .posting body raw queueIdx)
      (hq : state.queues[queueIdx]? = some q) :
      Move config state (.run tid .tau)
        { (state.setQueue queueIdx
              (q.enqueue ⟨state.history.accepted.length + 1, raw⟩)).setPc
            tid thread .exited with
          history := { state.history with
            accepted := state.history.accepted ++
              [(⟨state.history.accepted.length + 1, raw⟩, body)] } }
  | idle {tid : Nat} {event : Event α} : Move config state (.run tid event) state
  | fetch {tid : Nat} {thread : Thread α} {q q' : WorkerQueue Payment}
      {payment : Payment} {pc : Pc α} (hthread : state.threads[tid]? = some thread)
      (hpc : thread.pc = .polling) (hq : state.queues[thread.workerId]? = some q)
      (hfetch : q.fetchNext true = some (payment, q'))
      (hnext : config.fallbackEnabled = true ∧ pc = .fetched payment ∨
        pc = .processing payment .entered []) :
      Move config state (.run tid .tau)
        ((state.setQueue thread.workerId q').setPc tid thread pc)
  | control {tid : Nat} {thread : Thread α} {event : Event α} {pc : Pc α}
      {fallbackIsRunning : Bool} {lastFallback : Int}
      (hthread : state.threads[tid]? = some thread) (hcontrol : Control thread.pc pc) :
      Move config state (.run tid event)
        { state.setPc tid thread pc with fallbackIsRunning, lastFallback }
  | spawn {tid : Nat} {thread : Thread α} {payment : Payment}
      (hthread : state.threads[tid]? = some thread)
      (hpc : thread.pc = .spawning payment) :
      Move config state (.run tid .tau)
        { state with
          threads := state.threads.set tid { thread with pc := .polling } ++
            [⟨thread.workerId, true, .initial, .processing payment .entered []⟩] }
  | call {tid : Nat} {thread : Thread α} {event : Event α} {payment : Payment}
      {call : CallPc α} {sent : List (Attempt α)} {outcome : CallOutcome α}
      (hthread : state.threads[tid]? = some thread)
      (hpc : thread.pc = .processing payment call sent)
      (hcall : callStep config thread.isFallbackPool payment.raw.json thread.cache
        state.failover call event = some outcome) :
      Move config state (.run tid event)
        { state.setThread tid
            { thread with
              cache := outcome.cache
              pc := .processing payment outcome.pc (sent ++ outcome.sent) } with
          failover := outcome.failover
          history := { state.history with
            attempts := state.history.attempts ++
              outcome.sent.map fun attempt => (payment.serial, attempt) } }
  | requeue {tid : Nat} {thread : Thread α} {payment : Payment} {draft : Draft}
      {sent : List (Attempt α)} {q : WorkerQueue Payment}
      (hthread : state.threads[tid]? = some thread)
      (hpc : thread.pc = .processing payment (.returned draft .tryAgain) sent)
      (hq : state.queues[thread.workerId]? = some q) :
      Move config state (.run tid .tau)
        (((state.setPc tid thread (afterProcess thread)).logReturn
          ⟨payment, sent, .tryAgain⟩).setQueue thread.workerId (q.enqueue payment))
  | discard {tid : Nat} {thread : Thread α} {payment : Payment} {draft : Draft}
      {sent : List (Attempt α)} (hthread : state.threads[tid]? = some thread)
      (hpc : thread.pc = .processing payment (.returned draft .discard) sent) :
      Move config state (.run tid .tau)
        ((state.setPc tid thread (afterProcess thread)).logReturn
          ⟨payment, sent, .discard⟩)
  | store {tid : Nat} {thread : Thread α} {payment : Payment} {draft : Draft}
      {sent : List (Attempt α)} {processor : ProcessorResult} {amount : α}
      (hthread : state.threads[tid]? = some thread)
      (hpc : thread.pc = .processing payment (.returned draft processor) sent)
      (hprocessor : processor = .default ∨ processor = .fallback)
      (hamount : extractAmount draft.payload = some amount)
      (hindex : state.ledger.storeIndex draft.ts < processedCapacity) :
      Move config state (.run tid .tau)
        { (state.setPc tid thread (afterProcess thread)).logReturn
            ⟨payment, sent, processor⟩ with
          ledger := state.ledger.addAt (Ledger.side config processor)
            ⟨state.ledger.storeIndex draft.ts, hindex⟩ amount
          history := { state.history with
            returned := state.history.returned ++ [⟨payment, sent, processor⟩]
            stored := state.history.stored ++ [⟨payment, processor, draft, amount⟩] } }
  | abort {tid : Nat} {thread : Thread α} {payment : Payment} {draft : Draft}
      {sent : List (Attempt α)} {processor : ProcessorResult}
      (hthread : state.threads[tid]? = some thread)
      (hpc : thread.pc = .processing payment (.returned draft processor) sent)
      (hprocessor : processor = .default ∨ processor = .fallback)
      (hamount : (extractAmount draft.payload : Option α) = none) :
      Move config state (.run tid .tau) state.terminate

theorem finish_move {config : Config α} {state next : Service α} {tid : Nat}
    {thread : Thread α} {payment : Payment} {draft : Draft} {result : ProcessorResult}
    {sent : List (Attempt α)} (hthread : state.threads[tid]? = some thread)
    (hpc : thread.pc = .processing payment (.returned draft result) sent)
    (h : state.finish config tid thread payment draft result sent = some next) :
    Move config state (.run tid .tau) next := by
  cases result with
  | tryAgain =>
      simp only [finish] at h
      split at h
      · simp at h
      · cases h
        exact .requeue hthread hpc ‹_›
  | discard =>
      simp only [finish, Option.some.injEq] at h
      cases h
      exact .discard hthread hpc
  | default | fallback =>
      simp only [finish] at h
      split at h
      · rename_i amount ledger hstored
        obtain ⟨hamount, hadd⟩ := Ledger.storeProcessed_eq_stored hstored
        obtain ⟨hindex, rfl⟩ := Ledger.add_eq_some hadd
        cases h
        exact .store hthread hpc (by simp) hamount hindex
      · rename_i hthrown
        cases h
        exact .abort hthread hpc (by simp) (Ledger.storeProcessed_eq_thrown hthrown)
      · simp at h

theorem runThread_move {config : Config α} {state next : Service α} {tid : Nat}
    {thread : Thread α} {event : Event α} (hthread : state.threads[tid]? = some thread)
    (h : state.runThread config tid thread event = some next) :
    Move config state (.run tid event) next := by
  unfold runThread at h
  split at h
  case h_1 hpc =>
      simp only [accept] at h
      split at h
      · simp at h
      · cases h
        exact .accept hthread hpc ‹_›
  case h_2 hpc =>
      cases h
      exact .control hthread (hpc ▸ .start)
  case h_3 hpc =>
      simp only [fetch] at h
      split at h
      · simp at h
      · split at h
        · cases h
          exact .idle
        · cases h
          refine .fetch hthread hpc ‹_› ‹_› ?_
          split_ifs with henabled <;> simp [henabled]
  case h_4 hpc =>
      cases h
      exact .control hthread (hpc ▸ .time _ _)
  case h_5 hpc =>
      cases h
      exact .control hthread (hpc ▸ .pace _ _ _)
  case h_6 hpc =>
      split_ifs at h
      · cases h
        exact .control hthread (hpc ▸ .launch _ _)
      · cases h
        exact .control hthread (hpc ▸ .direct _ _)
  case h_7 hpc =>
      cases h
      exact .control hthread (hpc ▸ .mark _)
  case h_8 hpc =>
      cases h
      exact .spawn hthread hpc
  case h_9 hpc => exact finish_move hthread hpc h
  case h_10 hpc _ =>
      split at h
      · simp at h
      · cases h
        exact .call hthread hpc ‹_›
  case h_11 hpc =>
      cases h
      exact .control hthread (hpc ▸ .close)
  case h_12 hpc =>
      cases h
      exact .control hthread (hpc ▸ .stamp)
  case h_13 => simp at h

theorem running_of_step {config : Config α} {state next : Service α} {action : Action α}
    (h : step config state action = some next) : state.terminated = false := by
  cases hrunning : state.terminated with
  | true => cases action <;> simp [step, hrunning] at h
  | false => rfl

theorem step_move {config : Config α} {state next : Service α} {action : Action α}
    (h : step config state action = some next) : Move config state action next := by
  cases action with
  | post body =>
      simp only [step] at h
      split at h
      · simp at h
      · split at h
        · simp at h
        · cases h
          exact .post ‹_›
  | run tid event =>
      simp only [step] at h
      split at h
      · simp at h
      · split at h
        · simp at h
        · exact runThread_move ‹_› h

/-! ## The shared variables of the probes -/

/-- What a control move does to `fallback_is_running` and `last_fallback`. -/
inductive Paces (config : Config α) (running : Bool) (last : Int) :
    Event α → Pc α → Pc α → Bool → Int → Prop
  | start (now : Int) :
      Paces config running last (.wall now) .starting .polling running now
  | time (payment : Payment) (now : Int) :
      Paces config running last (.wall now) (.fetched payment) (.timed payment now)
        running last
  | pace (payment : Payment) (now : Int) :
      Paces config running last .tau (.timed payment now)
        (.paced payment (elapsedMs now last)) running last
  | launch (payment : Payment) (elapsed : Int) (hrunning : running = false)
      (helapsed : config.fallbackIntervalMs ≤ elapsed) :
      Paces config running last .tau (.paced payment elapsed) (.launching payment)
        running last
  | direct (payment : Payment) (elapsed : Int) :
      Paces config running last .tau (.paced payment elapsed)
        (.processing payment .entered []) running last
  | mark (payment : Payment) :
      Paces config running last .tau (.launching payment) (.spawning payment) true last
  | close : Paces config running last .tau .closing .stamping false last
  | stamp (now : Int) :
      Paces config running last (.wall now) .stamping .exited running now

theorem step_paces {config : Config α} {state next : Service α} {tid : Nat}
    {thread : Thread α} {event : Event α} {pc : Pc α}
    (hthread : state.threads[tid]? = some thread) (hcontrol : Control thread.pc pc)
    (hstep : step config state (.run tid event) = some next) :
    ∃ pc', Paces config state.fallbackIsRunning state.lastFallback event thread.pc pc'
        next.fallbackIsRunning next.lastFallback ∧
      next = { state.setPc tid thread pc' with
        fallbackIsRunning := next.fallbackIsRunning
        lastFallback := next.lastFallback } := by
  simp only [step, hthread] at hstep
  split at hstep
  · simp at hstep
  · obtain ⟨workerId, isFallbackPool, cache, source⟩ := thread
    dsimp only at hcontrol
    cases hcontrol with
    | launch payment elapsed | direct payment elapsed =>
        cases event with
        | tau =>
            simp only [runThread] at hstep
            split_ifs at hstep with hguard
            · cases hstep
              simp only [Bool.and_eq_true, Bool.not_eq_true', decide_eq_true_eq] at hguard
              exact ⟨_, .launch payment elapsed hguard.1 hguard.2, rfl⟩
            · cases hstep
              exact ⟨_, .direct payment elapsed, rfl⟩
        | clock | wall | reply => simp [runThread] at hstep
    | start =>
        cases event with
        | wall now =>
            cases hstep
            exact ⟨_, .start now, rfl⟩
        | tau | clock | reply => simp [runThread] at hstep
    | time payment now =>
        cases event with
        | wall now =>
            cases hstep
            exact ⟨_, .time payment now, rfl⟩
        | tau | clock | reply => simp [runThread] at hstep
    | pace payment now =>
        cases event with
        | tau =>
            cases hstep
            exact ⟨_, .pace payment now, rfl⟩
        | clock | wall | reply => simp [runThread] at hstep
    | mark payment =>
        cases event with
        | tau =>
            cases hstep
            exact ⟨_, .mark payment, rfl⟩
        | clock | wall | reply => simp [runThread] at hstep
    | close =>
        cases event with
        | tau =>
            cases hstep
            exact ⟨_, .close, rfl⟩
        | clock | wall | reply => simp [runThread] at hstep
    | stamp =>
        cases event with
        | wall now =>
            cases hstep
            exact ⟨_, .stamp now, rfl⟩
        | tau | clock | reply => simp [runThread] at hstep

end Service

end RinhaBackend
