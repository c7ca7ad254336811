import Mathlib.Data.Int.CardIntervalMod
import RinhaBackend.Intake
import RinhaBackend.Threads

/-!
# Which worker gets a payment

The POST handlers deal the payments out to the worker queues in turn, by a shared
counter.  A payment then stays with its worker: a retry goes back into the same
queue, and a probe carries the number of the worker that launched it.
-/

namespace RinhaBackend

open Foundation

variable {α : Type} [Double α]

/-! ## Round robin -/

def Action.isPost : Action α → Bool
  | .post _ => true
  | .run _ _ => false

/-- The queue that a POST handler has drawn and not yet enqueued to. -/
def Pc.drawnQueue : Pc α → Option Nat
  | .posting _ _ queueIdx => some queueIdx
  | _ => none

namespace Service

variable {config : Config α} {processedStart : UInt64} {state next : Service α}
variable {action : Action α}

/-- The handlers among these threads that have not yet enqueued, each with the number of
its POST and the queue it has drawn.  Only probes run in the fallback pool, so every
other thread is one POST; the first is number `post`. -/
def awaitingFrom (post : Nat) : List (Thread α) → List (Nat × Nat)
  | [] => []
  | thread :: threads =>
      (thread.pc.drawnQueue.map (post, ·)).toList ++
        awaitingFrom (post + if thread.isFallbackPool then 0 else 1) threads

/-- The threads started after the workers: handlers, in the order of the POSTs, and probes. -/
def started (config : Config α) (state : Service α) : List (Thread α) :=
  state.threads.drop config.workerCount

def awaiting (config : Config α) (state : Service α) : List (Nat × Nat) :=
  awaitingFrom 0 (state.started config)

/-- The number of the POST whose handler is thread `tid`. -/
def postNumber (config : Config α) (state : Service α) (tid : Nat) : Nat :=
  ((state.started config).take (tid - config.workerCount)).countP fun thread =>
    !thread.isFallbackPool

/-- The queues that a handler's step puts something into, with the number of its POST:
those whose tail the step moves. -/
def enqueuedTo (config : Config α) (state : Service α) :
    Action α → Service α → List (Nat × Nat)
  | .post _, _ => []
  | .run tid _, next =>
      match state.threads[tid]? with
      | none => []
      | some thread =>
          if thread.pc.drawnQueue.isSome then
            ((List.range state.queues.length).filter fun worker =>
                next.queues[worker]?.map WorkerQueue.tail ≠
                  state.queues[worker]?.map WorkerQueue.tail).map
              (state.postNumber config tid, ·)
          else []

/-- What the handlers of a run put into the queues: the number of the POST and the queue. -/
def enqueued (config : Config α) : Service α → List (Action α) → List (Nat × Nat) :=
  observe (step config) (enqueuedTo config)

/-- The queue of each POST when the counter deals them out in turn. -/
def turns (config : Config α) (posts : Nat) : List (Nat × Nat) :=
  (List.range posts).map fun post => (post, post % 2 ^ 64 % config.workerCount)

section Awaiting

variable {threads : List (Thread α)} {index post : Nat} {old new : Thread α}

omit [Double α] in
theorem awaitingFrom_append (post : Nat) (threads : List (Thread α)) (new : Thread α) :
    awaitingFrom post (threads ++ [new]) = awaitingFrom post threads ++
      (new.pc.drawnQueue.map
        (post + threads.countP fun thread => !thread.isFallbackPool, ·)).toList := by
  induction threads generalizing post with
  | nil => simp [awaitingFrom]
  | cons thread threads ih =>
      rw [List.cons_append, awaitingFrom, ih, awaitingFrom, List.append_assoc,
        List.countP_cons]
      cases hpool : thread.isFallbackPool <;> simp [Nat.add_assoc, Nat.add_comm 1]

omit [Double α] in
theorem awaitingFrom_set_keep (hold : threads[index]? = some old)
    (hpool : new.isFallbackPool = old.isFallbackPool)
    (hdrawn : new.pc.drawnQueue = old.pc.drawnQueue) :
    awaitingFrom post (threads.set index new) = awaitingFrom post threads := by
  induction threads generalizing index post with
  | nil => rfl
  | cons thread threads ih =>
      cases index with
      | zero =>
          obtain rfl : thread = old := by simpa using hold
          rw [List.set_cons_zero, awaitingFrom, awaitingFrom, hpool, hdrawn]
      | succ index =>
          rw [List.set_cons_succ, awaitingFrom, awaitingFrom, ih (by simpa using hold)]

omit [Double α] in
theorem awaitingFrom_set_leave {queueIdx : Nat} (hold : threads[index]? = some old)
    (hpool : new.isFallbackPool = old.isFallbackPool)
    (hdrawn : old.pc.drawnQueue = some queueIdx) (hleft : new.pc.drawnQueue = none) :
    (awaitingFrom post threads).Perm
      ((post + (threads.take index).countP fun thread => !thread.isFallbackPool, queueIdx) ::
        awaitingFrom post (threads.set index new)) := by
  induction threads generalizing index post with
  | nil => simp at hold
  | cons thread threads ih =>
      cases index with
      | zero =>
          obtain rfl : thread = old := by simpa using hold
          simp [awaitingFrom, hdrawn, hleft, hpool]
      | succ index =>
          rw [List.set_cons_succ, awaitingFrom, awaitingFrom, List.take_succ_cons,
            List.countP_cons]
          refine ((ih (by simpa using hold)).append_left _).trans ?_
          cases hfallback : thread.isFallbackPool <;>
            simp [Nat.add_assoc, Nat.add_comm 1]

end Awaiting

/-- After these actions and with these payments enqueued, what the handlers enqueued and
what they have yet to enqueue are the turns of the POSTs. -/
structure DealtInTurn (config : Config α) (actions : List (Action α))
    (entered : List (Nat × Nat)) (state : Service α) : Prop where
  queues : state.queues.length = config.workerCount
  workers : config.workerCount ≤ state.threads.length
  seated : ∀ thread ∈ state.threads.take config.workerCount, thread.pc.drawnQueue = none
  handlers : ((state.started config).countP fun thread => !thread.isFallbackPool) =
    actions.countP Action.isPost
  counter : state.queueIndex.toNat = actions.countP Action.isPost % 2 ^ 64
  turns : (entered ++ state.awaiting config).Perm
    (turns config (actions.countP Action.isPost))

theorem initial_dealtInTurn (config : Config α) (processedStart : UInt64) :
    DealtInTurn config [] [] (initial config processedStart) := by
  have hlength : (initial config processedStart).threads.length = config.workerCount := by
    simp [initial]
  have hstarted : (initial config processedStart).started config = [] :=
    List.drop_eq_nil_of_le hlength.le
  refine ⟨List.length_replicate, hlength.ge, fun thread hthread => ?_, ?_, rfl, ?_⟩
  · obtain ⟨worker, -, rfl⟩ := List.mem_map.mp (List.mem_of_mem_take hthread)
    rfl
  · rw [hstarted]
    rfl
  · rw [awaiting, hstarted]
    exact .nil

section Step

variable {actions : List (Action α)} {entered : List (Nat × Nat)} {tid : Nat}
variable {thread new : Thread α}

omit [Double α] in
/-- A step that moves no handler leaves the turns as they are. -/
theorem DealtInTurn.set (h : DealtInTurn config actions entered state)
    (hthread : state.threads[tid]? = some thread)
    (hthreads : next.threads = state.threads.set tid new)
    (hpool : new.isFallbackPool = thread.isFallbackPool)
    (hold : thread.pc.drawnQueue = none) (hnew : new.pc.drawnQueue = none)
    (hqueues : next.queues.length = state.queues.length)
    (hcounter : next.queueIndex = state.queueIndex) :
    DealtInTurn config actions entered next := by
  have hstarted : next.started config = state.started config ∨
      (state.started config)[tid - config.workerCount]? = some thread ∧
        next.started config =
          (state.started config).set (tid - config.workerCount) new := by
    rw [started, started, hthreads, List.drop_set]
    split_ifs with htid
    · exact Or.inl rfl
    · refine Or.inr ⟨?_, rfl⟩
      rw [List.getElem?_drop, Nat.add_sub_cancel' (Nat.le_of_not_lt htid), hthread]
  refine ⟨hqueues.trans h.queues, by rw [hthreads, List.length_set]; exact h.workers,
    ?_, ?_, hcounter ▸ h.counter, ?_⟩
  · rw [hthreads, List.take_set]
    exact all_set hnew h.seated
  · rw [← h.handlers]
    rcases hstarted with hsame | ⟨hget, hset⟩
    · rw [hsame]
    · rw [hset, countP_set_keep hget (by rw [hpool])]
  · have hawaiting : next.awaiting config = state.awaiting config := by
      rcases hstarted with hsame | ⟨hget, hset⟩
      · rw [awaiting, hsame, awaiting]
      · rw [awaiting, hset, awaitingFrom_set_keep hget hpool (hnew.trans hold.symm), awaiting]
    exact hawaiting ▸ h.turns

omit [Double α] in
/-- A probe that starts is no POST. -/
theorem DealtInTurn.spawn (h : DealtInTurn config actions entered state)
    (hpool : new.isFallbackPool = true) (hnew : new.pc.drawnQueue = none) :
    DealtInTurn config actions entered { state with threads := state.threads ++ [new] } := by
  have hstarted : started config { state with threads := state.threads ++ [new] } =
      state.started config ++ [new] := List.drop_append_of_le_length h.workers
  refine ⟨h.queues, by simpa using Nat.le_add_right_of_le h.workers, ?_, ?_, h.counter, ?_⟩
  · rw [List.take_append_of_le_length h.workers]
    exact h.seated
  · rw [hstarted, List.countP_append, h.handlers]
    simp [hpool]
  · rw [awaiting, hstarted, awaitingFrom_append, hnew]
    simpa [awaiting] using h.turns

theorem DealtInTurn.post (h : DealtInTurn config actions entered state) {body : Bytes}
    (hstep : step config state (.post body) = some next) :
    DealtInTurn config (actions ++ [.post body]) entered next := by
  have hposts : (actions ++ [Action.post body]).countP Action.isPost =
      actions.countP Action.isPost + 1 := by
    simp [Action.isPost]
  simp only [step] at hstep
  split_ifs at hstep
  split at hstep
  · simp at hstep
  · rename_i raw hraw
    cases hstep
    have hstarted (thread : Thread α) :
        (state.threads ++ [thread]).drop config.workerCount =
          state.threads.drop config.workerCount ++ [thread] :=
      List.drop_append_of_le_length h.workers
    refine ⟨h.queues, by simpa using Nat.le_add_right_of_le h.workers, ?_, ?_, ?_, ?_⟩
    · rw [List.take_append_of_le_length h.workers]
      exact h.seated
    · rw [started, hstarted, List.countP_append, hposts, ← h.handlers]
      rfl
    · rw [hposts]
      simp only [UInt64.toNat_add, UInt64.reduceToNat, h.counter, Nat.mod_add_mod]
    · rw [awaiting, started, hstarted, awaitingFrom_append, ← List.append_assoc, hposts,
        Service.turns, List.range_succ, List.map_append]
      refine h.turns.append ?_
      rw [← started, h.handlers, h.queues, h.counter]
      simp [Pc.drawnQueue]

omit [Double α] in
theorem enqueuedTo_of_drawn_none (hthread : state.threads[tid]? = some thread)
    (hdrawn : thread.pc.drawnQueue = none) (event : Event α) (next : Service α) :
    state.enqueuedTo config (.run tid event) next = [] := by
  simp [enqueuedTo, hthread, hdrawn]

omit [Double α] in
/-- A thread that has drawn no queue puts nothing in one. -/
theorem DealtInTurn.pass (h : DealtInTurn config actions entered state) {event : Event α}
    (hthread : state.threads[tid]? = some thread)
    (hthreads : next.threads = state.threads.set tid new)
    (hpool : new.isFallbackPool = thread.isFallbackPool)
    (hold : thread.pc.drawnQueue = none) (hnew : new.pc.drawnQueue = none)
    (hqueues : next.queues.length = state.queues.length)
    (hcounter : next.queueIndex = state.queueIndex) :
    DealtInTurn config actions
      (entered ++ state.enqueuedTo config (.run tid event) next) next := by
  rw [enqueuedTo_of_drawn_none hthread hold, List.append_nil]
  exact h.set hthread hthreads hpool hold hnew hqueues hcounter

omit [Double α] in
theorem enqueuedTo_self (action : Action α) : state.enqueuedTo config action state = [] := by
  cases action with
  | post body => rfl
  | run tid event =>
      simp only [enqueuedTo]
      split
      · rfl
      · simp

private theorem filter_range_beq {index length : Nat} (hindex : index < length) :
    ((List.range length).filter fun worker => worker == index) = [index] := by
  rw [List.filter_beq, List.count_eq_one_of_mem List.nodup_range (List.mem_range.mpr hindex)]
  rfl

/-- Enqueuing moves the tail of that queue and of no other. -/
theorem filter_tail_set {queues : List (WorkerQueue Payment)} {index : Nat}
    {q : WorkerQueue Payment} (hq : queues[index]? = some q) (payment : Payment) :
    ((List.range queues.length).filter fun worker =>
      (queues.set index (q.enqueue payment))[worker]?.map WorkerQueue.tail ≠
        queues[worker]?.map WorkerQueue.tail) = [index] := by
  obtain ⟨hindex, rfl⟩ := List.getElem?_eq_some_iff.mp hq
  have hmoved : ∀ worker < queues.length,
      decide ((queues.set index (queues[index].enqueue payment))[worker]?.map
        WorkerQueue.tail ≠ queues[worker]?.map WorkerQueue.tail) = (worker == index) := by
    intro worker hworker
    rcases eq_or_ne index worker with rfl | hne
    · simp [hindex, WorkerQueue.enqueue]
    · simp [List.getElem?_set_ne hne, hne.symm]
  rw [List.filter_congr fun worker hworker => hmoved worker (List.mem_range.mp hworker)]
  exact filter_range_beq hindex

omit [Double α] in
theorem DealtInTurn.accept (h : DealtInTurn config actions entered state) {body : Bytes}
    {raw : RawPayment} {queueIdx : Nat} {q : WorkerQueue Payment} {payment : Payment}
    (hthread : state.threads[tid]? = some thread)
    (hpc : thread.pc = .posting body raw queueIdx)
    (hq : state.queues[queueIdx]? = some q)
    (hthreads : next.threads = state.threads.set tid { thread with pc := .exited })
    (hqueues : next.queues = state.queues.set queueIdx (q.enqueue payment))
    (hcounter : next.queueIndex = state.queueIndex) :
    DealtInTurn config actions
      (entered ++ state.enqueuedTo config (.run tid .tau) next) next := by
  have hdrawn : thread.pc.drawnQueue = some queueIdx := by rw [hpc]; rfl
  have hentered : state.enqueuedTo config (.run tid .tau) next =
      [(state.postNumber config tid, queueIdx)] := by
    simp only [enqueuedTo, hthread, hdrawn, Option.isSome_some, if_true, hqueues]
    rw [filter_tail_set hq]
    rfl
  -- a worker has drawn nothing, so the thread was started later
  have htid : config.workerCount ≤ tid := by
    by_contra htid
    have hmem := List.mem_of_getElem?
      ((List.getElem?_take_of_lt (Nat.lt_of_not_le htid)).trans hthread)
    simp [h.seated thread hmem] at hdrawn
  have hget : (state.started config)[tid - config.workerCount]? = some thread := by
    rw [started, List.getElem?_drop, Nat.add_sub_cancel' htid, hthread]
  have hstarted : next.started config = (state.started config).set
      (tid - config.workerCount) { thread with pc := .exited } := by
    rw [started, started, hthreads, List.drop_set, if_neg htid.not_gt]
  refine ⟨?_, by rw [hthreads, List.length_set]; exact h.workers, ?_, ?_,
    hcounter ▸ h.counter, ?_⟩
  · rw [hqueues, List.length_set, h.queues]
  · rw [hthreads, List.take_set]
    exact all_set rfl h.seated
  · rw [hstarted, countP_set_keep hget, h.handlers]
    rfl
  · rw [hentered, List.append_assoc, List.singleton_append]
    refine (List.Perm.append_left entered ?_).trans h.turns
    rw [awaiting, hstarted]
    have hleave : (awaitingFrom 0 (state.started config)).Perm
        ((0 + state.postNumber config tid, queueIdx) :: awaitingFrom 0
          ((state.started config).set (tid - config.workerCount)
            { thread with pc := .exited })) :=
      awaitingFrom_set_leave hget rfl hdrawn rfl
    rw [Nat.zero_add] at hleave
    exact hleave.symm

omit [Double α] in
@[simp] theorem afterProcess_drawnQueue (thread : Thread α) :
    (afterProcess thread).drawnQueue = none := by
  rw [afterProcess]
  split <;> rfl

theorem step_dealtInTurn (h : DealtInTurn config actions entered state)
    (hstep : step config state action = some next) (hrunning : next.terminated = false) :
    DealtInTurn config (actions ++ [action])
      (entered ++ state.enqueuedTo config action next) next := by
  cases action with
  | post body =>
      rw [enqueuedTo, List.append_nil]
      exact h.post hstep
  | run tid event =>
      have hseen : DealtInTurn config (actions ++ [.run tid event]) entered state := by
        have hposts : (actions ++ [Action.run tid event]).countP Action.isPost =
            actions.countP Action.isPost := by
          simp [Action.isPost]
        exact ⟨h.queues, h.workers, h.seated, hposts ▸ h.handlers, hposts ▸ h.counter,
          hposts ▸ h.turns⟩
      cases step_move hstep with
      | idle =>
          rw [enqueuedTo_self, List.append_nil]
          exact hseen
      | accept hthread hpc hq => exact hseen.accept hthread hpc hq rfl rfl rfl
      | fetch hthread hpc hq hfetch hnext =>
          refine hseen.pass hthread rfl rfl (by rw [hpc]; rfl) ?_ List.length_set rfl
          rcases hnext with ⟨-, rfl⟩ | rfl <;> rfl
      | @control _ thread _ pc _ _ hthread hcontrol =>
          have hdrawn : thread.pc.drawnQueue = none ∧ pc.drawnQueue = none := by
            revert hcontrol
            generalize thread.pc = old
            rintro (_ | _) <;> exact ⟨rfl, rfl⟩
          exact hseen.pass hthread rfl rfl hdrawn.1 hdrawn.2 rfl rfl
      | @spawn _ thread _ hthread hpc =>
          have hold : thread.pc.drawnQueue = none := by rw [hpc]; rfl
          rw [enqueuedTo_of_drawn_none hthread hold, List.append_nil]
          have hpolling : DealtInTurn config _ entered (state.setPc tid thread .polling) :=
            hseen.set hthread rfl rfl hold rfl rfl rfl
          exact hpolling.spawn rfl rfl
      | call hthread hpc hcall =>
          exact hseen.pass hthread rfl rfl (by rw [hpc]; rfl) rfl rfl rfl
      | requeue hthread hpc hq =>
          exact hseen.pass hthread rfl rfl (by rw [hpc]; rfl) (afterProcess_drawnQueue _)
            List.length_set rfl
      | discard hthread hpc | store hthread hpc =>
          exact hseen.pass hthread rfl rfl (by rw [hpc]; rfl) (afterProcess_drawnQueue _) rfl rfl
      | abort => simp [terminate] at hrunning

end Step

theorem execute_dealtInTurn {actions : List (Action α)}
    (hrun : execute (step config) (initial config processedStart) actions = some state)
    (hrunning : state.terminated = false) :
    DealtInTurn config actions (enqueued config (initial config processedStart) actions)
      state := by
  have hdealt := execute_noted
    (fun taken entered state => state.terminated = false →
      DealtInTurn config taken entered state)
    (fun _ _ _ _ _ h hstep => step_dealtInTurn (h (running_of_step hstep)) hstep)
    (fun _ => initial_dealtInTurn config processedStart) hrun
  exact hdealt hrunning

private theorem count_map_mod {workers worker : Nat} (hworker : worker < workers) (posts : Nat) :
    ((List.range posts).map fun post => post % workers).count worker =
      posts / workers + if worker < posts % workers then 1 else 0 := by
  have hcount : ((List.range posts).map fun post => post % workers).count worker =
      Nat.count (· ≡ worker [MOD workers]) posts := by
    induction posts with
    | zero => simp
    | succ posts ih =>
        rw [List.range_succ, List.map_append, List.count_append, ih, Nat.count_succ]
        simp [Nat.ModEq, Nat.mod_eq_of_lt hworker, List.count_singleton]
  rw [hcount, Nat.count_modEq_card posts (Nat.zero_lt_of_lt hworker),
    Nat.mod_eq_of_lt hworker]

def twoWorkers : Config ℚ := { singleWorker ℚ with workerCount := 2 }

/-- Three POSTs whose handlers enqueue in the opposite order. -/
def threePosts : List (Action ℚ) :=
  List.replicate 3 (.post (ascii "\x7b\x7d")) ++ [.run 4 .tau, .run 3 .tau, .run 2 .tau]

theorem threePosts_isSome :
    (execute (step twoWorkers) (initial twoWorkers 0) threePosts).isSome = true := by
  decide +kernel

/-- Every payment in a queue or in hand is with the worker that is its home. -/
structure AtHome (home : Nat → Nat) (state : Service α) : Prop where
  hands : ∀ thread ∈ state.threads, thread.pc.Holds fun payment =>
    home payment.serial = thread.workerId
  queues : ∀ (worker : Nat) (q : WorkerQueue Payment), state.queues[worker]? = some q →
    q.Written fun payment => home payment.serial = worker

/-- A step on a payment is taken by a thread of its home. -/
def ByHome (home : Nat → Nat) (state : Service α) : Action α → Prop
  | .post _ => True
  | .run tid _ => ∀ thread ∈ state.threads[tid]?, ∀ payment,
      thread.pc.payment = some payment → thread.workerId = home payment.serial

theorem initial_atHome (config : Config α) (processedStart : UInt64) (home : Nat → Nat) :
    AtHome home (initial config processedStart) where
  hands := by simp [initial, Pc.Holds, Pc.payment]
  queues := by
    intro worker q hq pos hpos
    rw [(List.mem_replicate.mp (List.mem_of_getElem? hq)).2] at hpos
    exact absurd hpos (Nat.not_lt_zero pos)

/-- The serials that are in use. -/
theorem Regular.serial_le (h : state.Regular config processedStart) {payment : Payment}
    (haccepted : state.Accepted payment) :
    payment.serial ≤ state.history.accepted.length := by
  obtain ⟨body, hbody⟩ := haccepted
  have hmem := List.mem_map_of_mem (f := fun entry => entry.1.serial) hbody
  rw [h.serials, List.mem_range'_1] at hmem
  dsimp only at hmem
  omega

theorem AtHome.extend {home home' : Nat → Nat} (h : AtHome home state)
    (hregular : state.Regular config processedStart)
    (hagree : ∀ serial ≤ state.history.accepted.length, home' serial = home serial) :
    AtHome home' state where
  hands := by
    intro thread hthread payment hpayment
    rw [hagree _ (hregular.serial_le (hregular.held thread hthread payment hpayment))]
    exact h.hands thread hthread payment hpayment
  queues := by
    intro worker q hq pos hpos
    rw [hagree _ (hregular.serial_le (hregular.slots q (List.mem_of_getElem? hq) pos hpos))]
    exact h.queues worker q hq pos hpos

omit [Double α] in
theorem AtHome.queues_set {home : Nat → Nat} (h : AtHome home state) {index : Nat}
    {new : WorkerQueue Payment}
    (hnew : new.Written fun payment => home payment.serial = index) (worker : Nat)
    (q : WorkerQueue Payment) (hq : (state.queues.set index new)[worker]? = some q) :
    q.Written fun payment => home payment.serial = worker := by
  rw [List.getElem?_set] at hq
  split_ifs at hq with hindex hlength
  · cases hq
    exact hindex ▸ hnew
  · exact h.queues worker q hq

omit [Double α] in
theorem AtHome.hands_set {home : Nat → Nat} (h : AtHome home state) {tid : Nat}
    {new : Thread α}
    (hnew : new.pc.Holds fun payment => home payment.serial = new.workerId) :
    ∀ thread ∈ state.threads.set tid new, thread.pc.Holds fun payment =>
      home payment.serial = thread.workerId :=
  all_set hnew h.hands

omit [Double α] in
theorem AtHome.held {home : Nat → Nat} (h : AtHome home state) {tid : Nat} {thread : Thread α}
    {payment : Payment} (hthread : state.threads[tid]? = some thread)
    (hpayment : thread.pc.payment = some payment) :
    home payment.serial = thread.workerId :=
  h.hands thread (List.mem_of_getElem? hthread) payment hpayment

/-- A new payment gets a home; every other one keeps it. -/
theorem Move.atHome {home : Nat → Nat} (hmove : Move config state action next)
    (hregular : state.Regular config processedStart) (h : AtHome home state) :
    ∃ home', (∀ serial ≤ state.history.accepted.length, home' serial = home serial) ∧
      AtHome home' next := by
  cases hmove with
  | idle => exact ⟨home, fun _ _ => rfl, h.hands, h.queues⟩
  | abort => exact ⟨home, fun _ _ => rfl, by simp, by simp⟩
  | post hraw =>
      exact ⟨home, fun _ _ => rfl,
        all_append_singleton (holds_of_none rfl) h.hands, h.queues⟩
  | @accept tid thread body raw queueIdx q hthread hpc hq =>
      have hagree : ∀ serial ≤ state.history.accepted.length,
          Function.update home (state.history.accepted.length + 1) queueIdx serial =
            home serial := fun serial hserial => Function.update_of_ne (by omega) _ _
      have hold := h.extend hregular hagree
      refine ⟨_, hagree, hold.hands_set (holds_of_none rfl), hold.queues_set ?_⟩
      exact WorkerQueue.Written.enqueue (Function.update_self _ _ _)
        (hold.queues queueIdx q hq)
  | @fetch tid thread q q' payment pc hthread hpc hq hfetch hnext =>
      obtain ⟨hfetched, hrest⟩ :=
        WorkerQueue.Written.fetchNext (h.queues thread.workerId q hq) hfetch
      refine ⟨home, fun _ _ => rfl, h.hands_set ?_, h.queues_set hrest⟩
      rcases hnext with ⟨-, rfl⟩ | rfl
      · rintro held ⟨⟩
        exact hfetched
      · rintro held ⟨⟩
        exact hfetched
  | control hthread hcontrol =>
      refine ⟨home, fun _ _ => rfl, h.hands_set fun payment hpayment => ?_, h.queues⟩
      have hheld := h.held hthread (hcontrol.payment.symm.trans hpayment)
      exact hheld
  | @spawn tid thread payment hthread hpc =>
      have hheld := h.held hthread (show thread.pc.payment = some payment by rw [hpc]; rfl)
      refine ⟨home, fun _ _ => rfl,
        all_append_singleton ?_ (h.hands_set (holds_of_none rfl)), h.queues⟩
      rintro held ⟨⟩
      exact hheld
  | @call tid thread event payment call sent outcome hthread hpc hcall =>
      have hheld := h.held hthread (show thread.pc.payment = some payment by rw [hpc]; rfl)
      refine ⟨home, fun _ _ => rfl, h.hands_set ?_, h.queues⟩
      rintro held ⟨⟩
      exact hheld
  | @requeue tid thread payment draft sent q hthread hpc hq =>
      have hheld := h.held hthread (show thread.pc.payment = some payment by rw [hpc]; rfl)
      exact ⟨home, fun _ _ => rfl, h.hands_set (holds_of_none (afterProcess_payment _)),
        h.queues_set (WorkerQueue.Written.enqueue hheld (h.queues thread.workerId q hq))⟩
  | discard hthread | store hthread =>
      exact ⟨home, fun _ _ => rfl, h.hands_set (holds_of_none (afterProcess_payment _)),
        h.queues⟩

theorem Move.accepted_length (hmove : Move config state action next) :
    state.history.accepted.length ≤ next.history.accepted.length := by
  cases hmove with
  | accept => simp
  | _ => exact le_rfl

/-- The homes known now and those that the rest of the run gives out. -/
theorem exists_homes {home : Nat → Nat} (hregular : state.Regular config processedStart)
    (h : AtHome home state) (actions : List (Action α)) :
    ∃ home', (∀ serial ≤ state.history.accepted.length, home' serial = home serial) ∧
      Along (step config) (ByHome home') state actions := by
  induction actions generalizing state home with
  | nil => exact ⟨home, fun _ _ => rfl, trivial⟩
  | cons action actions ih =>
      have hby : ∀ home', (∀ serial ≤ state.history.accepted.length,
          home' serial = home serial) → ByHome home' state action := by
        intro home' hagree
        cases action with
        | post body => trivial
        | run tid event =>
            intro thread hthread payment hpayment
            have hmem := List.mem_of_getElem? (Option.mem_def.mp hthread)
            rw [hagree _ (hregular.serial_le (hregular.held thread hmem payment hpayment))]
            exact (h.hands thread hmem payment hpayment).symm
      cases hstep : step config state action with
      | none => exact ⟨home, fun _ _ => rfl, hby home fun _ _ => rfl, by simp only [hstep]⟩
      | some next =>
          have hmove := step_move hstep
          obtain ⟨home₁, hagree₁, hhome₁⟩ := hmove.atHome hregular h
          obtain ⟨home₂, hagree₂, halong⟩ := ih (step_regular hregular hstep) hhome₁
          have hagree : ∀ serial ≤ state.history.accepted.length,
              home₂ serial = home serial := fun serial hserial =>
            (hagree₂ serial (hserial.trans hmove.accepted_length)).trans
              (hagree₁ serial hserial)
          refine ⟨home₂, hagree, hby home₂ hagree, ?_⟩
          simpa only [hstep] using halong

/-- In every run each payment is fetched, sent, retried and probed for one worker only. -/
theorem payment_keeps_worker (config : Config α) (processedStart : UInt64)
    (actions : List (Action α)) :
    ∃ home : Nat → Nat, Along (step config) (ByHome home) (initial config processedStart)
      actions := by
  obtain ⟨home, -, halong⟩ := exists_homes (initial_regular config processedStart)
    (initial_atHome config processedStart fun _ => 0) actions
  exact ⟨home, halong⟩

end Service

end RinhaBackend
