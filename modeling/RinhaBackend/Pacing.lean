import Mathlib.Data.Int.ConditionallyCompleteOrder
import RinhaBackend.Agreement
import RinhaBackend.Foundation.Pacer
import RinhaBackend.Switching

/-!
# Pacing of the probes

`worker_loop` detaches a fallback-pool thread when none is running and the last one
finished long enough ago; the thread clears `fallback_is_running` and then writes
`last_fallback`.  The service is run with a clock that only moves forward, and its
steps are steps of the abstract pacer as long as no thread falls between the two
reads of the worker or the two writes of the probe.
-/

namespace RinhaBackend

open Foundation

variable {α : Type}

namespace Service

/-- The attempts and threads that a step added. -/
def newAttempts (state next : Service α) : List (Nat × Attempt α) :=
  next.history.attempts.drop state.history.attempts.length

def newThreads (state next : Service α) : List (Thread α) :=
  next.threads.drop state.threads.length

theorem newAttempts_eq_nil {state next : Service α}
    (h : next.history.attempts = state.history.attempts) :
    state.newAttempts next = [] := by
  simp [newAttempts, h]

theorem newThreads_set {state next : Service α} {tid : Nat} {new : Thread α}
    (h : next.threads = state.threads.set tid new) : state.newThreads next = [] := by
  rw [newThreads, h]
  apply List.drop_eq_nil_of_le
  rw [List.length_set]

theorem newThreads_append {state next : Service α} {threads : List (Thread α)}
    {new : Thread α} (h : next.threads = threads ++ [new])
    (hlength : threads.length = state.threads.length) : state.newThreads next = [new] := by
  rw [newThreads, h, ← hlength, List.drop_left]

def fromPool (state : Service α) : Action α → Bool
  | .post _ => false
  | .run tid _ => state.threads[tid]?.any Thread.isFallbackPool

end Service

/--
The service with its clock in nanoseconds.  `poolSends` are the times at which a
fallback-pool thread finished a send, `launches` the times at which one was
started, each with the sends finished before.
-/
structure TimedService (α : Type) where
  service : Service α
  clock : Int
  poolSends : List Int
  launches : List (Int × List Int)

inductive TimedAction (α : Type) where
  | tick (nanoseconds : Nat)
  | act (action : Action α)

def Action.readsClock (clock : Int) : Action α → Bool
  | .run _ (.wall now) => now = clock
  | _ => true

namespace TimedService

def initial [Double α] (config : Config α) (processedStart : UInt64) (clock : Int) :
    TimedService α :=
  ⟨.initial config processedStart, clock, [], []⟩

def record (state : TimedService α) (action : Action α) (service : Service α) :
    TimedService α where
  service
  clock := state.clock
  poolSends := state.poolSends ++
    if state.service.fromPool action then
      (state.service.newAttempts service).map fun _ => state.clock
    else []
  launches := state.launches ++
    ((state.service.newThreads service).filter Thread.isFallbackPool).map fun _ =>
      (state.clock, state.poolSends)

def step [Double α] (config : Config α) (state : TimedService α) :
    TimedAction α → Option (TimedService α)
  | .tick nanoseconds => some { state with clock := state.clock + nanoseconds }
  | .act action =>
      if action.readsClock state.clock then
        match Service.step config state.service action with
        | none => none
        | some service => some (state.record action service)
      else none

end TimedService

/-! ## The two sides of the pacer -/

def Pc.launcher (config : Config α) : Pc α → Launcher
  | .starting => .waiting
  | .paced _ elapsed => if config.fallbackIntervalMs ≤ elapsed then .due else .idle
  | .launching _ => .launching
  | .spawning _ => .marked
  | _ => .idle

def Pc.isStamping : Pc α → Bool
  | .stamping => true
  | _ => false

def Pc.isExited : Pc α → Bool
  | .exited => true
  | _ => false

/-- A fallback-pool thread that has not cleared `fallback_is_running`. -/
def Thread.isSending (thread : Thread α) : Bool :=
  thread.isFallbackPool && !thread.pc.isStamping && !thread.pc.isExited

/-- A fallback-pool thread that has not completed both closing writes. -/
def Thread.isOpenProbe (thread : Thread α) : Bool :=
  thread.isFallbackPool && !thread.pc.isExited

/-- Thread 0 is the worker; the others are HTTP handlers and fallback-pool threads. -/
def Pc.Role (tid : Nat) (isFallbackPool : Bool) : Pc α → Prop
  | .posting _ _ _ => tid ≠ 0 ∧ isFallbackPool = false
  | .processing _ _ _ => tid = 0 ↔ isFallbackPool = false
  | .closing | .stamping => tid ≠ 0 ∧ isFallbackPool = true
  | .exited => tid ≠ 0
  | _ => tid = 0 ∧ isFallbackPool = false

def Pc.TimedBy (clock : Int) : Pc α → Prop
  | .timed _ now => now ≤ clock
  | _ => True

namespace TimedService

def launcherOf (config : Config α) (threads : List (Thread α)) : Launcher :=
  match threads[0]? with
  | none => .waiting
  | some thread => thread.pc.launcher config

def pacer (config : Config α) (state : TimedService α) : Pacer Int where
  launcher := launcherOf config state.service.threads
  running := state.service.fallbackIsRunning
  last := state.service.lastFallback
  clock := state.clock
  sending := state.service.threads.countP Thread.isSending
  stamping := state.service.threads.countP fun thread => thread.pc.isStamping
  sends := state.poolSends
  launches := state.launches

def interval (config : Config α) : Int := config.fallbackIntervalMs * 1000000

variable {config : Config α} {threads : List (Thread α)} {tid : Nat}
variable {thread new : Thread α} {state next : TimedService α}

theorem launcherOf_set_worker (hthread : threads[0]? = some thread) :
    launcherOf config (threads.set 0 new) = new.pc.launcher config := by
  simp only [launcherOf, getElem?_set_of_getElem? hthread]

theorem launcherOf_set_other (htid : tid ≠ 0) :
    launcherOf config (threads.set tid new) = launcherOf config threads := by
  simp [launcherOf, List.getElem?_set_ne htid]

theorem launcherOf_set_same (hthread : threads[tid]? = some thread)
    (hlauncher : new.pc.launcher config = thread.pc.launcher config) :
    launcherOf config (threads.set tid new) = launcherOf config threads := by
  by_cases htid : tid = 0
  · subst htid
    rw [launcherOf_set_worker hthread, hlauncher]
    simp [launcherOf, hthread]
  · exact launcherOf_set_other htid

theorem launcherOf_append (hlength : 0 < threads.length) :
    launcherOf config (threads ++ [new]) = launcherOf config threads := by
  simp only [launcherOf, List.getElem?_append_left hlength]

theorem launcherOf_worker (hthread : threads[0]? = some thread) :
    launcherOf config threads = thread.pc.launcher config := by
  simp [launcherOf, hthread]

/-- The worker, the HTTP handlers and the probes, as far as the pacer sees them. -/
structure SameView (config : Config α) (threads threads' : List (Thread α)) : Prop where
  launcher : launcherOf config threads' = launcherOf config threads
  sending : threads'.countP Thread.isSending = threads.countP Thread.isSending
  stamping : threads'.countP (fun thread => thread.pc.isStamping) =
    threads.countP fun thread => thread.pc.isStamping

theorem sameView_set (hthread : threads[tid]? = some thread)
    (hlauncher : new.pc.launcher config = thread.pc.launcher config)
    (hsending : new.isSending = thread.isSending)
    (hstamping : new.pc.isStamping = thread.pc.isStamping) :
    SameView config threads (threads.set tid new) where
  launcher := launcherOf_set_same hthread hlauncher
  sending := countP_set_keep hthread hsending
  stamping := countP_set_keep hthread hstamping

theorem sameView_append (hlength : 0 < threads.length) (hsending : new.isSending = false)
    (hstamping : new.pc.isStamping = false) :
    SameView config threads (threads ++ [new]) where
  launcher := launcherOf_append hlength
  sending := by simp [hsending]
  stamping := by simp [hstamping]

theorem pacer_record_same {action : Action α} {service : Service α}
    (hview : SameView config state.service.threads service.threads)
    (hrunning : service.fallbackIsRunning = state.service.fallbackIsRunning)
    (hlast : service.lastFallback = state.service.lastFallback)
    (hattempts : state.service.newAttempts service = [])
    (hthreads : (state.service.newThreads service).filter Thread.isFallbackPool = []) :
    (state.record action service).pacer config = state.pacer config := by
  simp [pacer, record, hview.launcher, hview.sending, hview.stamping, hrunning, hlast,
    hattempts, hthreads]

/-! ## Steps of the service as steps of the pacer -/

/--
The worker finds its interval over only while no probe is between its two closing
writes and `last_fallback` is at most 2^31 ms ahead of its own reading; a probe
clears `fallback_is_running` only while the worker is not about to test it.
-/
def Admits (config : Config α) (state : TimedService α) : Pc α → Prop
  | .timed _ now =>
      config.fallbackIntervalMs ≤ Service.elapsedMs now state.service.lastFallback →
        (∀ other ∈ state.service.threads, other.pc.isStamping = false) ∧
        state.service.lastFallback - now ≤ 2 ^ 31 * 1000000
  | .closing => ∀ other ∈ state.service.threads, other.pc.launcher config ≠ .due
  | _ => True

def Orderly (config : Config α) (state : TimedService α) : TimedAction α → Prop
  | .act (.run tid _) => ∀ thread ∈ state.service.threads[tid]?, state.Admits config thread.pc
  | _ => True

instance (config : Config α) (state : TimedService α) (pc : Pc α) :
    Decidable (state.Admits config pc) :=
  match pc with
  | .timed _ _ => inferInstanceAs (Decidable (_ → _ ∧ _))
  | .closing => inferInstanceAs (Decidable (∀ other ∈ state.service.threads, _))
  | .posting _ _ _ | .starting | .polling | .fetched _ | .paced _ _ | .launching _
  | .spawning _ | .processing _ _ _ | .stamping | .exited => .isTrue trivial

instance (config : Config α) (state : TimedService α) (action : TimedAction α) :
    Decidable (state.Orderly config action) :=
  match action with
  | .act (.run tid _) =>
      inferInstanceAs (Decidable (∀ thread ∈ state.service.threads[tid]?, _))
  | .tick _ | .act (.post _) => .isTrue trivial

def Seated (threads : List (Thread α)) : Prop :=
  ∀ (tid : Nat) (thread : Thread α), threads[tid]? = some thread →
    thread.pc.Role tid thread.isFallbackPool

theorem Seated.role (h : Seated threads) (hthread : threads[tid]? = some thread)
    {pc : Pc α} (hpc : thread.pc = pc) : pc.Role tid thread.isFallbackPool :=
  hpc ▸ h tid thread hthread

structure Sound (config : Config α) (state : TimedService α) : Prop where
  worker : state.service.terminated = false → 0 < state.service.threads.length
  seated : Seated state.service.threads
  timed : ∀ thread ∈ state.service.threads, thread.pc.TimedBy state.clock
  paced : (state.pacer config).Paced (interval config)

theorem rest_of_elapsed {now last clock pause : Int}
    (helapsed : pause ≤ Service.elapsedMs now last) (hnow : now ≤ clock)
    (hlast : last ≤ clock) (hahead : last - now ≤ 2 ^ 31 * 1000000) :
    last + pause * 1000000 ≤ clock := by
  simp only [Service.elapsedMs, Int.bmod] at helapsed
  by_cases hforward : 0 ≤ now - last
  · rw [Int.tdiv_eq_ediv_of_nonneg hforward] at helapsed
    split_ifs at helapsed <;> omega
  · have hback : (now - last).tdiv 1000000 = -((last - now) / 1000000) := by
      rw [← Int.neg_sub last now, Int.neg_tdiv, Int.tdiv_eq_ediv_of_nonneg (by omega)]
    rw [hback] at helapsed
    split_ifs at helapsed <;> omega

theorem Sound.rested_of_timed (h : state.Sound config) {payment : Payment} {now : Int}
    (hthread : state.service.threads[0]? = some thread)
    (hpc : thread.pc = .timed payment now)
    (hahead : state.service.lastFallback - now ≤ 2 ^ 31 * 1000000)
    (helapsed :
      config.fallbackIntervalMs ≤ Service.elapsedMs now state.service.lastFallback) :
    state.service.lastFallback + interval config ≤ state.clock := by
  have htimed := Service.pc_of_thread h.timed hthread hpc
  have hstarted := h.paced.started
  simp only [pacer, launcherOf_worker hthread, hpc, Pc.launcher] at hstarted
  exact rest_of_elapsed helapsed htimed (hstarted nofun) hahead

theorem pacer_record_unseen {action : Action α} {service : Service α}
    (hthread : state.service.threads[tid]? = some thread)
    (hthreads : service.threads = state.service.threads.set tid new)
    (hattempts : service.history.attempts = state.service.history.attempts)
    (hlauncher : new.pc.launcher config = thread.pc.launcher config)
    (hsending : new.isSending = thread.isSending)
    (hstamping : new.pc.isStamping = thread.pc.isStamping)
    (hrunning : service.fallbackIsRunning = state.service.fallbackIsRunning)
    (hlast : service.lastFallback = state.service.lastFallback) :
    (state.record action service).pacer config = state.pacer config := by
  refine pacer_record_same ?_ hrunning hlast (Service.newAttempts_eq_nil hattempts) ?_
  · rw [hthreads]
    exact sameView_set hthread hlauncher hsending hstamping
  · rw [Service.newThreads_set hthreads, List.filter_nil]

section Set

variable {action : Action α} {service : Service α}
variable (hthreads : service.threads = state.service.threads.set tid new)
variable (hattempts : service.history.attempts = state.service.history.attempts)

include hthreads hattempts

theorem pacer_record_set :
    (state.record action service).pacer config =
      { state.pacer config with
        launcher := launcherOf config (state.service.threads.set tid new)
        running := service.fallbackIsRunning
        last := service.lastFallback
        sending := (state.service.threads.set tid new).countP Thread.isSending
        stamping := (state.service.threads.set tid new).countP
          fun thread => thread.pc.isStamping } := by
  simp [pacer, record, Service.newThreads_set hthreads,
    Service.newAttempts_eq_nil hattempts, hthreads]

theorem pacer_record_probe (htid : tid ≠ 0) :
    (state.record action service).pacer config =
      { state.pacer config with
        running := service.fallbackIsRunning
        last := service.lastFallback
        sending := (state.service.threads.set tid new).countP Thread.isSending
        stamping := (state.service.threads.set tid new).countP
          fun thread => thread.pc.isStamping } := by
  rw [pacer_record_set hthreads hattempts, launcherOf_set_other htid]
  rfl

theorem pacer_record_worker (hthread : state.service.threads[tid]? = some thread)
    (htid : tid = 0) (hsending : new.isSending = thread.isSending)
    (hstamping : new.pc.isStamping = thread.pc.isStamping) :
    (state.record action service).pacer config =
      { state.pacer config with
        launcher := new.pc.launcher config
        running := service.fallbackIsRunning
        last := service.lastFallback } := by
  subst htid
  rw [pacer_record_set hthreads hattempts, launcherOf_set_worker hthread,
    countP_set_keep hthread hsending, countP_set_keep hthread hstamping]
  rfl

end Set

theorem return_unseen {action : Action α} {service : Service α} {payment : Payment}
    {call : CallPc α} {sent : List (Attempt α)}
    (hthread : state.service.threads[tid]? = some thread)
    (hpc : thread.pc = .processing payment call sent)
    (hthreads : service.threads = state.service.threads.set tid
      { thread with pc := Service.afterProcess thread })
    (hattempts : service.history.attempts = state.service.history.attempts)
    (hrunning : service.fallbackIsRunning = state.service.fallbackIsRunning)
    (hlast : service.lastFallback = state.service.lastFallback) :
    (state.record action service).pacer config = state.pacer config := by
  refine pacer_record_unseen hthread hthreads hattempts ?_ ?_ ?_ hrunning hlast
  all_goals
    cases hpool : thread.isFallbackPool <;>
      simp [Service.afterProcess, hpool, hpc, Pc.launcher, Thread.isSending, Pc.isStamping,
        Pc.isExited]

theorem spawn_simulates {service : Service α} {payment : Payment}
    (h : state.Sound config) (hthread : state.service.threads[tid]? = some thread)
    (hpc : thread.pc = .spawning payment)
    (hservice : service = { state.service with
      threads := state.service.threads.set tid { thread with pc := .polling } ++
        [⟨thread.workerId, true, .initial, .processing payment .entered []⟩] }) :
    (state.pacer config).Step (interval config)
      ((state.record (.run tid .tau) service).pacer config) := by
  obtain ⟨rfl, hpool⟩ := h.seated.role hthread hpc
  have hlauncher : (state.pacer config).launcher = .marked := by
    simp [pacer, launcherOf_worker hthread, hpc, Pc.launcher]
  have hpacer : (state.record (.run 0 .tau) service).pacer config =
      { state.pacer config with
        launcher := .idle
        sending := (state.pacer config).sending + 1
        launches := (state.pacer config).launches ++
          [((state.pacer config).clock, (state.pacer config).sends)] } := by
    have hnew : state.service.newThreads service = [_] :=
      Service.newThreads_append (congrArg Service.threads hservice) List.length_set
    have hold : state.service.newAttempts service = [] :=
      Service.newAttempts_eq_nil (congrArg (fun service => service.history.attempts) hservice)
    have hlength : 0 < (state.service.threads.set 0 { thread with pc := .polling }).length := by
      rw [List.length_set]
      exact List.length_pos_of_mem (List.mem_of_getElem? hthread)
    have hsending : (state.service.threads.set 0 { thread with pc := .polling }).countP
        Thread.isSending = _ :=
      countP_set_keep hthread (by simp [Thread.isSending, hpool])
    have hstamping : (state.service.threads.set 0 { thread with pc := .polling }).countP
        (fun thread => thread.pc.isStamping) = _ :=
      countP_set_keep hthread (by simp [hpc, Pc.isStamping])
    have hlauncher : launcherOf config service.threads = .idle := by
      rw [hservice, launcherOf_append hlength, launcherOf_set_worker hthread]
      rfl
    have hprobe : Pc.isStamping (.processing payment .entered [] : Pc α) = false := rfl
    have hprobeSending : Thread.isSending
        (⟨thread.workerId, true, .initial, .processing payment .entered []⟩ : Thread α) =
          true := rfl
    simp only [pacer, record, hnew, hold, hlauncher]
    simp [hservice, hsending, hstamping, hprobe, hprobeSending]
  rw [hpacer]
  exact .spawn hlauncher

theorem call_simulates {event : Event α} {service : Service α} {payment : Payment}
    {call : CallPc α} {sent : List (Attempt α)} {outcome : CallOutcome α}
    (hthread : state.service.threads[tid]? = some thread)
    (hpc : thread.pc = .processing payment call sent)
    (hsent : outcome.sent = [] ∨ ∃ attempt, outcome.sent = [attempt])
    (hservice : service =
      { state.service.setThread tid
          { thread with
            cache := outcome.cache
            pc := .processing payment outcome.pc (sent ++ outcome.sent) } with
        failover := outcome.failover
        history := { state.service.history with
          attempts := state.service.history.attempts ++
            outcome.sent.map fun attempt => (payment.serial, attempt) } }) :
    (state.record (.run tid event) service).pacer config = state.pacer config ∨
      (state.pacer config).Step (interval config)
        ((state.record (.run tid event) service).pacer config) := by
  have hview : SameView config state.service.threads service.threads := by
    rw [hservice]
    apply sameView_set hthread <;>
      simp [hpc, Pc.launcher, Thread.isSending, Pc.isStamping, Pc.isExited]
  have hnew : state.service.newThreads service = [] :=
    Service.newThreads_set (congrArg Service.threads hservice)
  have hattempts : state.service.newAttempts service =
      outcome.sent.map fun attempt => (payment.serial, attempt) := by
    rw [hservice]
    exact List.drop_left
  have hpacer : (state.record (.run tid event) service).pacer config =
      { state.pacer config with
        sends := state.poolSends ++
          if thread.isFallbackPool then outcome.sent.map fun _ => state.clock else [] } := by
    have hrunning : service.fallbackIsRunning = state.service.fallbackIsRunning :=
      hservice ▸ rfl
    have hlast : service.lastFallback = state.service.lastFallback :=
      hservice ▸ rfl
    simp only [pacer, record, hview.launcher, hview.sending, hview.stamping, hrunning, hlast,
      hnew, hattempts, Service.fromPool, hthread, Option.any_some, List.map_map,
      List.filter_nil, List.map_nil, List.append_nil]
    rfl
  cases hpool : thread.isFallbackPool with
  | false =>
      left
      rw [hpacer, hpool]
      simp [pacer]
  | true =>
      rcases hsent with hnone | ⟨attempt, hone⟩
      · left
        rw [hpacer, hpool, hnone]
        simp [pacer]
      · right
        rw [hpacer, hpool, hone]
        have hsending : thread.isSending = true := by
          simp [Thread.isSending, hpool, hpc, Pc.isStamping, Pc.isExited]
        exact .send (countP_ne_zero hthread hsending)

variable [Double α] {processedStart : UInt64}

/-- A control move of the service is one step of the pacer or none. -/
theorem control_simulates {event : Event α} {pc : Pc α} {service : Service α}
    (h : state.Sound config) (hguard : state.Orderly config (.act (.run tid event)))
    (hreads : (Action.run tid event).readsClock state.clock = true)
    (hthread : state.service.threads[tid]? = some thread)
    (hcontrol : Service.Control thread.pc pc)
    (hstep : Service.step config state.service (.run tid event) = some service) :
    (state.record (.run tid event) service).pacer config = state.pacer config ∨
      (state.pacer config).Step (interval config)
        ((state.record (.run tid event) service).pacer config) := by
  obtain ⟨pc, hpaces, hservice⟩ := Service.step_paces hthread hcontrol hstep
  have hrole := h.seated tid thread hthread
  have hguard := hguard thread hthread
  obtain ⟨workerId, isFallbackPool, cache, source⟩ := thread
  have hthreads : service.threads =
      state.service.threads.set tid ⟨workerId, isFallbackPool, cache, pc⟩ :=
    congrArg Service.threads hservice
  have hattempts : service.history.attempts = state.service.history.attempts :=
    congrArg (fun service => service.history.attempts) hservice
  generalize hrunning : service.fallbackIsRunning = running at hpaces
  generalize hlast : service.lastFallback = last at hpaces
  cases hpaces with
  | start now =>
      obtain ⟨rfl, rfl⟩ := hrole
      have hlauncher : (state.pacer config).launcher = .waiting := launcherOf_worker hthread
      rw [pacer_record_worker hthreads hattempts hthread rfl rfl rfl, hrunning, hlast,
        of_decide_eq_true hreads]
      exact Or.inr (.start hlauncher)
  | time payment now =>
      left
      exact pacer_record_unseen hthread hthreads hattempts rfl rfl rfl hrunning hlast
  | pace payment now =>
      obtain ⟨rfl, rfl⟩ := hrole
      by_cases helapsed :
          config.fallbackIntervalMs ≤ Service.elapsedMs now state.service.lastFallback
      · obtain ⟨hstamping, hahead⟩ := hguard helapsed
        have hlauncher : (state.pacer config).launcher = .idle := launcherOf_worker hthread
        have hdue : Pc.launcher config
            (.paced payment (Service.elapsedMs now state.service.lastFallback)) = .due :=
          if_pos helapsed
        rw [pacer_record_worker hthreads hattempts hthread rfl rfl rfl, hrunning, hlast,
          hdue]
        right
        apply Pacer.Step.compare hlauncher
        · exact List.countP_eq_zero.mpr fun other hother => by simp [hstamping other hother]
        · exact h.rested_of_timed hthread rfl hahead helapsed
      · left
        exact pacer_record_unseen hthread hthreads hattempts (if_neg helapsed) rfl rfl
          hrunning hlast
  | launch payment elapsed hclear helapsed =>
      obtain ⟨rfl, rfl⟩ := hrole
      have hlauncher : (state.pacer config).launcher = .due :=
        (launcherOf_worker hthread).trans (if_pos helapsed)
      rw [pacer_record_worker hthreads hattempts hthread rfl rfl rfl, hrunning, hlast]
      exact Or.inr (.launch hlauncher hclear)
  | direct payment elapsed =>
      obtain ⟨rfl, rfl⟩ := hrole
      by_cases helapsed : config.fallbackIntervalMs ≤ elapsed
      · have hlauncher : (state.pacer config).launcher = .due :=
          (launcherOf_worker hthread).trans (if_pos helapsed)
        rw [pacer_record_worker hthreads hattempts hthread rfl rfl rfl, hrunning, hlast]
        exact Or.inr (.skip hlauncher)
      · left
        exact pacer_record_unseen hthread hthreads hattempts (if_neg helapsed).symm rfl rfl
          hrunning hlast
  | mark payment =>
      obtain ⟨rfl, rfl⟩ := hrole
      have hlauncher : (state.pacer config).launcher = .launching :=
        launcherOf_worker hthread
      rw [pacer_record_worker hthreads hattempts hthread rfl rfl rfl, hrunning, hlast]
      exact Or.inr (.mark hlauncher)
  | close =>
      obtain ⟨htid, rfl⟩ := hrole
      rw [pacer_record_probe hthreads hattempts htid, hrunning, hlast,
        countP_set_leave hthread rfl rfl, countP_set_enter hthread rfl rfl]
      right
      apply Pacer.Step.clear (countP_ne_zero hthread rfl)
      obtain ⟨worker, hworker⟩ : ∃ worker, state.service.threads[0]? = some worker :=
        ⟨_, List.getElem?_eq_getElem (h.worker (Service.running_of_step hstep))⟩
      change launcherOf config state.service.threads ≠ .due
      rw [launcherOf_worker hworker]
      exact hguard worker (List.mem_of_getElem? hworker)
  | stamp now =>
      obtain ⟨htid, rfl⟩ := hrole
      have hsending : (state.service.threads.set tid
          ⟨workerId, true, cache, .exited⟩).countP Thread.isSending = _ :=
        countP_set_keep hthread rfl
      rw [pacer_record_probe hthreads hattempts htid, hrunning, hlast,
        of_decide_eq_true hreads, hsending, countP_set_leave hthread rfl rfl]
      exact Or.inr (.stamp (countP_ne_zero hthread rfl))

omit [Double α] in
/-- The end of the process is the end of the launcher and the probes. -/
theorem terminate_simulates (state : TimedService α) (action : Action α) :
    (state.pacer config).Step (interval config)
      ((state.record action state.service.terminate).pacer config) := by
  have hpacer : (state.record action state.service.terminate).pacer config =
      { state.pacer config with launcher := .waiting, sending := 0, stamping := 0 } := by
    simp [pacer, record, launcherOf, Service.newThreads, Service.newAttempts,
      Service.terminate]
  rw [hpacer]
  exact .stop

theorem callStep_sent {isFallbackPool : Bool} {json : Bytes} {cache : TimestampCache}
    {failover : Failover α} {pc : CallPc α} {event : Event α} {outcome : CallOutcome α}
    (h : callStep config isFallbackPool json cache failover pc event = some outcome) :
    outcome.sent = [] ∨ ∃ attempt, outcome.sent = [attempt] := by
  cases callStep_move h with
  | send | sendSecondary => exact Or.inr ⟨_, rfl⟩
  | build | label | pair | probe | handle | handleSecondary => exact Or.inl rfl

theorem step_act {action : Action α} (hstep : step config state (.act action) = some next) :
    ∃ service, action.readsClock state.clock = true ∧
      Service.step config state.service action = some service ∧
      next = state.record action service := by
  simp only [step] at hstep
  split at hstep
  case isFalse => simp at hstep
  case isTrue hreads =>
      split at hstep
      case h_1 => simp at hstep
      case h_2 service hservice =>
          cases hstep
          exact ⟨service, hreads, hservice, rfl⟩

theorem step_service {action : TimedAction α} (hstep : step config state action = some next) :
    next.service = state.service ∨
      ∃ action, Service.step config state.service action = some next.service := by
  cases action with
  | tick nanoseconds =>
      cases hstep
      exact Or.inl rfl
  | act action =>
      obtain ⟨service, -, hservice, rfl⟩ := step_act hstep
      exact Or.inr ⟨action, hservice⟩

theorem execute_service {actions : List (TimedAction α)} {clock : Int}
    (hrun : execute (step config) (initial config processedStart clock) actions = some state) :
    ∃ serviceActions, execute (Service.step config) (.initial config processedStart)
      serviceActions = some state.service :=
  execute_refines (fun _ _ _ hstep => step_service hstep) hrun

theorem step_simulates {action : TimedAction α} (h : state.Sound config)
    (hguard : state.Orderly config action) (hstep : step config state action = some next) :
    next.pacer config = state.pacer config ∨
      (state.pacer config).Step (interval config) (next.pacer config) := by
  cases action with
  | tick nanoseconds =>
      cases hstep
      exact Or.inr (.tick (by simp [pacer]))
  | act action =>
      obtain ⟨service, hreads, hservice, rfl⟩ := step_act hstep
      cases Service.step_move hservice with
      | control hthread hcontrol =>
          exact control_simulates h hguard hreads hthread hcontrol hservice
      | post hraw =>
          left
          refine pacer_record_same ?_ rfl rfl (Service.newAttempts_eq_nil rfl) ?_
          · exact sameView_append (h.worker (Service.running_of_step hservice)) rfl rfl
          · rw [Service.newThreads_append rfl rfl]
            rfl
      | idle =>
          left
          refine pacer_record_same ⟨rfl, rfl, rfl⟩ rfl rfl
            (Service.newAttempts_eq_nil rfl) ?_
          simp [Service.newThreads]
      | abort => exact Or.inr (terminate_simulates state _)
      | accept hthread hpc hq =>
          have hrole := h.seated.role hthread hpc
          left
          refine pacer_record_unseen hthread rfl rfl ?_ ?_ ?_ rfl rfl
          · rw [hpc]
            rfl
          · simp [Thread.isSending, hrole.2]
          · rw [hpc]
            rfl
      | fetch hthread hpc hq hfetch hnext =>
          left
          refine pacer_record_unseen hthread rfl rfl ?_ ?_ ?_ rfl rfl
          all_goals
            rcases hnext with ⟨-, rfl⟩ | rfl <;>
              simp [hpc, Pc.launcher, Thread.isSending, Pc.isStamping, Pc.isExited]
      | spawn hthread hpc => exact Or.inr (spawn_simulates h hthread hpc rfl)
      | call hthread hpc hcall =>
          exact call_simulates hthread hpc (callStep_sent hcall) rfl
      | requeue hthread hpc hq =>
          exact Or.inl (return_unseen hthread hpc rfl rfl rfl rfl)
      | discard hthread hpc =>
          exact Or.inl (return_unseen hthread hpc rfl rfl rfl rfl)
      | store hthread hpc hprocessor hamount =>
          exact Or.inl (return_unseen hthread hpc rfl rfl rfl rfl)

/-! ## Seats of the threads -/

omit [Double α] in
theorem Seated.set (h : Seated threads) (hnew : new.pc.Role tid new.isFallbackPool) :
    Seated (threads.set tid new) := by
  intro other thread hthread
  rw [List.getElem?_set] at hthread
  split_ifs at hthread with htid hlength
  · cases hthread
    exact htid ▸ hnew
  · exact h other thread hthread

omit [Double α] in
theorem Seated.append (h : Seated threads)
    (hnew : new.pc.Role threads.length new.isFallbackPool) :
    Seated (threads ++ [new]) := by
  intro tid thread hthread
  rw [List.getElem?_append] at hthread
  split_ifs at hthread with htid
  · exact h tid thread hthread
  · rw [List.getElem?_singleton] at hthread
    split_ifs at hthread with hlast
    cases hthread
    exact (show tid = threads.length by omega) ▸ hnew

omit [Double α] in
theorem role_of_control {isFallbackPool : Bool} {source target : Pc α}
    (h : Service.Control source target) (hrole : source.Role tid isFallbackPool) :
    target.Role tid isFallbackPool := by
  cases h with
  | direct => exact iff_of_true hrole.1 hrole.2
  | stamp => exact hrole.1
  | _ => exact hrole

omit [Double α] in
theorem Seated.afterProcess (h : Seated threads) {payment : Payment} {call : CallPc α}
    {sent : List (Attempt α)} (hthread : threads[tid]? = some thread)
    (hpc : thread.pc = .processing payment call sent) :
    Seated (threads.set tid { thread with pc := Service.afterProcess thread }) := by
  have hrole := h.role hthread hpc
  apply h.set
  cases hpool : thread.isFallbackPool with
  | false => simpa [Service.afterProcess, hpool, Pc.Role] using hrole.mpr hpool
  | true => simpa [Service.afterProcess, hpool, Pc.Role] using hrole

theorem seated_move {state next : Service α} {action : Action α}
    (hmove : Service.Move config state action next) (hworker : 0 < state.threads.length)
    (h : Seated state.threads) : Seated next.threads := by
  have hlength : state.threads.length ≠ 0 := by omega
  cases hmove with
  | post hraw => exact h.append ⟨hlength, rfl⟩
  | accept hthread hpc hq =>
      exact h.set (h.role hthread hpc).1
  | idle => exact h
  | abort => simp [Seated]
  | fetch hthread hpc hq hfetch hnext =>
      have hrole := h.role hthread hpc
      apply h.set
      rcases hnext with ⟨-, rfl⟩ | rfl
      · exact hrole
      · exact iff_of_true hrole.1 hrole.2
  | control hthread hcontrol => exact h.set (role_of_control hcontrol (h _ _ hthread))
  | spawn hthread hpc =>
      have hrole := h.role hthread hpc
      refine (h.set hrole).append ?_
      rw [List.length_set]
      exact iff_of_false hlength nofun
  | call hthread hpc hcall =>
      have hrole := h.role hthread hpc
      exact h.set hrole
  | requeue hthread hpc hq => exact h.afterProcess hthread hpc
  | discard hthread hpc => exact h.afterProcess hthread hpc
  | store hthread hpc hprocessor hamount => exact h.afterProcess hthread hpc

theorem timed_step {state next : Service α} {action : Action α} {clock : Int}
    (hreads : action.readsClock clock = true)
    (hstep : Service.step config state action = some next)
    (h : ∀ thread ∈ state.threads, thread.pc.TimedBy clock) :
    ∀ thread ∈ next.threads, thread.pc.TimedBy clock := by
  cases Service.step_move hstep with
  | post hraw => exact all_append_singleton trivial h
  | idle => exact h
  | abort => simp
  | control hthread hcontrol =>
      obtain ⟨pc, hpaces, hnext⟩ := Service.step_paces hthread hcontrol hstep
      have hthreads := congrArg Service.threads hnext
      rw [hthreads]
      apply all_set _ h
      generalize Thread.pc _ = source at hpaces
      cases hpaces with
      | time payment now => exact (of_decide_eq_true hreads).le
      | _ => trivial
  | spawn hthread hpc => exact all_append_singleton trivial (all_set trivial h)
  | fetch hthread hpc hq hfetch hnext =>
      apply all_set _ h
      rcases hnext with ⟨-, rfl⟩ | rfl <;> trivial
  | accept | call => exact all_set trivial h
  | requeue | discard | store =>
      apply all_set _ h
      simp only [Service.afterProcess]
      split <;> trivial

theorem threads_length_move {state next : Service α} {action : Action α}
    (hmove : Service.Move config state action next) (hrunning : next.terminated = false) :
    state.threads.length ≤ next.threads.length := by
  cases hmove with
  | abort => simp [Service.terminate] at hrunning
  | _ => simp [Service.setPc, Service.setThread, Service.setQueue, Service.logReturn]

omit [Double α] in
theorem timedBy_mono {pc : Pc α} {clock later : Int} (h : pc.TimedBy clock)
    (hlater : clock ≤ later) : pc.TimedBy later := by
  cases pc with
  | timed payment now => exact le_trans h hlater
  | _ => trivial

theorem step_sound {action : TimedAction α} (h : state.Sound config)
    (hguard : state.Orderly config action) (hstep : step config state action = some next) :
    next.Sound config := by
  have hpaced : (next.pacer config).Paced (interval config) := by
    rcases step_simulates h hguard hstep with hsame | hpacer
    · exact hsame ▸ h.paced
    · exact hpacer.paced h.paced
  cases action with
  | tick nanoseconds =>
      cases hstep
      refine ⟨h.worker, h.seated, fun thread hthread => ?_, hpaced⟩
      exact timedBy_mono (h.timed thread hthread) (by simp)
  | act action =>
      obtain ⟨service, hreads, hservice, rfl⟩ := step_act hstep
      have hmove := Service.step_move hservice
      have hworker := h.worker (Service.running_of_step hservice)
      exact ⟨fun hrunning => hworker.trans_le (threads_length_move hmove hrunning),
        seated_move hmove hworker h.seated, timed_step hreads hservice h.timed, hpaced⟩

theorem initial_sound (hworkers : config.workerCount = 1) (processedStart : UInt64)
    (clock : Int) : (initial config processedStart clock).Sound config := by
  have hthreads : (initial config processedStart clock).service.threads =
      [⟨0, false, .initial, .starting⟩] := by
    simp [initial, Service.initial, hworkers]
  have hpacer : (initial config processedStart clock).pacer config =
      ⟨.waiting, false, 0, clock, 0, 0, [], []⟩ := by
    simp only [pacer, hthreads]
    rfl
  refine ⟨fun _ => by simp [hthreads], ?_, by simp [hthreads, Pc.TimedBy], ?_⟩
  · rw [hthreads]
    intro tid thread hthread
    rw [List.getElem?_singleton] at hthread
    split_ifs at hthread with htid
    cases hthread
    exact ⟨htid, rfl⟩
  · rw [hpacer]
    constructor <;> simp

/-! ## Probes stay apart -/

omit [Double α] in
theorem Seated.openProbes (h : Seated threads) :
    threads.countP Thread.isOpenProbe = threads.countP Thread.isSending +
      threads.countP fun thread => thread.pc.isStamping := by
  have hpool : ∀ thread ∈ threads, thread.pc.isStamping = true →
      thread.isFallbackPool = true ∧ thread.pc.isExited = false := by
    intro thread hthread hstamping
    obtain ⟨tid, hget⟩ := List.mem_iff_getElem?.mp hthread
    cases hpc : thread.pc with
    | stamping => exact ⟨(h.role hget hpc).2, rfl⟩
    | _ => simp [hpc, Pc.isStamping] at hstamping
  clear h
  induction threads with
  | nil => rfl
  | cons head tail ih =>
      have htail := ih fun thread hthread => hpool thread (List.mem_cons_of_mem _ hthread)
      have hhead := hpool head List.mem_cons_self
      cases hstamping : head.pc.isStamping with
      | true =>
          obtain ⟨hfallback, hexited⟩ := hhead hstamping
          simp [htail, Thread.isOpenProbe, Thread.isSending, hstamping, hfallback, hexited]
          omega
      | false =>
          simp [List.countP_cons, htail, Thread.isOpenProbe, Thread.isSending, hstamping]
          omega

/--
In every orderly run of one worker, at most one fallback-pool thread has not completed
both closing writes, and every launch comes at least the interval after each send
that a fallback-pool thread finished before it.
-/
theorem probes_paced {actions : List (TimedAction α)} {clock : Int}
    (hworkers : config.workerCount = 1)
    (hrun : execute (step config) (initial config processedStart clock) actions = some state)
    (horderly : Along (step config) (Orderly config) (initial config processedStart clock)
      actions) :
    state.service.threads.countP Thread.isOpenProbe ≤ 1 ∧
      ∀ launch ∈ state.launches, ∀ send ∈ launch.2,
        send + config.fallbackIntervalMs * 1000000 ≤ launch.1 := by
  have hsound := execute_invariant (fun _ _ _ h hguard hstep => step_sound h hguard hstep)
    (initial_sound hworkers processedStart clock) horderly hrun
  constructor
  · rw [hsound.seated.openProbes]
    exact hsound.paced.alone
  · exact hsound.paced.launches

def second : Int := 1000000000

/-- The worker takes a payment, finds the interval over and launches a probe. -/
def launchAt (now : Int) : List (TimedAction Float) :=
  [.act (.run 0 .tau), .act (.run 0 (.wall now)), .act (.run 0 .tau), .act (.run 0 .tau),
    .act (.run 0 .tau), .act (.run 0 .tau)]

/-- The probe sends, stores its payment and clears `fallback_is_running`. -/
def probeUntilCleared : List (TimedAction Float) :=
  [.act (.run 3 (.clock 1751328010)), .act (.run 3 .tau), .act (.run 3 .tau),
    .act (.run 3 (.reply (.ofCurl true 200 1))), .act (.run 3 .tau), .act (.run 3 .tau),
    .act (.run 3 .tau), .act (.run 3 .tau)]

def firstProbe : List (TimedAction Float) :=
  [.act (.post Service.samplePayment.render), .act (.run 1 .tau),
    .act (.post Service.samplePayment.render), .act (.run 2 .tau),
    .act (.run 0 (.wall 0)), .tick 1000000000] ++ launchAt second ++ probeUntilCleared

def afterFirstProbe (rest : List (TimedAction Float)) : Option (TimedService Float) :=
  execute (step twoProcessors) (initial twoProcessors 1751328000 0) (firstProbe ++ rest)

def stampAndWait : List (TimedAction Float) :=
  [.act (.run 3 (.wall second)), .tick 1000000000]

theorem afterFirstProbe_stamped :
    (afterFirstProbe (stampAndWait ++ launchAt (2 * second))).isSome = true := by
  decide +kernel

theorem afterFirstProbe_at_once : (afterFirstProbe (launchAt second)).isSome = true := by
  decide +kernel

theorem probes_paced_twice :
    let state := (afterFirstProbe (stampAndWait ++ launchAt (2 * second))).get
      afterFirstProbe_stamped
    state.launches = [(second, []), (2 * second, [second])] ∧
      state.service.threads.countP Thread.isOpenProbe ≤ 1 :=
  ⟨by decide +kernel,
    (probes_paced rfl (Option.some_get afterFirstProbe_stamped).symm (by decide +kernel)).1⟩

/-- The worker reads `last_fallback` between the two closing writes of the first probe. -/
theorem probes_overlap :
    let state := (afterFirstProbe (launchAt second)).get afterFirstProbe_at_once
    twoProcessors.workerCount = 1 ∧
      state.service.threads.countP Thread.isOpenProbe = 2 ∧
      ∃ launch ∈ state.launches, ∃ send ∈ launch.2,
        launch.1 < send + twoProcessors.fallbackIntervalMs * 1000000 := by
  decide +kernel

end TimedService

end RinhaBackend
