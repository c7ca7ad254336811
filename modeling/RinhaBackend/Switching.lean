import RinhaBackend.Call

/-!
# Where the failover machine routes

Two laws of the automatic failover over every interleaving of `process_payment`
calls: onto which processor a recovery moves the traffic, and onto which
processors the latency rule moves it.  Both fail for some orders of replies; the
theorems give the orders for which they hold.
-/

namespace RinhaBackend

open Foundation

variable {α : Type}

def callLabels (index : Nat) (isFallbackPool : Bool) (primary : Reply α)
    (secondary : Option (Reply α)) : List (CallLabel α) :=
  [.begin isFallbackPool (ascii "\x7b\x7d") .initial, .advance index (.clock 1),
    .advance index .tau, .advance index .tau, .advance index (.reply primary),
    .advance index .tau, .advance index .tau] ++
    match secondary with
    | none => []
    | some reply => [.advance index (.reply reply), .advance index .tau]

def twoProcessors : Config Float where
  workerCount := 1
  defaultProcessor := ascii "http://default/payments"
  fallbackProcessor := ascii "http://fallback/payments"
  feeDifference := 3
  fallbackIntervalMs := 1000
  fallbackEnabled := true

/-! ## Recovery -/

variable [Double α]

/--
With both processors down, the answer of one of them makes it primary exactly
when it was not primary already: the swap does not look at who recovered.
-/
theorem recovery_routes_to_recovered_iff {config : Config α}
    (henabled : config.fallbackEnabled = true) {labels : List (CallLabel α)}
    {calls : Calls α}
    (hrun : execute (Calls.step config) (Calls.initial config) labels = some calls)
    (hdefault : calls.failover.defaultDown = true)
    (hfallback : calls.failover.fallbackDown = true)
    (hevaluated : calls.failover.fallbackEvaluated = true)
    {processor : ProcessorResult}
    (hprocessor : processor = .default ∨ processor = .fallback) (elapsed : α)
    {code : Int} (hcode : code ≠ 500) :
    (calls.failover.handleResponse config processor elapsed code).primaryLabel =
        processor ↔
      calls.failover.primaryLabel ≠ processor := by
  have hlabels := (Calls.execute_aligned hrun).labels
  have hafter : (calls.failover.handleResponse config processor elapsed
      code).primaryLabel = calls.failover.secondaryLabel := by
    rw [Failover.handleResponse, if_pos henabled, if_neg hcode,
      Failover.evaluateSwitch_of_evaluated (by simp [hevaluated]),
      Failover.updateTime_primaryLabel,
      Failover.handleRecovery_primaryLabel henabled hdefault hfallback]
  rw [hafter]
  rcases hlabels with ⟨hprimary, hsecondary⟩ | ⟨hprimary, hsecondary⟩ <;>
    rcases hprocessor with rfl | rfl <;>
    simp [hprimary, hsecondary]

def bothFail : List (CallLabel Float) :=
  callLabels 0 false (.ofCurl true 500 1) (some (.ofCurl true 500 1))

def bothDown : Calls Float :=
  (execute (Calls.step twoProcessors) (Calls.initial twoProcessors) bothFail).getD
    (Calls.initial twoProcessors)

theorem execute_bothFail :
    execute (Calls.step twoProcessors) (Calls.initial twoProcessors) bothFail =
      some bothDown := rfl

theorem recovery_routes_to_recovered_default :
    (bothDown.failover.handleResponse twoProcessors .default 1 200).primaryLabel =
        .default ↔
      bothDown.failover.primaryLabel ≠ .default :=
  recovery_routes_to_recovered_iff rfl execute_bothFail rfl rfl rfl (Or.inl rfl) 1
    (by decide)

/-- Fallback recovers first, and the traffic moves to Default, still marked down. -/
theorem recovery_routes_to_the_other :
    execute (Calls.step twoProcessors) (Calls.initial twoProcessors) bothFail =
      some bothDown ∧
    bothDown.failover.defaultDown = true ∧ bothDown.failover.fallbackDown = true ∧
    bothDown.failover.fallbackEvaluated = true ∧
    (bothDown.failover.handleResponse twoProcessors .fallback 1 200).primaryLabel ≠
      .fallback ∧
    (bothDown.failover.handleResponse twoProcessors .fallback 1 200).defaultDown =
      true :=
  ⟨execute_bothFail, rfl, rfl, rfl, by decide, rfl⟩

/-! ## Latency switches -/

def lastCode (attempts : List (Attempt α)) (processor : ProcessorResult) :
    Option Int :=
  (attempts.filter fun attempt => attempt.processor = processor).getLast?.map
    fun attempt => attempt.reply.code

def recorded (config : Config α) (failover : Failover α)
    (processor : ProcessorResult) (elapsed : α) : Failover α :=
  (failover.handleRecovery config processor).updateTime processor elapsed

omit [Double α] in
theorem recorded_aligned {config : Config α} {failover : Failover α}
    (h : failover.Aligned config) (processor : ProcessorResult) (elapsed : α) :
    (recorded config failover processor elapsed).Aligned config :=
  (h.handleRecovery processor).updateTime processor elapsed

theorem latencySwitch_eq_some_iff {config : Config α} {failover : Failover α}
    (henabled : config.fallbackEnabled = true)
    (hdistinct : config.defaultProcessor ≠ config.fallbackProcessor)
    (h : failover.Aligned config) (processor : ProcessorResult) (reply : Reply α)
    (target : ProcessorResult) :
    Calls.latencySwitch config failover (some (processor, reply)) = some target ↔
      reply.code ≠ 500 ∧ failover.fallbackEvaluated = false ∧
      (recorded config failover processor reply.elapsed).timed = true ∧
      (recorded config failover processor reply.elapsed).preferred config ≠
        (recorded config failover processor reply.elapsed).primaryLabel ∧
      (recorded config failover processor reply.elapsed).preferred config = target := by
  have haligned := recorded_aligned h processor reply.elapsed
  have hpending : (recorded config failover processor reply.elapsed).fallbackEvaluated =
      failover.fallbackEvaluated := by simp [recorded]
  simp only [Calls.latencySwitch, henabled, Bool.true_and, decide_eq_true_eq]
  rw [← recorded, Failover.evaluateSwitch_primaryLabel henabled hdistinct haligned,
    hpending]
  by_cases hcode : reply.code = 500
  · simp [hcode]
  · cases failover.fallbackEvaluated with
    | true => simp
    | false =>
        cases (recorded config failover processor reply.elapsed).timed with
        | false => simp
        | true => simp [hcode, Option.ite_none_left_eq_some]

/--
The condition on a step that handles an answer other than 500 while an evaluation
is pending and both latencies are recorded: the processor that the latency rule
prefers is primary already, or its last call was answered 200.
-/
def PreferredAnswered (config : Config α) (state : Calls α) : CallLabel α → Prop
  | .begin _ _ _ => True
  | .advance index _ =>
      ∀ processor reply,
        (state.calls[index]?.bind fun call => call.pc.response) =
          some (processor, reply) →
        reply.code ≠ 500 → state.failover.fallbackEvaluated = false →
        let recorded := recorded config state.failover processor reply.elapsed
        recorded.timed = true → recorded.preferred config ≠ recorded.primaryLabel →
        lastCode state.attempts (recorded.preferred config) = some 200

/--
The condition on a step that evaluates both recorded latencies: the processor in
second place was answered 200 when it was last called.
-/
def StandbyAnswered (config : Config α) (state : Calls α) : CallLabel α → Prop
  | .begin _ _ _ => True
  | .advance index _ =>
      ∀ processor reply,
        (state.calls[index]?.bind fun call => call.pc.response) =
          some (processor, reply) →
        reply.code ≠ 500 → state.failover.fallbackEvaluated = false →
        let recorded := recorded config state.failover processor reply.elapsed
        recorded.timed = true → lastCode state.attempts recorded.secondaryLabel = some 200

instance {config : Config α} {state : Calls α} :
    (label : CallLabel α) → Decidable (StandbyAnswered config state label)
  | .begin _ _ _ => .isTrue trivial
  | .advance index _ =>
      match hresponse : state.calls[index]?.bind fun call => call.pc.response with
      | none => .isTrue fun _ _ h => by simp [hresponse] at h
      | some (processor, reply) =>
          let recorded := recorded config state.failover processor reply.elapsed
          decidable_of_iff (reply.code ≠ 500 → state.failover.fallbackEvaluated = false →
              recorded.timed = true →
              lastCode state.attempts recorded.secondaryLabel = some 200) <| by
            simp [StandbyAnswered, hresponse, recorded]

theorem preferredAnswered_of_standbyAnswered {config : Config α} {state : Calls α}
    {label : CallLabel α} (haligned : state.failover.Aligned config)
    (h : StandbyAnswered config state label) : PreferredAnswered config state label := by
  cases label with
  | begin isFallbackPool json cache => trivial
  | advance index event =>
      intro processor reply hresponse hcode hpending recorded htimed hmoves
      have hstandby := h processor reply hresponse hcode hpending htimed
      have hpreferred : recorded.preferred config = recorded.secondaryLabel :=
        (recorded_aligned haligned processor reply.elapsed).preferred_eq_secondary hmoves
      rw [hpreferred]
      exact hstandby

private theorem switches_step_iff {config : Config α}
    (henabled : config.fallbackEnabled = true)
    (hdistinct : config.defaultProcessor ≠ config.fallbackProcessor)
    {state next : Calls α} {label : CallLabel α}
    (haligned : state.failover.Aligned config)
    (hstep : Calls.step config state label = some next) :
    (∀ switch ∈ next.switches, lastCode switch.2 switch.1 = some 200) ↔
      (∀ switch ∈ state.switches, lastCode switch.2 switch.1 = some 200) ∧
        PreferredAnswered config state label := by
  cases label with
  | begin isFallbackPool json cache =>
      simp only [Calls.step, Option.some.injEq] at hstep
      simp [← hstep, PreferredAnswered]
  | advance index event =>
      simp only [Calls.step] at hstep
      cases hcall : state.calls[index]? with
      | none => simp [hcall] at hstep
      | some call =>
          simp only [hcall] at hstep
          split at hstep
          · simp at hstep
          · simp only [Option.some.injEq] at hstep
            subst hstep
            simp only [List.mem_append, or_imp, forall_and, and_congr_right_iff]
            intro _
            cases hresponse : call.pc.response with
            | none => simp [Calls.latencySwitch, PreferredAnswered, hcall, hresponse]
            | some response =>
                have hswitch := latencySwitch_eq_some_iff henabled hdistinct haligned
                  response.1 response.2
                simp only [PreferredAnswered, hcall, hresponse, Option.bind_some,
                  Option.some.injEq, List.mem_map, Option.mem_toList]
                constructor
                · rintro hnew processor reply rfl hcode hpending htimed hmoves
                  exact hnew _ ⟨_, (hswitch _).mpr ⟨hcode, hpending, htimed, hmoves, rfl⟩,
                    rfl⟩
                · rintro hanswered switch ⟨target, htarget, rfl⟩
                  obtain ⟨hcode, hpending, htimed, hmoves, rfl⟩ :=
                    (hswitch target).mp htarget
                  exact hanswered response.1 response.2 rfl hcode hpending htimed hmoves

structure Healthy (config : Config α) (state : Calls α) : Prop where
  aligned : state.failover.Aligned config
  healthy : ∀ switch ∈ state.switches, lastCode switch.2 switch.1 = some 200

private theorem execute_healthy {config : Config α}
    (henabled : config.fallbackEnabled = true)
    (hdistinct : config.defaultProcessor ≠ config.fallbackProcessor)
    {labels : List (CallLabel α)} {calls : Calls α}
    (hstandby : Along (Calls.step config) (StandbyAnswered config) (Calls.initial config)
      labels)
    (hrun : execute (Calls.step config) (Calls.initial config) labels = some calls) :
    Healthy config calls := by
  have hstart : Healthy config (Calls.initial config) :=
    ⟨Failover.initial_aligned config, by simp [Calls.initial]⟩
  refine execute_invariant (fun state label next h hlabel hstep => ?_) hstart hstandby hrun
  exact ⟨Calls.step_aligned h.aligned hstep,
    (switches_step_iff henabled hdistinct h.aligned hstep).mpr
      ⟨h.healthy, preferredAnswered_of_standbyAnswered h.aligned hlabel⟩⟩

/--
Every switch of the latency rule goes to a processor whose last call was answered
200 in the runs that evaluate latencies only while the processor in second place
is answering, and exactly in the runs whose steps all meet `PreferredAnswered`.
-/
theorem latency_switches_onto_answered_iff {config : Config α}
    (henabled : config.fallbackEnabled = true)
    (hdistinct : config.defaultProcessor ≠ config.fallbackProcessor)
    {labels : List (CallLabel α)} {calls : Calls α}
    (hrun : execute (Calls.step config) (Calls.initial config) labels = some calls) :
    (Along (Calls.step config) (StandbyAnswered config) (Calls.initial config) labels →
      ∀ switch ∈ calls.switches, lastCode switch.2 switch.1 = some 200) ∧
    ((∀ switch ∈ calls.switches, lastCode switch.2 switch.1 = some 200) ↔
      Along (Calls.step config) (PreferredAnswered config) (Calls.initial config)
        labels) := by
  have hiff := execute_iff_along (fun _ _ _ h hstep => Calls.step_aligned h hstep)
    (fun _ _ _ h hstep => switches_step_iff henabled hdistinct h hstep)
    (Failover.initial_aligned config) hrun
  refine ⟨fun hstandby => (execute_healthy henabled hdistinct hstandby hrun).healthy, ?_⟩
  rw [hiff]
  simp [Calls.initial]

def fasterFallback : List (CallLabel Float) :=
  callLabels 0 false (.ofCurl true 200 6) none ++
    callLabels 1 true (.ofCurl true 200 2) none

def movedToFallback : Calls Float :=
  (execute (Calls.step twoProcessors) (Calls.initial twoProcessors) fasterFallback).get
    (by decide +kernel)

theorem latency_switches_onto_answered_probe :
    movedToFallback.switches.map Prod.fst = [.fallback] ∧
    Along (Calls.step twoProcessors) (StandbyAnswered twoProcessors)
      (Calls.initial twoProcessors) fasterFallback ∧
    (∀ switch ∈ movedToFallback.switches, lastCode switch.2 switch.1 = some 200) ∧
    Along (Calls.step twoProcessors) (PreferredAnswered twoProcessors)
      (Calls.initial twoProcessors) fasterFallback := by
  have hrun : execute (Calls.step twoProcessors) (Calls.initial twoProcessors)
      fasterFallback = some movedToFallback := (Option.some_get _).symm
  obtain ⟨hanswered, hiff⟩ := latency_switches_onto_answered_iff rfl (by decide) hrun
  have hstandby : Along (Calls.step twoProcessors) (StandbyAnswered twoProcessors)
      (Calls.initial twoProcessors) fasterFallback := by
    decide +kernel
  exact ⟨by decide +kernel, hstandby, hanswered hstandby, hiff.mp (hanswered hstandby)⟩

/--
Default answers in 6 ms, a probe finds Fallback at 3 ms, and a second probe is
answered 500 by Fallback and 200 by Default in 9 ms.
-/
def staleLatency : List (CallLabel Float) :=
  callLabels 0 false (.ofCurl true 200 6) none ++
    callLabels 1 true (.ofCurl true 200 3) none ++
    callLabels 2 true (.ofCurl true 500 1) (some (.ofCurl true 200 9))

/-- The latency rule moves the traffic to Fallback, which just answered 500. -/
theorem latency_switch_onto_failed :
    (execute (Calls.step twoProcessors) (Calls.initial twoProcessors)
        staleLatency).map (fun calls => (calls.failover.fallbackDown,
          calls.switches.map fun switch => (switch.1, lastCode switch.2 switch.1))) =
      some (true, [(.fallback, some 500)]) := by
  decide +kernel

/-! ## How often the latency rule moves traffic -/

section Budget

variable {config : Config α}

/-- The call has passed the point at which a fallback-pool thread asks for an evaluation. -/
def CallPc.probed : CallPc α → Bool
  | .entered | .built _ | .labelled _ _ | .ready _ _ _ | .answered _ _ _ _ => false
  | .handling _ _ _ _ | .retrying _ _ _ | .handlingSecondary _ _ _ _ | .returned _ _ => true

/-- A call of the fallback pool that has had its first reply. -/
def RunningCall.isProbe (call : RunningCall α) : Bool :=
  call.isFallbackPool && call.pc.probed

/-- The evaluations that are still to be made. -/
def Failover.pendingEvaluations (failover : Failover α) : Nat :=
  if failover.fallbackEvaluated then 0 else 1

omit [Double α] in
theorem handleFailure_fallbackEvaluated (processor : ProcessorResult)
    (failover : Failover α) :
    (failover.handleFailure config processor).fallbackEvaluated =
      failover.fallbackEvaluated := by
  unfold Failover.handleFailure Failover.markDown Failover.triggerSwitch
  dsimp only
  split_ifs <;> rfl

theorem evaluateSwitch_fallbackEvaluated (henabled : config.fallbackEnabled = true)
    (failover : Failover α) : (failover.evaluateSwitch config).fallbackEvaluated = true := by
  unfold Failover.evaluateSwitch Failover.triggerSwitch
  dsimp only
  split_ifs <;> simp_all

/-- A switch of the latency rule uses up the evaluation that was pending. -/
theorem latencySwitch_budget (failover : Failover α) (processor : ProcessorResult)
    (reply : Reply α) :
    (Calls.latencySwitch config failover (some (processor, reply))).toList.length +
        (failover.handleResponse config processor reply.elapsed
          reply.code).pendingEvaluations ≤ failover.pendingEvaluations := by
  cases henabled : config.fallbackEnabled with
  | false => simp [Calls.latencySwitch, Failover.handleResponse, henabled]
  | true =>
      by_cases hcode : reply.code = 500
      · simp [Calls.latencySwitch, Failover.handleResponse, henabled, hcode,
          Failover.pendingEvaluations, handleFailure_fallbackEvaluated]
      · have hdone : (failover.handleResponse config processor reply.elapsed
            reply.code).pendingEvaluations = 0 := by
          simp [Failover.handleResponse, henabled, hcode, Failover.pendingEvaluations,
            evaluateSwitch_fallbackEvaluated henabled]
        rw [hdone, Nat.add_zero]
        cases hevaluated : failover.fallbackEvaluated with
        | true =>
            have hrecorded : (recorded config failover processor
                reply.elapsed).fallbackEvaluated = true := by simp [recorded, hevaluated]
            have hsame : (recorded config failover processor reply.elapsed).evaluateSwitch
                config = recorded config failover processor reply.elapsed :=
              Failover.evaluateSwitch_of_evaluated hrecorded
            rw [recorded] at hsame
            simp [Calls.latencySwitch, henabled, hcode, hsame]
        | false =>
            simp only [Failover.pendingEvaluations, hevaluated]
            exact Option.length_toList_le

theorem callStep_probed {isFallbackPool : Bool} {json : Bytes} {cache : TimestampCache}
    {failover : Failover α} {pc : CallPc α} {event : Event α} {outcome : CallOutcome α}
    (h : callStep config isFallbackPool json cache failover pc event = some outcome) :
    (Calls.latencySwitch config failover pc.response).toList.length +
        outcome.failover.pendingEvaluations + (isFallbackPool && pc.probed).toNat ≤
      failover.pendingEvaluations + (isFallbackPool && outcome.pc.probed).toNat := by
  have hprimary : ∀ draft primary secondary reply,
      (afterPrimary config draft primary secondary reply : CallPc α).probed = true := by
    intro draft primary secondary reply
    unfold afterPrimary
    split_ifs <;> rfl
  have hsecondary : ∀ draft secondary code reply,
      (afterSecondary draft secondary code reply : CallPc α).probed = true := by
    intro draft secondary code reply
    unfold afterSecondary
    split_ifs <;> rfl
  cases callStep_move h with
  | build | label | pair | send | sendSecondary =>
      simp [Calls.latencySwitch, CallPc.response, CallPc.probed]
  | probe draft primary secondary reply =>
      cases isFallbackPool <;>
        simp [Calls.latencySwitch, CallPc.response, CallPc.probed,
          Failover.pendingEvaluations]
  | handle draft primary secondary reply =>
      rw [hprimary]
      exact Nat.add_le_add_right (latencySwitch_budget failover primary reply) _
  | handleSecondary draft secondary code reply =>
      rw [hsecondary]
      exact Nat.add_le_add_right (latencySwitch_budget failover secondary reply) _

theorem step_budget {state next : Calls α} {label : CallLabel α}
    (h : state.switches.length + state.failover.pendingEvaluations ≤
      state.calls.countP RunningCall.isProbe)
    (hstep : Calls.step config state label = some next) :
    next.switches.length + next.failover.pendingEvaluations ≤
      next.calls.countP RunningCall.isProbe := by
  cases label with
  | begin isFallbackPool json cache =>
      simp only [Calls.step, Option.some.injEq] at hstep
      subst hstep
      simpa [RunningCall.isProbe, CallPc.probed, List.countP_append] using h
  | advance index event =>
      simp only [Calls.step] at hstep
      cases hcall : state.calls[index]? with
      | none => simp [hcall] at hstep
      | some call =>
          simp only [hcall] at hstep
          split at hstep
          · simp at hstep
          · rename_i outcome houtcome
            simp only [Option.some.injEq] at hstep
            subst hstep
            have hbudget := callStep_probed houtcome
            have hcount := countP_set RunningCall.isProbe hcall
              { call with cache := outcome.cache, pc := outcome.pc }
            simp only [RunningCall.isProbe] at hcount
            simp only [List.length_append, List.length_map]
            omega

/--
However the calls interleave, the latency rule has moved the traffic at most once for
each fallback-pool call that was answered.
-/
theorem latency_switches_le_probes {labels : List (CallLabel α)} {calls : Calls α}
    (hrun : execute (Calls.step config) (Calls.initial config) labels = some calls) :
    calls.switches.length + calls.failover.pendingEvaluations ≤
      calls.calls.countP RunningCall.isProbe := by
  have hstart : (Calls.initial config).switches.length +
      (Calls.initial config).failover.pendingEvaluations ≤
        (Calls.initial config).calls.countP RunningCall.isProbe := le_rfl
  exact execute_invariant (fun _ _ _ h _ hstep => step_budget h hstep) hstart
    (along_true _ _) hrun

theorem latency_switches_le_probes_moved :
    movedToFallback.switches.length = 1 ∧
      movedToFallback.switches.length + movedToFallback.failover.pendingEvaluations ≤
        movedToFallback.calls.countP RunningCall.isProbe :=
  ⟨by decide +kernel, latency_switches_le_probes (Option.some_get _).symm⟩

end Budget

end RinhaBackend
