import Mathlib.Data.List.Induction
import RinhaBackend.Invariants
import RinhaBackend.Switching

/-!
# What the failover machine remembers

The machine as a function of the replies handled so far.  A probe resets
`fallback_evaluated` before its reply is handled, so a history is a list of
replies and probes.  The health flags are the last code of each processor, the
labels and URLs are swapped together, and a pending evaluation leaves the
latency rule's choice as primary.
-/

namespace RinhaBackend

open Foundation

variable {α : Type}

/-- A call of `handle_response`, or a probe's reset of `fallback_evaluated`. -/
inductive FailoverEvent (α : Type) where
  | respond (processor : ProcessorResult) (elapsed : α) (code : Int)
  | probe

def FailoverEvent.FromProcessor : FailoverEvent α → Prop
  | .respond processor _ _ => processor.IsProcessor
  | .probe => True

def FailoverEvent.codeFrom (processor : ProcessorResult) :
    FailoverEvent α → Option Int
  | .respond processor' _ code => if processor' = processor then some code else none
  | .probe => none

/-- The last code handled for a processor, if it has been called. -/
def lastHandled (events : List (FailoverEvent α)) (processor : ProcessorResult) :
    Option Int :=
  (events.filterMap (FailoverEvent.codeFrom processor)).getLast?

theorem lastHandled_append_singleton (events : List (FailoverEvent α))
    (event : FailoverEvent α) (processor : ProcessorResult) :
    lastHandled (events ++ [event]) processor =
      (event.codeFrom processor).or (lastHandled events processor) := by
  cases hcode : event.codeFrom processor with
  | none => simp [lastHandled, hcode]
  | some code => simp [lastHandled, hcode]

namespace Failover

variable [Double α]

def advance (config : Config α) (state : Failover α) : FailoverEvent α → Failover α
  | .respond processor elapsed code => state.handleResponse config processor elapsed code
  | .probe => { state with fallbackEvaluated := false }

def replay (config : Config α) (events : List (FailoverEvent α)) : Failover α :=
  events.foldl (advance config) (initial config)

variable {config : Config α} {state : Failover α}

theorem replay_append_singleton (config : Config α) (events : List (FailoverEvent α))
    (event : FailoverEvent α) :
    replay config (events ++ [event]) = (replay config events).advance config event := by
  simp [replay]

theorem replay_aligned (config : Config α) (events : List (FailoverEvent α)) :
    (replay config events).Aligned config := by
  induction events using List.reverseRecOn with
  | nil => exact initial_aligned config
  | append_singleton events event ih =>
      rw [replay_append_singleton]
      cases event with
      | respond processor elapsed code => exact ih.handleResponse processor elapsed code
      | probe => exact ih

/-! ## Health -/

theorem replay_defaultDown (henabled : config.fallbackEnabled = true)
    (events : List (FailoverEvent α)) :
    (replay config events).defaultDown = true ↔
      lastHandled events .default = some 500 := by
  induction events using List.reverseRecOn with
  | nil => simp [replay, initial, lastHandled]
  | append_singleton events event ih =>
      rw [replay_append_singleton, lastHandled_append_singleton]
      cases event with
      | respond processor elapsed code =>
          simp only [advance, handleResponse_defaultDown henabled]
          by_cases hprocessor : processor = .default
          · simp [FailoverEvent.codeFrom, hprocessor]
          · simpa [FailoverEvent.codeFrom, hprocessor] using ih
      | probe => exact ih

theorem replay_fallbackDown (henabled : config.fallbackEnabled = true)
    {events : List (FailoverEvent α)}
    (hevents : ∀ event ∈ events, event.FromProcessor) :
    (replay config events).fallbackDown = true ↔
      lastHandled events .fallback = some 500 := by
  induction events using List.reverseRecOn with
  | nil => simp [replay, initial, lastHandled, henabled]
  | append_singleton events event ih =>
      have hstart := ih fun other hother => hevents other (by simp [hother])
      have hlast := hevents event (by simp)
      rw [replay_append_singleton, lastHandled_append_singleton]
      cases event with
      | respond processor elapsed code =>
          simp only [advance, handleResponse_fallbackDown henabled]
          rcases hlast with rfl | rfl
          · simpa [FailoverEvent.codeFrom] using hstart
          · simp [FailoverEvent.codeFrom]
      | probe => exact hstart

omit [Double α] in
theorem handleFailure_primaryLabel (henabled : config.fallbackEnabled = true)
    (haligned : state.Aligned config) {processor : ProcessorResult}
    (hprocessor : processor.IsProcessor) :
    let after := state.handleFailure config processor
    (after.defaultDown = true → after.fallbackDown = false →
      after.primaryLabel = .fallback) ∧
    (after.fallbackDown = true → after.defaultDown = false →
      after.primaryLabel = .default) := by
  simp only [handleFailure_defaultDown, handleFailure_fallbackDown]
  rcases haligned.labels with ⟨hprimary, hsecondary⟩ | ⟨hprimary, hsecondary⟩ <;>
    rcases hprocessor with rfl | rfl <;>
    simp_all [Failover.handleFailure, Failover.markDown, Failover.triggerSwitch]

/--
After any sequence of replies and probes: a processor is marked down exactly when
the last code handled for it was 500, the labels are the two processors with the
URLs in the same order, and a 500 that leaves one processor marked down makes the
other one primary.
-/
theorem health_follows_replies (henabled : config.fallbackEnabled = true)
    {events : List (FailoverEvent α)}
    (hevents : ∀ event ∈ events, event.FromProcessor) :
    let state := replay config events
    (state.defaultDown = true ↔ lastHandled events .default = some 500) ∧
    (state.fallbackDown = true ↔ lastHandled events .fallback = some 500) ∧
    state.Aligned config ∧
    ∀ processor elapsed, processor.IsProcessor →
      let after := state.handleResponse config processor elapsed 500
      (after.defaultDown = true → after.fallbackDown = false →
        after.primaryLabel = .fallback) ∧
      (after.fallbackDown = true → after.defaultDown = false →
        after.primaryLabel = .default) := by
  intro state
  have haligned : state.Aligned config := replay_aligned config events
  refine ⟨replay_defaultDown henabled events, replay_fallbackDown henabled hevents,
    haligned, ?_⟩
  intro processor elapsed hprocessor
  have hfailure : state.handleResponse config processor elapsed 500 =
      state.handleFailure config processor := by
    rw [Failover.handleResponse, if_pos henabled, if_pos rfl]
  rw [hfailure]
  exact handleFailure_primaryLabel henabled haligned hprocessor

def outage : List (FailoverEvent Float) :=
  [.respond .default 6 200, .probe, .respond .fallback 2 200, .respond .fallback 1 500]

theorem health_follows_replies_outage :
    (replay twoProcessors outage).fallbackDown = true ∧
      (replay twoProcessors outage).Aligned twoProcessors := by
  have hevents : ∀ event ∈ outage, event.FromProcessor := by
    simp [outage, FailoverEvent.FromProcessor, ProcessorResult.IsProcessor]
  obtain ⟨-, hfallback, haligned, -⟩ :=
    @health_follows_replies Float _ twoProcessors rfl outage hevents
  exact ⟨hfallback.mpr (by decide), haligned⟩

/-! ## The two tests for the primary processor -/

/-- The test of `evaluate_switch` has the value of the test of `handle_response`. -/
def TestsAgree (config : Config α) (state : Failover α) : Prop :=
  state.mainUrl = config.defaultProcessor ↔ state.primaryLabel = .default

/-- `evaluate_switch` leaves the processor primary that its latency rule prefers. -/
def KeepsPreferred (config : Config α) (state : Failover α) : Prop :=
  state.preferred config = state.primaryLabel →
    (state.evaluateSwitch config).primaryLabel = state.primaryLabel

omit [Double α] in
theorem Aligned.testsAgree (haligned : state.Aligned config)
    (hdistinct : config.defaultProcessor ≠ config.fallbackProcessor) :
    state.TestsAgree config := by
  rcases haligned with ⟨hprimary, -, hmain, -⟩ | ⟨hprimary, -, hmain, -⟩
  · simp [TestsAgree, hprimary, hmain]
  · simp [TestsAgree, hprimary, hmain, hdistinct.symm]

theorem Aligned.keepsPreferred (henabled : config.fallbackEnabled = true)
    (hdistinct : config.defaultProcessor ≠ config.fallbackProcessor)
    (haligned : state.Aligned config) : state.KeepsPreferred config := by
  intro hpreferred
  rw [evaluateSwitch_primaryLabel henabled hdistinct haligned, hpreferred, ite_self]

theorem evaluateSwitch_of_disabled (hdisabled : config.fallbackEnabled = false) :
    state.evaluateSwitch config = state := by
  simp [Failover.evaluateSwitch, hdisabled]

omit [Double α] in
theorem recorded_of_disabled (hdisabled : config.fallbackEnabled = false)
    (state : Failover α) (processor : ProcessorResult) (elapsed : α) :
    (recorded config state processor elapsed).mainUrl = state.mainUrl ∧
      (recorded config state processor elapsed).primaryLabel = state.primaryLabel := by
  unfold recorded Failover.updateTime Failover.handleRecovery Failover.triggerSwitch
  simp only [hdisabled, Bool.not_false, if_true]
  split_ifs <;> exact ⟨rfl, rfl⟩

theorem replay_of_disabled (hdisabled : config.fallbackEnabled = false)
    (events : List (FailoverEvent α)) :
    (replay config events).mainUrl = config.defaultProcessor ∧
      (replay config events).primaryLabel = .default := by
  induction events using List.reverseRecOn with
  | nil => exact ⟨rfl, rfl⟩
  | append_singleton events event ih =>
      rw [replay_append_singleton]
      cases event with
      | respond processor elapsed code =>
          simpa [advance, Failover.handleResponse, hdisabled] using ih
      | probe => exact ih

/--
The two tests for the primary processor agree in every reachable state, and
`evaluate_switch` never leaves the processor its latency rule prefers, exactly in
the configurations with two different URLs and in those without fallback.
-/
theorem primary_tests_agree_iff (config : Config α) :
    (∀ events : List (FailoverEvent α),
      (replay config events).TestsAgree config ∧
      ∀ processor elapsed,
        (recorded config (replay config events) processor elapsed).TestsAgree config ∧
        (recorded config (replay config events) processor elapsed).KeepsPreferred
          config) ↔
      config.fallbackEnabled = false ∨
        config.defaultProcessor ≠ config.fallbackProcessor := by
  constructor
  · intro hagree
    by_contra hsame
    simp only [not_or, Bool.not_eq_false, ne_eq, not_not] at hsame
    obtain ⟨henabled, hsame⟩ := hsame
    have htests := (hagree [.respond .default Double.zero 500]).1
    simp [TestsAgree, replay, advance, initial, Failover.handleResponse,
      Failover.handleFailure, Failover.markDown, Failover.triggerSwitch, henabled,
      hsame] at htests
  · rintro (hdisabled | hdistinct) events
    · obtain ⟨hmain, hprimary⟩ := replay_of_disabled hdisabled events
      refine ⟨by simp [TestsAgree, hmain, hprimary], fun processor elapsed => ?_⟩
      obtain ⟨hmain', hprimary'⟩ :=
        recorded_of_disabled hdisabled (replay config events) processor elapsed
      constructor
      · simp [TestsAgree, hmain', hprimary', hmain, hprimary]
      · intro _
        rw [evaluateSwitch_of_disabled hdisabled]
    · have haligned := replay_aligned config events
      refine ⟨haligned.testsAgree hdistinct, fun processor elapsed => ?_⟩
      have hrecorded := recorded_aligned haligned processor elapsed
      refine ⟨hrecorded.testsAgree hdistinct, ?_⟩
      cases henabled : config.fallbackEnabled with
      | true => exact hrecorded.keepsPreferred henabled hdistinct
      | false =>
          intro _
          rw [evaluateSwitch_of_disabled henabled]

def oneProcessor : Config Float :=
  { twoProcessors with fallbackProcessor := twoProcessors.defaultProcessor }

/-- Default answers in 6 ms and then fails, and a probe finds Fallback at 2 ms. -/
def sharedUrl : List (FailoverEvent Float) :=
  [.respond .default 6 200, .respond .default 1 500, .probe]

/--
With `FALLBACK_PROCESSOR_URL` unset the tests differ once Fallback is primary, and
the probe's answer moves the traffic away from Fallback, which the rule prefers.
-/
theorem primary_tests_differ_when_unset :
    let state := replay oneProcessor sharedUrl
    ¬ state.TestsAgree oneProcessor ∧ state.primaryLabel = .fallback ∧
      (recorded oneProcessor state .fallback 2).preferred oneProcessor = .fallback ∧
      (state.handleResponse oneProcessor .fallback 2 200).primaryLabel = .default := by
  intro state
  have hmain : state.mainUrl = oneProcessor.defaultProcessor := by decide +kernel
  have hprimary : state.primaryLabel = .fallback := by decide +kernel
  refine ⟨?_, hprimary, by decide +kernel, by decide +kernel⟩
  simp [TestsAgree, hmain, hprimary]

/-! ## The latency rule over exact times -/

theorem handleResponse_primaryLabel_of_evaluated
    (henabled : config.fallbackEnabled = true)
    (hevaluated : state.fallbackEvaluated = true)
    (hup : ¬ (state.defaultDown = true ∧ state.fallbackDown = true))
    (processor : ProcessorResult) (elapsed : α) {code : Int} (hcode : code ≠ 500) :
    (state.handleResponse config processor elapsed code).primaryLabel =
      state.primaryLabel := by
  rw [Failover.handleResponse, if_pos henabled, if_neg hcode,
    evaluateSwitch_of_evaluated (by simp [hevaluated]), updateTime_primaryLabel]
  unfold Failover.handleRecovery
  dsimp only
  split_ifs <;> simp_all

theorem preferred_eq_fallback_iff {config : Config ℚ} {state : Failover ℚ} :
    state.preferred config = .fallback ↔
      state.fallbackTimeMs < state.defaultTimeMs ∧
        config.feeDifference ≤ state.defaultTimeMs / state.fallbackTimeMs := by
  have hlt : Double.lt state.fallbackTimeMs state.defaultTimeMs =
      decide (state.fallbackTimeMs < state.defaultTimeMs) := rfl
  have hle : Double.le config.feeDifference
      (Double.div state.defaultTimeMs state.fallbackTimeMs) =
      decide (config.feeDifference ≤ state.defaultTimeMs / state.fallbackTimeMs) := rfl
  unfold preferred
  rw [hlt, hle]
  split_ifs with hrule
  · simpa using hrule
  · simpa using hrule

theorem timed_iff {state : Failover ℚ} :
    state.timed = true ↔ state.defaultTimeMs ≠ 0 ∧ state.fallbackTimeMs ≠ 0 := by
  have hdefault : Double.beq state.defaultTimeMs Double.zero =
      decide (state.defaultTimeMs = 0) := rfl
  have hfallback : Double.beq state.fallbackTimeMs Double.zero =
      decide (state.fallbackTimeMs = 0) := rfl
  unfold timed
  rw [hdefault, hfallback]
  simp

/--
The net effect of an answer other than 500 on the primary label, with exact times:
a pending evaluation with both times recorded leaves the latency rule's choice,
whatever was swapped before in the same call, and without a pending evaluation
the label changes only when both processors were marked down.
-/
theorem latency_rule {config : Config ℚ} (henabled : config.fallbackEnabled = true)
    (hdistinct : config.defaultProcessor ≠ config.fallbackProcessor)
    (events : List (FailoverEvent ℚ)) (processor : ProcessorResult) (elapsed : ℚ)
    {code : Int} (hcode : code ≠ 500) :
    let state := replay config events
    let after := state.handleResponse config processor elapsed code
    (state.fallbackEvaluated = false → after.defaultTimeMs ≠ 0 →
      after.fallbackTimeMs ≠ 0 →
      (after.primaryLabel = .fallback ↔ after.fallbackTimeMs < after.defaultTimeMs ∧
        config.feeDifference ≤ after.defaultTimeMs / after.fallbackTimeMs)) ∧
    (state.fallbackEvaluated = true →
      ¬ (state.defaultDown = true ∧ state.fallbackDown = true) →
      after.primaryLabel = state.primaryLabel) := by
  intro state after
  have hafter : after = (recorded config state processor elapsed).evaluateSwitch
      config := by
    show state.handleResponse config processor elapsed code = _
    rw [Failover.handleResponse, if_pos henabled, if_neg hcode, recorded]
  have haligned : (recorded config state processor elapsed).Aligned config :=
    recorded_aligned (replay_aligned config events) processor elapsed
  constructor
  · intro hpending hdefault hfallback
    obtain ⟨-, -, hdefaultTime, hfallbackTime⟩ :=
      evaluateSwitch_frame config (recorded config state processor elapsed)
    rw [hafter, hdefaultTime] at hdefault
    rw [hafter, hfallbackTime] at hfallback
    have htimed := timed_iff.mpr ⟨hdefault, hfallback⟩
    have hevaluated : (recorded config state processor elapsed).fallbackEvaluated =
        false := by
      simp [recorded, hpending]
    rw [hafter, hdefaultTime, hfallbackTime, ← preferred_eq_fallback_iff,
      evaluateSwitch_primaryLabel henabled hdistinct haligned, hevaluated, htimed]
    simp
  · intro hevaluated hup
    exact handleResponse_primaryLabel_of_evaluated henabled hevaluated hup processor
      elapsed hcode

def exactProcessors : Config ℚ where
  workerCount := 1
  defaultProcessor := ascii "http://default/payments"
  fallbackProcessor := ascii "http://fallback/payments"
  feeDifference := 3
  fallbackIntervalMs := 1000
  fallbackEnabled := true

theorem latency_rule_probe :
    ((replay exactProcessors [.respond .default 6 200, .probe]).handleResponse
      exactProcessors .fallback 2 200).primaryLabel = .fallback := by
  have hrule := @latency_rule exactProcessors rfl (by decide)
    [.respond .default 6 200, .probe] .fallback 2 200 (by decide)
  exact (hrule.1 rfl (by decide +kernel) (by decide +kernel)).mpr (by decide +kernel)

end Failover

/-! ## Histories of the service -/

theorem CallPc.Trace.response_isProcessor {pc : CallPc α} {sent : List (Attempt α)}
    {processor : ProcessorResult} {reply : Reply α} (htrace : pc.Trace sent)
    (hresponse : pc.response = some (processor, reply)) : processor.IsProcessor := by
  cases pc with
  | handling draft primary secondary reply' =>
      cases hresponse
      exact htrace.2.1
  | handlingSecondary draft secondary code reply' =>
      cases hresponse
      exact htrace.2.2
  | _ => simp [CallPc.response] at hresponse

namespace Service

variable [Double α] {config : Config α} {processedStart : UInt64}
variable {state next : Service α} {action : Action α}

theorem Move.failover (hmove : Move config state action next)
    (hpcs : ∀ thread ∈ state.threads, PcValid thread.pc) :
    next.failover = state.failover ∨ ∃ event : FailoverEvent α,
      event.FromProcessor ∧ next.failover = state.failover.advance config event := by
  cases hmove with
  | call hthread hpc hcall =>
      have htrace := trace_of_thread hpcs hthread hpc
      rcases callStep_failover hcall with
        ⟨processor, reply, hresponse, hfailover⟩ | ⟨-, hfailover | hfailover⟩
      · exact Or.inr ⟨.respond processor reply.elapsed reply.code,
          CallPc.Trace.response_isProcessor htrace hresponse, hfailover⟩
      · exact Or.inl hfailover
      · exact Or.inr ⟨.probe, trivial, hfailover⟩
  | _ => exact Or.inl rfl

structure Remembers (config : Config α) (processedStart : UInt64) (state : Service α) :
    Prop where
  regular : state.Regular config processedStart
  replies : ∃ events : List (FailoverEvent α), (∀ event ∈ events, event.FromProcessor) ∧
    state.failover = .replay config events

/-- Whatever the interleaving, the failover machine has handled some history of replies. -/
theorem execute_remembers {actions : List (Action α)}
    (hrun : execute (step config) (initial config processedStart) actions = some state) :
    state.Remembers config processedStart := by
  have hstart : (initial config processedStart).Remembers config processedStart :=
    ⟨initial_regular config processedStart, [], by simp, rfl⟩
  refine execute_invariant (fun state action next h _ hstep => ?_) hstart
    (along_true _ actions) hrun
  obtain ⟨events, hevents, hfailover⟩ := h.replies
  refine ⟨step_regular h.regular hstep, ?_⟩
  rcases (step_move hstep).failover h.regular.pcs with hsame | ⟨event, hevent, hnext⟩
  · exact ⟨events, hevents, hsame.trans hfailover⟩
  · refine ⟨events ++ [event], all_append_singleton hevent hevents, ?_⟩
    rw [hnext, hfailover, Failover.replay_append_singleton]

end Service

end RinhaBackend
