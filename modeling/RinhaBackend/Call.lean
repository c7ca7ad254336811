import RinhaBackend.Failover
import RinhaBackend.Foundation.Execution
import RinhaBackend.Payment

/-!
# Calls of `process_payment`

One call builds the payload, reads the two labels, sends to the first processor
and, when that attempt fails, to the second.  The labels are read before the
first send and other threads may swap them at any point of the call, so every
access to shared state is a step of its own.
-/

namespace RinhaBackend

open Foundation

/-- What `send_to_processor` returns and the values it leaves in its out-parameters. -/
structure Reply (α : Type) where
  ok : Bool
  code : Int
  elapsed : α

def Reply.ofCurl {α : Type} (performed : Bool) (code : Int) (elapsed : α) : Reply α :=
  ⟨performed && decide (code = 200), code, elapsed⟩

structure Attempt (α : Type) where
  processor : ProcessorResult
  payload : Bytes
  reply : Reply α

inductive Event (α : Type) where
  | tau
  | clock (now : Nat)
  | wall (nanoseconds : Int)
  | reply (reply : Reply α)

structure Draft where
  payload : Bytes
  ts : UInt64

/-- Where a call stands; the last state is its return value. -/
inductive CallPc (α : Type) where
  | entered
  | built (draft : Draft)
  | labelled (draft : Draft) (primary : ProcessorResult)
  | ready (draft : Draft) (primary secondary : ProcessorResult)
  | answered (draft : Draft) (primary secondary : ProcessorResult) (reply : Reply α)
  | handling (draft : Draft) (primary secondary : ProcessorResult) (reply : Reply α)
  | retrying (draft : Draft) (secondary : ProcessorResult) (code : Int)
  | handlingSecondary (draft : Draft) (secondary : ProcessorResult) (code : Int)
      (reply : Reply α)
  | returned (draft : Draft) (result : ProcessorResult)

structure CallOutcome (α : Type) where
  pc : CallPc α
  failover : Failover α
  cache : TimestampCache
  sent : List (Attempt α)

variable {α : Type} [Double α]

def afterPrimary (config : Config α) (draft : Draft)
    (primary secondary : ProcessorResult) (reply : Reply α) : CallPc α :=
  if reply.ok then .returned draft primary
  else if reply.code = 422 then .returned draft .discard
  else if !config.fallbackEnabled then .returned draft .tryAgain
  else .retrying draft secondary reply.code

/-- The tests that follow the second `handle_response`; `code` is the first reply's. -/
def afterSecondary (draft : Draft) (secondary : ProcessorResult) (code : Int)
    (reply : Reply α) : CallPc α :=
  if reply.ok then .returned draft secondary
  else if code = 422 then .returned draft .discard
  else .returned draft .tryAgain

def callStep (config : Config α) (isFallbackPool : Bool) (json : Bytes)
    (cache : TimestampCache) (failover : Failover α) :
    CallPc α → Event α → Option (CallOutcome α)
  | .entered, .clock now =>
      match createProcessorPayload cache now json with
      | none => none
      | some (payload, ts, cache) =>
          some { pc := .built ⟨payload, ts⟩, failover, cache, sent := [] }
  | .built draft, .tau =>
      let primary :=
        if isFallbackPool then failover.secondaryLabel else failover.primaryLabel
      some { pc := .labelled draft primary, failover, cache, sent := [] }
  | .labelled draft primary, .tau =>
      let secondary :=
        if isFallbackPool then failover.primaryLabel else failover.secondaryLabel
      some { pc := .ready draft primary secondary, failover, cache, sent := [] }
  | .ready draft primary secondary, .reply reply =>
      some
        { pc := .answered draft primary secondary reply, failover, cache
          sent := [⟨primary, draft.payload, reply⟩] }
  | .answered draft primary secondary reply, .tau =>
      let failover :=
        if isFallbackPool then { failover with fallbackEvaluated := false }
        else failover
      some { pc := .handling draft primary secondary reply, failover, cache, sent := [] }
  | .handling draft primary secondary reply, .tau =>
      some
        { pc := afterPrimary config draft primary secondary reply
          failover := failover.handleResponse config primary reply.elapsed reply.code
          cache, sent := [] }
  | .retrying draft secondary code, .reply reply =>
      some
        { pc := .handlingSecondary draft secondary code reply, failover, cache
          sent := [⟨secondary, draft.payload, reply⟩] }
  | .handlingSecondary draft secondary code reply, .tau =>
      some
        { pc := afterSecondary draft secondary code reply
          failover := failover.handleResponse config secondary reply.elapsed reply.code
          cache, sent := [] }
  | _, _ => none

/-- What one step of a call does. -/
inductive CallMove (config : Config α) (isFallbackPool : Bool) (json : Bytes)
    (cache : TimestampCache) (failover : Failover α) :
    CallPc α → Event α → CallOutcome α → Prop
  | build {now : Nat} {payload : Bytes} {ts : UInt64} {newCache : TimestampCache}
      (hpayload : createProcessorPayload cache now json = some (payload, ts, newCache)) :
      CallMove config isFallbackPool json cache failover .entered (.clock now)
        ⟨.built ⟨payload, ts⟩, failover, newCache, []⟩
  | label (draft : Draft) :
      CallMove config isFallbackPool json cache failover (.built draft) .tau
        ⟨.labelled draft
          (if isFallbackPool then failover.secondaryLabel else failover.primaryLabel),
          failover, cache, []⟩
  | pair (draft : Draft) (primary : ProcessorResult) :
      CallMove config isFallbackPool json cache failover (.labelled draft primary) .tau
        ⟨.ready draft primary
          (if isFallbackPool then failover.primaryLabel else failover.secondaryLabel),
          failover, cache, []⟩
  | send (draft : Draft) (primary secondary : ProcessorResult) (reply : Reply α) :
      CallMove config isFallbackPool json cache failover (.ready draft primary secondary)
        (.reply reply)
        ⟨.answered draft primary secondary reply, failover, cache,
          [⟨primary, draft.payload, reply⟩]⟩
  | probe (draft : Draft) (primary secondary : ProcessorResult) (reply : Reply α) :
      CallMove config isFallbackPool json cache failover
        (.answered draft primary secondary reply) .tau
        ⟨.handling draft primary secondary reply,
          if isFallbackPool then { failover with fallbackEvaluated := false } else failover,
          cache, []⟩
  | handle (draft : Draft) (primary secondary : ProcessorResult) (reply : Reply α) :
      CallMove config isFallbackPool json cache failover
        (.handling draft primary secondary reply) .tau
        ⟨afterPrimary config draft primary secondary reply,
          failover.handleResponse config primary reply.elapsed reply.code, cache, []⟩
  | sendSecondary (draft : Draft) (secondary : ProcessorResult) (code : Int)
      (reply : Reply α) :
      CallMove config isFallbackPool json cache failover (.retrying draft secondary code)
        (.reply reply)
        ⟨.handlingSecondary draft secondary code reply, failover, cache,
          [⟨secondary, draft.payload, reply⟩]⟩
  | handleSecondary (draft : Draft) (secondary : ProcessorResult) (code : Int)
      (reply : Reply α) :
      CallMove config isFallbackPool json cache failover
        (.handlingSecondary draft secondary code reply) .tau
        ⟨afterSecondary draft secondary code reply,
          failover.handleResponse config secondary reply.elapsed reply.code, cache, []⟩

theorem callStep_move {config : Config α} {isFallbackPool : Bool} {json : Bytes}
    {cache : TimestampCache} {failover : Failover α} {pc : CallPc α}
    {event : Event α} {outcome : CallOutcome α}
    (h : callStep config isFallbackPool json cache failover pc event = some outcome) :
    CallMove config isFallbackPool json cache failover pc event outcome := by
  unfold callStep at h
  split at h
  case h_1 =>
      split at h
      case h_1 => simp at h
      case h_2 hpayload =>
          cases h
          exact .build hpayload
  case h_9 => simp at h
  all_goals
    cases h
    constructor

def CallPc.response : CallPc α → Option (ProcessorResult × Reply α)
  | .handling _ primary _ reply => some (primary, reply)
  | .handlingSecondary _ secondary _ reply => some (secondary, reply)
  | _ => none

theorem callStep_failover {config : Config α} {isFallbackPool : Bool} {json : Bytes}
    {cache : TimestampCache} {failover : Failover α} {pc : CallPc α}
    {event : Event α} {outcome : CallOutcome α}
    (h : callStep config isFallbackPool json cache failover pc event = some outcome) :
    (∃ processor reply, pc.response = some (processor, reply) ∧
      outcome.failover =
        failover.handleResponse config processor reply.elapsed reply.code) ∨
    (pc.response = none ∧ (outcome.failover = failover ∨
      outcome.failover = { failover with fallbackEvaluated := false })) := by
  cases callStep_move h with
  | handle draft primary secondary reply => exact Or.inl ⟨primary, reply, rfl, rfl⟩
  | handleSecondary draft secondary code reply => exact Or.inl ⟨secondary, reply, rfl, rfl⟩
  | probe draft primary secondary reply =>
      refine Or.inr ⟨rfl, ?_⟩
      dsimp only
      split_ifs
      · exact Or.inr rfl
      · exact Or.inl rfl
  | build | label | pair | send | sendSecondary => exact Or.inr ⟨rfl, Or.inl rfl⟩

/-! ## The attempts of a call -/

def CallPc.draft : CallPc α → Option Draft
  | .entered => none
  | .built draft => some draft
  | .labelled draft _ => some draft
  | .ready draft _ _ => some draft
  | .answered draft _ _ _ => some draft
  | .handling draft _ _ _ => some draft
  | .retrying draft _ _ => some draft
  | .handlingSecondary draft _ _ _ => some draft
  | .returned draft _ => some draft

/-- What the attempts made so far say about where a call stands. -/
def CallPc.Trace : CallPc α → List (Attempt α) → Prop
  | .entered, sent => sent = []
  | .built _, sent => sent = []
  | .labelled _ primary, sent => sent = [] ∧ primary.IsProcessor
  | .ready _ primary secondary, sent =>
      sent = [] ∧ primary.IsProcessor ∧ secondary.IsProcessor
  | .answered draft primary secondary reply, sent
  | .handling draft primary secondary reply, sent =>
      sent = [⟨primary, draft.payload, reply⟩] ∧ primary.IsProcessor ∧
        secondary.IsProcessor
  | .retrying _ secondary code, sent =>
      (∃ first, sent = [first] ∧ first.reply.ok = false ∧ first.reply.code = code) ∧
        code ≠ 422 ∧ secondary.IsProcessor
  | .handlingSecondary draft secondary code reply, sent =>
      (∃ first, sent = [first, ⟨secondary, draft.payload, reply⟩] ∧
        first.reply.ok = false ∧ first.reply.code = code) ∧
        code ≠ 422 ∧ secondary.IsProcessor
  | .returned _ .discard, sent =>
      ∃ first, sent = [first] ∧ first.reply.ok = false ∧ first.reply.code = 422
  | .returned _ .tryAgain, sent =>
      (∀ attempt ∈ sent, attempt.reply.ok = false) ∧
        ∃ first rest, sent = first :: rest ∧ rest.length ≤ 1 ∧ first.reply.code ≠ 422
  | .returned draft processor, sent =>
      ∃ before reply, sent = before ++ [⟨processor, draft.payload, reply⟩] ∧
        reply.ok = true ∧ ∀ attempt ∈ before, attempt.reply.ok = false

omit [Double α] in
theorem returned_trace_of_ok {draft : Draft} {processor : ProcessorResult}
    {reply : Reply α} (hprocessor : processor.IsProcessor) (hok : reply.ok = true)
    (before : List (Attempt α)) (hbefore : ∀ attempt ∈ before, attempt.reply.ok = false) :
    CallPc.Trace (.returned draft processor)
      (before ++ [⟨processor, draft.payload, reply⟩]) := by
  rcases hprocessor with rfl | rfl <;> exact ⟨before, reply, rfl, hok, hbefore⟩

omit [Double α] in
theorem afterPrimary_trace {config : Config α} {draft : Draft}
    {primary secondary : ProcessorResult} (hprimary : primary.IsProcessor)
    (hsecondary : secondary.IsProcessor) (reply : Reply α) :
    (afterPrimary config draft primary secondary reply).Trace
      [⟨primary, draft.payload, reply⟩] := by
  unfold afterPrimary
  split_ifs with hok hcode
  · exact returned_trace_of_ok hprimary hok [] (by simp)
  · exact ⟨_, rfl, by simpa using hok, hcode⟩
  · exact ⟨by simpa using hok, _, [], rfl, by simp, hcode⟩
  · exact ⟨⟨_, rfl, by simpa using hok, rfl⟩, hcode, hsecondary⟩

omit [Double α] in
theorem afterSecondary_trace {draft : Draft} {secondary : ProcessorResult} {code : Int}
    {first : Attempt α} (hfirst : first.reply.ok = false)
    (hfirstCode : first.reply.code = code) (hcode : code ≠ 422)
    (hsecondary : secondary.IsProcessor) (reply : Reply α) :
    (afterSecondary draft secondary code reply).Trace
      [first, ⟨secondary, draft.payload, reply⟩] := by
  unfold afterSecondary
  rw [if_neg hcode]
  split_ifs with hok
  · exact returned_trace_of_ok hsecondary hok [first] (by simpa using hfirst)
  · refine ⟨by simpa [hfirst] using hok, first, _, rfl, by simp, ?_⟩
    rwa [hfirstCode]

theorem callStep_trace {config : Config α} {isFallbackPool : Bool} {json : Bytes}
    {cache : TimestampCache} {failover : Failover α} {pc : CallPc α}
    {event : Event α} {outcome : CallOutcome α} {sent : List (Attempt α)}
    (haligned : failover.Aligned config) (htrace : pc.Trace sent)
    (h : callStep config isFallbackPool json cache failover pc event = some outcome) :
    outcome.pc.Trace (sent ++ outcome.sent) := by
  have hprimary : failover.primaryLabel.IsProcessor :=
    haligned.labels.imp And.left And.left
  have hsecondary : failover.secondaryLabel.IsProcessor :=
    (haligned.labels.imp And.right And.right).symm
  cases callStep_move h with
  | build hpayload => simpa [CallPc.Trace] using htrace
  | label draft =>
      refine ⟨by simpa [CallPc.Trace] using htrace, ?_⟩
      split_ifs
      · exact hsecondary
      · exact hprimary
  | pair draft primary =>
      refine ⟨by simpa using htrace.1, htrace.2, ?_⟩
      split_ifs
      · exact hprimary
      · exact hsecondary
  | send draft primary secondary reply => exact ⟨by simp [htrace.1], htrace.2⟩
  | probe draft primary secondary reply => exact ⟨by simpa using htrace.1, htrace.2⟩
  | handle draft primary secondary reply =>
      rw [htrace.1]
      exact afterPrimary_trace htrace.2.1 htrace.2.2 reply
  | sendSecondary draft secondary code reply =>
      obtain ⟨⟨first, rfl, hok, hcode⟩, hrest⟩ := htrace
      exact ⟨⟨first, rfl, hok, hcode⟩, hrest⟩
  | handleSecondary draft secondary code reply =>
      obtain ⟨⟨first, rfl, hok, hfirst⟩, hcode, hprocessor⟩ := htrace
      exact afterSecondary_trace hok hfirst hcode hprocessor reply

/-- A call draws its draft up once, from one clock reading, and keeps it. -/
theorem callStep_draft {config : Config α} {isFallbackPool : Bool} {json : Bytes}
    {cache : TimestampCache} {failover : Failover α} {pc : CallPc α}
    {event : Event α} {outcome : CallOutcome α}
    (h : callStep config isFallbackPool json cache failover pc event = some outcome) :
    (∃ now draft, event = .clock now ∧ pc.draft = none ∧
      outcome.pc.draft = some draft ∧ outcome.sent = [] ∧
      createProcessorPayload cache now json =
        some (draft.payload, draft.ts, outcome.cache)) ∨
    (outcome.pc.draft = pc.draft ∧ outcome.cache = cache ∧
      ∀ attempt ∈ outcome.sent,
        ∃ draft, pc.draft = some draft ∧ attempt.payload = draft.payload) := by
  cases callStep_move h with
  | build hpayload => exact Or.inl ⟨_, ⟨_, _⟩, rfl, rfl, rfl, rfl, hpayload⟩
  | send | sendSecondary => exact Or.inr ⟨rfl, rfl, by simp [CallPc.draft]⟩
  | handle draft primary secondary reply =>
      refine Or.inr ⟨?_, rfl, by simp⟩
      simp only [afterPrimary]
      split_ifs <;> rfl
  | handleSecondary draft secondary code reply =>
      refine Or.inr ⟨?_, rfl, by simp⟩
      simp only [afterSecondary]
      split_ifs <;> rfl
  | label | pair | probe => exact Or.inr ⟨rfl, rfl, by simp⟩

/-! ## Calls on their own -/

structure RunningCall (α : Type) where
  isFallbackPool : Bool
  json : Bytes
  cache : TimestampCache
  pc : CallPc α

/--
Any number of calls over one failover machine, with the attempts made so far and
the switches made by `evaluate_switch`, each with the attempts before it.
-/
structure Calls (α : Type) where
  failover : Failover α
  calls : List (RunningCall α)
  attempts : List (Attempt α)
  switches : List (ProcessorResult × List (Attempt α))

inductive CallLabel (α : Type) where
  | begin (isFallbackPool : Bool) (json : Bytes) (cache : TimestampCache)
  | advance (index : Nat) (event : Event α)

namespace Calls

def initial (config : Config α) : Calls α := ⟨.initial config, [], [], []⟩

/-- The processor that `evaluate_switch` makes primary while a reply is handled. -/
def latencySwitch (config : Config α) (failover : Failover α) :
    Option (ProcessorResult × Reply α) → Option ProcessorResult
  | none => none
  | some (processor, reply) =>
      if config.fallbackEnabled && decide (reply.code ≠ 500) then
        let before :=
          (failover.handleRecovery config processor).updateTime processor reply.elapsed
        let after := before.evaluateSwitch config
        if after.primaryLabel = before.primaryLabel then none
        else some after.primaryLabel
      else none

def step (config : Config α) (state : Calls α) : CallLabel α → Option (Calls α)
  | .begin isFallbackPool json cache =>
      some { state with
        calls := state.calls ++ [⟨isFallbackPool, json, cache, .entered⟩] }
  | .advance index event =>
      match state.calls[index]? with
      | none => none
      | some call =>
          match callStep config call.isFallbackPool call.json call.cache
              state.failover call.pc event with
          | none => none
          | some outcome =>
              let switched := latencySwitch config state.failover call.pc.response
              some
                { failover := outcome.failover
                  calls := state.calls.set index
                    { call with cache := outcome.cache, pc := outcome.pc }
                  attempts := state.attempts ++ outcome.sent
                  switches := state.switches ++
                    switched.toList.map fun target => (target, state.attempts) }

theorem step_aligned {config : Config α} {state next : Calls α} {label : CallLabel α}
    (h : state.failover.Aligned config) (hstep : step config state label = some next) :
    next.failover.Aligned config := by
  cases label with
  | begin isFallbackPool json cache =>
      simp only [step, Option.some.injEq] at hstep
      exact hstep ▸ h
  | advance index event =>
      simp only [step] at hstep
      split at hstep
      · simp at hstep
      · split at hstep
        · simp at hstep
        · rename_i outcome houtcome
          simp only [Option.some.injEq] at hstep
          subst hstep
          rcases callStep_failover houtcome with
            ⟨processor, reply, -, hfailover⟩ | ⟨-, hfailover | hfailover⟩
          · exact hfailover ▸ h.handleResponse processor reply.elapsed reply.code
          · exact hfailover ▸ h
          · exact hfailover ▸ h

theorem execute_aligned {config : Config α} {labels : List (CallLabel α)}
    {calls : Calls α}
    (hrun : execute (step config) (initial config) labels = some calls) :
    calls.failover.Aligned config :=
  execute_invariant (fun _ _ _ h _ hstep => step_aligned h hstep)
    (Failover.initial_aligned config) (along_true _ labels) hrun

end Calls

end RinhaBackend
