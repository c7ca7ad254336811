import RinhaBackend.Foundation.Double

/-!
# The failover machine

`handle_response` keeps two health flags, two recorded latencies and the order of
the two processors.  A 500 marks a processor down, any other answer clears the
mark, and a pending evaluation compares the latencies once.  Every change of the
order is the same unconditional swap.
-/

namespace RinhaBackend

open Foundation

inductive ProcessorResult where
  | default
  | fallback
  | discard
  | tryAgain
  deriving DecidableEq, Repr

def ProcessorResult.IsProcessor (label : ProcessorResult) : Prop :=
  label = .default ∨ label = .fallback

structure Config (α : Type) where
  workerCount : Nat
  defaultProcessor : Bytes
  fallbackProcessor : Bytes
  feeDifference : α
  fallbackIntervalMs : Int
  fallbackEnabled : Bool

structure Failover (α : Type) where
  mainUrl : Bytes
  testUrl : Bytes
  defaultTimeMs : α
  fallbackTimeMs : α
  fallbackDown : Bool
  defaultDown : Bool
  fallbackEvaluated : Bool
  primaryLabel : ProcessorResult
  secondaryLabel : ProcessorResult

namespace Failover

variable {α : Type}

section Machine

variable [Double α]

def initial (config : Config α) : Failover α where
  mainUrl := config.defaultProcessor
  testUrl := config.fallbackProcessor
  defaultTimeMs := Double.zero
  fallbackTimeMs := Double.zero
  fallbackDown := !config.fallbackEnabled
  defaultDown := false
  fallbackEvaluated := true
  primaryLabel := .default
  secondaryLabel := .fallback

def triggerSwitch (config : Config α) (state : Failover α) : Failover α :=
  if !config.fallbackEnabled then state
  else
    { state with
      mainUrl := state.testUrl
      testUrl := state.mainUrl
      primaryLabel := state.secondaryLabel
      secondaryLabel := state.primaryLabel }

def updateTime (processor : ProcessorResult) (elapsed : α) (state : Failover α) :
    Failover α :=
  if processor = .default then { state with defaultTimeMs := elapsed }
  else { state with fallbackTimeMs := elapsed }

def timed (state : Failover α) : Bool :=
  !(Double.beq state.defaultTimeMs Double.zero ||
    Double.beq state.fallbackTimeMs Double.zero)

/-- The processor that the latency rule prefers. -/
def preferred (config : Config α) (state : Failover α) : ProcessorResult :=
  if Double.lt state.fallbackTimeMs state.defaultTimeMs &&
      Double.le config.feeDifference
        (Double.div state.defaultTimeMs state.fallbackTimeMs) then .fallback
  else .default

def evaluateSwitch (config : Config α) (state : Failover α) : Failover α :=
  if !config.fallbackEnabled || state.fallbackEvaluated then state
  else
    let state := { state with fallbackEvaluated := true }
    if !state.timed then state
    else
      let usingDefault := decide (state.mainUrl = config.defaultProcessor)
      if state.preferred config = .fallback then
        if usingDefault then state.triggerSwitch config else state
      else
        if !usingDefault then state.triggerSwitch config else state

def markDown (processor : ProcessorResult) (state : Failover α) : Failover α :=
  if processor = .default then { state with defaultDown := true }
  else { state with fallbackDown := true }

/-- The branch of `handle_response` for code 500. -/
def handleFailure (config : Config α) (processor : ProcessorResult)
    (state : Failover α) : Failover α :=
  let usingDefaultAsMain := decide (state.primaryLabel = .default)
  let state := state.markDown processor
  if state.defaultDown && state.fallbackDown then state
  else if state.defaultDown && !state.fallbackDown && usingDefaultAsMain then
    state.triggerSwitch config
  else if !state.defaultDown && state.fallbackDown && !usingDefaultAsMain then
    state.triggerSwitch config
  else state

/-- The clearing of a health flag by an answer other than 500. -/
def handleRecovery (config : Config α) (processor : ProcessorResult)
    (state : Failover α) : Failover α :=
  let defaultCalled := decide (processor = .default)
  if defaultCalled && state.defaultDown then
    let state := { state with defaultDown := false }
    if state.fallbackDown then state.triggerSwitch config else state
  else if !defaultCalled && state.fallbackDown then
    let state := { state with fallbackDown := false }
    if state.defaultDown then state.triggerSwitch config else state
  else state

def handleResponse (config : Config α) (processor : ProcessorResult) (elapsed : α)
    (code : Int) (state : Failover α) : Failover α :=
  if config.fallbackEnabled then
    if code = 500 then state.handleFailure config processor
    else
      ((state.handleRecovery config processor).updateTime processor elapsed).evaluateSwitch
        config
  else state

end Machine

/-! ## Labels and URLs move together -/

/-- The labels name the two processors and the URLs are theirs, in that order. -/
def Aligned (config : Config α) (state : Failover α) : Prop :=
  (state.primaryLabel = .default ∧ state.secondaryLabel = .fallback ∧
    state.mainUrl = config.defaultProcessor ∧
    state.testUrl = config.fallbackProcessor) ∨
  (state.primaryLabel = .fallback ∧ state.secondaryLabel = .default ∧
    state.mainUrl = config.fallbackProcessor ∧
    state.testUrl = config.defaultProcessor)

variable {config : Config α} {state : Failover α}

theorem Aligned.triggerSwitch (h : state.Aligned config) :
    (state.triggerSwitch config).Aligned config := by
  unfold Failover.triggerSwitch
  split_ifs
  · exact h
  · rcases h with ⟨hprimary, hsecondary, hmain, htest⟩ |
      ⟨hprimary, hsecondary, hmain, htest⟩
    · exact Or.inr ⟨hsecondary, hprimary, htest, hmain⟩
    · exact Or.inl ⟨hsecondary, hprimary, htest, hmain⟩

theorem Aligned.updateTime (h : state.Aligned config) (processor : ProcessorResult)
    (elapsed : α) : (state.updateTime processor elapsed).Aligned config := by
  unfold Failover.updateTime
  split_ifs <;> exact h

theorem Aligned.markDown (h : state.Aligned config) (processor : ProcessorResult) :
    (state.markDown processor).Aligned config := by
  unfold Failover.markDown
  split_ifs <;> exact h

theorem Aligned.labels (h : state.Aligned config) :
    (state.primaryLabel = .default ∧ state.secondaryLabel = .fallback) ∨
      (state.primaryLabel = .fallback ∧ state.secondaryLabel = .default) :=
  h.imp (fun hdefault => ⟨hdefault.1, hdefault.2.1⟩)
    fun hfallback => ⟨hfallback.1, hfallback.2.1⟩

theorem Aligned.handleFailure (h : state.Aligned config)
    (processor : ProcessorResult) :
    (state.handleFailure config processor).Aligned config := by
  have hmarked := h.markDown processor
  unfold Failover.handleFailure
  dsimp only
  split_ifs
  all_goals first | exact hmarked | exact hmarked.triggerSwitch

theorem Aligned.handleRecovery (h : state.Aligned config)
    (processor : ProcessorResult) :
    (state.handleRecovery config processor).Aligned config := by
  have hdefault : Aligned config { state with defaultDown := false } := h
  have hfallback : Aligned config { state with fallbackDown := false } := h
  unfold Failover.handleRecovery
  dsimp only
  split_ifs
  all_goals first
    | exact h
    | exact hdefault
    | exact hfallback
    | exact hdefault.triggerSwitch
    | exact hfallback.triggerSwitch

theorem handleRecovery_primaryLabel {processor : ProcessorResult}
    (henabled : config.fallbackEnabled = true) (hdefault : state.defaultDown = true)
    (hfallback : state.fallbackDown = true) :
    (state.handleRecovery config processor).primaryLabel = state.secondaryLabel := by
  by_cases hprocessor : processor = .default <;>
    simp [handleRecovery, Failover.triggerSwitch, hprocessor, henabled, hdefault,
      hfallback]

@[simp] theorem handleRecovery_fallbackEvaluated (processor : ProcessorResult) :
    (state.handleRecovery config processor).fallbackEvaluated =
      state.fallbackEvaluated := by
  unfold Failover.handleRecovery Failover.triggerSwitch
  dsimp only
  split_ifs <;> rfl

@[simp] theorem updateTime_fallbackEvaluated (processor : ProcessorResult)
    (elapsed : α) :
    (state.updateTime processor elapsed).fallbackEvaluated =
      state.fallbackEvaluated := by
  unfold Failover.updateTime
  split_ifs <;> rfl

@[simp] theorem updateTime_primaryLabel (processor : ProcessorResult) (elapsed : α) :
    (state.updateTime processor elapsed).primaryLabel = state.primaryLabel := by
  unfold Failover.updateTime
  split_ifs <;> rfl

/-! ## Health flags -/

@[simp] theorem triggerSwitch_defaultDown :
    (state.triggerSwitch config).defaultDown = state.defaultDown := by
  unfold Failover.triggerSwitch
  split_ifs <;> rfl

@[simp] theorem triggerSwitch_fallbackDown :
    (state.triggerSwitch config).fallbackDown = state.fallbackDown := by
  unfold Failover.triggerSwitch
  split_ifs <;> rfl

theorem handleFailure_defaultDown (processor : ProcessorResult) :
    (state.handleFailure config processor).defaultDown =
      (decide (processor = .default) || state.defaultDown) := by
  have hmarked : (state.markDown processor).defaultDown =
      (decide (processor = .default) || state.defaultDown) := by
    by_cases hprocessor : processor = .default <;>
      simp [Failover.markDown, hprocessor]
  unfold Failover.handleFailure
  dsimp only
  split_ifs <;> simp [hmarked]

theorem handleFailure_fallbackDown (processor : ProcessorResult) :
    (state.handleFailure config processor).fallbackDown =
      (decide (processor ≠ .default) || state.fallbackDown) := by
  have hmarked : (state.markDown processor).fallbackDown =
      (decide (processor ≠ .default) || state.fallbackDown) := by
    by_cases hprocessor : processor = .default <;>
      simp [Failover.markDown, hprocessor]
  unfold Failover.handleFailure
  dsimp only
  split_ifs <;> simp [hmarked]

theorem handleRecovery_defaultDown (processor : ProcessorResult) :
    (state.handleRecovery config processor).defaultDown =
      (decide (processor ≠ .default) && state.defaultDown) := by
  by_cases hprocessor : processor = .default <;>
    cases hdefault : state.defaultDown <;> cases hfallback : state.fallbackDown <;>
    simp [Failover.handleRecovery, hprocessor, hdefault, hfallback]

theorem handleRecovery_fallbackDown (processor : ProcessorResult) :
    (state.handleRecovery config processor).fallbackDown =
      (decide (processor = .default) && state.fallbackDown) := by
  by_cases hprocessor : processor = .default <;>
    cases hdefault : state.defaultDown <;> cases hfallback : state.fallbackDown <;>
    simp [Failover.handleRecovery, hprocessor, hdefault, hfallback]

@[simp] theorem updateTime_defaultDown (processor : ProcessorResult) (elapsed : α) :
    (state.updateTime processor elapsed).defaultDown = state.defaultDown := by
  unfold Failover.updateTime
  split_ifs <;> rfl

@[simp] theorem updateTime_fallbackDown (processor : ProcessorResult) (elapsed : α) :
    (state.updateTime processor elapsed).fallbackDown = state.fallbackDown := by
  unfold Failover.updateTime
  split_ifs <;> rfl

variable [Double α]

theorem initial_aligned (config : Config α) : (initial config).Aligned config :=
  Or.inl ⟨rfl, rfl, rfl, rfl⟩

theorem Aligned.evaluateSwitch (h : state.Aligned config) :
    (state.evaluateSwitch config).Aligned config := by
  have hflag : Aligned config { state with fallbackEvaluated := true } := h
  unfold Failover.evaluateSwitch
  dsimp only
  split_ifs
  all_goals first | exact h | exact hflag | exact hflag.triggerSwitch

theorem Aligned.handleResponse (h : state.Aligned config)
    (processor : ProcessorResult) (elapsed : α) (code : Int) :
    (state.handleResponse config processor elapsed code).Aligned config := by
  unfold Failover.handleResponse
  split_ifs
  · exact h.handleFailure processor
  · exact ((h.handleRecovery processor).updateTime processor elapsed).evaluateSwitch
  · exact h

theorem evaluateSwitch_frame (config : Config α) (state : Failover α) :
    (state.evaluateSwitch config).defaultDown = state.defaultDown ∧
      (state.evaluateSwitch config).fallbackDown = state.fallbackDown ∧
      (state.evaluateSwitch config).defaultTimeMs = state.defaultTimeMs ∧
      (state.evaluateSwitch config).fallbackTimeMs = state.fallbackTimeMs := by
  unfold Failover.evaluateSwitch Failover.triggerSwitch
  dsimp only
  split_ifs <;> exact ⟨rfl, rfl, rfl, rfl⟩

theorem handleResponse_defaultDown (henabled : config.fallbackEnabled = true)
    (processor : ProcessorResult) (elapsed : α) (code : Int) :
    (state.handleResponse config processor elapsed code).defaultDown =
      if processor = .default then decide (code = 500) else state.defaultDown := by
  rw [Failover.handleResponse, if_pos henabled]
  by_cases hcode : code = 500
  · rw [if_pos hcode, handleFailure_defaultDown]
    by_cases hprocessor : processor = .default <;> simp [hprocessor, hcode]
  · rw [if_neg hcode, (evaluateSwitch_frame _ _).1, updateTime_defaultDown,
      handleRecovery_defaultDown]
    by_cases hprocessor : processor = .default <;> simp [hprocessor, hcode]

theorem handleResponse_fallbackDown (henabled : config.fallbackEnabled = true)
    (processor : ProcessorResult) (elapsed : α) (code : Int) :
    (state.handleResponse config processor elapsed code).fallbackDown =
      if processor = .default then state.fallbackDown else decide (code = 500) := by
  rw [Failover.handleResponse, if_pos henabled]
  by_cases hcode : code = 500
  · rw [if_pos hcode, handleFailure_fallbackDown]
    by_cases hprocessor : processor = .default <;> simp [hprocessor, hcode]
  · rw [if_neg hcode, (evaluateSwitch_frame _ _).2.1, updateTime_fallbackDown,
      handleRecovery_fallbackDown]
    by_cases hprocessor : processor = .default <;> simp [hprocessor, hcode]

/-! ## The latency rule -/

theorem evaluateSwitch_of_evaluated (h : state.fallbackEvaluated = true) :
    state.evaluateSwitch config = state := by
  simp [Failover.evaluateSwitch, h]

theorem preferred_eq (config : Config α) (state : Failover α) :
    state.preferred config = .default ∨ state.preferred config = .fallback := by
  unfold preferred
  split_ifs
  · exact Or.inr rfl
  · exact Or.inl rfl

theorem Aligned.preferred_eq_secondary (h : state.Aligned config)
    (hmoves : state.preferred config ≠ state.primaryLabel) :
    state.preferred config = state.secondaryLabel := by
  rcases h.labels with ⟨hprimary, hsecondary⟩ | ⟨hprimary, hsecondary⟩ <;>
    rcases preferred_eq config state with hrule | hrule <;>
    simp_all

private theorem evaluateSwitch_pending (henabled : config.fallbackEnabled = true)
    (hpending : state.fallbackEvaluated = false) (htimed : state.timed = true) :
    (state.evaluateSwitch config).primaryLabel =
      if state.preferred config = .fallback then
        if state.mainUrl = config.defaultProcessor then state.secondaryLabel
        else state.primaryLabel
      else if state.mainUrl = config.defaultProcessor then state.primaryLabel
      else state.secondaryLabel := by
  have hflag : timed { state with fallbackEvaluated := true } = true := htimed
  have hrule : preferred config { state with fallbackEvaluated := true } =
      state.preferred config := rfl
  simp only [Failover.evaluateSwitch, Failover.triggerSwitch, henabled, hpending, hflag,
    hrule, Bool.not_true, Bool.or_self, Bool.false_eq_true, if_false]
  split_ifs <;> simp_all

theorem evaluateSwitch_primaryLabel (henabled : config.fallbackEnabled = true)
    (hdistinct : config.defaultProcessor ≠ config.fallbackProcessor)
    (h : state.Aligned config) :
    (state.evaluateSwitch config).primaryLabel =
      if !state.fallbackEvaluated && state.timed then state.preferred config
      else state.primaryLabel := by
  cases hevaluated : state.fallbackEvaluated with
  | true => simp [evaluateSwitch_of_evaluated hevaluated]
  | false =>
      cases htimed : state.timed with
      | false =>
          have hflag : timed { state with fallbackEvaluated := true } = false := htimed
          simp [Failover.evaluateSwitch, henabled, hevaluated, hflag]
      | true =>
          rw [evaluateSwitch_pending henabled hevaluated htimed]
          rcases h with ⟨hprimary, hsecondary, hmain, -⟩ |
              ⟨hprimary, hsecondary, hmain, -⟩ <;>
            rcases preferred_eq config state with hpreferred | hpreferred <;>
            simp [hpreferred, hprimary, hsecondary, hmain, hdistinct.symm]

end Failover

end RinhaBackend
