import Ironclaw.AgentLoop.HostError
import Mathlib.Tactic.Common

/-! # Recovery within one model stage

`ModelStage::process` calls the model until a call answers, the recovery strategy gives up, or
something else takes the turn out of the stage; its loop is cut after `maxTotalModelAttempts`
attempts. `onModelError` is the decision of the default strategy on one error, from the counters and
the observation bits of `RecoveryStrategyState`. What the host answers on an attempt is a
`ModelAttempt`; the attempts of a stage are an arbitrary sequence of them.

* `budget`: what the strategy can still grant within the stage: the retries left to each class that
  is retried in place, and the observations not yet spent.
* `onModelError_budget`: a retry in place spends some of it. -/

namespace Ironclaw.AgentLoop

/-! ### The recovery state -/

def u32Max : ℕ := 4294967295

def u64Max : ℕ := 18446744073709551615

inductive RecoveryAttemptClass where
  | capabilityTransient | capabilityUnavailable | capabilityInternal | modelTransient
  | modelContextOverflow | modelInvalidOutput | modelUnavailable | modelInternal | modelStaleRequest
deriving DecidableEq

inductive ModelErrorObservationClass where
  | contextOverflow | contentFiltered | invalidOutput | transient | unavailable | internal
  | staleRequest | outputTruncated
deriving DecidableEq

/-- The two maps as functions: a class without an entry has used no attempt. -/
structure RecoveryStrategyState where
  attemptsFor : RecoveryAttemptClass → ℕ
  observationAttemptedFor : ModelErrorObservationClass → Bool

namespace RecoveryStrategyState

def withIncrementedAttemptsFor (s : RecoveryStrategyState) (cls : RecoveryAttemptClass) :
    RecoveryStrategyState :=
  { s with
    attemptsFor := fun c => if c = cls then min (s.attemptsFor cls + 1) u32Max else s.attemptsFor c }

def withObservationAttemptedFor (s : RecoveryStrategyState) (cls : ModelErrorObservationClass) :
    RecoveryStrategyState :=
  { s with
    observationAttemptedFor := fun c => if c = cls then true else s.observationAttemptedFor c }

def clearedAttempts (_ : RecoveryStrategyState) : RecoveryStrategyState :=
  ⟨fun _ => 0, fun _ => false⟩

end RecoveryStrategyState

/-! ### Errors, outcomes and alterations -/

inductive ModelErrorClass where
  | transient | contextOverflow | contentFiltered | invalidOutput | outputTruncated | unavailable
  | internal | staleRequest | unauthorized | checkpointRejected | transcriptWriteFailed

inductive LoopFailureKind where
  | modelError | invalidModelOutput | checkpointRejected | transcriptWriteFailed | driverBug

inductive ModelInvalidOutputDetailReason where
  | emptyAssistantResponse | unattendedQuestionEndingResponse | textualToolCallSyntax
  | outsideCapabilitySurface | toolUseFinishWithoutToolCalls | unsupportedToolCallsForTextOnlyLoop
  | invalidReturnedToolName | invalidToolCallArguments | malformedToolCallArguments
deriving DecidableEq

def isModelInvalidOutputDetailShape (detail : String) : Bool :=
  let chars := detail.toList
  let asciiWhitespace := fun c : Char => c = ' ' || c = '\t' || c = '\n' || c = '\r' || c.toNat = 12
  !chars.isEmpty && detail.utf8ByteSize ≤ 512 && chars.all (·.toNat < 128) &&
    !chars.head?.any asciiWhitespace && !chars.getLast?.any asciiWhitespace &&
    !chars.any fun c => c.toNat < 32 || c.toNat = 127

def ModelInvalidOutputDetailReason.fromSafeSummary (summary : String) :
    Option ModelInvalidOutputDetailReason :=
  if !isModelInvalidOutputDetailShape summary then none
  else if summary = "model returned an empty assistant response" then some .emptyAssistantResponse
  else if summary = "scheduled run ended by requesting user input" then
    some .unattendedQuestionEndingResponse
  else if summary = "model returned textual tool-call syntax instead of structured tool calls" then
    some .textualToolCallSyntax
  else if summary = "model returned a tool call outside the advertised capability surface" then
    some .outsideCapabilitySurface
  else if summary = "model returned tool-use finish without tool calls" then
    some .toolUseFinishWithoutToolCalls
  else if summary = "model returned unsupported tool calls for a text-only loop" then
    some .unsupportedToolCallsForTextOnlyLoop
  else if summary = "model returned an invalid provider tool name" then some .invalidReturnedToolName
  else if summary = "model returned invalid tool-call arguments" then some .invalidToolCallArguments
  else if summary.startsWith "failed to parse tool-call arguments JSON:" then
    some .malformedToolCallArguments
  else none

structure ModelErrorSummary where
  cls : ModelErrorClass
  safeSummary : String
  retryAfterMs : Option ℕ
  nextFallbackIndex : Option ℕ

inductive ModelErrorRecoveryObservation where
  | contextOverflow | contentFiltered
  | invalidOutput (reason : Option ModelInvalidOutputDetailReason)
  | transient | unavailable | internal | staleRequest | outputTruncated

/-- `ModelErrorRecoveryObservation::class` -/
def ModelErrorRecoveryObservation.observationClass :
    ModelErrorRecoveryObservation → ModelErrorObservationClass
  | contextOverflow => .contextOverflow
  | contentFiltered => .contentFiltered
  | invalidOutput _ => .invalidOutput
  | transient => .transient
  | unavailable => .unavailable
  | internal => .internal
  | staleRequest => .staleRequest
  | outputTruncated => .outputTruncated

inductive RetryScope where
  | call
  | iteration
deriving DecidableEq

inductive RetryAlteration where
  | shrinkContext
  | backoff (delayMs : ℕ)
  | repairInvalidModelOutput
  | advanceFallback (fallbackIndex : ℕ)

inductive RecoveryOutcome where
  | retry (recovery : RecoveryStrategyState) (scope : RetryScope) (alter : Option RetryAlteration)
  | modelErrorObservation (recovery : RecoveryStrategyState) (scope : RetryScope)
      (alter : Option RetryAlteration) (observation : ModelErrorRecoveryObservation)
  | userVisibleTerminal (recovery : RecoveryStrategyState) (failureKind : LoopFailureKind)
  | abort (recovery : RecoveryStrategyState) (failureKind : LoopFailureKind)

/-! ### The default strategy -/

structure DefaultRecoveryStrategy where
  maxAttemptsPerClass : ℕ
  maxModelAvailabilityAttempts : ℕ

def modelErrorToFailureKind : ModelErrorClass → LoopFailureKind
  | .transient | .contextOverflow | .contentFiltered | .outputTruncated | .unavailable | .internal
  | .staleRequest | .unauthorized => .modelError
  | .invalidOutput => .invalidModelOutput
  | .checkpointRejected => .checkpointRejected
  | .transcriptWriteFailed => .transcriptWriteFailed

def modelErrorClassForObservation : ModelErrorObservationClass → ModelErrorClass
  | .contextOverflow => .contextOverflow
  | .invalidOutput => .invalidOutput
  | .contentFiltered => .contentFiltered
  | .transient => .transient
  | .unavailable => .unavailable
  | .internal => .internal
  | .staleRequest => .staleRequest
  | .outputTruncated => .outputTruncated

def modelRetryAttemptClass : ModelErrorClass → Option RecoveryAttemptClass
  | .transient => some .modelTransient
  | .contextOverflow => some .modelContextOverflow
  | .invalidOutput => some .modelInvalidOutput
  | .unavailable => some .modelUnavailable
  | .internal => some .modelInternal
  | .staleRequest => some .modelStaleRequest
  | .contentFiltered | .outputTruncated | .unauthorized | .checkpointRejected
  | .transcriptWriteFailed => none

def maxDelayMs : ℕ := 60000

def availabilityBackoffFor (attempt : ℕ) : ℕ := min (1000 * (1 <<< min attempt 6)) maxDelayMs

def recoverContextOverflowOnce (s : RecoveryStrategyState) : RecoveryOutcome :=
  let next := s.withIncrementedAttemptsFor .modelContextOverflow
  if s.attemptsFor .modelContextOverflow = 0 then .retry next .iteration (some .shrinkContext)
  else .abort next .modelError

def retryObserveOrAbort (s : RecoveryStrategyState) (maxAttempts : ℕ) (scope : RetryScope)
    (alteration : ℕ → Option RetryAlteration) (observation : ModelErrorRecoveryObservation) :
    RecoveryOutcome :=
  let cls := modelErrorClassForObservation observation.observationClass
  match modelRetryAttemptClass cls with
  | none => .abort s.clearedAttempts .driverBug
  | some attemptClass =>
    let attempts := s.attemptsFor attemptClass
    let next := s.withIncrementedAttemptsFor attemptClass
    if attempts < maxAttempts then .retry next scope (alteration attempts)
    else if !s.observationAttemptedFor observation.observationClass then
      .modelErrorObservation (next.withObservationAttemptedFor observation.observationClass) scope
        (alteration attempts) observation
    else .abort next (modelErrorToFailureKind cls)

def observeOnceOrAbort (s : RecoveryStrategyState) (scope : RetryScope)
    (observation : ModelErrorRecoveryObservation) : RecoveryOutcome :=
  if s.observationAttemptedFor observation.observationClass then
    .abort s (modelErrorToFailureKind (modelErrorClassForObservation observation.observationClass))
  else
    .modelErrorObservation (s.withObservationAttemptedFor observation.observationClass) scope none
      observation

namespace DefaultRecoveryStrategy

def onModelError (strategy : DefaultRecoveryStrategy) (s : RecoveryStrategyState)
    (err : ModelErrorSummary) : RecoveryOutcome :=
  let backoff := fun attempts => some (.backoff
    ((err.retryAfterMs.map (min · maxDelayMs)).getD (availabilityBackoffFor attempts)))
  match err.cls with
  | .unauthorized | .transcriptWriteFailed =>
    .userVisibleTerminal s.clearedAttempts (modelErrorToFailureKind err.cls)
  | .checkpointRejected => .abort s.clearedAttempts (modelErrorToFailureKind err.cls)
  | .contentFiltered => observeOnceOrAbort s .call .contentFiltered
  | .outputTruncated => observeOnceOrAbort s .call .outputTruncated
  | .staleRequest =>
    retryObserveOrAbort s strategy.maxAttemptsPerClass .iteration (fun _ => none) .staleRequest
  | .contextOverflow => recoverContextOverflowOnce s
  | .invalidOutput =>
    let reason := ModelInvalidOutputDetailReason.fromSafeSummary err.safeSummary
    if reason = some .outsideCapabilitySurface then
      observeOnceOrAbort s .call (.invalidOutput reason)
    else
      retryObserveOrAbort s strategy.maxAttemptsPerClass .call
        (fun _ => some .repairInvalidModelOutput) (.invalidOutput reason)
  | .unavailable =>
    retryObserveOrAbort s strategy.maxModelAvailabilityAttempts .call
      (fun attempts => match err.nextFallbackIndex with
        | some fallbackIndex => some (.advanceFallback fallbackIndex)
        | none => some (.backoff (availabilityBackoffFor attempts))) .unavailable
  | .transient =>
    retryObserveOrAbort s strategy.maxModelAvailabilityAttempts .call backoff .transient
  | .internal =>
    retryObserveOrAbort s strategy.maxModelAvailabilityAttempts .call backoff .internal

/-- The sum saturates at the largest `u32`. -/
def maxTotalModelAttempts (strategy : DefaultRecoveryStrategy) : ℕ :=
  min (min (7 + strategy.maxAttemptsPerClass) u32Max +
    min (strategy.maxModelAvailabilityAttempts * 3) u32Max) u32Max

end DefaultRecoveryStrategy

/-! ### The stage -/

/-- `model_error_class`; `none` for the errors that no recovery strategy sees. -/
def modelErrorClass : AgentLoopHostErrorKind → Option ModelErrorClass
  | .rateLimited => some .transient
  | .unavailable => some .unavailable
  | .internal => some .internal
  | .invalidOutput => some .invalidOutput
  | .contentFiltered => some .contentFiltered
  | .budgetExceeded | .contextOverflow => some .contextOverflow
  | .outputTruncated => some .outputTruncated
  | .staleSurface => some .staleRequest
  | .unauthorized => some .unauthorized
  | .checkpointRejected => some .checkpointRejected
  | .transcriptWriteFailed => some .transcriptWriteFailed
  | .spendBudgetExceeded | .budgetAccountingFailed | .budgetApprovalRequired | .cancelled
  | .credentialUnavailable | .invalidInvocation | .invalid | .scopeMismatch | .policyDenied => none

inductive AgentLoopExecutorError where
  | cancelled
  | plannerContract (detail : String)
  | hostUnavailable (kind : AgentLoopHostErrorKind)
  /-- A progress event, a checkpoint or a prompt bundle that the host refused. -/
  | hostRefused
  | recoverySequenceExhausted

/-- What the stage reads and writes of the state of the loop, and the route of its request. -/
structure ModelStageState where
  recoveryState : RecoveryStrategyState
  fallbackIndex : ℕ
  requestFallbackIndex : ℕ
  pendingModelErrorObservation : Option ModelErrorRecoveryObservation
  repairInvalidOutput : Bool
  forceCompactOnNextIteration : Bool
  recentFailureKinds : List LoopFailureKind
  recordedFailure : Bool
  recoveryEventSequence : ℕ

/-- What the host answers during one attempt. -/
structure ModelAttempt where
  budgetExhausted : Bool
  /-- The error of the call, if it fails. -/
  error : Option AgentLoopHostError
  /-- The one-shot accounting warning was still free to schedule. -/
  warningScheduled : Bool
  /-- The host takes the recovery event. -/
  recoveryEmitted : Bool
  checkpointWritten : Bool
  bundleBuilt : Bool

inductive ModelStep where
  | response (s : ModelStageState)
  | retryIteration (s : ModelStageState)
  | blocked (gateRef : String) (s : ModelStageState)
  | failed (kind : LoopFailureKind) (s : ModelStageState)
  | error (error : AgentLoopExecutorError)

/-- `prepare_model_retry_alteration`; the answer is whether the iteration is retried. -/
def prepareModelRetryAlteration (s : ModelStageState) (scope : RetryScope)
    (alteration : Option RetryAlteration) : Except AgentLoopExecutorError (ModelStageState × Bool) :=
  let s := { s with repairInvalidOutput := false }
  match alteration with
  | some (.backoff _) | none => .ok (s, scope = .iteration)
  | some .shrinkContext =>
    if scope ≠ .iteration then
      .error (.plannerContract "context shrink retry requires iteration scope")
    else .ok ({ s with forceCompactOnNextIteration := true }, true)
  | some .repairInvalidModelOutput =>
    if scope ≠ .call then
      .error (.plannerContract "invalid model output repair retry requires call scope")
    else .ok ({ s with repairInvalidOutput := true }, false)
  | some (.advanceFallback fallbackIndex) =>
    if scope ≠ .call then
      .error (.plannerContract "fallback advancement requires call scope")
    else if fallbackIndex ≤ s.fallbackIndex then
      .error (.plannerContract "fallback model route index did not advance")
    else .ok ({ s with fallbackIndex := fallbackIndex }, false)

/-- The retry of an outcome: either it leaves the stage, or the loop goes on from a new state. -/
def retryModel (attempt : ModelAttempt) (s : ModelStageState) (recovery : RecoveryStrategyState)
    (scope : RetryScope) (alter : Option RetryAlteration)
    (observation : Option ModelErrorRecoveryObservation) : ModelStep ⊕ ModelStageState :=
  match prepareModelRetryAlteration s scope alter with
  | .error error => .inl (.error error)
  | .ok (s, retryIteration) =>
    if u64Max ≤ s.recoveryEventSequence then .inl (.error .recoverySequenceExhausted)
    else if !attempt.recoveryEmitted || !attempt.checkpointWritten then
      .inl (.error .hostRefused)
    else
      let s := { s with
        requestFallbackIndex := s.fallbackIndex
        recoveryState := recovery
        pendingModelErrorObservation := observation
        recoveryEventSequence := s.recoveryEventSequence + 1 }
      if retryIteration then .inl (.retryIteration s)
      else if !attempt.bundleBuilt then .inl (.error .hostRefused)
      else .inr s

/-- The strategy gave up: the failed exit, if its checkpoint can be written. -/
def modelFailedExit (attempt : ModelAttempt) (s : ModelStageState)
    (recovery : RecoveryStrategyState) (kind : LoopFailureKind) : ModelStep :=
  if attempt.checkpointWritten then
    .failed kind
      { s with recoveryState := recovery, recentFailureKinds := s.recentFailureKinds ++ [kind] }
  else .error .hostRefused

/-- The kind of the first error of the stage is kept. -/
def ModelStageState.recordFailure (s : ModelStageState) (cls : ModelErrorClass) : ModelStageState :=
  if s.recordedFailure then s
  else
    { s with
      recentFailureKinds := s.recentFailureKinds ++ [modelErrorToFailureKind cls]
      recordedFailure := true }

/-- One attempt of the loop. `isSafeSummary` is the check a summary has to pass to be kept. -/
def modelAttempt (strategy : DefaultRecoveryStrategy) (isSafeSummary : String → Bool)
    (attempt : ModelAttempt) (s : ModelStageState) : ModelStep ⊕ ModelStageState :=
  if attempt.budgetExhausted then .inl (.retryIteration s)
  else match attempt.error with
  | none =>
    .inl (.response { s with
      fallbackIndex := s.requestFallbackIndex
      pendingModelErrorObservation := none
      repairInvalidOutput := false
      recoveryState := s.recoveryState.clearedAttempts })
  | some error =>
    if error.kind = .cancelled then .inl (.error .cancelled)
    else match if error.kind = .budgetApprovalRequired then error.gateRef else none with
    | some gateRef => .inl (.blocked gateRef s)
    | none =>
      let s := { s with pendingModelErrorObservation := none, repairInvalidOutput := false }
      if error.kind = .budgetAccountingFailed && attempt.warningScheduled then
        .inl (if attempt.checkpointWritten then .retryIteration s else .error .hostRefused)
      else match modelErrorClass error.kind with
      | none => .inl (.error (.hostUnavailable error.kind))
      | some cls =>
        let s := s.recordFailure cls
        let summary : ModelErrorSummary :=
          { cls := cls
            safeSummary := if isSafeSummary error.safeSummary then error.safeSummary
              else "model gateway failed"
            retryAfterMs := error.retryAfterMs
            nextFallbackIndex := error.nextFallbackIndex }
        match strategy.onModelError s.recoveryState summary with
        | .retry recovery scope alter => retryModel attempt s recovery scope alter none
        | .modelErrorObservation recovery scope alter observation =>
          retryModel attempt s recovery scope alter (some observation)
        | .userVisibleTerminal recovery kind | .abort recovery kind =>
          .inl (modelFailedExit attempt s recovery kind)

/-- The loop over the attempts: the step that leaves the stage, or the state it falls through with. -/
def modelAttempts (strategy : DefaultRecoveryStrategy) (isSafeSummary : String → Bool) :
    ℕ → (ℕ → ModelAttempt) → ModelStageState → ModelStep ⊕ ModelStageState
  | 0, _, s => .inr s
  | n + 1, attempts, s =>
    match modelAttempt strategy isSafeSummary (attempts 0) s with
    | .inl step => .inl step
    | .inr s => modelAttempts strategy isSafeSummary n (fun i => attempts (i + 1)) s

/-- `ModelStage::process` from its loop on, with the fall-through after it. `finalCheckpoint` says
whether the checkpoint of the fall-through can be written. -/
def processModelStage (strategy : DefaultRecoveryStrategy) (isSafeSummary : String → Bool)
    (attempts : ℕ → ModelAttempt) (finalCheckpoint : Bool) (s : ModelStageState) : ModelStep :=
  match modelAttempts strategy isSafeSummary (max strategy.maxTotalModelAttempts 1) attempts s with
  | .inl step => step
  | .inr s =>
    if finalCheckpoint then
      .failed .modelError
        { s with recentFailureKinds := s.recentFailureKinds ++ [.modelError] }
    else .error .hostRefused

/-! ### What the strategy can still grant -/

/-- The retries left to a class out of `maxAttempts`. -/
def RecoveryStrategyState.left (s : RecoveryStrategyState) (maxAttempts : ℕ)
    (cls : RecoveryAttemptClass) : ℕ :=
  maxAttempts - s.attemptsFor cls

/-- One, until the observation of the class is spent. -/
def RecoveryStrategyState.unobserved (s : RecoveryStrategyState)
    (cls : ModelErrorObservationClass) : ℕ :=
  if s.observationAttemptedFor cls then 0 else 1

/-- The calls that the strategy can still grant in place. -/
def DefaultRecoveryStrategy.budget (strategy : DefaultRecoveryStrategy)
    (s : RecoveryStrategyState) : ℕ :=
  s.left strategy.maxAttemptsPerClass .modelInvalidOutput +
    s.left strategy.maxModelAvailabilityAttempts .modelTransient +
    s.left strategy.maxModelAvailabilityAttempts .modelUnavailable +
    s.left strategy.maxModelAvailabilityAttempts .modelInternal +
    s.unobserved .invalidOutput + s.unobserved .contentFiltered + s.unobserved .outputTruncated +
    s.unobserved .transient + s.unobserved .unavailable + s.unobserved .internal

/-- The recovery state of a decision to call again within the stage. -/
def RecoveryOutcome.inPlace : RecoveryOutcome → Option RecoveryStrategyState
  | .retry recovery .call _ | .modelErrorObservation recovery .call _ _ => some recovery
  | _ => none

section Budget

variable {strategy : DefaultRecoveryStrategy} {s r : RecoveryStrategyState}

theorem unobserved_le_one (s : RecoveryStrategyState) (cls : ModelErrorObservationClass) :
    s.unobserved cls ≤ 1 := by
  unfold RecoveryStrategyState.unobserved
  split_ifs <;> omega

theorem budget_le (strategy : DefaultRecoveryStrategy) (s : RecoveryStrategyState) :
    strategy.budget s ≤
      strategy.maxAttemptsPerClass + strategy.maxModelAvailabilityAttempts * 3 + 6 := by
  have h := unobserved_le_one s
  have h1 := h .invalidOutput
  have h2 := h .contentFiltered
  have h3 := h .outputTruncated
  have h4 := h .transient
  have h5 := h .unavailable
  have h6 := h .internal
  unfold DefaultRecoveryStrategy.budget RecoveryStrategyState.left
  omega

theorem left_withIncremented {maxAttempts : ℕ} (h : maxAttempts ≤ u32Max)
    (cls c : RecoveryAttemptClass) :
    (s.withIncrementedAttemptsFor cls).left maxAttempts c =
      if c = cls then s.left maxAttempts cls - 1 else s.left maxAttempts c := by
  unfold RecoveryStrategyState.left RecoveryStrategyState.withIncrementedAttemptsFor
  split_ifs with hc
  · simp only [hc, if_true]
    omega
  · simp only [hc, if_false]

theorem unobserved_withObservation (cls c : ModelErrorObservationClass) :
    (s.withObservationAttemptedFor cls).unobserved c = if c = cls then 0 else s.unobserved c := by
  unfold RecoveryStrategyState.unobserved RecoveryStrategyState.withObservationAttemptedFor
  split_ifs <;> simp_all

theorem left_withObservation (cls : ModelErrorObservationClass) :
    (s.withObservationAttemptedFor cls).left = s.left := rfl

theorem unobserved_withIncremented (cls : RecoveryAttemptClass) :
    (s.withIncrementedAttemptsFor cls).unobserved = s.unobserved := rfl

theorem retryObserveOrAbort_inPlace {maxAttempts : ℕ} {scope : RetryScope}
    {alteration : ℕ → Option RetryAlteration} {observation : ModelErrorRecoveryObservation}
    {cls : RecoveryAttemptClass} (hcls : modelRetryAttemptClass
      (modelErrorClassForObservation observation.observationClass) = some cls)
    (h : (retryObserveOrAbort s maxAttempts scope alteration observation).inPlace = some r) :
    scope = .call ∧
      (0 < s.left maxAttempts cls ∧ r = s.withIncrementedAttemptsFor cls ∨
        s.unobserved observation.observationClass = 1 ∧
          r = (s.withIncrementedAttemptsFor cls).withObservationAttemptedFor
            observation.observationClass) := by
  simp only [retryObserveOrAbort, hcls] at h
  cases scope with
  | iteration => split_ifs at h <;> cases h
  | call =>
    refine ⟨rfl, ?_⟩
    split_ifs at h with hlt hobserved
    · exact .inl ⟨Nat.sub_pos_of_lt hlt, (Option.some.inj h).symm⟩
    · refine .inr ⟨?_, (Option.some.inj h).symm⟩
      simpa [RecoveryStrategyState.unobserved] using hobserved
    · cases h

theorem observeOnceOrAbort_inPlace {observation : ModelErrorRecoveryObservation}
    (h : (observeOnceOrAbort s .call observation).inPlace = some r) :
    s.unobserved observation.observationClass = 1 ∧
      r = s.withObservationAttemptedFor observation.observationClass := by
  unfold observeOnceOrAbort at h
  split_ifs at h with hobserved
  · cases h
  · refine ⟨?_, (Option.some.inj h).symm⟩
    simpa [RecoveryStrategyState.unobserved] using hobserved

/-- A retry in place spends a retry of a class or the observation of one: each class that is retried
in place has a counter and a bit of its own in the budget. -/
theorem onModelError_budget (hp : strategy.maxAttemptsPerClass ≤ u32Max)
    (hm : strategy.maxModelAvailabilityAttempts ≤ u32Max) {err : ModelErrorSummary}
    (h : (strategy.onModelError s err).inPlace = some r) :
    strategy.budget r < strategy.budget s := by
  have hincremented := fun cls => left_withIncremented (s := s) hp cls
  have hincremented' := fun cls => left_withIncremented (s := s) hm cls
  unfold DefaultRecoveryStrategy.onModelError at h
  cases hcls : err.cls <;> simp only [hcls] at h
  case unauthorized | transcriptWriteFailed | checkpointRejected => cases h
  case contextOverflow =>
    unfold recoverContextOverflowOnce at h
    split_ifs at h <;> cases h
  case staleRequest =>
    have hscope := (retryObserveOrAbort_inPlace rfl h).1
    cases hscope
  case contentFiltered | outputTruncated =>
    obtain ⟨hone, rfl⟩ := observeOnceOrAbort_inPlace h
    simp only [ModelErrorRecoveryObservation.observationClass] at hone ⊢
    simp [DefaultRecoveryStrategy.budget, unobserved_withObservation, left_withObservation]
    omega
  case transient | unavailable | internal =>
    obtain ⟨-, ⟨hpos, rfl⟩ | ⟨hone, rfl⟩⟩ := retryObserveOrAbort_inPlace rfl h
    · simp [DefaultRecoveryStrategy.budget, hincremented, hincremented', unobserved_withIncremented]
      omega
    · simp only [ModelErrorRecoveryObservation.observationClass] at hone ⊢
      simp [DefaultRecoveryStrategy.budget, hincremented, hincremented',
        unobserved_withIncremented, unobserved_withObservation, left_withObservation]
      omega
  case invalidOutput =>
    split_ifs at h
    · obtain ⟨hone, rfl⟩ := observeOnceOrAbort_inPlace h
      simp only [ModelErrorRecoveryObservation.observationClass] at hone ⊢
      simp [DefaultRecoveryStrategy.budget, unobserved_withObservation, left_withObservation]
      omega
    · obtain ⟨-, ⟨hpos, rfl⟩ | ⟨hone, rfl⟩⟩ := retryObserveOrAbort_inPlace rfl h
      · simp [DefaultRecoveryStrategy.budget, hincremented, hincremented',
          unobserved_withIncremented]
        omega
      · simp only [ModelErrorRecoveryObservation.observationClass] at hone ⊢
        simp [DefaultRecoveryStrategy.budget, hincremented, hincremented',
          unobserved_withIncremented, unobserved_withObservation, left_withObservation]
        omega

end Budget

/-! ### The loop -/

section Attempts

variable {strategy : DefaultRecoveryStrategy}

variable {s s' : ModelStageState}

theorem scope_of_prepare {scope : RetryScope} {alter : Option RetryAlteration}
    (h : prepareModelRetryAlteration s scope alter = .ok (s', false)) : scope = .call := by
  cases scope with
  | call => rfl
  | iteration => rcases alter with _ | (_ | _ | _ | _) <;> simp [prepareModelRetryAlteration] at h

/-- The loop goes on only from a retry in place, with the recovery state of that retry. -/
theorem retryModel_again {attempt : ModelAttempt}
    {recovery : RecoveryStrategyState} {scope : RetryScope} {alter : Option RetryAlteration}
    {observation : Option ModelErrorRecoveryObservation}
    (h : retryModel attempt s recovery scope alter observation = .inr s') :
    scope = .call ∧ s'.recoveryState = recovery := by
  unfold retryModel at h
  split at h
  · cases h
  next s₁ again hprepare =>
    split_ifs at h with h1 h2 h3 h4
    obtain rfl := Sum.inr.inj h
    obtain rfl : again = false := by simpa using h3
    exact ⟨scope_of_prepare hprepare, rfl⟩

theorem recordFailure_recoveryState (s : ModelStageState) (cls : ModelErrorClass) :
    (s.recordFailure cls).recoveryState = s.recoveryState := by
  unfold ModelStageState.recordFailure
  split_ifs <;> rfl

theorem modelAttempt_again {isSafeSummary : String → Bool} {attempt : ModelAttempt}
    (h : modelAttempt strategy isSafeSummary attempt s = .inr s') :
    ∃ err, (strategy.onModelError s.recoveryState err).inPlace = some s'.recoveryState := by
  unfold modelAttempt at h
  split at h
  · cases h
  split at h
  · cases h
  split at h
  · cases h
  split at h
  · cases h
  dsimp only at h
  split at h
  · cases h
  split at h
  · cases h
  next error _ _ _ _ _ cls _ =>
    have hstate := recordFailure_recoveryState
      { s with pendingModelErrorObservation := none, repairInvalidOutput := false } cls
    rw [hstate] at h
    split at h
    next hdecision =>
      obtain ⟨rfl, hrecovery⟩ := retryModel_again h
      exact ⟨_, by rw [hdecision, hrecovery]; rfl⟩
    next hdecision =>
      obtain ⟨rfl, hrecovery⟩ := retryModel_again h
      exact ⟨_, by rw [hdecision, hrecovery]; rfl⟩
    · cases h
    · cases h

/-- As many attempts as the budget allows, and one more, are enough to leave the stage. -/
theorem modelAttempts_left (hp : strategy.maxAttemptsPerClass ≤ u32Max)
    (hm : strategy.maxModelAvailabilityAttempts ≤ u32Max) (isSafeSummary : String → Bool) (n : ℕ) :
    ∀ (attempts : ℕ → ModelAttempt) (s : ModelStageState), strategy.budget s.recoveryState < n →
      ∃ step, modelAttempts strategy isSafeSummary n attempts s = .inl step := by
  induction n with
  | zero =>
    intro attempts s hlt
    omega
  | succ n ih =>
    intro attempts s hlt
    simp only [modelAttempts]
    cases hattempt : modelAttempt strategy isSafeSummary (attempts 0) s with
    | inl step => exact ⟨step, rfl⟩
    | inr s' =>
      obtain ⟨err, herr⟩ := modelAttempt_again hattempt
      have hspent := onModelError_budget hp hm herr
      exact ih (fun i => attempts (i + 1)) s' (by omega)

end Attempts

/-- Whatever the host answers on each attempt and whatever recovery state the stage starts with, the
stage is left, or the strategy gives up, within `maxTotalModelAttempts` attempts: the fall-through
after the loop is not reached. -/
theorem attempt_bound_never_cuts_recovery (strategy : DefaultRecoveryStrategy)
    (isSafeSummary : String → Bool) (attempts : ℕ → ModelAttempt) (s : ModelStageState)
    (hbound : 7 + strategy.maxAttemptsPerClass + strategy.maxModelAvailabilityAttempts * 3 ≤ u32Max) :
    ∃ step,
      modelAttempts strategy isSafeSummary strategy.maxTotalModelAttempts attempts s = .inl step ∧
      ∀ finalCheckpoint,
        processModelStage strategy isSafeSummary attempts finalCheckpoint s = step := by
  have htotal : strategy.maxTotalModelAttempts =
      7 + strategy.maxAttemptsPerClass + strategy.maxModelAvailabilityAttempts * 3 := by
    unfold DefaultRecoveryStrategy.maxTotalModelAttempts
    omega
  have hbudget := budget_le strategy s.recoveryState
  have hp : strategy.maxAttemptsPerClass ≤ u32Max := by omega
  have hm : strategy.maxModelAvailabilityAttempts ≤ u32Max := by omega
  obtain ⟨step, hstep⟩ := modelAttempts_left hp hm isSafeSummary strategy.maxTotalModelAttempts
    attempts s (by omega)
  refine ⟨step, hstep, ?_⟩
  intro finalCheckpoint
  unfold processModelStage
  rw [Nat.max_eq_left (by omega), hstep]

/-- The default budgets, on a host whose every call is rate limited. -/
theorem rate_limited_stage_is_left :
    7 + 2 + 12 * 3 ≤ u32Max ∧
      ∃ step, modelAttempts ⟨2, 12⟩ (fun _ => true) 45
        (fun _ => ⟨false, some (.new .rateLimited "slow down"), false, true, true, true⟩)
        ⟨⟨fun _ => 0, fun _ => false⟩, 0, 0, none, false, false, [], false, 0⟩ = .inl step := by
  refine ⟨by decide, ?_⟩
  obtain ⟨step, hstep, -⟩ := attempt_bound_never_cuts_recovery ⟨2, 12⟩ (fun _ => true)
    (fun _ => ⟨false, some (.new .rateLimited "slow down"), false, true, true, true⟩)
    ⟨⟨fun _ => 0, fun _ => false⟩, 0, 0, none, false, false, [], false, 0⟩ (by decide)
  exact ⟨step, hstep⟩

end Ironclaw.AgentLoop
