import Ironclaw.HostApi.Trust
import Ironclaw.Triggers.Schedule

/-! # Trigger records, run-history rows and requests

The data model of `ironclaw_triggers/src/lib.rs` with the validation of a record, which the durable
repository repeats on every row it reads, and the checks that the repositories share. A record
whose schedule has run out is valid when it is written and invalid later: `TriggerRecord.validate`
depends on the wall clock through the schedule. -/

namespace Ironclaw.Triggers

/-! ### Ids and states -/

structure TriggerId where
  asUlid : BitVec 128
deriving DecidableEq

structure TurnRunId where
  asUuid : BitVec 128
deriving DecidableEq

structure RequiredSkill where
  asStr : String
deriving DecidableEq

/-- `OutboundDeliveryTargetId`, the retired delivery route of old rows. -/
structure TriggerDeliveryTargetId where
  asStr : String
deriving DecidableEq

inductive TriggerSourceKind where
  | schedule | manual
deriving DecidableEq

inductive TriggerState where
  | scheduled | paused | completed
deriving DecidableEq

inductive TriggerRunStatus where
  | ok | error
deriving DecidableEq

inductive TriggerRunHistoryStatus where
  | running | ok | error
deriving DecidableEq

def sourceKindText : TriggerSourceKind → String
  | .schedule => "schedule"
  | .manual => "manual"

/-! ### Execution specs -/

inductive ResultDeliveryPolicy where
  | deliver | suppressWhenNothingToReport
deriving DecidableEq

structure TurnExecutionPolicy where
  allowedCapabilityIds : Option (List CapabilityId)
  requiredSkills : List RequiredSkill
  resultDelivery : ResultDeliveryPolicy
deriving DecidableEq

structure TriggerExecutionSpec where
  version : ℕ
  goal : String
  successCriteria : List String
  outputInstructions : String
  noResultText : String
  policy : TurnExecutionPolicy
deriving DecidableEq

def executionSpecVersion : ℕ := 1
def maxGoalBytes : ℕ := 4 * 1024
def maxSuccessCriteria : ℕ := 32
def maxSuccessCriteriaBytes : ℕ := 8 * 1024
def maxOutputInstructionsBytes : ℕ := 4 * 1024
def maxNoResultTextBytes : ℕ := 2 * 1024
def maxAllowedCapabilities : ℕ := 64
def maxRequiredSkills : ℕ := 8
def maxTriggerPromptBytes : ℕ := 32 * 1024
def maxTriggerNameBytes : ℕ := 256

/-- `prompts/trigger_execution.md`. -/
def promptTemplate : String :=
  "## Goal\n\n\x7b\x7bgoal\x7d\x7d\n\n## Success criteria\n\n\x7b\x7bsuccess_criteria\x7d\x7d\n\n" ++
    "## Output requirements\n\n\x7b\x7boutput_instructions\x7d\x7d\n\n" ++
    "## When there is nothing to report\n\n\x7b\x7bno_result_text\x7d\x7d\n"

/-- `prompts/suppress_when_nothing_to_report.md`. -/
def suppressedNoResultTemplate : String :=
  "The no-result condition is: \x7b\x7bno_result_text\x7d\x7d\n\n" ++
    "When this condition is true, call `builtin__structured_result` with " ++
    "`\x7b\"outcome\":\"nothing_to_report\"\x7d` and do not return an assistant response. " ++
    "This rule overrides any output requirement to report a negative, empty, unchanged, or " ++
    "no-match result.\n"

/-- `str::find`. -/
def findToken (token rest : List Char) : Option ℕ :=
  (List.range (rest.length + 1)).find? fun index => token.isPrefixOf (rest.drop index)

/-- The token that occurs first, and the first of those in the list where two occur there. -/
def earliestToken (rest : List Char) (substitutions : List (List Char × List Char)) :
    Option (ℕ × List Char × List Char) :=
  substitutions.foldl (fun earliest substitution =>
    match findToken substitution.1 rest, earliest with
    | some index, none => some (index, substitution)
    | some index, some (best, other) =>
      if index < best then some (index, substitution) else some (best, other)
    | none, _ => earliest) none

/-- Each round consumes a token, so that the length of the template is fuel enough. -/
def renderRounds (substitutions : List (List Char × List Char)) : ℕ → List Char → List Char
  | 0, rest => rest
  | fuel + 1, rest =>
    if rest = [] then []
    else
      match earliestToken rest substitutions with
      | some (index, token, value) =>
        rest.take index ++ value ++
          renderRounds substitutions fuel (rest.drop (index + token.length))
      | none => rest

def renderTemplate (template : String) (substitutions : List (String × String)) : String :=
  String.ofList (renderRounds (substitutions.map fun s => (s.1.toList, s.2.toList))
    template.toList.length template.toList)

def trimEnd (text : String) : String := String.ofList (text.toList.rdropWhile Text.isWhitespace)

def invalidSpec (reason : String) : TriggerError := .invalidRecord .executionSpecInvalid reason

def validateText (label value : String) (maxBytes : ℕ) : Except TriggerError Unit := do
  rejectIf (Text.trim value = "") (invalidSpec (label ++ " must not be empty"))
  rejectIf (maxBytes < value.utf8ByteSize)
    (invalidSpec s!"{label} must be at most {maxBytes} bytes")

def validatePolicy (policy : TurnExecutionPolicy) : Except TriggerError Unit := do
  match policy.allowedCapabilityIds with
  | some capabilities =>
    rejectIf (maxAllowedCapabilities < capabilities.length)
      (invalidSpec s!"allowed_capability_ids must contain at most {maxAllowedCapabilities} items")
    rejectIf (¬ capabilities.Nodup)
      (invalidSpec "allowed_capability_ids must not contain duplicates")
  | none => pure ()
  rejectIf (maxRequiredSkills < policy.requiredSkills.length)
    (invalidSpec s!"required_skills must contain at most {maxRequiredSkills} items")
  rejectIf (¬ policy.requiredSkills.Nodup)
    (invalidSpec "required_skills must not contain duplicates")

namespace TriggerExecutionSpec

def renderPrompt (spec : TriggerExecutionSpec) : String :=
  let criteria := "\n".intercalate (spec.successCriteria.map fun criterion => "- " ++ criterion)
  let noResultInstruction := match spec.policy.resultDelivery with
    | .deliver => spec.noResultText
    | .suppressWhenNothingToReport =>
      trimEnd (renderTemplate suppressedNoResultTemplate
        [("\x7b\x7bno_result_text\x7d\x7d", spec.noResultText)])
  renderTemplate promptTemplate
    [("\x7b\x7bgoal\x7d\x7d", spec.goal), ("\x7b\x7bsuccess_criteria\x7d\x7d", criteria),
      ("\x7b\x7boutput_instructions\x7d\x7d", spec.outputInstructions),
      ("\x7b\x7bno_result_text\x7d\x7d", noResultInstruction)]

def validate (spec : TriggerExecutionSpec) : Except TriggerError Unit := do
  let version := spec.version
  rejectIf (version ≠ executionSpecVersion)
    (invalidSpec s!"unsupported execution spec version {version}; expected {executionSpecVersion}")
  validateText "goal" spec.goal maxGoalBytes
  rejectIf (spec.successCriteria = [])
    (invalidSpec "success_criteria must contain at least one item")
  rejectIf (maxSuccessCriteria < spec.successCriteria.length)
    (invalidSpec s!"success_criteria must contain at most {maxSuccessCriteria} items")
  spec.successCriteria.forM fun criterion =>
    validateText "success criterion" criterion maxSuccessCriteriaBytes
  rejectIf (maxSuccessCriteriaBytes < (spec.successCriteria.map String.utf8ByteSize).sum)
    (invalidSpec s!"success_criteria must total at most {maxSuccessCriteriaBytes} bytes")
  validateText "output_instructions" spec.outputInstructions maxOutputInstructionsBytes
  validateText "no_result_text" spec.noResultText maxNoResultTextBytes
  validatePolicy spec.policy
  rejectIf (maxTriggerPromptBytes < spec.renderPrompt.utf8ByteSize)
    (invalidSpec s!"rendered prompt must be at most {maxTriggerPromptBytes} bytes")

end TriggerExecutionSpec

/-! ### Records -/

/-- `TriggerRepositoryKey`, the primary key of `trigger_records`. -/
structure TriggerKey where
  tenantId : TenantId
  triggerId : TriggerId
deriving DecidableEq

structure TriggerRecord where
  triggerId : TriggerId
  tenantId : TenantId
  creatorUserId : UserId
  agentId : Option AgentId
  projectId : Option ProjectId
  name : String
  source : TriggerSourceKind
  schedule : TriggerSchedule
  prompt : String
  executionSpec : Option TriggerExecutionSpec
  deliveryTarget : Option TriggerDeliveryTargetId
  state : TriggerState
  nextRunAt : Timestamp
  lastRunAt : Option Timestamp
  lastFiredSlot : Option Timestamp
  lastStatus : Option TriggerRunStatus
  activeFireSlot : Option Timestamp
  activeRunRef : Option TurnRunId
  createdAt : Timestamp
deriving DecidableEq

def validateTriggerName (name : String) : Except TriggerError Unit := do
  rejectIf (Text.trim name = "") (.invalidRecord .nameEmpty "trigger name must not be empty")
  rejectIf (maxTriggerNameBytes < (Text.trim name).utf8ByteSize)
    (.invalidRecord .nameTooLong s!"trigger name must be at most {maxTriggerNameBytes} bytes")

namespace TriggerRecord

def key (record : TriggerRecord) : TriggerKey := ⟨record.tenantId, record.triggerId⟩

def validate (crates : CronCrates) (wall : Timestamp) (record : TriggerRecord) :
    Except TriggerError Unit := do
  validateTriggerName record.name
  rejectIf (Text.trim record.prompt = "")
    (.invalidRecord .promptEmpty "trigger prompt must not be empty")
  rejectIf (maxTriggerPromptBytes < record.prompt.utf8ByteSize)
    (.invalidRecord .promptTooLong s!"trigger prompt must be at most {maxTriggerPromptBytes} bytes")
  match record.executionSpec with
  | some spec => spec.validate
  | none => pure ()
  rejectIf (record.activeRunRef.isSome = true ∧ record.activeFireSlot = none)
    (.invalidRecord .other "active_run_ref requires active_fire_slot")
  record.schedule.validate crates wall

def hasActiveFire (record : TriggerRecord) : Bool :=
  record.activeFireSlot.isSome || record.activeRunRef.isSome

end TriggerRecord

/-! ### Run history -/

/-- `TriggerRunRepositoryKey`, the primary key of `trigger_run_history`. -/
structure TriggerRunKey where
  trigger : TriggerKey
  fireSlot : Timestamp
  source : TriggerSourceKind
deriving DecidableEq

structure TriggerRunRecord where
  tenantId : TenantId
  triggerId : TriggerId
  fireSlot : Timestamp
  source : TriggerSourceKind
  runId : Option TurnRunId
  threadId : Option ThreadId
  status : TriggerRunHistoryStatus
  submittedAt : Timestamp
  completedAt : Option Timestamp

namespace TriggerRunRecord

def trigger (run : TriggerRunRecord) : TriggerKey := ⟨run.tenantId, run.triggerId⟩

def key (run : TriggerRunRecord) : TriggerRunKey := ⟨run.trigger, run.fireSlot, run.source⟩

def running (trigger : TriggerKey) (fireSlot : Timestamp) (source : TriggerSourceKind)
    (runId : Option TurnRunId) (submittedAt : Timestamp) : TriggerRunRecord where
  tenantId := trigger.tenantId
  triggerId := trigger.triggerId
  fireSlot := fireSlot
  source := source
  runId := runId
  threadId := none
  status := .running
  submittedAt := submittedAt
  completedAt := none

end TriggerRunRecord

/-! ### Requests -/

structure ClaimDueFireRequest where
  trigger : TriggerKey
  fireSlot : Timestamp
  now : Timestamp

structure ClaimManualFireRequest where
  trigger : TriggerKey
  now : Timestamp

structure FireAcceptedRequest where
  trigger : TriggerKey
  fireSlot : Timestamp
  runId : TurnRunId
  threadId : ThreadId
  submittedAt : Timestamp

structure FireReplayedRequest where
  trigger : TriggerKey
  fireSlot : Timestamp
  originalRunId : TurnRunId
  threadId : Option ThreadId
  replayedAt : Timestamp

structure FireRetryableFailedRequest where
  trigger : TriggerKey
  fireSlot : Timestamp

structure FirePermanentFailedRequest where
  trigger : TriggerKey
  fireSlot : Timestamp
  nextRunAt : Timestamp

structure FireTerminalFailedRequest where
  trigger : TriggerKey
  fireSlot : Timestamp

structure ClearActiveFireRequest where
  trigger : TriggerKey
  fireSlot : Timestamp
  runId : TurnRunId
  status : TriggerRunHistoryStatus

structure SetScopedTriggerStateRequest where
  trigger : TriggerKey
  creatorUserId : UserId
  agentId : Option AgentId
  projectId : Option ProjectId
  state : TriggerState

inductive ClaimDueFireOutcome where
  | claimed (record : TriggerRecord) (fireSlot : Timestamp)
  | notFound
  | notDue (record : TriggerRecord)
  | paused (record : TriggerRecord)
  | alreadyActive (activeFireSlot : Option Timestamp) (activeRunRef : Option TurnRunId)
deriving DecidableEq

structure ActiveTriggerScanCursor where
  activeFireSlot : Timestamp
  tenantId : TenantId
  triggerId : TriggerId
deriving DecidableEq

def maxDueTriggerPollLimit : ℕ := 128
def maxTriggerListLimit : ℕ := 100
def maxTriggerRunHistoryLimit : ℕ := 500
def maxTriggerRunHistoryRetained : ℕ := 500

/-! ### Shared checks -/

def validateUserSettableTriggerState : TriggerState → Except TriggerError Unit
  | .scheduled | .paused => .ok ()
  | .completed => .error (.invalidRecord .other
      "completed is a terminal trigger state and cannot be set directly")

/-- Resuming a paused cron trigger moves it to the first slot after the transition; every other
transition keeps the position. -/
def nextRunAtForStateTransition (crates : CronCrates) (wall : Timestamp) (record : TriggerRecord)
    (newState : TriggerState) (transitionedAt : Timestamp) : Except TriggerError Timestamp :=
  if record.state = .paused ∧ newState = .scheduled ∧ record.schedule.isRecurring = true then do
    let next ← record.schedule.nextSlotAfter crates wall transitionedAt
    okOr next (.invalidRecord .other
      "cannot resume recurring trigger: schedule has no future slot")
  else .ok record.nextRunAt

def rejectNonFutureNextRunAt (fireSlot nextRunAt : Timestamp) : Except TriggerError Unit :=
  rejectIf (¬ fireSlot < nextRunAt)
    (.invalidRecord .other "fire result next_run_at must be after the claimed fire slot")

def rejectRunRefRewrite (activeRunRef incomingRunRef : TurnRunId) : Except TriggerError Unit :=
  rejectIf (activeRunRef ≠ incomingRunRef)
    (.invalidRecord .other "fire result must not rewrite an existing active_run_ref")

def rejectFailedResultAfterActiveRun (activeRunRef : Option TurnRunId) : Except TriggerError Unit :=
  rejectIf (activeRunRef ≠ none)
    (.invalidRecord .other "fire failure result must not clear an accepted active_run_ref")

/-- The position that a settled fire moves the trigger to, if it moves it: a fire of the schedule
moves it to the next slot, a manual fire does not. -/
def nextRunAtAfterFire (crates : CronCrates) (wall : Timestamp) (source : TriggerSourceKind)
    (schedule : TriggerSchedule) (fireSlot : Timestamp) : Except TriggerError (Option Timestamp) :=
  if source = .schedule then do
    match ← schedule.nextSlotAfter crates wall fireSlot with
    | some next =>
      rejectNonFutureNextRunAt fireSlot next
      return some next
    | none => return none
  else .ok none

/-- The slot that keeps a trigger open when its run is over. A manual run must not consume a once
trigger. -/
def nextSlotAfterRun (crates : CronCrates) (wall : Timestamp) (source : TriggerSourceKind)
    (record : TriggerRecord) (fireSlot : Timestamp) : Except TriggerError (Option Timestamp) :=
  if source = .schedule then record.schedule.nextSlotAfter crates wall fireSlot
  else .ok (some record.nextRunAt)

/-- The new position of a permanently failed fire must lie ahead, where it is used. -/
def rejectFailedCadence (source : TriggerSourceKind) (fireSlot nextRunAt : Timestamp) :
    Except TriggerError Unit :=
  if source = .schedule then rejectNonFutureNextRunAt fireSlot nextRunAt else .ok ()

/-- The refusal of a retryable failure once the cadence has moved on. -/
def retryableCadenceError : TriggerError :=
  .invalidRecord .other
    "retryable fire failure must leave next_run_at at or before the failed fire slot"

end Ironclaw.Triggers
