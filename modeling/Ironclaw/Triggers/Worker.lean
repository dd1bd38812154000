import Ironclaw.Triggers.Missed

/-! # The trigger poller

`ironclaw_triggers/src/worker`. The worker asks its ports (`TriggerPollerWorkerDeps`): the
repository, the source provider, the prompt materializer, the trusted submitter and the lookup of
run states. What a port answers is not part of the worker. The repository acts on a state in `σ`,
which is whatever the repository and everybody else keep between two of its calls.

`processClaimedFire` takes a claimed fire to its result; whatever fails on the way, it ends in
`failFire`, which chooses how the failure is recorded from the record that was read with the claim
and from the wall clock. -/

namespace Ironclaw.Triggers

/-! ### Failures -/

inductive TriggerPollerFailureReason where
  | backend | invalidTriggerId | invalidFireIdentityComponent | invalidRecord | invalidPollerConfig
  | invalidSchedule | invalidMaterialization | blockedMaterialization | notFound | sourceNoFire
  | activeRunLookup
deriving DecidableEq

inductive SubmitFailureKind where
  | retryable | permanent
deriving DecidableEq

structure FailureClassification where
  kind : SubmitFailureKind
  reason : TriggerPollerFailureReason

def classifyFailure : TriggerError → FailureClassification
  | .backend _ => ⟨.retryable, .backend⟩
  | .invalidTriggerId _ => ⟨.permanent, .invalidTriggerId⟩
  | .invalidFireIdentityComponent _ _ => ⟨.permanent, .invalidFireIdentityComponent⟩
  | .invalidRecord _ _ => ⟨.permanent, .invalidRecord⟩
  | .invalidPollerConfig _ => ⟨.permanent, .invalidPollerConfig⟩
  | .invalidSchedule _ _ => ⟨.permanent, .invalidSchedule⟩
  | .invalidMaterialization _ => ⟨.permanent, .invalidMaterialization⟩
  | .blockedMaterialization _ => ⟨.retryable, .blockedMaterialization⟩
  | .notFound => ⟨.permanent, .notFound⟩

def classifySubmitFailure (error : TriggerError) : FailureClassification :=
  if error = .notFound then
    { classifyFailure error with
      kind := .retryable }
  else classifyFailure error

/-! ### What the ports exchange -/

structure TriggerFire where
  trigger : TriggerKey
  fireSlot : Timestamp
  /-- The identity of a fire is derived for its source. -/
  source : TriggerSourceKind
  creatorUserId : UserId
  agentId : Option AgentId
  projectId : Option ProjectId
  prompt : String
  executionPolicy : Option TurnExecutionPolicy

structure TriggerMaterializedPrompt where
  contentRef : String

structure TrustedTriggerSubmitRequest where
  fire : TriggerFire
  materializedPrompt : TriggerMaterializedPrompt
  receivedAt : Timestamp

inductive TrustedTriggerFireSubmitOutcome where
  | accepted (runId : TurnRunId) (submittedAt : Timestamp) (threadId : ThreadId)
  | replayed (originalRunId : TurnRunId) (replayedAt : Timestamp) (threadId : Option ThreadId)

structure TriggerActiveRunStateRequest where
  trigger : TriggerKey
  fireSlot : Timestamp
  runId : TurnRunId

inductive BlockedActiveRunKind where
  | approval | auth | other

inductive TriggerActiveRunState where
  | missing | nonterminal
  | blocked (kind : BlockedActiveRunKind)
  | terminal (status : TriggerRunHistoryStatus)

inductive TriggerPollerFireOutcome where
  | submitted (runId : TurnRunId)
  | replayed (originalRunId : TurnRunId)
  | retryableFailed (reason : TriggerPollerFailureReason)
  | permanentFailed (reason : TriggerPollerFailureReason)
  | oncePermanentFailed (reason : TriggerPollerFailureReason)
  | clearedTerminalActive (runId : TurnRunId)
  | clearedBlockedActive (runId : TurnRunId)
  | activeRunLookupFailed (runId : TurnRunId) (reason : TriggerPollerFailureReason)
  | skippedAlreadyCleared (runId : TurnRunId)
  | skippedAlreadyActive (activeFireSlot : Timestamp) (activeRunRef : Option TurnRunId)
  | dueFireFailed (reason : TriggerPollerFailureReason)
  | skippedNotDue
  | skippedNotFound
deriving DecidableEq

structure TriggerPollerFireReport where
  trigger : TriggerKey
  fireSlot : Timestamp
  outcome : TriggerPollerFireOutcome

structure TriggerPollerTickReport where
  now : Timestamp
  activeRecords : ℕ
  dueRecords : ℕ
  results : List TriggerPollerFireReport

def TriggerPollerTickReport.new (now : Timestamp) : TriggerPollerTickReport := ⟨now, 0, 0, []⟩

/-- The fields of the configuration that the tick reads. -/
structure TriggerPollerWorkerConfig where
  firesPerTick : ℕ
  claimOnlyRecoveryGrace : ℤ

/-- The ports of the worker. `utcNow` is the wall clock, which a schedule is checked against. -/
structure TriggerPollerWorkerDeps (σ : Type) where
  crates : CronCrates
  utcNow : σ → Timestamp
  repository : Request → σ → Except TriggerError Reply × σ
  evaluate : TriggerRecord → Timestamp → TriggerSourceKind → Timestamp →
    Except TriggerError (Option TriggerFire)
  materializePrompt : TriggerFire → Except TriggerError TriggerMaterializedPrompt
  validateTrustedTriggerFirePrompt : String → Except TriggerError Unit
  submitTrustedTriggerFire : TrustedTriggerSubmitRequest →
    Except TriggerError TrustedTriggerFireSubmitOutcome
  activeRunStates : List TriggerActiveRunStateRequest →
    List (Except TriggerError TriggerActiveRunState)

namespace Reply

def toRecord : Reply → Option TriggerRecord
  | .record reply => reply
  | _ => none

def toRecords : Reply → List TriggerRecord
  | .records reply => reply
  | _ => []

def toRuns : Reply → List TriggerRunRecord
  | .runs reply => reply
  | _ => []

end Reply

namespace TriggerPollerWorkerDeps

variable {σ : Type} (deps : TriggerPollerWorkerDeps σ)

/-! ### Claimed fires -/

/-- The failure is recorded; the outcome does not depend on the row that the repository returns. -/
def recordFailure (request : Request) (outcome : TriggerPollerFireOutcome) (st : σ) :
    Except TriggerError TriggerPollerFireOutcome × σ :=
  let (updated, st) := deps.repository request st
  (updated.map fun _ => outcome, st)

def persistFailedFire (record : TriggerRecord) (fireSlot : Timestamp) (source : TriggerSourceKind)
    (disposition : FailedFireDisposition) (reason : TriggerPollerFailureReason) (st : σ) :
    Except TriggerError TriggerPollerFireOutcome × σ :=
  if source = .manual then
    deps.recordFailure (.markFireRetryableFailed ⟨record.key, fireSlot⟩) (.permanentFailed reason) st
  else
    match disposition with
    | .retryable =>
      deps.recordFailure (.markFireRetryableFailed ⟨record.key, fireSlot⟩)
        (.retryableFailed reason) st
    | .recurringPermanentReschedule nextRunAt =>
      deps.recordFailure (.markFirePermanentlyFailed ⟨record.key, fireSlot, nextRunAt⟩)
        (.permanentFailed reason) st
    | .oncePermanentComplete =>
      deps.recordFailure (.markFireTerminallyFailed ⟨record.key, fireSlot⟩)
        (.oncePermanentFailed reason) st

def failedFireDisposition (kind : SubmitFailureKind) (schedule : TriggerSchedule)
    (fireSlot : Timestamp) (st : σ) : Except TriggerError FailedFireDisposition :=
  match kind with
  | .retryable => .ok .retryable
  | .permanent => permanentFailureDisposition deps.crates (deps.utcNow st) schedule fireSlot

/-- How `process_claimed_fire` ends when a port fails. -/
def failFire (record : TriggerRecord) (fireSlot : Timestamp) (source : TriggerSourceKind)
    (classification : FailureClassification) (st : σ) :
    Except TriggerError TriggerPollerFireOutcome × σ :=
  match deps.failedFireDisposition classification.kind record.schedule fireSlot st with
  | .ok disposition =>
    deps.persistFailedFire record fireSlot source disposition classification.reason st
  | .error error => (.error error, st)

/-- An accepted or replayed submission is recorded; the row must still be there. -/
def recordSubmission (request : Request) (missing : String) (outcome : TriggerPollerFireOutcome)
    (st : σ) : Except TriggerError TriggerPollerFireOutcome × σ :=
  let (updated, st) := deps.repository request st
  (updated.bind fun reply =>
    if reply.toRecord = none then .error (.backend missing) else .ok outcome, st)

/-- `TrustedTriggerSubmitRequest::new`. -/
def newSubmitRequest (fire : TriggerFire) (materializedPrompt : TriggerMaterializedPrompt)
    (receivedAt : Timestamp) : Except TriggerError TrustedTriggerSubmitRequest := do
  deps.validateTrustedTriggerFirePrompt fire.prompt
  return ⟨fire, materializedPrompt, receivedAt⟩

def processClaimedFire (record : TriggerRecord) (fireSlot now : Timestamp)
    (source : TriggerSourceKind) (st : σ) : Except TriggerError TriggerPollerFireOutcome × σ :=
  match deps.evaluate record fireSlot source now with
  | .ok none => deps.failFire record fireSlot source ⟨.permanent, .sourceNoFire⟩ st
  | .error error => deps.failFire record fireSlot source (classifyFailure error) st
  | .ok (some fire) =>
    match deps.materializePrompt fire with
    | .error error => deps.failFire record fireSlot source (classifyFailure error) st
    | .ok materializedPrompt =>
      match deps.newSubmitRequest fire materializedPrompt now with
      | .error error => deps.failFire record fireSlot source (classifySubmitFailure error) st
      | .ok submitRequest =>
        match deps.submitTrustedTriggerFire submitRequest with
        | .error error =>
          deps.failFire record fireSlot source (classifySubmitFailure error) st
        | .ok (.accepted runId submittedAt threadId) =>
          deps.recordSubmission
            (.markFireAccepted ⟨record.key, fireSlot, runId, threadId, submittedAt⟩)
            ("claimed trigger fire was not present when persisting accepted submit " ++
              "result") (.submitted runId) st
        | .ok (.replayed originalRunId replayedAt threadId) =>
          deps.recordSubmission
            (.markFireReplayed ⟨record.key, fireSlot, originalRunId, threadId, replayedAt⟩)
            ("claimed trigger fire was not present when persisting replayed submit " ++
              "result") (.replayed originalRunId) st

end TriggerPollerWorkerDeps

end Ironclaw.Triggers
