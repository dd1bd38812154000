import Ironclaw.Processes.State

/-! # Applying commands to the materialized state

The `apply_*` functions of `journal_store/state.rs`, each as a function from the state to the
outcome and the next state, or to the error the command is rejected with. An error carries no
state: the caller applies a command to a copy and keeps the copy on success only.

What a command writes into one process is a function of the stored snapshot alone; the `apply`
functions decide whether and to which process it is applied. -/

namespace Ironclaw.Processes

/-- Times a process may be claimed again after a crash before recovery fails it. -/
def maxCrashRecoveryReclaims : ℕ := 3

def leaseExpiredFailureCategory : String := "lease_expired"

def crashRetryExhaustedFailureCategory : String := "crash_retry_exhausted"

variable (snapshot : JournaledProcessSnapshot)

/-- Point a process at a new resume checkpoint. A reference that changes drops the kind of the
one before it; restating the reference held keeps its kind. -/
def adoptCheckpointRef (checkpointRef : Option ProcessCheckpointRef) : JournaledProcessSnapshot :=
  if checkpointRef = none ∨ checkpointRef = snapshot.checkpointRef then snapshot
  else { snapshot with checkpointRef, checkpointKind := none }

/-- A process of the given kind and scope owner that has not ended. -/
def holdsActiveLock (scope : ResourceScope) (processKind : ProcessKind)
    (snapshot : JournaledProcessSnapshot) : Bool :=
  snapshot.processKind = processKind && snapshot.status.keepsActiveLock &&
    sameScopeOwner snapshot.scope scope

namespace ProcessJournalMaterializedState

variable (s : ProcessJournalMaterializedState)

/-- Take a cursor, append the event recorded under it and store the snapshot it describes. -/
def commit (snapshot : JournaledProcessSnapshot)
    (entry : ProcessJournalEntry) : ProcessJournalMaterializedState :=
  { s with
    nextCursor := saturatingAdd s.nextCursor 1
    processes := s.processes.put snapshot
    journal := s.journal ++ [entry] }

/-! ### Submission -/

/-- The error of an exclusive submission while a process of its scope owner and kind is
active; which of several the error names depends on the enumeration order. -/
def refuseActiveConflict (request : SubmitProcessRequest) : Except ProcessJournalStoreError Unit :=
  let active := if request.exclusiveWithinScope then
    s.processes.rows.find? (holdsActiveLock request.scope request.processKind) else none
  match active with
  | some active =>
    .error (.activeProcessConflict active.processId active.processKind active.status
      active.suspension active.journalCursor)
  | none => .ok ()

/-- A submitted dependency must restate the submission's parent and root. -/
def refuseForeignDependency (request : SubmitProcessRequest) :
    Except ProcessJournalStoreError Unit :=
  match request.dependency with
  | none => .ok ()
  | some dependency => do
    rejectIf (request.parentProcessId ≠ some dependency.dependentProcessId)
      (.invalidRequest "submitted dependency does not match parent process")
    rejectIf (request.rootProcessId ≠ some dependency.rootProcessId)
      (.invalidRequest "submitted dependency does not match root process")

/-- The slot a child takes in its tree: the root and the count with the child. -/
def childReservation (request : SubmitProcessRequest) :
    Except ProcessJournalStoreError (Option (ProcessId × ℕ)) :=
  match request.parentProcessId with
  | some parentProcessId => do
    let parent ← s.process parentProcessId
    rejectIf (sameLineageScope parent.scope request.scope = false) .unauthorizedScope
    let rootProcessId := parent.rootProcessId.getD parent.processId
    rejectIf (request.rootProcessId ≠ some rootProcessId)
      (.invalidRequest "child root_process_id does not match parent lineage")
    let cap ← okOr request.spawnTreeDescendantCap
      (.invalidRequest "child process submission requires a descendant cap")
    let next ← okOr (checkedAdd (s.descendantCount rootProcessId) 1)
      (.processTreeCapacityExceeded cap)
    rejectIf (cap.toNat < next) (.processTreeCapacityExceeded cap)
    return some (rootProcessId, next)
  | none => do
    rejectIf (request.rootProcessId.isSome ∨ request.spawnTreeDescendantCap.isSome)
      (.invalidRequest "root lineage requires a parent process")
    return none

end ProcessJournalMaterializedState

variable (request : SubmitProcessRequest)

/-- The process a submission creates. -/
def queuedSnapshot (cursor : ProcessJournalCursor) : JournaledProcessSnapshot where
  processId := request.processId
  processKind := request.processKind
  scope := request.scope
  status := .queued
  suspension := none
  checkpointRef := request.checkpointRef
  checkpointKind := none
  inputRef := request.input.map (·.inputRef)
  failure := none
  journalCursor := cursor
  lease := none
  crashReclaimCount := 0
  createdAt := request.createdAt
  ownerUserId := request.ownerUserId
  concurrencyClass := request.concurrencyClass
  parentProcessId := request.parentProcessId
  rootProcessId := request.rootProcessId
  metadata := request.metadata

/-- The input row a submission stores. -/
def submittedInput : Option ProcessInputRecord :=
  request.input.map fun input =>
    { processId := request.processId
      scope := request.scope
      inputRef := input.inputRef
      payload := input.payload
      createdAt := request.createdAt }

/-- The dependency a submission opens. -/
def submittedDependency : Option ProcessDependencyRecord :=
  request.dependency.map fun dependency =>
    { dependentProcessId := dependency.dependentProcessId
      dependencyProcessId := request.processId
      rootProcessId := dependency.rootProcessId
      scope := request.scope
      groupRef := dependency.groupRef
      state := .open
      terminal := none
      createdAt := request.createdAt
      settledAt := none
      consumedAt := none
      transitionedAt := none
      metadata := dependency.metadata }

namespace ProcessJournalMaterializedState

variable (s : ProcessJournalMaterializedState)

/-- Set the count of a root, keeping what its row remembers as released. -/
def reserve (rootProcessId : ProcessId) (count : ℕ) : Table ProcessTreeReservation.rootProcessId :=
  s.treeReservations.put ⟨rootProcessId, count, s.releasedProcesses rootProcessId⟩

/-- The writes of an accepted submission. -/
def storeSubmission (request : SubmitProcessRequest)
    (treeReservation : Option (ProcessId × ℕ)) : ProcessJournalMaterializedState :=
  let snapshot := queuedSnapshot request s.nextCursor
  { s.commit snapshot (.fromSnapshot snapshot s.nextCursor .submitted) with
    inputs := (submittedInput request).elim s.inputs s.inputs.put
    treeReservations := treeReservation.elim s.treeReservations fun r => s.reserve r.1 r.2
    dependencies := (submittedDependency request).elim s.dependencies s.dependencies.put
    submissionIdempotency :=
      s.submissionIdempotency.remember (submissionReplayKey request) snapshot }

def applySubmit (request : SubmitProcessRequest) :
    Except ProcessJournalStoreError (StoredCommandOutcome × ProcessJournalMaterializedState) :=
  match (submissionReplayKey request).bind s.submissionIdempotency.get with
  | some snapshot => .ok (.submitted snapshot false, s)
  | none => do
    rejectIf (s.processes.get request.processId).isSome (.processAlreadyExists request.processId)
    s.refuseActiveConflict request
    refuseForeignDependency request
    let treeReservation ← s.childReservation request
    return (.submitted (queuedSnapshot request s.nextCursor) true,
      s.storeSubmission request treeReservation)

end ProcessJournalMaterializedState

/-! ### Submission at an edge -/

/-- Whether a stored process is the one an edge submission describes. -/
def edgeReplayMatches (submission : SubmitProcessRequest) (edge : ProcessSubmissionEdge)
    (snapshot : JournaledProcessSnapshot) : Bool :=
  (match edge with
    | .suspended suspension => snapshot.status = .suspended ∧
        snapshot.suspension = some suspension ∧ snapshot.failure = none
    | .completed => snapshot.status = .completed ∧ snapshot.suspension = none ∧
        snapshot.failure = none
    | .failed failure => snapshot.status = .failed ∧ snapshot.suspension = none ∧
        snapshot.failure = some failure : Bool) &&
  decide (snapshot.processId = submission.processId ∧
    snapshot.processKind = submission.processKind ∧ snapshot.scope = submission.scope ∧
    snapshot.checkpointRef = submission.checkpointRef ∧
    snapshot.ownerUserId = submission.ownerUserId ∧
    snapshot.concurrencyClass = submission.concurrencyClass ∧
    snapshot.metadata = submission.metadata)

def ProcessSubmissionEdge.status : ProcessSubmissionEdge → ProcessLifecycleStatus
  | .suspended _ => .suspended
  | .completed => .completed
  | .failed _ => .failed

def ProcessSubmissionEdge.kind : ProcessSubmissionEdge → ProcessJournalKind
  | .suspended _ => .suspended
  | .completed => .completed
  | .failed _ => .failed

def ProcessSubmissionEdge.suspension : ProcessSubmissionEdge → Option ProcessSuspension
  | .suspended suspension => some suspension
  | .completed | .failed _ => none

def ProcessSubmissionEdge.failure : ProcessSubmissionEdge → Option SanitizedFailure
  | .failed failure => some failure
  | .suspended _ | .completed => none

/-- A suspended edge needs a checkpoint reference, a terminal one must not carry any. -/
def refuseEdgeCheckpoint (edge : ProcessSubmissionEdge)
    (checkpointRef : Option ProcessCheckpointRef) : Except ProcessJournalStoreError Unit :=
  match edge with
  | .suspended _ => rejectIf checkpointRef.isNone
      (.invalidRequest "suspended edge submission requires a checkpoint reference")
  | .completed | .failed _ => rejectIf checkpointRef.isSome
      (.invalidRequest "terminal edge submission cannot carry a checkpoint reference")

/-- The process an edge submission creates: past its execution, with a checkpoint of unknown
kind. -/
def edgeSnapshot (request : SubmitProcessAtEdgeRequest) (cursor : ProcessJournalCursor) :
    JournaledProcessSnapshot where
  processId := request.submission.processId
  processKind := request.submission.processKind
  scope := request.submission.scope
  status := request.edge.status
  suspension := request.edge.suspension
  checkpointRef := request.submission.checkpointRef
  checkpointKind := none
  inputRef := none
  failure := request.edge.failure
  journalCursor := cursor
  lease := none
  crashReclaimCount := 0
  createdAt := request.submission.createdAt
  ownerUserId := request.submission.ownerUserId
  concurrencyClass := request.submission.concurrencyClass
  parentProcessId := none
  rootProcessId := none
  metadata := request.submission.metadata

namespace ProcessJournalMaterializedState

variable (s : ProcessJournalMaterializedState)

/-- The answer to an edge submission that has been seen before: from the submission record,
else from the binding and the process row, else from the process row alone; `none` when the
process is new. -/
def edgeReplay (request : SubmitProcessAtEdgeRequest) :
    Except ProcessJournalStoreError (Option JournaledProcessSnapshot) :=
  let submission := request.submission
  let replayKey := submissionReplayKey submission
  let mismatch := ProcessJournalStoreError.invalidRequest
    "edge submission replay does not match the original request"
  match replayKey.bind s.submissionIdempotency.get with
  | some snapshot => do
    rejectIf (edgeReplayMatches submission request.edge snapshot = false) mismatch
    return some snapshot
  | none =>
    match replayKey.bind s.edgeSubmissionBindings.get with
    | some boundProcessId => do
      rejectIf (boundProcessId ≠ submission.processId) mismatch
      let existing ← okOr (s.processes.get submission.processId)
        (.processAlreadyExists submission.processId)
      rejectIf (edgeReplayMatches submission request.edge existing = false) mismatch
      return some existing
    | none =>
      match s.processes.get submission.processId with
      | some existing => do
        rejectIf (edgeReplayMatches submission request.edge existing = false)
          (.processAlreadyExists submission.processId)
        return some existing
      | none => return none

/-- The writes of an accepted edge submission. -/
def storeEdgeSubmission (request : SubmitProcessAtEdgeRequest) : ProcessJournalMaterializedState :=
  let snapshot := edgeSnapshot request s.nextCursor
  { s.commit snapshot (.fromSnapshot snapshot s.nextCursor request.edge.kind) with
    edgeSubmissionBindings :=
      (submissionReplayKey request.submission).elim s.edgeSubmissionBindings fun key =>
        s.edgeSubmissionBindings.pushBack key request.submission.processId }

def applySubmitAtEdge (request : SubmitProcessAtEdgeRequest) :
    Except ProcessJournalStoreError (StoredCommandOutcome × ProcessJournalMaterializedState) := do
  let submission := request.submission
  rejectIf (submission.processKind ≠ .capabilityInvocationState ∨
      submission.exclusiveWithinScope ∨ submission.parentProcessId.isSome ∨
      submission.rootProcessId.isSome ∨ submission.spawnTreeDescendantCap.isSome ∨
      submission.dependency.isSome ∨ submission.input.isSome)
    (.invalidRequest "edge submission only supports standalone bookkeeping processes")
  match ← s.edgeReplay request with
  | some snapshot => return (.submitted snapshot false, s)
  | none =>
    refuseEdgeCheckpoint request.edge submission.checkpointRef
    return (.submitted (edgeSnapshot request s.nextCursor) true, s.storeEdgeSubmission request)

end ProcessJournalMaterializedState

/-! ### Claim and heartbeat -/

/-- The lease a claim grants at `now`. -/
def claimedLease (workerId : ProcessWorkerId)
    (leaseNonce : ProcessId) (now : Timestamp) (leaseDurationMillis : UInt64) :
    ProcessLeaseSnapshot where
  workerId
  leaseToken := ⟨leaseNonce.toText⟩
  leaseExpiresAt := (chronoDuration leaseDurationMillis).map (now + ·)
  lastHeartbeatAt := some now
  claimCount := saturatingAdd snapshot.crashReclaimCount 1

def claimedSnapshot (workerId : ProcessWorkerId)
    (leaseNonce : ProcessId) (now : Timestamp) (leaseDurationMillis : UInt64)
    (cursor : ProcessJournalCursor) : JournaledProcessSnapshot :=
  { snapshot with
    status := .running
    suspension := none
    lease := some (claimedLease snapshot workerId leaseNonce now leaseDurationMillis)
    journalCursor := cursor }

/-- A heartbeat moves the lease's expiry and leaves the cursor alone. -/
def renewedSnapshot (now : Timestamp)
    (leaseDurationMillis : UInt64) : JournaledProcessSnapshot :=
  { snapshot with
    lease := snapshot.lease.map fun lease =>
      { lease with
        lastHeartbeatAt := some now
        leaseExpiresAt := (chronoDuration leaseDurationMillis).map (now + ·) } }

namespace ProcessJournalMaterializedState

/-- The claim loop over the candidates, oldest first. -/
def claimLoop (request : ClaimProcessesRequest) (now : Timestamp) (leaseDurationMillis : UInt64)
    (leaseNonce : ProcessId) (limits : ProcessConcurrencyLimits) :
    List ProcessId → ProcessJournalMaterializedState → List ClaimedProcess →
      List ClaimedProcess × ProcessJournalMaterializedState
  | [], s, claimed => (claimed, s)
  | processId :: rest, s, claimed =>
    let loop := claimLoop request now leaseDurationMillis leaseNonce limits rest
    if request.maxProcesses ≤ claimed.length then (claimed, s)
    else if s.processClaimWithinLimits processId limits = false then loop s claimed
    else
      match s.processes.get processId with
      | none => loop { s with nextCursor := saturatingAdd s.nextCursor 1 } claimed
      | some stored =>
        let snapshot := claimedSnapshot stored request.workerId leaseNonce now
          leaseDurationMillis s.nextCursor
        loop (s.commit snapshot (.fromSnapshot snapshot s.nextCursor .claimed))
          (claimed ++ [⟨snapshot, request.workerId, ⟨leaseNonce.toText⟩⟩])

def applyClaim (s : ProcessJournalMaterializedState) (request : ClaimProcessesRequest)
    (now : Timestamp) (leaseDurationMillis : UInt64) (leaseNonce : ProcessId)
    (limits : ProcessConcurrencyLimits) :
    Except ProcessJournalStoreError (StoredCommandOutcome × ProcessJournalMaterializedState) :=
  let result := claimLoop request now leaseDurationMillis leaseNonce limits
    (s.claimableProcessIds request) s []
  .ok (.claimed result.1, result.2)

def applyHeartbeat (s : ProcessJournalMaterializedState) (request : ProcessLeaseRequest)
    (now : Timestamp) (leaseDurationMillis : UInt64) :
    Except ProcessJournalStoreError (StoredCommandOutcome × ProcessJournalMaterializedState) := do
  let stored ← s.process request.processId
  ensureTransition stored .running
  ensureLease stored request.workerId request.leaseToken
  let snapshot := renewedSnapshot stored now leaseDurationMillis
  return (.heartbeat snapshot, { s with processes := s.processes.put snapshot })

end ProcessJournalMaterializedState

/-! ### Recovery of expired leases -/

/-- A checkpoint known not to replay a side effect. -/
def resumableCheckpoint : Bool :=
  snapshot.checkpointKind.any fun kind => !kind.replaysSideEffect

/-- Whether recovery leaves a checkpointed process it would requeue alone because its lease ran
out less than one lease duration ago. -/
def requeueAwaitsGrace (now : Timestamp)
    (leaseDurationMillis : UInt64) : Bool :=
  if snapshot.status = .cancelRequested ∨ snapshot.checkpointRef = none then false
  else if snapshot.checkpointKind.all (·.replaysSideEffect) then false
  else
    match snapshot.lease.bind (·.leaseExpiresAt) with
    | none => false
    | some expiresAt =>
      match chronoDuration leaseDurationMillis with
      | none => true
      | some grace => now < expiresAt + grace

/-- Claims the process has had in its present series of crashes. -/
def heldClaimCount : ℕ :=
  (snapshot.lease.map (·.claimCount)).getD 0

/-- What recovery makes of an expired process: the status, the event and the failure. -/
def recoveryDecision : ProcessLifecycleStatus × ProcessJournalKind × Option SanitizedFailure :=
  if snapshot.status = .cancelRequested then (.cancelled, .cancelled, none)
  else if (snapshot.checkpointRef = none ∨ resumableCheckpoint snapshot) ∧
      heldClaimCount snapshot < maxCrashRecoveryReclaims then (.queued, .resumed, none)
  else
    (.failed, .failed, some (SanitizedFailure.fromTrustedStatic
      (if snapshot.checkpointRef.isSome then leaseExpiredFailureCategory
        else crashRetryExhaustedFailureCategory)))

def recoveredSnapshot (cursor : ProcessJournalCursor) : JournaledProcessSnapshot :=
  let decision := recoveryDecision snapshot
  { snapshot with
    status := decision.1
    lease := none
    crashReclaimCount :=
      if decision.1 = .queued then heldClaimCount snapshot else snapshot.crashReclaimCount
    failure := decision.2.2
    journalCursor := cursor }

namespace ProcessJournalMaterializedState

/-- The recovery loop over the expired processes, in enumeration order. -/
def recoverLoop (now : Timestamp) (leaseDurationMillis : UInt64) :
    List ProcessId → ProcessJournalMaterializedState → List JournaledProcessSnapshot →
      Except ProcessJournalStoreError
        (List JournaledProcessSnapshot × ProcessJournalMaterializedState)
  | [], s, recovered => .ok (recovered, s)
  | processId :: rest, s, recovered => do
    let stored ← s.process processId
    if requeueAwaitsGrace stored now leaseDurationMillis then
      recoverLoop now leaseDurationMillis rest s recovered
    else
      let snapshot := recoveredSnapshot stored s.nextCursor
      let entry := .fromSnapshot snapshot s.nextCursor (recoveryDecision stored).2.1
      recoverLoop now leaseDurationMillis rest (s.commit snapshot entry) (recovered ++ [snapshot])

def applyRecoverExpired (s : ProcessJournalMaterializedState)
    (request : RecoverExpiredProcessLeasesRequest) (leaseDurationMillis : UInt64) :
    Except ProcessJournalStoreError (StoredCommandOutcome × ProcessJournalMaterializedState) := do
  let result ← recoverLoop request.now leaseDurationMillis (s.expiredProcessIds request) s []
  return (.recovered result.1, result.2)

end ProcessJournalMaterializedState

/-! ### Leased transitions -/

/-- Cancellation wins a concurrent runner failure. -/
def cancellationWins (mutation : ProcessTransitionMutation) : Bool :=
  snapshot.status = .cancelRequested ∧ mutation.status = .failed

/-- A failure that asked to be driven again, of a process without a checkpoint that has not
used up its claims. -/
def failureRedrives (mutation : ProcessTransitionMutation) : Bool :=
  snapshot.status = .running ∧ mutation.status = .failed ∧
    mutation.failureRecovery = .redriveIfCheckpointless ∧ snapshot.checkpointRef = none ∧
    mutation.checkpointRef = none ∧
    snapshot.lease.any (fun lease => lease.claimCount < maxCrashRecoveryReclaims)

/-- The mutation a leased transition really applies. -/
def effectiveMutation (mutation : ProcessTransitionMutation) : ProcessTransitionMutation :=
  if cancellationWins snapshot mutation then
    { mutation with status := .cancelled, kind := .cancelled, failure := none }
  else if failureRedrives snapshot mutation then
    { mutation with status := .queued, kind := .resumed, failure := none }
  else mutation

def transitionedSnapshot (mutation : ProcessTransitionMutation) (cursor : ProcessJournalCursor) :
    JournaledProcessSnapshot :=
  let effective := effectiveMutation snapshot mutation
  let adopted := adoptCheckpointRef snapshot effective.checkpointRef
  { adopted with
    status := effective.status
    suspension := effective.suspension
    failure := effective.failure
    metadata := effective.metadata.getD snapshot.metadata
    lease := if effective.status = .running then snapshot.lease else none
    crashReclaimCount :=
      if failureRedrives snapshot mutation then heldClaimCount snapshot
      else snapshot.crashReclaimCount
    journalCursor := cursor }

namespace ProcessJournalMaterializedState

/-- The inputs without that of a process that has ended. -/
def inputsAfter (s : ProcessJournalMaterializedState) (snapshot : JournaledProcessSnapshot) :
    Table ProcessInputRecord.processId :=
  if snapshot.status.isTerminal then s.inputs.remove snapshot.processId else s.inputs

def applyLeasedTransition (s : ProcessJournalMaterializedState) (request : ProcessLeaseRequest)
    (mutation : ProcessTransitionMutation) :
    Except ProcessJournalStoreError (StoredCommandOutcome × ProcessJournalMaterializedState) := do
  let stored ← s.process request.processId
  ensureLease stored request.workerId request.leaseToken
  let effective := effectiveMutation stored mutation
  ensureTransition stored effective.status
  let snapshot := transitionedSnapshot stored mutation s.nextCursor
  return (.transitioned snapshot,
    { s.commit snapshot (.fromSnapshot snapshot s.nextCursor effective.kind) with
      inputs := s.inputsAfter snapshot })

end ProcessJournalMaterializedState

/-! ### Controls -/

/-- The status and event a control moves a process to; `none` when it changes nothing. -/
def controlTransition (action : ProcessControlAction) :
    Except ProcessJournalStoreError (Option (ProcessLifecycleStatus × ProcessJournalKind)) :=
  match action with
  | .resume => do
    ensureTransition snapshot .queued
    return some (.queued, .resumed)
  | .stop => .ok (if snapshot.status.isTerminal then none else some (.stopped, .stopped))
  | .cancel =>
    if snapshot.status.isTerminal then .ok none
    else if snapshot.status = .running ∨ snapshot.status = .cancelRequested then
      .ok (some (.cancelRequested, .cancelRequested))
    else .ok (some (.cancelled, .cancelled))
  | .kill => .ok (if snapshot.status.isTerminal then none else some (.killed, .killed))

def controlledSnapshot (mutation : ProcessControlMutation)
    (status : ProcessLifecycleStatus) (cursor : ProcessJournalCursor) :
    JournaledProcessSnapshot :=
  let adopted := adoptCheckpointRef snapshot mutation.checkpointRef
  { adopted with
    status
    suspension := none
    metadata := mutation.metadata.getD snapshot.metadata
    failure := none
    lease := if status = .cancelRequested then snapshot.lease else none
    journalCursor := cursor }

namespace ProcessJournalMaterializedState

variable (s : ProcessJournalMaterializedState)

/-- The writes of a control that changes the process. -/
def storeControl (mutation : ProcessControlMutation)
    (stored : JournaledProcessSnapshot) (status : ProcessLifecycleStatus)
    (kind : ProcessJournalKind) : ProcessJournalMaterializedState :=
  let snapshot := controlledSnapshot stored mutation status s.nextCursor
  let entry := { ProcessJournalEntry.fromSnapshot snapshot s.nextCursor kind with
    sanitizedReason := mutation.reason }
  { s.commit snapshot entry with
    inputs := s.inputsAfter snapshot
    controlIdempotency := s.controlIdempotency.remember (controlReplayKey mutation)
      ⟨snapshot, true, stored.status.isTerminal⟩ }

/-- The part of a control after the replay check and the checks of the request. -/
def moveByControl (mutation : ProcessControlMutation)
    (stored : JournaledProcessSnapshot) :
    Except ProcessJournalStoreError (StoredCommandOutcome × ProcessJournalMaterializedState) := do
  let transition ← controlTransition stored mutation.action
  match transition.filter (fun t => decide (t.1 ≠ stored.status)) with
  | none =>
    let result := ⟨stored, false, stored.status.isTerminal⟩
    return (.controlled result,
      { s with
        controlIdempotency :=
          s.controlIdempotency.remember (controlReplayKey mutation) result })
  | some (status, kind) =>
    return (.controlled ⟨controlledSnapshot stored mutation status s.nextCursor, true,
        stored.status.isTerminal⟩, s.storeControl mutation stored status kind)

def applyControl (mutation : ProcessControlMutation) :
    Except ProcessJournalStoreError (StoredCommandOutcome × ProcessJournalMaterializedState) :=
  match (controlReplayKey mutation).bind s.controlIdempotency.get with
  | some result => do
    rejectIf (processScopeVisible result.state.scope mutation.scope = false)
      (.unknownProcess mutation.processId)
    return (.controlled result, s)
  | none => do
    let stored ← s.process mutation.processId
    rejectIf (processScopeVisible stored.scope mutation.scope = false)
      (.unknownProcess mutation.processId)
    rejectIf (mutation.expectedCursor.any (· ≠ stored.journalCursor))
      (.staleSnapshot mutation.processId (mutation.expectedCursor.getD 0) stored.journalCursor)
    s.moveByControl mutation stored

end ProcessJournalMaterializedState

end Ironclaw.Processes
