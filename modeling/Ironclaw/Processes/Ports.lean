import Ironclaw.Processes.Command

/-! # The ports of the journal

The public operations of `journal_store.rs` that write, and the command each of them executes.
A port reads the clock, the configured lease duration and limits, and draws a lease nonce
(`PortContext`); everything else of its command comes from the request. The operations on
spawn trees and dependencies pass their request on unchanged. -/

namespace Ironclaw.Processes

structure SubmitProcessWithCheckpointRequest where
  submission : SubmitProcessRequest
  checkpoint : Option RecordProcessCheckpointRequest

structure SuspendProcessRequest where
  processId : ProcessId
  workerId : ProcessWorkerId
  leaseToken : ProcessLeaseToken
  checkpointRef : ProcessCheckpointRef
  suspension : ProcessSuspension
  metadata : Option Json

structure ProcessStateTransitionRequest where
  lease : ProcessLeaseRequest
  metadata : Option Json

structure FailProcessRequest where
  processId : ProcessId
  workerId : ProcessWorkerId
  leaseToken : ProcessLeaseToken
  checkpointRef : Option ProcessCheckpointRef
  failure : SanitizedFailure
  recovery : ProcessFailureRecovery
  metadata : Option Json

structure ResumeProcessRequest where
  scope : ResourceScope
  processId : ProcessId
  operationId : Option ProcessOperationId
  expectedCursor : Option ProcessJournalCursor
  checkpointRef : Option ProcessCheckpointRef
  metadata : Option Json

/-- The request of `stop_process`, `request_cancel_process` and `kill_process`. -/
structure EndProcessRequest where
  scope : ResourceScope
  processId : ProcessId
  operationId : Option ProcessOperationId
  reason : Option String

/-- A call of a writing port. -/
inductive PortRequest where
  | submitProcess (request : SubmitProcessRequest)
  | submitProcessAtEdge (request : SubmitProcessAtEdgeRequest)
  | submitProcessWithCheckpoint (request : SubmitProcessWithCheckpointRequest)
  | claimNextProcesses (request : ClaimProcessesRequest)
  | heartbeatProcess (request : ProcessLeaseRequest)
  | recoverExpiredProcessLeases (request : RecoverExpiredProcessLeasesRequest)
  | suspendProcess (request : SuspendProcessRequest)
  | completeProcess (request : ProcessStateTransitionRequest)
  | cancelProcess (request : ProcessStateTransitionRequest)
  | failProcess (request : FailProcessRequest)
  | relinquishProcess (request : ProcessLeaseRequest)
  | resumeProcess (request : ResumeProcessRequest)
  | stopProcess (request : EndProcessRequest)
  | requestCancelProcess (request : EndProcessRequest)
  | killProcess (request : EndProcessRequest)
  | reserveProcessTree (request : ReserveProcessTreeRequest)
  | releaseProcessTree (request : ReleaseProcessTreeRequest)
  | pruneReleasedProcess (request : PruneReleasedProcessRequest)
  | openProcessDependency (request : OpenProcessDependencyRequest)
  | settleProcessDependency (request : SettleProcessDependencyRequest)
  | transitionProcessDependency (request : TransitionProcessDependencyRequest)
  | consumeProcessDependency (request : CloseProcessDependencyRequest)
  | abandonProcessDependency (request : CloseProcessDependencyRequest)
  | recordProcessCheckpoint (request : RecordProcessCheckpointRequest)

/-- What a port adds to a request. -/
structure PortContext where
  now : Timestamp
  leaseDurationMillis : UInt64
  leaseNonce : ProcessId
  limits : ProcessConcurrencyLimits

/-- A mutation that only moves the status (`ProcessTransitionMutation::new`). -/
def ProcessTransitionMutation.new (status : ProcessLifecycleStatus) (kind : ProcessJournalKind) :
    ProcessTransitionMutation where
  status
  kind
  suspension := none
  checkpointRef := none
  failure := none
  failureRecovery := .terminal
  metadata := none

/-- The control a stop, cancel or kill request executes. -/
def EndProcessRequest.mutation (request : EndProcessRequest) (action : ProcessControlAction) :
    ProcessControlMutation where
  scope := request.scope
  processId := request.processId
  action
  operationId := request.operationId
  expectedCursor := none
  reason := request.reason
  checkpointRef := none
  metadata := none

def PortRequest.command (context : PortContext) : PortRequest → StoredProcessCommand
  | .submitProcess request => .submit request
  | .submitProcessAtEdge request => .submitAtEdge request
  | .submitProcessWithCheckpoint request =>
    match request.checkpoint with
    | some checkpoint => .submitWithCheckpoint request.submission checkpoint
    | none => .submit request.submission
  | .claimNextProcesses request =>
    .claim request context.now context.leaseDurationMillis context.leaseNonce context.limits
  | .heartbeatProcess request => .heartbeat request context.now context.leaseDurationMillis
  | .recoverExpiredProcessLeases request => .recoverExpired request context.leaseDurationMillis
  | .suspendProcess request =>
    .leasedTransition ⟨request.processId, request.workerId, request.leaseToken⟩
      { status := .suspended
        kind := .suspended
        suspension := some request.suspension
        checkpointRef := some request.checkpointRef
        failure := none
        failureRecovery := .terminal
        metadata := request.metadata }
  | .completeProcess request =>
    .leasedTransition request.lease
      { ProcessTransitionMutation.new .completed .completed with metadata := request.metadata }
  | .cancelProcess request =>
    .leasedTransition request.lease
      { ProcessTransitionMutation.new .cancelled .cancelled with metadata := request.metadata }
  | .failProcess request =>
    .leasedTransition ⟨request.processId, request.workerId, request.leaseToken⟩
      { ProcessTransitionMutation.new .failed .failed with
        failure := some request.failure
        failureRecovery := request.recovery
        checkpointRef := request.checkpointRef
        metadata := request.metadata }
  | .relinquishProcess request =>
    .leasedTransition request (ProcessTransitionMutation.new .queued .heartbeat)
  | .resumeProcess request =>
    .control
      { scope := request.scope
        processId := request.processId
        action := .resume
        operationId := request.operationId
        expectedCursor := request.expectedCursor
        reason := none
        checkpointRef := request.checkpointRef
        metadata := request.metadata }
  | .stopProcess request => .control (request.mutation .stop)
  | .requestCancelProcess request => .control (request.mutation .cancel)
  | .killProcess request => .control (request.mutation .kill)
  | .reserveProcessTree request => .reserveTree request
  | .releaseProcessTree request => .releaseTree request
  | .pruneReleasedProcess request => .pruneTree request
  | .openProcessDependency request => .openDependency request
  | .settleProcessDependency request => .settleDependency request
  | .transitionProcessDependency request => .transitionDependency request
  | .consumeProcessDependency request => .consumeDependency request
  | .abandonProcessDependency request => .abandonDependency request
  | .recordProcessCheckpoint request => .recordCheckpoint request

/-- The commands the ports execute. -/
def StoredProcessCommand.Public (command : StoredProcessCommand) : Prop :=
  ∃ (context : PortContext) (request : PortRequest), command = request.command context

theorem StoredProcessCommand.Public.not_import {command : StoredProcessCommand}
    (h : command.Public) : command.isImport = false := by
  obtain ⟨context, request, rfl⟩ := h
  cases request with
  | submitProcessWithCheckpoint request =>
    simp only [PortRequest.command]
    split <;> rfl
  | _ => rfl

theorem StoredProcessCommand.Public.leasedTransition_status {request : ProcessLeaseRequest}
    {mutation : ProcessTransitionMutation}
    (h : (StoredProcessCommand.leasedTransition request mutation).Public) :
    mutation.status ∈ [ProcessLifecycleStatus.suspended, .completed, .cancelled, .failed, .queued] ∧
      (mutation.suspension.isSome ↔ mutation.status = .suspended) := by
  obtain ⟨context, port, h⟩ := h
  cases port with
  | submitProcessWithCheckpoint =>
    simp only [PortRequest.command] at h
    split at h <;> simp at h
  | suspendProcess | completeProcess | cancelProcess | failProcess | relinquishProcess =>
    simp only [PortRequest.command, ProcessTransitionMutation.new,
      StoredProcessCommand.leasedTransition.injEq] at h
    obtain ⟨-, rfl⟩ := h
    simp
  | _ => simp [PortRequest.command] at h

/-- A transition of a process claimed under a nonce that only moves its status. -/
def Sample.transition (n nonce : ℕ) (status : ProcessLifecycleStatus) (kind : ProcessJournalKind) :
    StoredProcessCommand :=
  .leasedTransition (Sample.lease n nonce) (.new status kind)

end Ironclaw.Processes
