import Ironclaw.HostApi.Capability

/-! # Delivery attempts

The aggregate of `ironclaw_outbound`: one row for each delivery, with the attempt of `types.rs` and
the checks of `validation.rs`. A discrete message and a published reply ride on the same kind of
row; what a publication adds to it is in `Outbound.Publication`. -/

namespace Ironclaw.Outbound

structure TurnRunId where
  asUuid : BitVec 128
deriving DecidableEq

structure OutboundDeliveryId where
  asUuid : BitVec 128
deriving DecidableEq

inductive TurnThreadOwner where
  | actorFallback
  | explicitUser (ownerUserId : UserId)
  | ownerless
deriving DecidableEq

structure TurnScope where
  tenantId : TenantId
  agentId : Option AgentId
  projectId : Option ProjectId
  threadId : ThreadId
  threadOwner : TurnThreadOwner
deriving DecidableEq

structure ReplyTargetBindingRef where
  asStr : String
deriving DecidableEq

structure ProjectionUpdateRef where
  asStr : String
deriving DecidableEq

inductive OutboundPushKind where
  | finalReply | progress | gateRequired | authPrompt | deliveryStatus | modelDelivery
deriving DecidableEq

structure OutboundPushCandidate where
  tenantId : TenantId
  agentId : Option AgentId
  projectId : Option ProjectId
  threadId : ThreadId
  turnRunId : Option TurnRunId
  target : ReplyTargetBindingRef
  kind : OutboundPushKind
  projectionRef : ProjectionUpdateRef
  requiresReplyTargetRevalidation : Bool
deriving DecidableEq

inductive OutboundDeliveryStatus where
  | prepared | sending | pending | noTarget | delivered | failed | unknown | deadLettered
deriving DecidableEq

inductive DeliveryFailureKind where
  | authorizationRevoked | transientValidatorError | transportUnavailable | rateLimited | rejected
  | unknown
deriving DecidableEq

structure OutboundDeliveryAttempt where
  deliveryId : OutboundDeliveryId
  scope : TurnScope
  candidate : OutboundPushCandidate
  status : OutboundDeliveryStatus
  attemptedAt : Timestamp
  failureKind : Option DeliveryFailureKind
deriving DecidableEq

inductive OutboundError where
  | backend
  | serialization
  | invalidRequest (reason : String)
  | subscriptionScopeMismatch
  | accessDenied
  | deliveryNotFound
  | casConflict
  | staleReplyPublisher (expectedFence actualFence : ℕ)
  | replyPublicationSettled
  | replyPublicationRevisionRegressed (published requested : ℕ)
  | replyPublicationNotFound
  | replyPublicationTargetMismatch
  | replyPublicationNotTerminal
  | replyPublicationLeaseRequired

def validateDeliveryScopeCandidate (scope : TurnScope) (candidate : OutboundPushCandidate) :
    Except OutboundError Unit :=
  rejectIf (scope.tenantId ≠ candidate.tenantId ∨ scope.agentId ≠ candidate.agentId ∨
      scope.projectId ≠ candidate.projectId ∨ scope.threadId ≠ candidate.threadId)
    (.invalidRequest "delivery candidate scope does not match request scope")

def validateDeliveryStatus (status : OutboundDeliveryStatus)
    (failureKind : Option DeliveryFailureKind) : Except OutboundError Unit :=
  match status, failureKind with
  | .failed, some _ => .ok ()
  | .deadLettered, some _ => .ok ()
  | .failed, none => .error (.invalidRequest "failed delivery statuses require failure kind")
  | .deadLettered, none => .error (.invalidRequest "failed delivery statuses require failure kind")
  | _, none => .ok ()
  | _, some _ =>
    .error (.invalidRequest "non-failed delivery statuses must not include failure kind")

def validateDeliveryAttempt (attempt : OutboundDeliveryAttempt) : Except OutboundError Unit := do
  validateDeliveryScopeCandidate attempt.scope attempt.candidate
  validateDeliveryStatus attempt.status attempt.failureKind

/-- `attempted_at` records the first reservation and is no part of the identity. -/
def validateDeliveryIdentity (existing incoming : OutboundDeliveryAttempt) :
    Except OutboundError Unit :=
  rejectIf (existing.deliveryId ≠ incoming.deliveryId ∨ existing.scope ≠ incoming.scope ∨
    existing.candidate ≠ incoming.candidate) .backend

end Ironclaw.Outbound
