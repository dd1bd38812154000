import Mathlib.Data.Nat.Notation

/-! # Errors of the loop's host

The kinds under which a host reports a failed model call or a failed capability invocation, and the
two readings the executor makes of them: the failure kind a model sees, and whether a capability
error is a fault of the host that ends the turn. -/

namespace Ironclaw.AgentLoop

inductive AgentLoopHostErrorKind where
  | unauthorized | credentialUnavailable | scopeMismatch | staleSurface | invalidInvocation | invalid
  | invalidOutput | contentFiltered | policyDenied | budgetExceeded | spendBudgetExceeded
  | contextOverflow | outputTruncated | budgetApprovalRequired | budgetAccountingFailed | rateLimited
  | unavailable | cancelled | checkpointRejected | transcriptWriteFailed | internal
deriving DecidableEq

inductive FailureKind where
  | methodMissing | undeclaredCapability | unknownCapability | unknownProvider | inputEncode
  | operationFailed | outputTooLarge | resource | policyDenied | networkDenied | filesystemDenied
  | secretDenied | authorization | staleSurface | gateDeclined | network | transient | unavailable
  | backend | internal | guest | exitFailure | outputDecode | invalidResult | memory | manifest
  | extensionRuntimeMismatch | runtimeMismatch | missingRuntimeBackend | unsupportedRunner
  | missingRuntime | client | executor | unclassified | authRequired | cancelled
deriving DecidableEq

def AgentLoopHostErrorKind.failureKind : AgentLoopHostErrorKind → FailureKind
  | unauthorized | scopeMismatch => .authorization
  | credentialUnavailable | budgetApprovalRequired => .authRequired
  | staleSurface => .staleSurface
  | invalidInvocation | invalid => .inputEncode
  | invalidOutput => .outputDecode
  | contentFiltered | checkpointRejected => .operationFailed
  | policyDenied => .policyDenied
  | budgetExceeded | spendBudgetExceeded | contextOverflow => .resource
  | outputTruncated => .outputTooLarge
  | budgetAccountingFailed => .unclassified
  | rateLimited => .transient
  | unavailable => .unavailable
  | cancelled => .cancelled
  | transcriptWriteFailed | internal => .internal

structure AgentLoopHostError where
  kind : AgentLoopHostErrorKind
  safeSummary : String
  gateRef : Option String
  retryAfterMs : Option ℕ
  nextFallbackIndex : Option ℕ
  detail : Option String

def AgentLoopHostError.new (kind : AgentLoopHostErrorKind) (safeSummary : String) :
    AgentLoopHostError :=
  ⟨kind, safeSummary, none, none, none, none⟩

/-- A capability error that is a fault of the host, not an answer a model can route around. -/
def capabilityPortErrorIsTerminal : AgentLoopHostErrorKind → Bool
  | .cancelled | .rateLimited | .unavailable | .internal | .budgetExceeded | .spendBudgetExceeded
  | .contextOverflow | .outputTruncated | .budgetApprovalRequired | .budgetAccountingFailed
  | .checkpointRejected | .transcriptWriteFailed => true
  | .unauthorized | .credentialUnavailable | .scopeMismatch | .staleSurface | .invalidInvocation
  | .invalid | .invalidOutput | .contentFiltered | .policyDenied => false

end Ironclaw.AgentLoop
