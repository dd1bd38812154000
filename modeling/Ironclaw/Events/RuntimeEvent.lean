import Ironclaw.HostApi.Capability
import Ironclaw.Processes.Journal

/-! # Runtime events

The record of `ironclaw_event_log/src/runtime_event.rs`. -/

namespace Ironclaw

inductive RuntimeEventKind where
  | dispatchRequested | runtimeSelected | dispatchSucceeded | dispatchFailed
  | capabilityActivityRequested | capabilityActivitySucceeded | capabilityActivityFailed
  | modelStarted | modelCompleted | modelFailed | assistantReplyFinalized
  | loopCompleted | loopCancelled | loopFailed
  | processStarted | processCompleted | processFailed | processKilled
  | hookDispatched | hookDecisionEmitted | hookFailed | failureRecovered
deriving DecidableEq

structure RuntimeEventId where
  asUuid : BitVec 128
deriving DecidableEq

/-- What the runtime reports. The optional fields are present where the kind gives them a
meaning. -/
structure RuntimeEvent where
  eventId : RuntimeEventId
  timestamp : Timestamp
  kind : RuntimeEventKind
  scope : ResourceScope
  parentInvocationId : Option InvocationId
  capabilityId : CapabilityId
  provider : Option ExtensionId
  runtime : Option RuntimeKind
  processId : Option Processes.ProcessId
  outputBytes : Option ℕ
  durationMs : Option ℕ
  errorKind : Option String
  errorSummary : Option String
  hookId : Option String
  hookPoint : Option String
  hookTrustClass : Option String
  hookDecision : Option String
  hookFailureCategory : Option String
  hookFailureDisposition : Option String
  recoveryStage : Option String
  recoveryClass : Option String
  recoveryDisposition : Option String
deriving DecidableEq

end Ironclaw
