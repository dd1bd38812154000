import Ironclaw.LoopHost.InputQueue

/-! # Records of a thread

The records and requests of `contract.rs` that the thread services work on: transcript messages,
summary artifacts over a range of them, and the errors of both. Sequences are natural numbers. -/

namespace Ironclaw.Threads

open LoopHost (ThreadScope ThreadMessageId)

structure SummaryArtifactId where
  asUuid : BitVec 128
deriving DecidableEq

/-- A reference to an attachment: its identity within the message, and the text taken out of
it. -/
structure AttachmentRef where
  id : String
  extractedText : Option String
  storageKey : Option String
deriving DecidableEq

structure MessageContent where
  text : String
  attachments : List AttachmentRef

inductive MessageKind where
  | user | assistant | system | summary | checkpointReference | toolResultReference
  | capabilityDisplayPreview
deriving DecidableEq

inductive MessageStatus where
  | accepted | queued | submitted | rejectedBusy | deferredBusy | draft | finalized | interrupted
  | superseded | redacted | deleted
deriving DecidableEq

/-- The provider's side of a tool call, kept to reconstruct the turn. -/
structure ProviderToolCallReferenceEnvelope where
  providerCallId : String
  payload : String
deriving DecidableEq

structure ThreadMessageRecord where
  messageId : ThreadMessageId
  threadId : ThreadId
  sequence : ℕ
  kind : MessageKind
  status : MessageStatus
  actorId : Option String
  sourceBindingId : Option String
  replyTargetBindingId : Option String
  turnId : Option String
  turnRunId : Option String
  toolResultRef : Option String
  toolResultProviderCall : Option ProviderToolCallReferenceEnvelope
  content : Option String
  attachments : List AttachmentRef
  redactionRef : Option String

inductive SummaryKind where
  | compaction
deriving DecidableEq

inductive SummaryModelContextPolicy where
  | replaceRangeWhenSelected
deriving DecidableEq

inductive SummaryContextMode where
  | cumulativeBarrier
deriving DecidableEq

/-- A summary of the messages whose sequences are in a range. -/
structure SummaryArtifact where
  summaryId : SummaryArtifactId
  threadId : ThreadId
  startSequence : ℕ
  endSequence : ℕ
  summaryKind : SummaryKind
  content : String
  modelContextPolicy : Option SummaryModelContextPolicy
  contextMode : Option SummaryContextMode
deriving DecidableEq

structure CreateSummaryArtifactRequest where
  scope : ThreadScope
  threadId : ThreadId
  startSequence : ℕ
  endSequence : ℕ
  summaryKind : SummaryKind
  content : MessageContent
  modelContextPolicy : Option SummaryModelContextPolicy
  contextMode : Option SummaryContextMode

inductive SessionThreadError where
  | unknownThread (threadId : ThreadId)
  | unknownMessage (messageId : ThreadMessageId)
  | threadScopeMismatch (threadId : ThreadId)
  | messageNotDraft (messageId : ThreadMessageId)
  | invalidMessageTransition (messageId : ThreadMessageId) (source : MessageStatus)
      (attempted : String)
  | idempotentReplayThreadMismatch (storedThreadId requestedThreadId : ThreadId)
  | idempotentReplayActorMismatch (storedActorId requestedActorId : String)
  | invalidSummaryRange (startSequence endSequence : ℕ)
  | overlappingSummaryRange (startSequence endSequence : ℕ)
  | invalidAttachment (reason : String)
  | invalidSubagentResult (reason : String)
  | invalidPreparedContext (reason : String)
  | preparedContextKeyMismatch (threadId : ThreadId)
  | structuredFinalizationPublishMismatch (messageId : ThreadMessageId) (reason : String)
  | serialization (reason : String)
  | backend (reason : String)

end Ironclaw.Threads
