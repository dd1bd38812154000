import Ironclaw.HostApi.Scope
import Ironclaw.Lib.Dict

/-! # State of the conversation services

The keys, records and requests of `memory.rs`, `types.rs` and `ids.rs`, and the state that they are
kept in. Each map of the source is a `Dict`.

A reference that the services mint carries a UUID.  Here the UUIDs are numbers and drawn in order: the
state counts them in `nextUuid`, so that no number is drawn twice. -/

namespace Ironclaw.Conversations

/-! ### Names of the outside -/

/-- The kind of a channel adapter. -/
structure AdapterKind where
  asStr : String
deriving DecidableEq

/-- One installation of an adapter. -/
structure AdapterInstallationId where
  asStr : String
deriving DecidableEq

/-- The channel's own id of an event. -/
structure ExternalEventId where
  asStr : String
deriving DecidableEq

/-- Marks one pairing of an actor. -/
structure ExternalActorBindingEpoch where
  asStr : String
deriving DecidableEq

/-- An actor of a channel. The display name is not part of its identity and is left out. -/
structure ExternalActorRef where
  kind : String
  id : String
deriving DecidableEq

/-- A conversation of a channel, as an event names it. -/
structure ExternalConversationRef where
  spaceId : Option String
  conversationId : String
  topicId : Option String
  replyTargetMessageId : Option String

def ExternalConversationRef.withoutReplyTarget (reference : ExternalConversationRef) :
    ExternalConversationRef :=
  { reference with replyTargetMessageId := none }

/-- The route of a conversation: what does not vary from event to event. -/
structure ExternalConversationIdentity where
  spaceId : Option String
  conversationId : String
  topicId : Option String
deriving DecidableEq

def ExternalConversationIdentity.fromRef (reference : ExternalConversationRef) :
    ExternalConversationIdentity where
  spaceId := reference.spaceId
  conversationId := reference.conversationId
  topicId := reference.topicId

/-- A conversation with one actor, or one that is shared. -/
inductive ConversationRouteKind where
  | direct
  | shared
deriving DecidableEq

/-! ### Minted references -/

/-- A canonical thread. -/
structure ThreadId where
  uuid : ℕ
deriving DecidableEq

/-- The route that a message came in on. -/
structure SourceBindingRef where
  uuid : ℕ
deriving DecidableEq

/-- Where a reply is sent. -/
structure ReplyTargetBindingRef where
  uuid : ℕ
deriving DecidableEq

/-- An accepted message. -/
structure AcceptedMessageRef where
  uuid : ℕ
deriving DecidableEq

/-- The key of a turn submission. -/
structure IdempotencyKey where
  asStr : String

def ThreadId.asStr (reference : ThreadId) : String := reference.uuid.repr

def SourceBindingRef.asStr (reference : SourceBindingRef) : String := "source:" ++ reference.uuid.repr

def ReplyTargetBindingRef.asStr (reference : ReplyTargetBindingRef) : String :=
  "reply:" ++ reference.uuid.repr

def AcceptedMessageRef.asStr (reference : AcceptedMessageRef) : String :=
  "message:" ++ reference.uuid.repr

/-! ### Keys -/

/-- What pairings are stored under. -/
structure ActorKey where
  tenantId : TenantId
  adapterKind : AdapterKind
  adapterInstallationId : AdapterInstallationId
  externalActorRef : ExternalActorRef
deriving DecidableEq

/-- What the route of a conversation is stored under. -/
structure BindingKey where
  tenantId : TenantId
  adapterKind : AdapterKind
  adapterInstallationId : AdapterInstallationId
  externalConversationIdentity : ExternalConversationIdentity
deriving DecidableEq

/-- What is known of an event is stored under this. -/
structure ExternalEventRouteKey where
  tenantId : TenantId
  adapterKind : AdapterKind
  adapterInstallationId : AdapterInstallationId
  externalEventId : ExternalEventId
deriving DecidableEq

/-- A thread of a tenant. -/
structure ThreadKey where
  tenantId : TenantId
  threadId : ThreadId
deriving DecidableEq

/-- An event of an actor, whatever its route. -/
structure AcceptedMessageReplayKey where
  tenantId : TenantId
  adapterKind : AdapterKind
  adapterInstallationId : AdapterInstallationId
  externalActorRef : ExternalActorRef
  externalEventId : ExternalEventId
deriving DecidableEq

/-- An event on a route. -/
structure MessageIdempotencyKey where
  tenantId : TenantId
  sourceBindingRef : SourceBindingRef
  externalEventId : ExternalEventId
deriving DecidableEq

/-! ### Records -/

/-- A thread, with the users who take part in it. -/
structure ThreadRecord where
  agentId : Option AgentId
  projectId : Option ProjectId
  participants : Finset UserId

/-- Who may reply on a route. -/
structure ReplyRouteAccess where
  ownerActorKey : ActorKey
  shared : Bool

namespace ReplyRouteAccess

def new (ownerActorKey : ActorKey) (routeKind : ConversationRouteKind) : ReplyRouteAccess where
  ownerActorKey := ownerActorKey
  shared := routeKind = .shared

def allows (access : ReplyRouteAccess) (actorKey : ActorKey) (routeKind : ConversationRouteKind) :
    Bool :=
  access.ownerActorKey = actorKey || (access.shared && (routeKind = .shared))

def isDirectOwner (access : ReplyRouteAccess) (actorKey : ActorKey) : Bool :=
  access.ownerActorKey = actorKey && !access.shared

end ReplyRouteAccess

/-- What a route is to be bound to. -/
structure BindingTarget where
  threadId : ThreadId
  agentId : Option AgentId
  projectId : Option ProjectId
  ownerUserId : Option UserId

/-- A route that is bound to a thread. -/
structure BindingRecord where
  tenantId : TenantId
  adapterKind : AdapterKind
  adapterInstallationId : AdapterInstallationId
  externalConversationRef : ExternalConversationRef
  externalConversationIdentity : ExternalConversationIdentity
  threadId : ThreadId
  agentId : Option AgentId
  projectId : Option ProjectId
  ownerUserId : Option UserId
  routeAccess : ReplyRouteAccess
  sourceBindingRef : SourceBindingRef
  replyTargetBindingRef : ReplyTargetBindingRef

/-- A reply target that was handed out. -/
structure ReplyTargetRecord where
  tenantId : TenantId
  adapterKind : AdapterKind
  adapterInstallationId : AdapterInstallationId
  externalConversationRef : ExternalConversationRef
  threadId : ThreadId
  sourceBindingRef : SourceBindingRef
  replyTargetBindingRef : ReplyTargetBindingRef
  routeAccess : ReplyRouteAccess

def ReplyTargetRecord.fromBinding (binding : BindingRecord)
    (externalConversationRef : ExternalConversationRef) : ReplyTargetRecord where
  tenantId := binding.tenantId
  adapterKind := binding.adapterKind
  adapterInstallationId := binding.adapterInstallationId
  externalConversationRef := externalConversationRef
  threadId := binding.threadId
  sourceBindingRef := binding.sourceBindingRef
  replyTargetBindingRef := binding.replyTargetBindingRef
  routeAccess := binding.routeAccess

def ReplyTargetRecord.withReplyTarget (record : ReplyTargetRecord)
    (replyTargetBindingRef : ReplyTargetBindingRef)
    (externalConversationRef : ExternalConversationRef) : ReplyTargetRecord :=
  { record with
    replyTargetBindingRef := replyTargetBindingRef
    externalConversationRef := externalConversationRef }

/-- The thread that an event of a shared conversation is on. -/
structure SharedEventBinding where
  threadId : ThreadId
  sourceBindingRef : SourceBindingRef
  replyTargetBindingRef : ReplyTargetBindingRef

/-- To whom the thread of a turn belongs. -/
inductive TurnThreadOwner where
  | actorFallback
  | explicitUser (ownerUserId : UserId)
  | ownerless

/-- The scope that a turn runs in. -/
structure TurnScope where
  tenantId : TenantId
  agentId : Option AgentId
  projectId : Option ProjectId
  threadId : ThreadId
  threadOwner : TurnThreadOwner

/-- The user for whom a turn runs. -/
structure TurnActor where
  userId : UserId

/-- The access of a resolution is always `Allowed` and is left out. -/
structure ConversationBindingResolution where
  tenantId : TenantId
  actor : TurnActor
  bindingEpoch : Option ExternalActorBindingEpoch
  turnScope : TurnScope
  sourceBindingRef : SourceBindingRef
  replyTargetBindingRef : ReplyTargetBindingRef

/-- What a reset returns, and a replay of it again. -/
structure ResetConversationOutcome where
  previousThreadId : ThreadId
  resolution : ConversationBindingResolution

/-- Whether an accept has recorded its message. -/
inductive MessageIdempotencyStatus where
  | inserted
  | duplicate
deriving DecidableEq

/-- What an accept returns. -/
structure AcceptedConversationMessage where
  tenantId : TenantId
  threadId : ThreadId
  actor : TurnActor
  messageRef : AcceptedMessageRef
  sourceBindingRef : SourceBindingRef
  replyTargetBindingRef : ReplyTargetBindingRef
  receivedAt : Timestamp
  requestedRunProfile : Option String
  idempotency : MessageIdempotencyStatus

/-- What a replay returns: the message, with the resolution of its time. -/
structure AcceptedConversationMessageReplay where
  resolution : ConversationBindingResolution
  acceptedMessage : AcceptedConversationMessage

/-- A replay with the route it was stored for. -/
structure StoredAcceptedMessageReplay where
  externalConversationIdentity : ExternalConversationIdentity
  replay : AcceptedConversationMessageReplay

/-- A message of the log. -/
structure ConversationMessageRecord where
  accepted : AcceptedConversationMessage
  actor : TurnActor
  externalEventId : ExternalEventId
  contentRef : String
  receivedAt : Timestamp

/-- What the turn kernel answers to a submission: the run that was accepted. -/
structure SubmitTurnResponse where
  runId : String

/-! ### Errors -/

/-- How a submission that failed may be tried again. -/
inductive TurnSubmissionRetry where
  | retryableAfterKeyRotation
  | retryableWithSameKey
  | permanent

/-- Why a submission failed. -/
structure TurnSubmissionError where
  retry : TurnSubmissionRetry
  detail : String

/-- The errors of the service. -/
inductive InboundTurnError where
  | bindingRequired (adapterKind externalActorId : String)
  | accessDenied (actorId threadId : String)
  | bindingConflict (threadId : String)
  | threadNotFound (threadId : String)
  | invalidCanonicalRef (reason : String)
  | turnSubmissionFailed (error : TurnSubmissionError)
  | durableState (reason : String)

/-! ### The state -/

/-- The maps of the service, with the counter that new references are drawn from. -/
structure InMemoryState where
  pairings : Dict ActorKey UserId
  pairingEpochs : Dict ActorKey ExternalActorBindingEpoch
  bindings : Dict BindingKey BindingRecord
  sourceBindings : Dict SourceBindingRef BindingRecord
  replyTargets : Dict ReplyTargetBindingRef ReplyTargetRecord
  threads : Dict ThreadKey ThreadRecord
  externalEventRoutes : Dict ExternalEventRouteKey ExternalConversationIdentity
  eventSharedBindings : Dict ExternalEventRouteKey SharedEventBinding
  bindingResets : Dict ExternalEventRouteKey ResetConversationOutcome
  messageIdempotency : Dict MessageIdempotencyKey AcceptedConversationMessage
  messageReplays : Dict AcceptedMessageReplayKey StoredAcceptedMessageReplay
  submissionKeys : Dict AcceptedMessageRef IdempotencyKey
  submittedMessageResponses : Dict AcceptedMessageRef SubmitTurnResponse
  messages : List ConversationMessageRecord
  nextUuid : ℕ

/-- `InMemoryState::default`. -/
def InMemoryState.init : InMemoryState :=
  ⟨.empty, .empty, .empty, .empty, .empty, .empty, .empty, .empty, .empty, .empty, .empty, .empty,
    .empty, [], 0⟩

/-! ### Requests -/

/-- An event of an actor, whose route is asked for. -/
structure ResolveConversationRequest where
  tenantId : TenantId
  adapterKind : AdapterKind
  adapterInstallationId : AdapterInstallationId
  externalActorRef : ExternalActorRef
  externalConversationRef : ExternalConversationRef
  externalEventId : ExternalEventId
  routeKind : ConversationRouteKind

namespace ResolveConversationRequest

variable (request : ResolveConversationRequest)

def actorKey : ActorKey :=
  ⟨request.tenantId, request.adapterKind, request.adapterInstallationId, request.externalActorRef⟩

def identity : ExternalConversationIdentity := .fromRef request.externalConversationRef

/-- `BindingKey::for_route`. -/
def bindingKey : BindingKey :=
  ⟨request.tenantId, request.adapterKind, request.adapterInstallationId, request.identity⟩

def eventKey : ExternalEventRouteKey :=
  ⟨request.tenantId, request.adapterKind, request.adapterInstallationId, request.externalEventId⟩

end ResolveConversationRequest

/-- The scope that a host-trusted caller of a resolve supplies. -/
structure TrustedScope where
  agentId : Option AgentId
  projectId : Option ProjectId
  ownerUserId : Option UserId

/-- A route that is to get a new thread. -/
structure ResetConversationRequest where
  resolveRequest : ResolveConversationRequest
  expectedThreadId : ThreadId

/-- A route that is to be bound to a thread that exists. -/
structure LinkConversationRequest where
  tenantId : TenantId
  adapterKind : AdapterKind
  adapterInstallationId : AdapterInstallationId
  externalActorRef : ExternalActorRef
  externalConversationRef : ExternalConversationRef
  routeKind : ConversationRouteKind
  targetThreadId : ThreadId

def LinkConversationRequest.actorKey (request : LinkConversationRequest) : ActorKey :=
  ⟨request.tenantId, request.adapterKind, request.adapterInstallationId, request.externalActorRef⟩

def LinkConversationRequest.bindingKey (request : LinkConversationRequest) : BindingKey :=
  ⟨request.tenantId, request.adapterKind, request.adapterInstallationId,
    .fromRef request.externalConversationRef⟩

/-- What a link returns. -/
structure LinkedConversationBinding where
  threadId : ThreadId
  sourceBindingRef : SourceBindingRef
  replyTargetBindingRef : ReplyTargetBindingRef

/-- An actor who asks for a reply target. -/
structure ValidateReplyTargetRequest where
  tenantId : TenantId
  actorUserId : UserId
  adapterKind : AdapterKind
  adapterInstallationId : AdapterInstallationId
  externalActorRef : ExternalActorRef
  currentThreadId : ThreadId
  replyTargetBindingRef : ReplyTargetBindingRef

/-- A reply target that may be used. -/
structure ReplyTargetBinding where
  tenantId : TenantId
  actorUserId : UserId
  threadId : ThreadId
  adapterKind : AdapterKind
  adapterInstallationId : AdapterInstallationId
  externalConversationRef : ExternalConversationRef

/-- On whose behalf a stored reply target is resolved. -/
inductive StoredReplyTargetAccess where
  | ordinaryReply
  | exactOriginActor

/-- A reply target that was stored with a run. -/
structure ResolveStoredReplyTargetRequest where
  tenantId : TenantId
  actorUserId : UserId
  currentThreadId : ThreadId
  replyTargetBindingRef : ReplyTargetBindingRef
  access : StoredReplyTargetAccess

/-- What a stored reply target leads to. -/
structure StoredReplyTargetBinding where
  tenantId : TenantId
  actorUserId : UserId
  threadId : ThreadId
  adapterKind : AdapterKind
  adapterInstallationId : AdapterInstallationId
  externalConversationRef : ExternalConversationRef
  routeKind : ConversationRouteKind

/-- A message on a route that was resolved. -/
structure AcceptConversationMessageRequest where
  tenantId : TenantId
  threadId : ThreadId
  actor : TurnActor
  adapterKind : AdapterKind
  adapterInstallationId : AdapterInstallationId
  externalActorRef : ExternalActorRef
  sourceBindingRef : SourceBindingRef
  replyTargetBindingRef : ReplyTargetBindingRef
  externalConversationRef : ExternalConversationRef
  externalEventId : ExternalEventId
  routeKind : ConversationRouteKind
  contentRef : String
  receivedAt : Timestamp
  requestedRunProfile : Option String

namespace AcceptConversationMessageRequest

variable (request : AcceptConversationMessageRequest)

def actorKey : ActorKey :=
  ⟨request.tenantId, request.adapterKind, request.adapterInstallationId, request.externalActorRef⟩

def replayKey : AcceptedMessageReplayKey :=
  ⟨request.tenantId, request.adapterKind, request.adapterInstallationId, request.externalActorRef,
    request.externalEventId⟩

def idempotencyKey : MessageIdempotencyKey :=
  ⟨request.tenantId, request.sourceBindingRef, request.externalEventId⟩

end AcceptConversationMessageRequest

/-- An event whose message is looked for. -/
structure AcceptedConversationMessageLookup where
  tenantId : TenantId
  adapterKind : AdapterKind
  adapterInstallationId : AdapterInstallationId
  externalActorRef : ExternalActorRef
  externalConversationRef : ExternalConversationRef
  externalEventId : ExternalEventId

def AcceptedConversationMessageLookup.replayKey (lookup : AcceptedConversationMessageLookup) :
    AcceptedMessageReplayKey :=
  ⟨lookup.tenantId, lookup.adapterKind, lookup.adapterInstallationId, lookup.externalActorRef,
    lookup.externalEventId⟩

/-- The pairing that is to be removed, if it is still there. -/
structure ExpectedExternalActorOwner where
  userId : UserId
  bindingEpoch : Option ExternalActorBindingEpoch

/-- Whether the pairing was removed. -/
inductive ConditionalUnpairOutcome where
  | unpaired
  | alreadyAbsent
  | ownerChanged

end Ironclaw.Conversations
