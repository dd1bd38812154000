import Ironclaw.Conversations.Store
import Ironclaw.Lib.Task

/-! # Deliveries of inbound turns

`handle_inbound_turn` of `inbound.rs`: a delivery looks for the message of its event, and submits that
one again; otherwise it resolves the route, has the message accepted, and submits it. Each of these is
one call of the conversation services, and other deliveries, resets and pairings run in between.

A message is found again by its actor and event only at the start of a delivery; when it is accepted it
is found by the source of its route. This is enough where the accepts
of one event of one actor all name one source. -/

namespace Ironclaw.Conversations

/-! ### Requests of a delivery -/

/-- What an inbound message is to the router. -/
inductive ConversationInboundClassification where
  | trustedTrigger
  | trustedOther
  | untrusted

/-- The surface that a turn comes from. -/
inductive TurnSurfaceType where
  | direct
  | channel

/-- What the turn kernel is given. -/
structure ConversationTurnSubmission where
  scope : TurnScope
  actor : TurnActor
  acceptedMessageRef : AcceptedMessageRef
  requestedRunProfile : Option String
  idempotencyKey : IdempotencyKey
  receivedAt : Timestamp
  classification : ConversationInboundClassification
  originAdapter : String
  surfaceType : Option TurnSurfaceType
  executionPolicy : Option String

/-- A call of the services, or a submission to the turn kernel. -/
inductive Request where
  | store (call : Call)
  | submit (submission : ConversationTurnSubmission)

def Request.Answer : Request → Type
  | store call => Except InboundTurnError call.Answer
  | submit _ => Except TurnSubmissionError SubmitTurnResponse

/-- A message that a channel delivers. -/
structure InboundTurnRequest where
  tenantId : TenantId
  adapterKind : AdapterKind
  adapterInstallationId : AdapterInstallationId
  externalActorRef : ExternalActorRef
  externalConversationRef : ExternalConversationRef
  externalEventId : ExternalEventId
  routeKind : ConversationRouteKind
  contentRef : String
  receivedAt : Timestamp
  requestedRunProfile : Option String

/-- What identifies the event of a delivery. -/
def InboundTurnRequest.replayKey (request : InboundTurnRequest) : AcceptedMessageReplayKey :=
  ⟨request.tenantId, request.adapterKind, request.adapterInstallationId, request.externalActorRef,
    request.externalEventId⟩

/-- Who vouches for a delivery. -/
inductive TrustedInboundKind where
  | trigger
  | other

/-- How the route of a delivery is resolved. -/
inductive BindingResolutionPolicy where
  | untrusted
  | trusted (scope : TrustedScope) (kind : TrustedInboundKind) (executionPolicy : Option String)

namespace BindingResolutionPolicy

def classification : BindingResolutionPolicy → ConversationInboundClassification
  | trusted _ .trigger _ => .trustedTrigger
  | trusted _ .other _ => .trustedOther
  | untrusted => .untrusted

def executionPolicy : BindingResolutionPolicy → Option String
  | trusted _ .trigger executionPolicy => executionPolicy
  | trusted _ .other _ => none
  | untrusted => none

/-- The scope that the resolve of a delivery is called with. -/
def scope : BindingResolutionPolicy → TrustedScope
  | trusted scope _ _ => scope
  | untrusted => ⟨none, none, none⟩

end BindingResolutionPolicy

/-- What a delivery returns. -/
structure InboundTurnResponse where
  resolution : ConversationBindingResolution
  acceptedMessage : AcceptedConversationMessage
  turnSubmission : Option SubmitTurnResponse
  replayedTurnSubmission : Bool

/-- The result of a delivery. -/
abbrev Delivered := Except InboundTurnError InboundTurnResponse

/-! ### The delivery -/

def runOriginAdapterInvalid : String := "invalid run-origin adapter: must be 1..=512 bytes"

/-- `RunOriginAdapter::new`. -/
def runOriginAdapter (adapter : String) : Except InboundTurnError String :=
  if adapter.isEmpty ∨ 512 < adapter.utf8ByteSize then
    .error (.invalidCanonicalRef runOriginAdapterInvalid)
  else .ok adapter

def shouldRotateSubmitKey (error : TurnSubmissionError) : Bool :=
  match error.retry with
  | .retryableAfterKeyRotation => true
  | .retryableWithSameKey => false
  | .permanent => false

/-- What a submission takes from the request beside the message. -/
structure Submission where
  classification : ConversationInboundClassification
  originAdapter : String
  surfaceType : Option TurnSurfaceType
  executionPolicy : Option String

section requests

variable (messageRef : AcceptedMessageRef)

def replayAccepted (lookup : AcceptedConversationMessageLookup) :
    Task Request.Answer (Except InboundTurnError (Option AcceptedConversationMessageReplay)) :=
  Task.request (Request.store (.replay lookup))

def resolveRoute (request : ResolveConversationRequest) (trusted : TrustedScope) :
    Task Request.Answer (Except InboundTurnError ConversationBindingResolution) :=
  Task.request (Request.store (.resolve request trusted))

def acceptMessage (request : AcceptConversationMessageRequest) :
    Task Request.Answer (Except InboundTurnError AcceptedConversationMessage) :=
  Task.request (Request.store (.accept request))

def turnSubmission : Task Request.Answer (Except InboundTurnError (Option SubmitTurnResponse)) :=
  Task.request (Request.store (.submission messageRef))

def turnSubmissionKey : Task Request.Answer (Except InboundTurnError IdempotencyKey) :=
  Task.request (Request.store (.submissionKey messageRef))

def rotateTurnSubmissionKey : Task Request.Answer (Except InboundTurnError Unit) :=
  Task.request (Request.store (.rotateSubmissionKey messageRef))

def markTurnSubmitted (response : SubmitTurnResponse) :
    Task Request.Answer (Except InboundTurnError Unit) :=
  Task.request (Request.store (.markSubmitted messageRef response))

def submitConversationTurn (submission : ConversationTurnSubmission) :
    Task Request.Answer (Except TurnSubmissionError SubmitTurnResponse) :=
  Task.request (Request.submit submission)

end requests

/-- The submission of an accepted message to the turn kernel. -/
def submitTurn (resolution : ConversationBindingResolution) (message : AcceptedConversationMessage)
    (submission : Submission) : Task Request.Answer Delivered := do
  match ← turnSubmissionKey message.messageRef with
  | .error e => return .error e
  | .ok idempotencyKey =>
    match ← submitConversationTurn
      { scope := resolution.turnScope
        actor := message.actor
        acceptedMessageRef := message.messageRef
        requestedRunProfile := message.requestedRunProfile
        idempotencyKey := idempotencyKey
        receivedAt := message.receivedAt
        classification := submission.classification
        originAdapter := submission.originAdapter
        surfaceType := submission.surfaceType
        executionPolicy := submission.executionPolicy } with
    | .error error =>
      if shouldRotateSubmitKey error then
        match ← rotateTurnSubmissionKey message.messageRef with
        | .error e => return .error e
        | .ok _ => return .error (.turnSubmissionFailed error)
      else return .error (.turnSubmissionFailed error)
    | .ok response =>
      match ← markTurnSubmitted message.messageRef response with
      | .error e => return .error e
      | .ok _ => return .ok ⟨resolution, message, some response, false⟩

def submitOrReplay (resolution : ConversationBindingResolution) (message : AcceptedConversationMessage)
    (submission : Submission) : Task Request.Answer Delivered := do
  let resolution := { resolution with actor := message.actor }
  if message.idempotency = .duplicate then
    match ← turnSubmission message.messageRef with
    | .error e => return .error e
    | .ok (some response) => return .ok ⟨resolution, message, some response, true⟩
    | .ok none => submitTurn resolution message submission
  else submitTurn resolution message submission

/-- The message of an event that was not accepted before. -/
def acceptNew (request : InboundTurnRequest) (policy : BindingResolutionPolicy)
    (submission : Submission) : Task Request.Answer Delivered := do
  match ← resolveRoute
    { tenantId := request.tenantId
      adapterKind := request.adapterKind
      adapterInstallationId := request.adapterInstallationId
      externalActorRef := request.externalActorRef
      externalConversationRef := request.externalConversationRef
      externalEventId := request.externalEventId
      routeKind := request.routeKind } policy.scope with
  | .error e => return .error e
  | .ok resolution =>
    match ← acceptMessage
      { tenantId := resolution.tenantId
        threadId := resolution.turnScope.threadId
        actor := resolution.actor
        adapterKind := request.adapterKind
        adapterInstallationId := request.adapterInstallationId
        externalActorRef := request.externalActorRef
        sourceBindingRef := resolution.sourceBindingRef
        replyTargetBindingRef := resolution.replyTargetBindingRef
        externalConversationRef := request.externalConversationRef
        externalEventId := request.externalEventId
        routeKind := request.routeKind
        contentRef := request.contentRef
        receivedAt := request.receivedAt
        requestedRunProfile := request.requestedRunProfile } with
    | .error e => return .error e
    | .ok message => submitOrReplay resolution message submission

/-- `handle_inbound_turn_inner`. -/
def handleInboundTurn (request : InboundTurnRequest) (policy : BindingResolutionPolicy) :
    Task Request.Answer Delivered :=
  match runOriginAdapter request.adapterKind.asStr with
  | .error e => pure (.error e)
  | .ok adapter => do
    let submission : Submission :=
      { classification := policy.classification
        originAdapter := adapter
        surfaceType := match request.routeKind with
          | .direct => some .direct
          | .shared => some .channel
        executionPolicy := policy.executionPolicy }
    match ← replayAccepted
      { tenantId := request.tenantId
        adapterKind := request.adapterKind
        adapterInstallationId := request.adapterInstallationId
        externalActorRef := request.externalActorRef
        externalConversationRef := request.externalConversationRef
        externalEventId := request.externalEventId } with
    | .error e => return .error e
    | .ok (some replay) =>
      submitOrReplay replay.resolution replay.acceptedMessage submission
    | .ok none => acceptNew request policy submission

/-! ### Deliveries among others -/

/-- An accept that succeeded: whose event, from which source, and the message it returned. -/
structure Acceptance where
  key : AcceptedMessageReplayKey
  source : SourceBindingRef
  messageRef : AcceptedMessageRef

/-- The services with what they did: who sent each recorded message, and the accepts that succeeded. -/
structure World where
  store : InMemoryState
  senders : List AcceptedMessageReplayKey
  accepts : List Acceptance

def World.init : World := ⟨.init, [], []⟩

def World.noted (world : World) : Call → List AcceptedMessageReplayKey × List Acceptance
  | .accept request =>
    match (world.store.acceptInboundMessage request).1 with
    | .error _ => ([], [])
    | .ok message =>
      (if message.idempotency = .inserted then [request.replayKey] else [],
        [⟨request.replayKey, request.sourceBindingRef, message.messageRef⟩])
  | _ => ([], [])

def World.after (world : World) (call : Call) : World where
  store := (world.store.perform call).2
  senders := world.senders ++ (world.noted call).1
  accepts := world.accepts ++ (world.noted call).2

/-- The answers to requests: calls as in `Serves`, submissions as the kernel likes. -/
inductive Answers (world : World) : (request : Request) → request.Answer → World → Prop
  | ran (call : Call) : Answers world (.store call) (world.store.perform call).1 (world.after call)
  | notSaved (call : Call) (e : InboundTurnError) :
      Answers world (.store call) (Except.error e : Except InboundTurnError call.Answer) world
  | answerLost (call : Call) (e : InboundTurnError) :
      Answers world (.store call) (Except.error e : Except InboundTurnError call.Answer)
        (world.after call)
  | submitted (submission : ConversationTurnSubmission)
      (answer : Except TurnSubmissionError SubmitTurnResponse) :
      Answers world (.submit submission) answer world

/-- The route has not changed under the event: an accept that passes its checks names the source that
the accepts of the same event of the same actor named before. -/
def Request.Steady (world : World) : Request → Prop
  | .store (.accept request) => ∀ source, world.store.checkAccept request = .ok source →
      ∀ earlier ∈ world.accepts, earlier.key = request.replayKey →
        earlier.source = request.sourceBindingRef
  | _ => True

/-- Answers to requests that find the route as it was. -/
def SteadyAnswers (world : World) (request : Request) (answer : request.Answer) (world' : World) :
    Prop :=
  Answers world request answer world' ∧ request.Steady world

/-- Who makes calls: a delivery, or anyone else with some calls. -/
inductive Party where
  | delivery (request : InboundTurnRequest) (policy : BindingResolutionPolicy)
  | caller (calls : List Call)

/-- The calls of a caller, one after another. -/
def callAll : List Call → Task Request.Answer (Option Delivered)
  | [] => pure none
  | call :: rest => Task.ask (.store call) fun _ => callAll rest

def Party.task : Party → Task Request.Answer (Option Delivered)
  | delivery request policy => do return some (← handleInboundTurn request policy)
  | caller calls => callAll calls

/-- Nobody has made a call. -/
def start {ι : Type} (parties : ι → Party) :
    Shared Request.Answer World fun _ : ι => Option Delivered :=
  ⟨.init, fun i => (parties i).task⟩

end Ironclaw.Conversations
