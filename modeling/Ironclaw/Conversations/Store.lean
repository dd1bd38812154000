import Ironclaw.Conversations.State
import Ironclaw.Lib.Reject

/-! # Operations of the conversation services

The calls of `InMemoryConversationServices` (`memory.rs`). Each call holds the mutation lock and reads
and writes one state; a call that may fail after it has written returns the state it leaves beside its
answer. With a state repository a call that fails leaves what is stored, and saving may fail as well:
that is part of `Serves`, after the calls. -/

namespace Ironclaw.Conversations

/-! ### Bindings -/

namespace BindingRecord

/-- `BindingRecord::new`, with the two UUIDs from `uuid` on. -/
def new (uuid : ℕ) (tenantId : TenantId) (adapterKind : AdapterKind)
    (adapterInstallationId : AdapterInstallationId) (externalConversationRef : ExternalConversationRef)
    (routeAccess : ReplyRouteAccess) (target : BindingTarget) : BindingRecord where
  tenantId := tenantId
  adapterKind := adapterKind
  adapterInstallationId := adapterInstallationId
  externalConversationRef := externalConversationRef.withoutReplyTarget
  externalConversationIdentity := .fromRef externalConversationRef
  threadId := target.threadId
  agentId := target.agentId
  projectId := target.projectId
  ownerUserId := target.ownerUserId
  routeAccess := routeAccess
  sourceBindingRef := ⟨uuid⟩
  replyTargetBindingRef := ⟨uuid + 1⟩

def resolution (binding : BindingRecord) (actorUserId : UserId)
    (bindingEpoch : Option ExternalActorBindingEpoch) (tenantId : TenantId) :
    ConversationBindingResolution where
  tenantId := tenantId
  actor := ⟨actorUserId⟩
  bindingEpoch := bindingEpoch
  turnScope :=
    { tenantId := tenantId
      agentId := binding.agentId
      projectId := binding.projectId
      threadId := binding.threadId
      threadOwner :=
        match binding.ownerUserId with
        | some ownerUserId => .explicitUser ownerUserId
        | none => .actorFallback }
  sourceBindingRef := binding.sourceBindingRef
  replyTargetBindingRef := binding.replyTargetBindingRef

/-- The resolution of a shared route, on the thread of one event. -/
def resolutionForThread (binding : BindingRecord) (actorUserId : UserId)
    (bindingEpoch : Option ExternalActorBindingEpoch) (tenantId : TenantId)
    (event : SharedEventBinding) : ConversationBindingResolution where
  tenantId := tenantId
  actor := ⟨actorUserId⟩
  bindingEpoch := bindingEpoch
  turnScope :=
    { tenantId := tenantId
      agentId := binding.agentId
      projectId := binding.projectId
      threadId := event.threadId
      threadOwner := .explicitUser actorUserId }
  sourceBindingRef := event.sourceBindingRef
  replyTargetBindingRef := event.replyTargetBindingRef

end BindingRecord

namespace InMemoryState

variable (state : InMemoryState)

/-! ### Checks -/

variable (actorKey : ActorKey)

def resolveActor : Except InboundTurnError UserId :=
  okOr (state.pairings.lookup actorKey)
    (.bindingRequired actorKey.adapterKind.asStr actorKey.externalActorRef.id)

variable (eventKey : ExternalEventRouteKey)

/-- The event has not been seen on another route. -/
def ensureExternalEventRoute (identity : ExternalConversationIdentity)
    (actorUserId : UserId) : Except InboundTurnError Unit :=
  rejectIf ((state.externalEventRoutes.lookup eventKey).any (· ≠ identity))
    (.accessDenied actorUserId.asStr "external_event_route_mismatch")

def recordExternalEventRoute (identity : ExternalConversationIdentity) (actorUserId : UserId) :
    Except InboundTurnError InMemoryState := do
  state.ensureExternalEventRoute eventKey identity actorUserId
  return { state with externalEventRoutes := state.externalEventRoutes.insert eventKey identity }

def threadForParticipant (tenantId : TenantId) (actorUserId : UserId) (threadId : ThreadId) :
    Except InboundTurnError ThreadRecord := do
  let thread ← okOr (state.threads.lookup ⟨tenantId, threadId⟩) (.threadNotFound threadId.asStr)
  rejectIf (actorUserId ∉ thread.participants) (.accessDenied actorUserId.asStr threadId.asStr)
  return thread

def ensureTrustedScopeNotReinterpreted (binding : BindingRecord) (trusted : TrustedScope) :
    Except InboundTurnError Unit :=
  rejectIf ((binding.agentId.isNone ∧ trusted.agentId.isSome) ∨
      (binding.projectId.isNone ∧ trusted.projectId.isSome))
    (.bindingConflict binding.threadId.asStr)

def ensureBindingRefsMatch (request : AcceptConversationMessageRequest) :
    Except InboundTurnError Unit := do
  let source ← okOr (state.sourceBindings.lookup request.sourceBindingRef)
    (.threadNotFound request.sourceBindingRef.asStr)
  let reply ← okOr (state.replyTargets.lookup request.replyTargetBindingRef)
    (.threadNotFound request.replyTargetBindingRef.asStr)
  rejectIf (source.tenantId ≠ request.tenantId ∨ reply.tenantId ≠ request.tenantId ∨
      source.threadId ≠ request.threadId ∨ reply.threadId ≠ request.threadId ∨
      source.adapterKind ≠ request.adapterKind ∨ reply.adapterKind ≠ request.adapterKind ∨
      source.adapterInstallationId ≠ request.adapterInstallationId ∨
      reply.adapterInstallationId ≠ request.adapterInstallationId ∨
      source.sourceBindingRef ≠ request.sourceBindingRef ∨
      source.replyTargetBindingRef ≠ request.replyTargetBindingRef ∨
      reply.replyTargetBindingRef ≠ request.replyTargetBindingRef ∨
      source.sourceBindingRef ≠ reply.sourceBindingRef ∨
      ¬ reply.routeAccess.allows request.actorKey request.routeKind)
    (.accessDenied request.actor.userId.asStr request.threadId.asStr)

/-! ### Writes -/

def storeBinding (bindingKey : BindingKey) (binding : BindingRecord) : InMemoryState :=
  { state with
    sourceBindings := state.sourceBindings.insert binding.sourceBindingRef binding
    replyTargets := state.replyTargets.insert binding.replyTargetBindingRef
      (.fromBinding binding binding.externalConversationRef)
    bindings := state.bindings.insert bindingKey binding }

/-- The bindings of direct routes of an actor. -/
def directBindings : List BindingRecord :=
  (state.bindings.pairs.map Prod.snd).filter (·.routeAccess.isDirectOwner actorKey)

def revokeDirectBindingsForActor : InMemoryState :=
  let removed := state.directBindings actorKey
  let removedConversations := removed.map (·.externalConversationIdentity)
  { state with
    bindings := state.bindings.retain fun _ binding => !binding.routeAccess.isDirectOwner actorKey
    sourceBindings := (state.sourceBindings.eraseAll (removed.map (·.sourceBindingRef))).retain
      fun _ binding => !binding.routeAccess.isDirectOwner actorKey
    replyTargets := (state.replyTargets.eraseAll (removed.map (·.replyTargetBindingRef))).retain
      fun _ target => !target.routeAccess.isDirectOwner actorKey
    externalEventRoutes := state.externalEventRoutes.retain fun routeKey identity =>
      routeKey.tenantId ≠ actorKey.tenantId || routeKey.adapterKind ≠ actorKey.adapterKind ||
        routeKey.adapterInstallationId ≠ actorKey.adapterInstallationId ||
        identity ∉ removedConversations }

/-- The binding of one event of a shared route: that of an earlier delivery, or a new one on a new
thread. -/
def sharedEventBinding (actorKey : ActorKey) (actorUserId : UserId)
    (externalConversationRef : ExternalConversationRef) (agentId : Option AgentId)
    (projectId : Option ProjectId) : SharedEventBinding × InMemoryState :=
  match state.eventSharedBindings.lookup eventKey with
  | some existing => (existing, state)
  | none =>
    let threadId : ThreadId := ⟨state.nextUuid⟩
    let binding := BindingRecord.new (state.nextUuid + 1) actorKey.tenantId actorKey.adapterKind
      actorKey.adapterInstallationId externalConversationRef (.new actorKey .shared)
      ⟨threadId, agentId, projectId, none⟩
    let event : SharedEventBinding :=
      ⟨threadId, binding.sourceBindingRef, binding.replyTargetBindingRef⟩
    (event,
      { state with
        threads := state.threads.insert ⟨actorKey.tenantId, threadId⟩
          ⟨agentId, projectId, {actorUserId}⟩
        replyTargets := state.replyTargets.insert binding.replyTargetBindingRef
          (.fromBinding binding binding.externalConversationRef)
        sourceBindings := state.sourceBindings.insert binding.sourceBindingRef binding
        eventSharedBindings := state.eventSharedBindings.insert eventKey event
        nextUuid := state.nextUuid + 3 })

/-! ### Pairing -/

/-- `try_pair_external_actor_inner`. -/
def pairExternalActor (userId : UserId)
    (bindingEpoch : Option ExternalActorBindingEpoch) : InMemoryState :=
  if state.pairings.lookup actorKey = some userId ∧ state.pairingEpochs.lookup actorKey = bindingEpoch
  then state
  else
    let revoked :=
      if (state.pairings.lookup actorKey).any (· ≠ userId) then state.revokeDirectBindingsForActor actorKey
      else state
    { revoked with
      pairings := revoked.pairings.insert actorKey userId
      pairingEpochs :=
        match bindingEpoch with
        | some bindingEpoch => revoked.pairingEpochs.insert actorKey bindingEpoch
        | none => revoked.pairingEpochs.erase actorKey }

/-- `try_unpair_external_actor`. -/
def unpairExternalActor : InMemoryState :=
  { state with
    pairings := state.pairings.erase actorKey
    pairingEpochs := state.pairingEpochs.erase actorKey }.revokeDirectBindingsForActor actorKey

def unpairExternalActorIfOwnedBy (expected : ExpectedExternalActorOwner) :
    ConditionalUnpairOutcome × InMemoryState :=
  match state.pairings.lookup actorKey with
  | none => (.alreadyAbsent, state)
  | some currentUserId =>
    if currentUserId ≠ expected.userId ∨
        state.pairingEpochs.lookup actorKey ≠ expected.bindingEpoch then (.ownerChanged, state)
    else (.unpaired, state.unpairExternalActor actorKey)

/-- The actors of an adapter that are paired with a user. -/
def actorsOwnedBy (tenantId : TenantId) (adapterKind : AdapterKind)
    (adapterInstallationId : Option AdapterInstallationId) (userId : UserId) : List ActorKey :=
  (state.pairings.pairs.filter fun entry =>
    entry.1.tenantId = tenantId && entry.1.adapterKind = adapterKind &&
      adapterInstallationId.all (entry.1.adapterInstallationId = ·) && entry.2 = userId).map Prod.fst

def unpairExternalActorsOwnedBy (tenantId : TenantId) (adapterKind : AdapterKind)
    (adapterInstallationId : Option AdapterInstallationId) (userId : UserId) : ℕ × InMemoryState :=
  let actorKeys := state.actorsOwnedBy tenantId adapterKind adapterInstallationId userId
  (actorKeys.length, actorKeys.foldl unpairExternalActor state)

/-! ### Resolving -/

variable (request : ResolveConversationRequest)

/-- The checks of a resolve: the user of the actor, and the binding of the route if there is one. -/
def checkResolve (trusted : TrustedScope) :
    Except InboundTurnError (UserId × Option BindingRecord) := do
  let actorUserId ← state.resolveActor request.actorKey
  state.ensureExternalEventRoute request.eventKey request.identity actorUserId
  match state.bindings.lookup request.bindingKey with
  | none => return (actorUserId, none)
  | some binding =>
    rejectIf (binding.routeAccess.shared ∧ request.routeKind = .direct)
      (.bindingRequired request.adapterKind.asStr request.externalActorRef.id)
    rejectIf (¬ binding.routeAccess.allows request.actorKey request.routeKind)
      (.accessDenied actorUserId.asStr binding.threadId.asStr)
    ensureTrustedScopeNotReinterpreted binding trusted
    return (actorUserId, some binding)

def resolveBound (actorUserId : UserId)
    (binding : BindingRecord) :
    Except InboundTurnError ConversationBindingResolution × InMemoryState :=
  let bindingEpoch := state.pairingEpochs.lookup request.actorKey
  match state.recordExternalEventRoute request.eventKey request.identity actorUserId with
  | .error e => (.error e, state)
  | .ok recorded =>
    match request.routeKind with
    | .shared =>
      let event := recorded.sharedEventBinding request.eventKey request.actorKey actorUserId
        binding.externalConversationRef binding.agentId binding.projectId
      (.ok (binding.resolutionForThread actorUserId bindingEpoch request.tenantId event.1), event.2)
    | .direct =>
      match recorded.threadForParticipant request.tenantId actorUserId binding.threadId with
      | .error e => (.error e, recorded)
      | .ok _ => (.ok (binding.resolution actorUserId bindingEpoch request.tenantId), recorded)

/-- The binding of first contact on a shared route: the thread is that of the event. -/
def bindShared (trusted : TrustedScope) (actorUserId : UserId)
    (event : SharedEventBinding) : ConversationBindingResolution × InMemoryState :=
  let binding := BindingRecord.new state.nextUuid request.tenantId request.adapterKind
    request.adapterInstallationId request.externalConversationRef (.new request.actorKey .shared)
    ⟨event.threadId, trusted.agentId, trusted.projectId, none⟩
  (binding.resolutionForThread actorUserId (state.pairingEpochs.lookup request.actorKey)
      request.tenantId event,
    { state with nextUuid := state.nextUuid + 2 }.storeBinding request.bindingKey binding)

/-- The binding of first contact on a direct route, on a new thread of the user. -/
def bindDirect (trusted : TrustedScope) (actorUserId : UserId) :
    ConversationBindingResolution × InMemoryState :=
  let threadId : ThreadId := ⟨state.nextUuid⟩
  let binding := BindingRecord.new (state.nextUuid + 1) request.tenantId request.adapterKind
    request.adapterInstallationId request.externalConversationRef (.new request.actorKey .direct)
    ⟨threadId, trusted.agentId, trusted.projectId, trusted.ownerUserId⟩
  (binding.resolution actorUserId (state.pairingEpochs.lookup request.actorKey) request.tenantId,
    { state with
      threads := state.threads.insert ⟨request.tenantId, threadId⟩
        ⟨trusted.agentId, trusted.projectId, {actorUserId}⟩
      nextUuid := state.nextUuid + 3 }.storeBinding request.bindingKey binding)

def firstContact (trusted : TrustedScope)
    (actorUserId : UserId) : ConversationBindingResolution × InMemoryState :=
  match request.routeKind with
  | .shared =>
    let event := state.sharedEventBinding request.eventKey request.actorKey actorUserId
      request.externalConversationRef trusted.agentId trusted.projectId
    event.2.bindShared request trusted actorUserId event.1
  | .direct => state.bindDirect request trusted actorUserId

/-- A resolve of a route that is not bound. -/
def resolveUnbound (trusted : TrustedScope)
    (actorUserId : UserId) : Except InboundTurnError ConversationBindingResolution × InMemoryState :=
  let bound := state.firstContact request trusted actorUserId
  match bound.2.recordExternalEventRoute request.eventKey request.identity actorUserId with
  | .error e => (.error e, bound.2)
  | .ok recorded => (.ok bound.1, recorded)

/-- `resolve_or_create_binding_inner`. -/
def resolveOrCreateBinding (trusted : TrustedScope) :
    Except InboundTurnError ConversationBindingResolution × InMemoryState :=
  match state.checkResolve request trusted with
  | .error e => (.error e, state)
  | .ok (actorUserId, some binding) => state.resolveBound request actorUserId binding
  | .ok (actorUserId, none) => state.resolveUnbound request trusted actorUserId

def lookupBinding : Except InboundTurnError ConversationBindingResolution := do
  let actorUserId ← state.resolveActor request.actorKey
  state.ensureExternalEventRoute request.eventKey request.identity actorUserId
  let bindingEpoch := state.pairingEpochs.lookup request.actorKey
  let binding ← okOr (state.bindings.lookup request.bindingKey)
    (.bindingRequired request.adapterKind.asStr request.externalActorRef.id)
  rejectIf (binding.routeAccess.shared ∧ request.routeKind = .direct)
    (.bindingRequired request.adapterKind.asStr request.externalActorRef.id)
  -- a shared route is looked up at the thread of the event, if it has one
  let event := if request.routeKind = .shared then
    state.eventSharedBindings.lookup request.eventKey else none
  let threadId := (event.map (·.threadId)).getD binding.threadId
  let _ ← state.threadForParticipant request.tenantId actorUserId threadId
  rejectIf (¬ binding.routeAccess.allows request.actorKey request.routeKind)
    (.accessDenied actorUserId.asStr threadId.asStr)
  match event with
  | some event => return binding.resolutionForThread actorUserId bindingEpoch request.tenantId event
  | none => return binding.resolution actorUserId bindingEpoch request.tenantId

/-! ### Resetting and linking -/

/-- The checks of a reset that is not a replay: the binding, and the thread it leaves. -/
def checkReset (request : ResetConversationRequest) (actorUserId : UserId) :
    Except InboundTurnError (BindingRecord × ThreadRecord) := do
  let resolve := request.resolveRequest
  let current ← okOr (state.bindings.lookup resolve.bindingKey)
    (.bindingRequired resolve.adapterKind.asStr resolve.externalActorRef.id)
  rejectIf (current.routeAccess.shared ∧ resolve.routeKind = .direct)
    (.bindingRequired resolve.adapterKind.asStr resolve.externalActorRef.id)
  rejectIf (current.threadId ≠ request.expectedThreadId) (.bindingConflict current.threadId.asStr)
  rejectIf (¬ current.routeAccess.allows resolve.actorKey resolve.routeKind)
    (.accessDenied actorUserId.asStr current.threadId.asStr)
  let previous ← state.threadForParticipant resolve.tenantId actorUserId current.threadId
  return (current, previous)

/-- The binding of a reset on a new thread. -/
def rotate (request : ResetConversationRequest) (actorUserId : UserId) (current : BindingRecord)
    (previous : ThreadRecord) : Except InboundTurnError ResetConversationOutcome × InMemoryState :=
  let resolve := request.resolveRequest
  let threadId : ThreadId := ⟨state.nextUuid⟩
  let replacement := BindingRecord.new (state.nextUuid + 1) current.tenantId current.adapterKind
    current.adapterInstallationId current.externalConversationRef current.routeAccess
    ⟨threadId, current.agentId, current.projectId, current.ownerUserId⟩
  let outcome : ResetConversationOutcome :=
    { previousThreadId := current.threadId
      resolution := replacement.resolution actorUserId (state.pairingEpochs.lookup resolve.actorKey)
        resolve.tenantId }
  let rotated :=
    { state with
      threads := state.threads.insert ⟨resolve.tenantId, threadId⟩ previous
      sourceBindings := state.sourceBindings.erase current.sourceBindingRef
      replyTargets := state.replyTargets.erase current.replyTargetBindingRef
      nextUuid := state.nextUuid + 3 }.storeBinding resolve.bindingKey replacement
  match rotated.recordExternalEventRoute resolve.eventKey resolve.identity actorUserId with
  | .error e => (.error e, rotated)
  | .ok recorded =>
    (.ok outcome,
      { recorded with bindingResets := recorded.bindingResets.insert resolve.eventKey outcome })

/-- The user of the actor of a reset, on the route of its event. -/
def checkResetActor (request : ResetConversationRequest) : Except InboundTurnError UserId := do
  let resolve := request.resolveRequest
  let actorUserId ← state.resolveActor resolve.actorKey
  state.ensureExternalEventRoute resolve.eventKey resolve.identity actorUserId
  return actorUserId

def resetConversationBinding (request : ResetConversationRequest) :
    Except InboundTurnError ResetConversationOutcome × InMemoryState :=
  match state.checkResetActor request with
  | .error e => (.error e, state)
  | .ok actorUserId =>
    match state.bindingResets.lookup request.resolveRequest.eventKey with
    | some replay => (.ok replay, state)
    | none =>
      match state.checkReset request actorUserId with
      | .error e => (.error e, state)
      | .ok (current, previous) => state.rotate request actorUserId current previous

/-- The checks of a link: the user of the actor, and the thread to link to. -/
def checkLink (request : LinkConversationRequest) : Except InboundTurnError (UserId × ThreadRecord) := do
  let actorUserId ← state.resolveActor request.actorKey
  let thread ← state.threadForParticipant request.tenantId actorUserId request.targetThreadId
  return (actorUserId, thread)

def linkConversationToThread (request : LinkConversationRequest) :
    Except InboundTurnError LinkedConversationBinding × InMemoryState :=
  match state.checkLink request with
  | .error e => (.error e, state)
  | .ok (actorUserId, thread) =>
    match state.bindings.lookup request.bindingKey with
    | some existing =>
      if existing.threadId ≠ request.targetThreadId then
        (.error (.bindingConflict existing.threadId.asStr), state)
      else if (existing.routeAccess.shared ∧ request.routeKind = .direct) ∨
          ¬ existing.routeAccess.allows request.actorKey request.routeKind then
        (.error (.accessDenied actorUserId.asStr existing.threadId.asStr), state)
      else
        (.ok ⟨existing.threadId, existing.sourceBindingRef, existing.replyTargetBindingRef⟩, state)
    | none =>
      let binding := BindingRecord.new state.nextUuid request.tenantId request.adapterKind
        request.adapterInstallationId request.externalConversationRef
        (.new request.actorKey request.routeKind)
        ⟨request.targetThreadId, thread.agentId, thread.projectId, none⟩
      (.ok ⟨binding.threadId, binding.sourceBindingRef, binding.replyTargetBindingRef⟩,
        { state with nextUuid := state.nextUuid + 2 }.storeBinding request.bindingKey binding)

/-! ### Reply targets -/

def validateReplyTarget (request : ValidateReplyTargetRequest) :
    Except InboundTurnError ReplyTargetBinding := do
  let target ← okOr (state.replyTargets.lookup request.replyTargetBindingRef)
    (.threadNotFound request.replyTargetBindingRef.asStr)
  let actorKey : ActorKey := ⟨request.tenantId, request.adapterKind, request.adapterInstallationId,
    request.externalActorRef⟩
  let denied := InboundTurnError.accessDenied request.actorUserId.asStr target.threadId.asStr
  rejectIf (target.tenantId ≠ request.tenantId ∨ target.threadId ≠ request.currentThreadId ∨
      target.adapterKind ≠ request.adapterKind ∨
      target.adapterInstallationId ≠ request.adapterInstallationId ∨
      ¬ target.routeAccess.allows actorKey .shared) denied
  let pairedUserId ← state.resolveActor actorKey
  rejectIf (pairedUserId ≠ request.actorUserId) denied
  let _ ← state.threadForParticipant target.tenantId pairedUserId target.threadId
  return { tenantId := target.tenantId
           actorUserId := request.actorUserId
           threadId := target.threadId
           adapterKind := target.adapterKind
           adapterInstallationId := target.adapterInstallationId
           externalConversationRef := target.externalConversationRef }

def resolveStoredReplyTarget (request : ResolveStoredReplyTargetRequest) :
    Except InboundTurnError StoredReplyTargetBinding := do
  let target ← okOr (state.replyTargets.lookup request.replyTargetBindingRef)
    (.threadNotFound request.replyTargetBindingRef.asStr)
  let denied := InboundTurnError.accessDenied request.actorUserId.asStr target.threadId.asStr
  rejectIf (target.tenantId ≠ request.tenantId ∨ target.threadId ≠ request.currentThreadId) denied
  let _ ← state.threadForParticipant target.tenantId request.actorUserId target.threadId
  let exactOriginActorIsCurrent :=
    (state.pairings.lookup target.routeAccess.ownerActorKey).any (· = request.actorUserId)
  let accessAllowed : Bool :=
    match request.access with
    | .ordinaryReply => target.routeAccess.shared || exactOriginActorIsCurrent
    | .exactOriginActor => exactOriginActorIsCurrent
  rejectIf (¬ accessAllowed) denied
  return { tenantId := target.tenantId
           actorUserId := request.actorUserId
           threadId := target.threadId
           adapterKind := target.adapterKind
           adapterInstallationId := target.adapterInstallationId
           externalConversationRef := target.externalConversationRef
           routeKind := if target.routeAccess.shared then .shared else .direct }

/-! ### Accepting -/

/-- The checks of an accept: the binding that its source names. -/
def checkAccept (request : AcceptConversationMessageRequest) : Except InboundTurnError BindingRecord := do
  let denied := InboundTurnError.accessDenied request.actor.userId.asStr request.threadId.asStr
  let pairedUserId ← state.resolveActor request.actorKey
  rejectIf (pairedUserId ≠ request.actor.userId) denied
  let _ ← state.threadForParticipant request.tenantId pairedUserId request.threadId
  state.ensureBindingRefsMatch request
  let source ← okOr (state.sourceBindings.lookup request.sourceBindingRef)
    (.threadNotFound request.sourceBindingRef.asStr)
  let identity := ExternalConversationIdentity.fromRef request.externalConversationRef
  rejectIf (source.externalConversationIdentity ≠ identity) denied
  state.ensureExternalEventRoute ⟨request.tenantId, source.adapterKind, source.adapterInstallationId,
    request.externalEventId⟩ identity request.actor.userId
  return source

variable (messageRef : AcceptedMessageRef)

/-- The message of an accept that finds none, with the next two UUIDs. -/
def newMessage (request : AcceptConversationMessageRequest) : AcceptedConversationMessage where
  tenantId := request.tenantId
  threadId := request.threadId
  actor := request.actor
  messageRef := ⟨state.nextUuid⟩
  sourceBindingRef := request.sourceBindingRef
  replyTargetBindingRef := ⟨state.nextUuid + 1⟩
  receivedAt := request.receivedAt
  requestedRunProfile := request.requestedRunProfile
  idempotency := .inserted

/-- What a later delivery of the event is answered with. -/
def newReplay (request : AcceptConversationMessageRequest) (source : BindingRecord) :
    StoredAcceptedMessageReplay where
  externalConversationIdentity := .fromRef request.externalConversationRef
  replay :=
    { resolution := source.resolution request.actor.userId
        (state.pairingEpochs.lookup request.actorKey) request.tenantId
      acceptedMessage := state.newMessage request }

/-- Record a message that was not accepted before. -/
def recordMessage (request : AcceptConversationMessageRequest) (source : BindingRecord)
    (reply : ReplyTargetRecord) : InMemoryState :=
  let accepted := state.newMessage request
  { state with
    replyTargets := state.replyTargets.insert accepted.replyTargetBindingRef
      (reply.withReplyTarget accepted.replyTargetBindingRef request.externalConversationRef)
    messageIdempotency := state.messageIdempotency.insert request.idempotencyKey accepted
    messageReplays := state.messageReplays.insert request.replayKey (state.newReplay request source)
    messages := state.messages ++ [{ accepted := accepted
                                     actor := request.actor
                                     externalEventId := request.externalEventId
                                     contentRef := request.contentRef
                                     receivedAt := request.receivedAt }]
    nextUuid := state.nextUuid + 2 }

def acceptInboundMessage (request : AcceptConversationMessageRequest) :
    Except InboundTurnError AcceptedConversationMessage × InMemoryState :=
  match state.checkAccept request with
  | .error e => (.error e, state)
  | .ok source =>
    match state.messageIdempotency.lookup request.idempotencyKey with
    | some existing => (.ok { existing with idempotency := .duplicate }, state)
    | none =>
      match state.replyTargets.lookup request.replyTargetBindingRef with
      | none => (.error (.threadNotFound request.replyTargetBindingRef.asStr), state)
      | some reply =>
        match state.recordExternalEventRoute ⟨request.tenantId, source.adapterKind,
          source.adapterInstallationId, request.externalEventId⟩
          (.fromRef request.externalConversationRef) request.actor.userId with
        | .error e => (.error e, state)
        | .ok recorded =>
          (.ok (recorded.newMessage request), recorded.recordMessage request source reply)

def replayAcceptedInboundMessage (lookup : AcceptedConversationMessageLookup) :
    Except InboundTurnError (Option AcceptedConversationMessageReplay) :=
  match state.messageReplays.lookup lookup.replayKey with
  | none => .ok none
  | some stored =>
    if stored.externalConversationIdentity ≠ .fromRef lookup.externalConversationRef then
      .error (.accessDenied lookup.externalActorRef.id "external_event_route_mismatch")
    else
      .ok (some { stored.replay with
        acceptedMessage := { stored.replay.acceptedMessage with idempotency := .duplicate } })

/-! ### Submissions -/

def inboundMessageTurnSubmissionKey : IdempotencyKey × InMemoryState :=
  match state.submissionKeys.lookup messageRef with
  | some key => (key, state)
  | none =>
    let key : IdempotencyKey := ⟨messageRef.asStr⟩
    (key, { state with submissionKeys := state.submissionKeys.insert messageRef key })

def rotateInboundMessageTurnSubmissionKey : InMemoryState :=
  { state with
    submissionKeys := state.submissionKeys.insert messageRef ⟨"submit:" ++ state.nextUuid.repr⟩
    nextUuid := state.nextUuid + 1 }

def markInboundMessageTurnSubmitted (response : SubmitTurnResponse) : InMemoryState :=
  { state with
    submittedMessageResponses := state.submittedMessageResponses.insert messageRef response }

end InMemoryState

/-! ### Calls -/

/-- A call of the services. -/
inductive Call where
  | pair (actorKey : ActorKey) (userId : UserId) (bindingEpoch : Option ExternalActorBindingEpoch)
  | unpair (actorKey : ActorKey)
  | unpairIfOwnedBy (actorKey : ActorKey) (expected : ExpectedExternalActorOwner)
  | unpairOwnedBy (tenantId : TenantId) (adapterKind : AdapterKind)
      (adapterInstallationId : Option AdapterInstallationId) (userId : UserId)
  | resolve (request : ResolveConversationRequest) (trusted : TrustedScope)
  | lookup (request : ResolveConversationRequest)
  | reset (request : ResetConversationRequest)
  | link (request : LinkConversationRequest)
  | validate (request : ValidateReplyTargetRequest)
  | resolveStored (request : ResolveStoredReplyTargetRequest)
  | accept (request : AcceptConversationMessageRequest)
  | replay (lookup : AcceptedConversationMessageLookup)
  | submission (messageRef : AcceptedMessageRef)
  | submissionKey (messageRef : AcceptedMessageRef)
  | rotateSubmissionKey (messageRef : AcceptedMessageRef)
  | markSubmitted (messageRef : AcceptedMessageRef) (response : SubmitTurnResponse)

/-- What a call that succeeds returns. -/
def Call.Answer : Call → Type
  | pair .. | unpair .. | rotateSubmissionKey .. | markSubmitted .. => Unit
  | unpairIfOwnedBy .. => ConditionalUnpairOutcome
  | unpairOwnedBy .. => ℕ
  | resolve .. | lookup .. => ConversationBindingResolution
  | reset .. => ResetConversationOutcome
  | link .. => LinkedConversationBinding
  | validate .. => ReplyTargetBinding
  | resolveStored .. => StoredReplyTargetBinding
  | accept .. => AcceptedConversationMessage
  | replay .. => Option AcceptedConversationMessageReplay
  | submission .. => Option SubmitTurnResponse
  | submissionKey .. => IdempotencyKey

/-- The answer to a call and the state it leaves, where nothing fails on the way to the repository. -/
def InMemoryState.perform (state : InMemoryState) :
    (call : Call) → Except InboundTurnError call.Answer × InMemoryState
  | .pair actorKey userId bindingEpoch =>
    (.ok (), state.pairExternalActor actorKey userId bindingEpoch)
  | .unpair actorKey => (.ok (), state.unpairExternalActor actorKey)
  | .unpairIfOwnedBy actorKey expected =>
    (.ok (state.unpairExternalActorIfOwnedBy actorKey expected).1,
      (state.unpairExternalActorIfOwnedBy actorKey expected).2)
  | .unpairOwnedBy tenantId adapterKind adapterInstallationId userId =>
    (.ok (state.unpairExternalActorsOwnedBy tenantId adapterKind adapterInstallationId userId).1,
      (state.unpairExternalActorsOwnedBy tenantId adapterKind adapterInstallationId userId).2)
  | .resolve request trusted => state.resolveOrCreateBinding request trusted
  | .lookup request => (state.lookupBinding request, state)
  | .reset request => state.resetConversationBinding request
  | .link request => state.linkConversationToThread request
  | .validate request => (state.validateReplyTarget request, state)
  | .resolveStored request => (state.resolveStoredReplyTarget request, state)
  | .accept request => state.acceptInboundMessage request
  | .replay lookup => (state.replayAcceptedInboundMessage lookup, state)
  | .submission messageRef => (.ok (state.submittedMessageResponses.lookup messageRef), state)
  | .submissionKey messageRef =>
    (.ok (state.inboundMessageTurnSubmissionKey messageRef).1,
      (state.inboundMessageTurnSubmissionKey messageRef).2)
  | .rotateSubmissionKey messageRef =>
    (.ok (), state.rotateInboundMessageTurnSubmissionKey messageRef)
  | .markSubmitted messageRef response =>
    (.ok (), state.markInboundMessageTurnSubmitted messageRef response)

/-- A call is served. The repository may fail to load or to save the state, and it may fail after it has
saved it. -/
inductive Serves (state : InMemoryState) (call : Call) :
    Except InboundTurnError call.Answer → InMemoryState → Prop
  | ran : Serves state call (state.perform call).1 (state.perform call).2
  | notSaved (e : InboundTurnError) : Serves state call (.error e) state
  | answerLost (e : InboundTurnError) : Serves state call (.error e) (state.perform call).2

end Ironclaw.Conversations
