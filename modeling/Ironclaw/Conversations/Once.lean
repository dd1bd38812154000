import Ironclaw.Conversations.Inbound

/-! # A delivered event is accepted once

What is known of the accepted messages, and how the requests of a delivery keep it. Only an accept
changes the messages; its three outcomes are `acceptInboundMessage_cases`. -/

namespace Ironclaw.Conversations

open InMemoryState

/-! ### Calls that accept nothing -/

/-- The messages, and where they are looked for, are the same. -/
structure Kept (s s' : InMemoryState) : Prop where
  idempotency : s'.messageIdempotency = s.messageIdempotency
  replays : s'.messageReplays = s.messageReplays
  messages : s'.messages = s.messages

section kept

variable {s s' s'' : InMemoryState}

theorem Kept.refl (s : InMemoryState) : Kept s s := ⟨rfl, rfl, rfl⟩

theorem Kept.trans (h : Kept s s') (h' : Kept s' s'') : Kept s s'' :=
  ⟨h'.idempotency.trans h.idempotency, h'.replays.trans h.replays, h'.messages.trans h.messages⟩

theorem recordExternalEventRoute_kept {key : ExternalEventRouteKey}
    {identity : ExternalConversationIdentity} {userId : UserId}
    (h : s.recordExternalEventRoute key identity userId = .ok s') : Kept s s' := by
  obtain ⟨-, -, h⟩ := bind_eq_ok.1 h
  cases pure_eq_ok.1 h
  exact ⟨rfl, rfl, rfl⟩

theorem pairExternalActor_kept (actorKey : ActorKey) (userId : UserId)
    (epoch : Option ExternalActorBindingEpoch) : Kept s (s.pairExternalActor actorKey userId epoch) := by
  unfold pairExternalActor
  split
  next => exact .refl s
  next =>
    dsimp only
    split
    next => exact ⟨rfl, rfl, rfl⟩
    next => exact ⟨rfl, rfl, rfl⟩

theorem unpairExternalActor_kept (actorKey : ActorKey) : Kept s (s.unpairExternalActor actorKey) :=
  ⟨rfl, rfl, rfl⟩

theorem unpairAll_kept (actorKeys : List ActorKey) : Kept s (actorKeys.foldl unpairExternalActor s) := by
  induction actorKeys generalizing s with
  | nil => exact .refl s
  | cons actorKey rest ih => exact (unpairExternalActor_kept actorKey).trans ih

theorem sharedEventBinding_kept (eventKey : ExternalEventRouteKey) (actorKey : ActorKey)
    (userId : UserId) (reference : ExternalConversationRef) (agentId : Option AgentId)
    (projectId : Option ProjectId) :
    Kept s (s.sharedEventBinding eventKey actorKey userId reference agentId projectId).2 := by
  unfold sharedEventBinding
  split
  next => exact .refl s
  next => exact ⟨rfl, rfl, rfl⟩

theorem firstContact_kept (request : ResolveConversationRequest) (trusted : TrustedScope)
    (userId : UserId) : Kept s (s.firstContact request trusted userId).2 := by
  unfold firstContact
  split
  next =>
    refine (sharedEventBinding_kept request.eventKey request.actorKey userId
      request.externalConversationRef trusted.agentId trusted.projectId).trans ?_
    exact ⟨rfl, rfl, rfl⟩
  next => exact ⟨rfl, rfl, rfl⟩

theorem resolveOrCreateBinding_kept (request : ResolveConversationRequest) (trusted : TrustedScope) :
    Kept s (s.resolveOrCreateBinding request trusted).2 := by
  unfold resolveOrCreateBinding
  split
  next => exact .refl s
  next userId binding _ =>
    unfold resolveBound
    dsimp only
    split
    next => exact .refl s
    next recorded hrecorded =>
      have hkept := recordExternalEventRoute_kept hrecorded
      split
      next => exact hkept.trans (sharedEventBinding_kept _ _ _ _ _ _)
      next =>
        split
        next => exact hkept
        next => exact hkept
  next userId _ =>
    unfold resolveUnbound
    dsimp only
    split
    next => exact firstContact_kept request trusted userId
    next recorded hrecorded =>
      exact (firstContact_kept request trusted userId).trans (recordExternalEventRoute_kept hrecorded)

theorem resetConversationBinding_kept (request : ResetConversationRequest) :
    Kept s (s.resetConversationBinding request).2 := by
  unfold resetConversationBinding
  split
  next => exact .refl s
  next =>
    split
    next => exact .refl s
    next =>
      split
      next => exact .refl s
      next =>
        unfold rotate
        dsimp only
        split
        next => exact ⟨rfl, rfl, rfl⟩
        next recorded hrecorded =>
          have hkept := recordExternalEventRoute_kept hrecorded
          exact ⟨hkept.idempotency, hkept.replays, hkept.messages⟩

theorem linkConversationToThread_kept (request : LinkConversationRequest) :
    Kept s (s.linkConversationToThread request).2 := by
  unfold linkConversationToThread
  split
  next => exact .refl s
  next =>
    split
    next =>
      split
      next => exact .refl s
      next =>
        split
        next => exact .refl s
        next => exact .refl s
    next => exact ⟨rfl, rfl, rfl⟩

/-- Only an accept changes the messages. -/
theorem perform_kept {call : Call} (hcall : ∀ request, call ≠ .accept request) :
    Kept s (s.perform call).2 := by
  cases call with
  | accept request => exact absurd rfl (hcall request)
  | pair actorKey userId epoch => exact pairExternalActor_kept actorKey userId epoch
  | unpair actorKey => exact unpairExternalActor_kept actorKey
  | unpairIfOwnedBy actorKey expected =>
    show Kept s (s.unpairExternalActorIfOwnedBy actorKey expected).2
    unfold unpairExternalActorIfOwnedBy
    split
    next => exact .refl s
    next =>
      split
      next => exact .refl s
      next => exact unpairExternalActor_kept actorKey
  | unpairOwnedBy tenantId adapterKind installation userId => exact unpairAll_kept _
  | resolve request trusted => exact resolveOrCreateBinding_kept request trusted
  | reset request => exact resetConversationBinding_kept request
  | link request => exact linkConversationToThread_kept request
  | submissionKey messageRef =>
    show Kept s (s.inboundMessageTurnSubmissionKey messageRef).2
    unfold inboundMessageTurnSubmissionKey
    split
    next => exact .refl s
    next => exact ⟨rfl, rfl, rfl⟩
  | rotateSubmissionKey messageRef => exact ⟨rfl, rfl, rfl⟩
  | markSubmitted messageRef response => exact ⟨rfl, rfl, rfl⟩
  | lookup request => exact .refl s
  | validate request => exact .refl s
  | resolveStored request => exact .refl s
  | replay lookup => exact .refl s
  | submission messageRef => exact .refl s

/-- A resolution is of the tenant that asked for it. -/
theorem resolveOrCreateBinding_tenant {request : ResolveConversationRequest} {trusted : TrustedScope}
    {resolution : ConversationBindingResolution}
    (h : (s.resolveOrCreateBinding request trusted).1 = .ok resolution) :
    resolution.tenantId = request.tenantId := by
  unfold resolveOrCreateBinding at h
  split at h
  next => cases h
  next userId binding _ =>
    unfold resolveBound at h
    dsimp only at h
    split at h
    next => cases h
    next =>
      split at h
      next =>
        cases h
        rfl
      next =>
        split at h
        next => cases h
        next =>
          cases h
          rfl
  next userId _ =>
    unfold resolveUnbound at h
    dsimp only at h
    split at h
    next => cases h
    next =>
      rw [← Except.ok.inj h]
      unfold firstContact
      split
      next => rfl
      next => rfl

end kept

/-! ### Accepts -/

/-- An accept fails, finds its message, or records it. -/
theorem acceptInboundMessage_cases (s : InMemoryState) (request : AcceptConversationMessageRequest) :
    (∃ e, s.acceptInboundMessage request = (.error e, s)) ∨
    (∃ source existing, s.checkAccept request = .ok source ∧
      s.messageIdempotency.lookup request.idempotencyKey = some existing ∧
      s.acceptInboundMessage request = (.ok { existing with idempotency := .duplicate }, s)) ∨
    ∃ source message replay s', s.checkAccept request = .ok source ∧
      s.messageIdempotency.lookup request.idempotencyKey = none ∧
      s.acceptInboundMessage request = (.ok message, s') ∧ message.idempotency = .inserted ∧
      replay.replay.acceptedMessage = message ∧
      s'.messageIdempotency = s.messageIdempotency.insert request.idempotencyKey message ∧
      s'.messageReplays = s.messageReplays.insert request.replayKey replay ∧
      s'.messages.length = s.messages.length + 1 := by
  cases hcheck : s.checkAccept request with
  | error e =>
    refine .inl ⟨e, ?_⟩
    unfold acceptInboundMessage
    rw [hcheck]
  | ok source =>
    cases hfound : s.messageIdempotency.lookup request.idempotencyKey with
    | some existing =>
      refine .inr (.inl ⟨source, existing, rfl, rfl, ?_⟩)
      unfold acceptInboundMessage
      rw [hcheck]
      dsimp only
      rw [hfound]
    | none =>
      unfold acceptInboundMessage
      rw [hcheck]
      dsimp only
      rw [hfound]
      dsimp only
      split
      next => exact .inl ⟨_, rfl⟩
      next reply _ =>
        split
        next => exact .inl ⟨_, rfl⟩
        next recorded hrecorded =>
          have hkept := recordExternalEventRoute_kept hrecorded
          refine .inr (.inr ⟨source, _, recorded.newReplay request source, _, rfl, rfl, rfl, rfl, rfl,
            ?_, ?_, ?_⟩)
          · rw [← hkept.idempotency]
            rfl
          · rw [← hkept.replays]
            rfl
          · rw [← hkept.messages]
            exact List.length_append

/-- What is known of the messages: the accepts of one event of one actor name one source and returned
one message, which is found again by either key, and no event of an actor is recorded twice. -/
structure World.Sound (world : World) : Prop where
  one : ∀ a ∈ world.accepts, ∀ b ∈ world.accepts, a.key = b.key →
    a.source = b.source ∧ a.messageRef = b.messageRef
  found : ∀ a ∈ world.accepts, ∃ message, world.store.messageIdempotency.lookup
    ⟨a.key.tenantId, a.source, a.key.externalEventId⟩ = some message ∧ message.messageRef = a.messageRef
  replayed : ∀ {key stored}, world.store.messageReplays.lookup key = some stored →
    ∃ a ∈ world.accepts, a.key = key ∧ a.messageRef = stored.replay.acceptedMessage.messageRef
  sent : ∀ key ∈ world.senders, ∃ a ∈ world.accepts, a.key = key
  nodup : world.senders.Nodup
  length : world.senders.length = world.store.messages.length

theorem World.Sound.init : World.Sound .init where
  one _ h := absurd h List.not_mem_nil
  found _ h := absurd h List.not_mem_nil
  replayed h := by cases h
  sent _ h := absurd h List.not_mem_nil
  nodup := .nil
  length := rfl

section sound

variable {world : World}

theorem World.after_of_other {call : Call} (hcall : ∀ request, call ≠ .accept request) :
    world.after call = ⟨(world.store.perform call).2, world.senders, world.accepts⟩ := by
  have hnoted : world.noted call = ([], []) := by
    cases call with
    | accept request => exact absurd rfl (hcall request)
    | _ => rfl
  unfold World.after
  rw [hnoted, List.append_nil, List.append_nil]

theorem World.Sound.other (h : world.Sound) {call : Call} (hcall : ∀ request, call ≠ .accept request) :
    (world.after call).Sound := by
  have hkept := perform_kept (s := world.store) hcall
  rw [World.after_of_other hcall]
  exact ⟨h.one, by simpa only [hkept.idempotency] using h.found,
    fun hstored => h.replayed (by simpa only [hkept.replays] using hstored), h.sent, h.nodup,
    by simpa only [hkept.messages] using h.length⟩

/-- An accept that finds its message, with the source of the earlier ones. -/
theorem World.Sound.duplicate (h : world.Sound) {request : AcceptConversationMessageRequest}
    {existing : AcceptedConversationMessage}
    (hsteady : ∀ earlier ∈ world.accepts, earlier.key = request.replayKey →
      earlier.source = request.sourceBindingRef)
    (hfound : world.store.messageIdempotency.lookup request.idempotencyKey = some existing) :
    World.Sound ⟨world.store, world.senders,
      world.accepts ++ [⟨request.replayKey, request.sourceBindingRef, existing.messageRef⟩]⟩ := by
  have hearlier : ∀ a ∈ world.accepts, a.key = request.replayKey →
      a.source = request.sourceBindingRef ∧ a.messageRef = existing.messageRef := by
    intro a ha hkey
    have hsource := hsteady a ha hkey
    obtain ⟨message, hmessage, href⟩ := h.found a ha
    rw [hkey, hsource] at hmessage
    rw [← href, Option.some.inj (hmessage.symm.trans hfound)]
    exact ⟨hsource, rfl⟩
  refine ⟨?_, ?_, ?_, ?_, h.nodup, h.length⟩
  · intro a ha b hb hkey
    rcases List.mem_append.1 ha with ha | ha
    · rcases List.mem_append.1 hb with hb | hb
      · exact h.one a ha b hb hkey
      · cases List.mem_singleton.1 hb
        exact hearlier a ha hkey
    · cases List.mem_singleton.1 ha
      rcases List.mem_append.1 hb with hb | hb
      · obtain ⟨hsource, href⟩ := hearlier b hb hkey.symm
        exact ⟨hsource.symm, href.symm⟩
      · cases List.mem_singleton.1 hb
        exact ⟨rfl, rfl⟩
  · intro a ha
    rcases List.mem_append.1 ha with ha | ha
    · exact h.found a ha
    · cases List.mem_singleton.1 ha
      exact ⟨existing, hfound, rfl⟩
  · intro key stored hstored
    obtain ⟨a, ha, hkey⟩ := h.replayed hstored
    exact ⟨a, List.mem_append_left _ ha, hkey⟩
  · intro key hkey
    obtain ⟨a, ha, hsame⟩ := h.sent key hkey
    exact ⟨a, List.mem_append_left _ ha, hsame⟩

/-- An accept that records its message: there was none of its event and actor. -/
theorem World.Sound.inserted (h : world.Sound) {request : AcceptConversationMessageRequest}
    {message : AcceptedConversationMessage} {replay : StoredAcceptedMessageReplay} {s' : InMemoryState}
    (hsteady : ∀ earlier ∈ world.accepts, earlier.key = request.replayKey →
      earlier.source = request.sourceBindingRef)
    (hnone : world.store.messageIdempotency.lookup request.idempotencyKey = none)
    (hreplay : replay.replay.acceptedMessage = message)
    (hidempotency : s'.messageIdempotency =
      world.store.messageIdempotency.insert request.idempotencyKey message)
    (hreplays : s'.messageReplays = world.store.messageReplays.insert request.replayKey replay)
    (hlength : s'.messages.length = world.store.messages.length + 1) :
    World.Sound ⟨s', world.senders ++ [request.replayKey],
      world.accepts ++ [⟨request.replayKey, request.sourceBindingRef, message.messageRef⟩]⟩ := by
  have hfresh : ∀ a ∈ world.accepts, a.key ≠ request.replayKey := by
    intro a ha hkey
    obtain ⟨found, hfound, -⟩ := h.found a ha
    rw [hkey, hsteady a ha hkey] at hfound
    exact absurd (hnone.symm.trans hfound) (by simp)
  refine ⟨?_, ?_, ?_, ?_, ?_, ?_⟩
  · intro a ha b hb hkey
    rcases List.mem_append.1 ha with ha | ha
    · rcases List.mem_append.1 hb with hb | hb
      · exact h.one a ha b hb hkey
      · cases List.mem_singleton.1 hb
        exact absurd hkey (hfresh a ha)
    · cases List.mem_singleton.1 ha
      rcases List.mem_append.1 hb with hb | hb
      · exact absurd hkey.symm (hfresh b hb)
      · cases List.mem_singleton.1 hb
        exact ⟨rfl, rfl⟩
  · intro a ha
    rw [hidempotency]
    rcases List.mem_append.1 ha with ha | ha
    · obtain ⟨found, hfound, href⟩ := h.found a ha
      refine ⟨found, ?_, href⟩
      rw [Dict.lookup_insert_of_ne _ _ ?_, hfound]
      intro hsame
      rw [← hsame, hnone] at hfound
      cases hfound
    · cases List.mem_singleton.1 ha
      exact ⟨message, Dict.lookup_insert_self _ _ _, rfl⟩
  · intro key stored hstored
    rw [hreplays] at hstored
    rcases Dict.lookup_of_lookup_insert _ hstored with hold | ⟨rfl, rfl⟩
    · obtain ⟨a, ha, hkey⟩ := h.replayed hold
      exact ⟨a, List.mem_append_left _ ha, hkey⟩
    · refine ⟨_, List.mem_append_right _ List.mem_cons_self, rfl, ?_⟩
      rw [hreplay]
  · intro key hkey
    rcases List.mem_append.1 hkey with hkey | hkey
    · obtain ⟨a, ha, hsame⟩ := h.sent key hkey
      exact ⟨a, List.mem_append_left _ ha, hsame⟩
    · cases List.mem_singleton.1 hkey
      exact ⟨_, List.mem_append_right _ List.mem_cons_self, rfl⟩
  · refine h.nodup.append (List.nodup_singleton _) fun key hkey hlast => ?_
    cases List.mem_singleton.1 hlast
    obtain ⟨a, ha, hsame⟩ := h.sent _ hkey
    exact hfresh a ha hsame
  · rw [hlength, ← h.length]
    exact List.length_append

/-- A call that finds the route of its event as it was keeps what is known. -/
theorem World.Sound.after (h : world.Sound) {call : Call} (hsteady : Request.Steady world (.store call)) :
    (world.after call).Sound := by
  cases call with
  | accept request =>
    unfold World.after World.noted perform
    dsimp only
    rcases acceptInboundMessage_cases world.store request with
      ⟨e, haccept⟩ | ⟨source, existing, hcheck, hfound, haccept⟩ |
      ⟨source, message, replay, s', hcheck, hnone, haccept, hinserted, hreplay, hkeys⟩
    · simp only [haccept, List.append_nil]
      exact h
    · simp only [haccept, if_neg (show ¬ MessageIdempotencyStatus.duplicate = .inserted by decide),
        List.append_nil]
      exact h.duplicate (hsteady source hcheck) hfound
    · simp only [haccept, hinserted, if_true]
      exact h.inserted (hsteady source hcheck) hnone hreplay hkeys.1 hkeys.2.1 hkeys.2.2
  | _ => exact h.other fun request => by simp

end sound

/-! ### Deliveries -/

/-- Accepts are not forgotten. -/
def inboundProtocol : Protocol World where
  Inv := World.Sound
  Later world world' := ∀ a ∈ world.accepts, a ∈ world'.accepts
  refl _ _ h := h
  trans h h' a ha := h' a (h a ha)

/-- The message is that of the event. -/
def World.Accepted (world : World) (key : AcceptedMessageReplayKey) (messageRef : AcceptedMessageRef) :
    Prop :=
  ∃ a ∈ world.accepts, a.key = key ∧ a.messageRef = messageRef

theorem World.Accepted.later {world world' : World} {key : AcceptedMessageReplayKey}
    {messageRef : AcceptedMessageRef} (h : world.Accepted key messageRef)
    (hlater : inboundProtocol.Later world world') : world'.Accepted key messageRef := by
  obtain ⟨a, ha, hkey⟩ := h
  exact ⟨a, hlater a ha, hkey⟩

theorem World.accepts_after (world : World) (call : Call) (a : Acceptance) (ha : a ∈ world.accepts) :
    a ∈ (world.after call).accepts :=
  List.mem_append_left _ ha

theorem answers_keep {world world' : World} {request : Request} {answer : request.Answer}
    (hinv : world.Sound) (h : SteadyAnswers world request answer world') :
    world'.Sound ∧ inboundProtocol.Later world world' := by
  obtain ⟨hanswers, hsteady⟩ := h
  cases hanswers with
  | ran call => exact ⟨hinv.after hsteady, world.accepts_after call⟩
  | notSaved call e => exact ⟨hinv, fun _ h => h⟩
  | answerLost call e => exact ⟨hinv.after hsteady, world.accepts_after call⟩
  | submitted submission answer => exact ⟨hinv, fun _ h => h⟩

section deliveries

variable {Q : Delivered → World → Prop} {key : AcceptedMessageReplayKey}

/-- The result of a delivery names the message of its event. -/
def Delivers (key : AcceptedMessageReplayKey) (result : Delivered) (world : World) : Prop :=
  ∀ response, result = .ok response → world.Accepted key response.acceptedMessage.messageRef

theorem delivers_error (e : InboundTurnError) (world : World) : Delivers key (.error e) world :=
  fun _ h => by cases h

theorem ask_keeps {α : Type} {request : Request} {next : request.Answer → Task Request.Answer α}
    {world : World} {Q : α → World → Prop}
    (h : ∀ answer world', inboundProtocol.Later world world' →
      Meets SteadyAnswers inboundProtocol.role (next answer) world' Q) :
    Meets SteadyAnswers inboundProtocol.role (Task.request request >>= next) world Q := by
  refine Meets.bind (Meets.request fun t ht hinv answer t' hanswers => ?_)
  obtain ⟨hinv', hlater⟩ := answers_keep hinv hanswers
  refine ⟨hinv', hlater, fun u hu _ => ?_⟩
  exact (h answer u (inboundProtocol.trans ht (inboundProtocol.trans hlater hu)))

variable {message : AcceptedConversationMessage}

theorem submitTurn_delivers {world : World}
    (haccepted : world.Accepted key message.messageRef) (resolution : ConversationBindingResolution)
    (submission : Submission) :
    Meets SteadyAnswers inboundProtocol.role (submitTurn resolution message submission) world
      (Delivers key) := by
  unfold submitTurn
  refine ask_keeps fun answer w₁ h₁ => ?_
  cases answer with
  | error e => exact Meets.pure fun t _ _ => delivers_error e t
  | ok idempotencyKey =>
    refine ask_keeps fun answer w₂ h₂ => ?_
    cases answer with
    | error error =>
      dsimp only
      split
      next =>
        refine ask_keeps fun answer w₃ _ => ?_
        cases answer with
        | error e => exact Meets.pure fun t _ _ => delivers_error e t
        | ok _ => exact Meets.pure fun t _ _ => delivers_error _ t
      next => exact Meets.pure fun t _ _ => delivers_error _ t
    | ok response =>
      refine ask_keeps fun answer w₃ h₃ => ?_
      cases answer with
      | error e => exact Meets.pure fun t _ _ => delivers_error e t
      | ok _ =>
        refine Meets.pure fun t ht _ result hresult => ?_
        cases hresult
        exact (((haccepted.later h₁).later h₂).later h₃).later ht

theorem submitOrReplay_delivers {world : World}
    (haccepted : world.Accepted key message.messageRef) (resolution : ConversationBindingResolution)
    (submission : Submission) :
    Meets SteadyAnswers inboundProtocol.role (submitOrReplay resolution message submission) world
      (Delivers key) := by
  unfold submitOrReplay
  dsimp only
  split
  next =>
    refine ask_keeps fun answer w₁ h₁ => ?_
    cases answer with
    | error e => exact Meets.pure fun t _ _ => delivers_error e t
    | ok found =>
      cases found with
      | none => exact submitTurn_delivers (haccepted.later h₁) _ submission
      | some response =>
        refine Meets.pure fun t ht _ result hresult => ?_
        cases hresult
        exact (haccepted.later h₁).later ht
  next => exact submitTurn_delivers haccepted _ submission

variable {world world' : World}

theorem accept_accepted {request : AcceptConversationMessageRequest}
    {answer : Request.Answer (.store (.accept request))}
    (h : Answers world (.store (.accept request)) answer world')
    (hok : (answer : Except InboundTurnError AcceptedConversationMessage) = .ok message) :
    world'.Accepted request.replayKey message.messageRef := by
  cases h with
  | notSaved _ e => cases hok
  | answerLost _ e => cases hok
  | ran _ =>
    have hok' : (world.store.acceptInboundMessage request).1 = .ok message := hok
    refine ⟨⟨request.replayKey, request.sourceBindingRef, message.messageRef⟩,
      List.mem_append_right _ ?_, rfl, rfl⟩
    simp only [World.noted, hok', List.mem_singleton]

/-- A replay that is found is of a message that was accepted. -/
theorem replay_accepted {lookup : AcceptedConversationMessageLookup}
    {answer : Request.Answer (.store (.replay lookup))} {replay : AcceptedConversationMessageReplay}
    (hinv : world.Sound) (h : Answers world (.store (.replay lookup)) answer world')
    (hok : (answer : Except InboundTurnError (Option AcceptedConversationMessageReplay)) =
      .ok (some replay)) :
    world'.Accepted lookup.replayKey replay.acceptedMessage.messageRef := by
  cases h with
  | notSaved _ e => cases hok
  | answerLost _ e => cases hok
  | ran _ =>
    have hok' : world.store.replayAcceptedInboundMessage lookup = .ok (some replay) := hok
    unfold replayAcceptedInboundMessage at hok'
    split at hok'
    next => cases hok'
    next stored hstored =>
      split at hok'
      next => cases hok'
      next =>
        cases hok'
        obtain ⟨a, ha, hkey⟩ := hinv.replayed hstored
        exact ⟨a, world.accepts_after _ a ha, hkey⟩

theorem resolve_tenant {request : ResolveConversationRequest}
    {trusted : TrustedScope} {answer : Request.Answer (.store (.resolve request trusted))}
    {resolution : ConversationBindingResolution}
    (h : Answers world (.store (.resolve request trusted)) answer world')
    (hok : (answer : Except InboundTurnError ConversationBindingResolution) = .ok resolution) :
    resolution.tenantId = request.tenantId := by
  cases h with
  | notSaved _ e => cases hok
  | answerLost _ e => cases hok
  | ran _ => exact resolveOrCreateBinding_tenant hok

theorem acceptNew_delivers (world : World) (request : InboundTurnRequest)
    (policy : BindingResolutionPolicy) (submission : Submission) :
    Meets SteadyAnswers inboundProtocol.role (acceptNew request policy submission) world
      (Delivers request.replayKey) := by
  unfold acceptNew resolveRoute
  refine Meets.bind (Meets.request fun t _ hinv answer t' hanswers => ?_)
  obtain ⟨hinv', hlater⟩ := answers_keep hinv hanswers
  refine ⟨hinv', hlater, fun u _ _ => ?_⟩
  cases hanswer : (answer : Except InboundTurnError ConversationBindingResolution) with
  | error e => exact Meets.pure fun t _ _ => delivers_error e t
  | ok resolution =>
    have htenant := resolve_tenant hanswers.1 hanswer
    dsimp only
    unfold acceptMessage
    refine Meets.bind (Meets.request fun t₁ _ hinv₁ answer₁ t₁' hanswers₁ => ?_)
    obtain ⟨hinv₁', hlater₁⟩ := answers_keep hinv₁ hanswers₁
    refine ⟨hinv₁', hlater₁, fun u₁ hu₁ _ => ?_⟩
    cases hanswer₁ : (answer₁ : Except InboundTurnError AcceptedConversationMessage) with
    | error e => exact Meets.pure fun t _ _ => delivers_error e t
    | ok message =>
      have haccepted := (accept_accepted hanswers₁.1 hanswer₁).later hu₁
      refine submitOrReplay_delivers ?_ resolution submission
      have hkey : AcceptedMessageReplayKey.mk resolution.tenantId request.adapterKind
          request.adapterInstallationId request.externalActorRef request.externalEventId =
          request.replayKey := by
        rw [htenant]
        rfl
      rw [← hkey]
      exact haccepted

/-- A delivery that succeeds returns the message of its event. -/
theorem handleInboundTurn_delivers (world : World) (request : InboundTurnRequest)
    (policy : BindingResolutionPolicy) :
    Meets SteadyAnswers inboundProtocol.role (handleInboundTurn request policy) world
      (Delivers request.replayKey) := by
  unfold handleInboundTurn
  split
  next e _ => exact Meets.pure fun t _ _ => delivers_error e t
  next =>
    unfold replayAccepted
    dsimp only
    refine Meets.bind (Meets.request fun t _ hinv answer t' hanswers => ?_)
    obtain ⟨hinv', hlater⟩ := answers_keep hinv hanswers
    refine ⟨hinv', hlater, fun u hu _ => ?_⟩
    cases hanswer : (answer : Except InboundTurnError (Option AcceptedConversationMessageReplay)) with
    | error e => exact Meets.pure fun t _ _ => delivers_error e t
    | ok found =>
      cases found with
      | none => exact acceptNew_delivers u request policy _
      | some replay =>
        have haccepted := (replay_accepted hinv hanswers.1 hanswer).later hu
        exact submitOrReplay_delivers haccepted replay.resolution _

end deliveries

/-! ### Any number of deliveries -/

theorem callAll_keeps {Q : Option Delivered → World → Prop} (hQ : ∀ world, Q none world) :
    ∀ (calls : List Call) (world : World),
      Meets SteadyAnswers inboundProtocol.role (callAll calls) world Q
  | [], _ => Meets.pure fun t _ _ => hQ t
  | call :: rest, _ => by
    intro t _ hinv answer t' hanswers
    obtain ⟨hinv', hlater⟩ := answers_keep hinv hanswers
    exact ⟨hinv', hlater, callAll_keeps hQ rest t'⟩

/-- What the result of a party says. -/
def Party.Returns : Party → Option Delivered → World → Prop
  | .delivery request _, result, world => ∀ delivered, result = some delivered →
      Delivers request.replayKey delivered world
  | .caller _, _, _ => True

theorem task_returns (party : Party) (world : World) :
    Meets SteadyAnswers inboundProtocol.role party.task world party.Returns := by
  cases party with
  | delivery request policy =>
    refine Meets.bind ((handleInboundTurn_delivers world request policy).mono fun result t _ h => ?_)
    refine Meets.pure fun u hu _ delivered hdelivered response hresponse => ?_
    cases hdelivered
    exact (h response hresponse).later hu
  | caller calls => exact callAll_keeps (fun _ => trivial) calls world

/-- Where the accepts of an event name one source, at most one message is recorded for it, and all
deliveries of it that succeed return one message. -/
theorem event_accepted_once {ι : Type} [DecidableEq ι] (parties : ι → Party)
    (system : Shared Request.Answer World fun _ : ι => Option Delivered)
    (hreach : Shared.Reach SteadyAnswers (start parties) system) :
    (system.state.senders.length = system.state.store.messages.length ∧
      system.state.senders.Nodup) ∧
    ∀ i j first second policy policy' response response',
      parties i = .delivery first policy → parties j = .delivery second policy' →
      first.replayKey = second.replayKey → system.task i = .done (some (.ok response)) →
      system.task j = .done (some (.ok response')) →
      response.acceptedMessage.messageRef = response'.acceptedMessage.messageRef := by
  have hstart : Shared.Sound SteadyAnswers (fun _ => inboundProtocol.role)
      (fun i => (parties i).Returns) (start parties) :=
    ⟨fun _ h => h, .init, fun i => task_returns (parties i) .init⟩
  obtain ⟨hsound, -⟩ := hstart.reach hreach
  have hinv : system.state.Sound := hsound.inv
  refine ⟨⟨hinv.length, hinv.nodup⟩, ?_⟩
  intro i j first second policy policy' response response' hi hj hkey hdone hdone'
  have hreturns := hsound.result hdone
  have hreturns' := hsound.result hdone'
  rw [hi] at hreturns
  rw [hj] at hreturns'
  obtain ⟨a, ha, hakey, haref⟩ := hreturns _ rfl response rfl
  obtain ⟨b, hb, hbkey, hbref⟩ := hreturns' _ rfl response' rfl
  rw [← haref, ← hbref]
  exact (hinv.one a ha b hb (hakey.trans (hkey.trans hbkey.symm))).2

/-! ### Two deliveries of one event -/

/-- The services without faults, and a kernel that accepts every turn. -/
def answer (world : World) : (request : Request) → request.Answer × World
  | .store call => ((world.store.perform call).1, world.after call)
  | .submit _ => (Except.ok ⟨"run"⟩, world)

theorem answers_answer (world : World) (request : Request) :
    Answers world request (answer world request).1 (answer world request).2 := by
  cases request with
  | store call => exact .ran call
  | submit submission => exact .submitted submission _

/-- A message of one actor on a direct conversation. -/
def exampleDelivery : InboundTurnRequest where
  tenantId := ⟨"tenant"⟩
  adapterKind := ⟨"telegram"⟩
  adapterInstallationId := ⟨"bot"⟩
  externalActorRef := ⟨"user", "7"⟩
  externalConversationRef := ⟨none, "chat", none, none⟩
  externalEventId := ⟨"event"⟩
  routeKind := .direct
  contentRef := "content"
  receivedAt := 0
  requestedRunProfile := none

/-- The event is delivered twice, while its conversation is reset. -/
def exampleParties : Fin 3 → Party
  | 0 => .delivery exampleDelivery .untrusted
  | 1 => .delivery exampleDelivery .untrusted
  | 2 => .caller [.pair ⟨⟨"tenant"⟩, ⟨"telegram"⟩, ⟨"bot"⟩, ⟨"user", "7"⟩⟩ ⟨"alice"⟩ none,
      .reset ⟨⟨⟨"tenant"⟩, ⟨"telegram"⟩, ⟨"bot"⟩, ⟨"user", "7"⟩, ⟨none, "chat", none, none⟩, ⟨"reset"⟩,
        .direct⟩, ⟨0⟩⟩]

/-- Both deliveries look for the event before it is accepted; the first accepts it, the conversation is
reset, and the second accepts it on the new route. -/
def resetBetween : Shared Request.Answer World fun _ : Fin 3 => Option Delivered :=
  let paired := (start exampleParties).turn answer 1 2
  let looked := (paired.turn answer 1 0).turn answer 1 1
  let accepted := looked.turn answer 2 0
  (accepted.turn answer 1 2).turn answer 2 1

theorem reset_between_deliveries :
    ¬ ∀ system, Shared.Reach Answers (start exampleParties) system → system.state.senders.Nodup := by
  intro hall
  have hreach : Shared.Reach Answers (start exampleParties) resetBetween :=
    (Shared.reach_turn answers_answer 2 1 _).trans
      ((Shared.reach_turn answers_answer 0 1 _).trans ((Shared.reach_turn answers_answer 1 1 _).trans
        ((Shared.reach_turn answers_answer 0 2 _).trans ((Shared.reach_turn answers_answer 2 1 _).trans
          (Shared.reach_turn answers_answer 1 2 _)))))
  have hsenders : resetBetween.state.senders = [exampleDelivery.replayKey, exampleDelivery.replayKey] := rfl
  have hnodup := hall _ hreach
  rw [hsenders] at hnodup
  simp at hnodup

section order

variable {ι : Type} [DecidableEq ι]

/-- The parties take turns in a given order, each up to its next answer. -/
def turns (order : List ι) (system : Shared Request.Answer World fun _ : ι => Option Delivered) :
    Shared Request.Answer World fun _ : ι => Option Delivered :=
  order.foldl (fun system i => system.turn answer 1 i) system

/-- Each request finds the route of its event as it was. -/
def SteadyTurns : List ι → Shared Request.Answer World (fun _ : ι => Option Delivered) → Prop
  | [], _ => True
  | i :: order, system =>
    (∃ request next, system.task i = .ask request next ∧ request.Steady system.state) ∧
      SteadyTurns order (system.turn answer 1 i)

theorem reach_turns {order : List ι} :
    ∀ {system : Shared Request.Answer World fun _ : ι => Option Delivered},
      SteadyTurns order system → Shared.Reach SteadyAnswers system (turns order system) := by
  induction order with
  | nil => exact fun _ => Relation.ReflTransGen.refl
  | cons i order ih =>
    intro system hsteady
    obtain ⟨⟨request, next, htask, hrequest⟩, hlater⟩ := hsteady
    have hturn : Shared.Reach SteadyAnswers system (system.turn answer 1 i) := by
      unfold Shared.turn
      rw [htask]
      exact Relation.ReflTransGen.single (.ask i htask ⟨answers_answer system.state request, hrequest⟩)
    exact hturn.trans (ih hlater)

end order

/-- Both deliveries look for the event before it is accepted; then each runs to its end. -/
def deliveredTwice : Shared Request.Answer World fun _ : Fin 3 => Option Delivered :=
  turns [2, 0, 1, 0, 0, 0, 0, 0, 1, 1, 1] (start exampleParties)

theorem delivered_twice_recorded_once :
    deliveredTwice.state.accepts.length = 2 ∧
      deliveredTwice.state.senders = [exampleDelivery.replayKey] ∧ deliveredTwice.state.senders.Nodup ∧
      ∃ response response', deliveredTwice.task 0 = .done (some (.ok response)) ∧
        deliveredTwice.task 1 = .done (some (.ok response')) ∧
        response.acceptedMessage.messageRef = response'.acceptedMessage.messageRef := by
  have hsteady : SteadyTurns [2, 0, 1, 0, 0, 0, 0, 0, 1, 1, 1] (start exampleParties) := by
    refine ⟨⟨_, _, rfl, trivial⟩, ⟨_, _, rfl, trivial⟩, ⟨_, _, rfl, trivial⟩, ⟨_, _, rfl, trivial⟩,
      ⟨_, _, rfl, ?_⟩, ⟨_, _, rfl, trivial⟩, ⟨_, _, rfl, trivial⟩, ⟨_, _, rfl, trivial⟩,
      ⟨_, _, rfl, trivial⟩, ⟨_, _, rfl, ?_⟩, ⟨_, _, rfl, trivial⟩, trivial⟩
    · intro source _ earlier hearlier
      cases hearlier
    · intro source _ earlier hearlier _
      rw [List.mem_singleton.1 hearlier]
      rfl
  obtain ⟨⟨-, hnodup⟩, hone⟩ := event_accepted_once exampleParties deliveredTwice (reach_turns hsteady)
  refine ⟨rfl, rfl, hnodup, _, _, rfl, rfl, ?_⟩
  exact hone 0 1 exampleDelivery exampleDelivery .untrusted .untrusted _ _ rfl rfl rfl rfl rfl

end Ironclaw.Conversations
