import Ironclaw.Conversations.Store

/-! # What an external actor reaches

A resolution is rightful if it names the user that the requesting actor is paired with and a thread
that this user is a participant of. The checks of the services see to that on every path but two, and
both of them answer from a map that is keyed by the event and not by the actor: a reset that replays
what is remembered of its event, and a resolve of a shared route that finds its event bound. `Steady`
is the condition that these two paths lack.

Reply targets of direct routes do not survive the pairing they were minted under: `Evolves` says what
any call does to them. -/

namespace Ironclaw.Conversations

namespace InMemoryState

/-- The user takes part in the thread. -/
def Participant (state : InMemoryState) (tenantId : TenantId) (userId : UserId) (threadId : ThreadId) :
    Prop :=
  ∃ thread, state.threads.lookup ⟨tenantId, threadId⟩ = some thread ∧ userId ∈ thread.participants

/-- The resolution names the current user of the actor, and a thread of that user. -/
def Rightful (state : InMemoryState) (actorKey : ActorKey)
    (resolution : ConversationBindingResolution) : Prop :=
  state.pairings.lookup actorKey = some resolution.actor.userId ∧
    state.Participant actorKey.tenantId resolution.actor.userId resolution.turnScope.threadId

/-- Every thread and reply target has a number that was drawn, and a remembered reset names a
participant of its thread. -/
structure Inv (state : InMemoryState) : Prop where
  threads : ∀ {key thread}, state.threads.lookup key = some thread → key.threadId.uuid < state.nextUuid
  targets : ∀ {ref target}, state.replyTargets.lookup ref = some target → ref.uuid < state.nextUuid
  resets : ∀ {key outcome}, state.bindingResets.lookup key = some outcome →
    state.Participant key.tenantId outcome.resolution.actor.userId outcome.resolution.turnScope.threadId

/-- What may become of a state: threads stay, a reply target is as it was or new, and an actor that is
unpaired or moved to another user keeps no reply target of a direct route. -/
structure Evolves (s s' : InMemoryState) : Prop where
  uuid : s.nextUuid ≤ s'.nextUuid
  threads : ∀ {key thread}, s.threads.lookup key = some thread → s'.threads.lookup key = some thread
  targets : ∀ {ref target}, s'.replyTargets.lookup ref = some target →
    s.replyTargets.lookup ref = some target ∨ s.nextUuid ≤ ref.uuid
  revoked : ∀ {actorKey userId}, s.pairings.lookup actorKey = some userId →
    s'.pairings.lookup actorKey ≠ some userId → ∀ {ref target},
      s'.replyTargets.lookup ref = some target → target.routeAccess.isDirectOwner actorKey = true →
      s.nextUuid ≤ ref.uuid

end InMemoryState

open InMemoryState

theorem InMemoryState.Inv.init : Inv .init where
  threads h := by cases h
  targets h := by cases h
  resets h := by cases h

namespace InMemoryState.Evolves

variable {s s' s'' : InMemoryState}

theorem refl (s : InMemoryState) : Evolves s s where
  uuid := le_rfl
  threads h := h
  targets h := .inl h
  revoked h hne := absurd h hne

theorem trans (h : Evolves s s') (h' : Evolves s' s'') : Evolves s s'' where
  uuid := h.uuid.trans h'.uuid
  threads ht := h'.threads (h.threads ht)
  targets ht := by
    rcases h'.targets ht with hold | hnew
    · exact h.targets hold
    · exact .inr (h.uuid.trans hnew)
  revoked := by
    intro actorKey userId hpaired hmoved ref target ht hdirect
    by_cases hstill : s'.pairings.lookup actorKey = some userId
    · exact h.uuid.trans (h'.revoked hstill hmoved ht hdirect)
    · -- moved in the first part: what is there now was there then, or is new
      rcases h'.targets ht with hold | hnew
      · exact h.revoked hpaired hstill hold hdirect
      · exact h.uuid.trans hnew

theorem participant (h : Evolves s s') {tenantId : TenantId} {userId : UserId} {threadId : ThreadId}
    (hp : s.Participant tenantId userId threadId) : s'.Participant tenantId userId threadId := by
  obtain ⟨thread, hthread, hmem⟩ := hp
  exact ⟨thread, h.threads hthread, hmem⟩

end InMemoryState.Evolves

/-! ### Calls that pair nobody -/

section mints

variable {s s' : InMemoryState}

/-- A call that leaves the pairings alone, and adds at most a thread, reply targets and a reset of its
own. -/
theorem evolves_of_mint (hinv : Inv s) (hpairings : s'.pairings = s.pairings)
    (huuid : s.nextUuid ≤ s'.nextUuid)
    (hthreads : s'.threads = s.threads ∨ ∃ key thread, s.nextUuid ≤ key.threadId.uuid ∧
      key.threadId.uuid < s'.nextUuid ∧ s'.threads = s.threads.insert key thread)
    (htargets : ∀ {ref target}, s'.replyTargets.lookup ref = some target →
      s.replyTargets.lookup ref = some target ∨ (s.nextUuid ≤ ref.uuid ∧ ref.uuid < s'.nextUuid))
    (hresets : ∀ {key outcome}, s'.bindingResets.lookup key = some outcome →
      s.bindingResets.lookup key = some outcome ∨ s'.Participant key.tenantId
        outcome.resolution.actor.userId outcome.resolution.turnScope.threadId) :
    Evolves s s' ∧ Inv s' := by
  have hkept : ∀ {key thread}, s.threads.lookup key = some thread →
      s'.threads.lookup key = some thread := by
    intro key thread hthread
    rcases hthreads with hsame | ⟨key', thread', hfresh, -, hinsert⟩
    · rw [hsame]
      exact hthread
    · rw [hinsert, Dict.lookup_insert_of_ne, hthread]
      rintro rfl
      exact absurd (hinv.threads hthread) (Nat.not_lt.2 hfresh)
  refine ⟨⟨huuid, hkept, fun ht => (htargets ht).imp_right And.left, ?_⟩, ?_, ?_, ?_⟩
  · intro actorKey userId hpaired hmoved
    rw [hpairings] at hmoved
    exact absurd hpaired hmoved
  · intro key thread hthread
    rcases hthreads with hsame | ⟨key', thread', -, hdrawn, hinsert⟩
    · rw [hsame] at hthread
      exact (hinv.threads hthread).trans_le huuid
    · rw [hinsert, Dict.lookup_insert] at hthread
      split at hthread
      next heq =>
        rw [← heq]
        exact hdrawn
      next => exact (hinv.threads hthread).trans_le huuid
  · intro ref target ht
    rcases htargets ht with hold | hnew
    · exact (hinv.targets hold).trans_le huuid
    · exact hnew.2
  · intro key outcome hreset
    rcases hresets hreset with hold | hnew
    · obtain ⟨thread, hthread, hmem⟩ := hinv.resets hold
      exact ⟨thread, hkept hthread, hmem⟩
    · exact hnew

theorem recordExternalEventRoute_eq {key : ExternalEventRouteKey}
    {identity : ExternalConversationIdentity} {userId : UserId}
    (h : s.recordExternalEventRoute key identity userId = .ok s') :
    s' = { s with externalEventRoutes := s.externalEventRoutes.insert key identity } := by
  obtain ⟨-, -, h⟩ := bind_eq_ok.1 h
  exact (pure_eq_ok.1 h).symm

theorem threadForParticipant_eq {tenantId : TenantId} {userId : UserId} {threadId : ThreadId}
    {thread : ThreadRecord} (h : s.threadForParticipant tenantId userId threadId = .ok thread) :
    s.threads.lookup ⟨tenantId, threadId⟩ = some thread ∧ userId ∈ thread.participants := by
  obtain ⟨found, hfound, h⟩ := bind_eq_ok.1 h
  obtain ⟨_, hmem, h⟩ := bind_eq_ok.1 h
  rw [← pure_eq_ok.1 h]
  exact ⟨okOr_eq_ok.1 hfound, not_not.1 (rejectIf_eq_ok.1 hmem)⟩

theorem sharedEventBinding_existing {eventKey : ExternalEventRouteKey} {actorKey : ActorKey}
    {userId : UserId} {reference : ExternalConversationRef} {agentId : Option AgentId}
    {projectId : Option ProjectId} {event : SharedEventBinding}
    (h : s.eventSharedBindings.lookup eventKey = some event) :
    s.sharedEventBinding eventKey actorKey userId reference agentId projectId = (event, s) := by
  unfold sharedEventBinding
  rw [h]

/-- The thread of an event that was not bound is one of the actor's user. -/
theorem sharedEventBinding_evolves (hinv : Inv s) (eventKey : ExternalEventRouteKey)
    (actorKey : ActorKey) (userId : UserId) (reference : ExternalConversationRef)
    (agentId : Option AgentId) (projectId : Option ProjectId) :
    (Evolves s (s.sharedEventBinding eventKey actorKey userId reference agentId projectId).2 ∧
      Inv (s.sharedEventBinding eventKey actorKey userId reference agentId projectId).2) ∧
    (s.sharedEventBinding eventKey actorKey userId reference agentId projectId).2.pairings = s.pairings ∧
    (s.eventSharedBindings.lookup eventKey = none →
      (s.sharedEventBinding eventKey actorKey userId reference agentId projectId).2.Participant
        actorKey.tenantId userId
        (s.sharedEventBinding eventKey actorKey userId reference agentId projectId).1.threadId) := by
  cases hevent : s.eventSharedBindings.lookup eventKey with
  | some existing =>
    rw [sharedEventBinding_existing hevent]
    exact ⟨⟨.refl s, hinv⟩, rfl, fun hnone => by cases hnone⟩
  | none =>
    unfold sharedEventBinding
    rw [hevent]
    refine ⟨evolves_of_mint hinv rfl (Nat.le_add_right _ _)
      (.inr ⟨_, _, Nat.le_refl _, Nat.lt_add_of_pos_right (by decide), rfl⟩) ?_ fun h => .inl h, rfl, ?_⟩
    · intro ref target ht
      rcases Dict.lookup_of_lookup_insert _ ht with hold | ⟨rfl, -⟩
      · exact .inl hold
      · exact .inr ⟨Nat.le_add_right _ 2, Nat.lt_succ_self _⟩
    · exact fun _ => ⟨_, Dict.lookup_insert_self _ _ _, Finset.mem_singleton_self _⟩

end mints

/-! ### Resolving -/

section resolving

variable {s s' : InMemoryState} {request : ResolveConversationRequest} {trusted : TrustedScope}
  {userId : UserId}

theorem checkResolve_eq {binding : Option BindingRecord}
    (h : s.checkResolve request trusted = .ok (userId, binding)) :
    s.pairings.lookup request.actorKey = some userId := by
  obtain ⟨user, huser, h⟩ := bind_eq_ok.1 h
  obtain ⟨-, -, h⟩ := bind_eq_ok.1 h
  have hsame : user = userId := by
    split at h
    next => exact (Prod.mk.inj (pure_eq_ok.1 h)).1
    next =>
      obtain ⟨-, -, h⟩ := bind_eq_ok.1 h
      obtain ⟨-, -, h⟩ := bind_eq_ok.1 h
      obtain ⟨-, -, h⟩ := bind_eq_ok.1 h
      exact (Prod.mk.inj (pure_eq_ok.1 h)).1
  rw [← hsame]
  exact okOr_eq_ok.1 huser

variable (hinv : Inv s)
include hinv

theorem recorded_evolves {key : ExternalEventRouteKey} {identity : ExternalConversationIdentity}
    (h : s.recordExternalEventRoute key identity userId = .ok s') :
    (Evolves s s' ∧ Inv s') ∧ s'.pairings = s.pairings ∧
      s'.eventSharedBindings = s.eventSharedBindings := by
  rw [recordExternalEventRoute_eq h]
  exact ⟨evolves_of_mint hinv rfl le_rfl (.inl rfl) (fun h => .inl h) fun h => .inl h, rfl, rfl⟩

theorem storeBinding_evolves {uuid : ℕ} (key : BindingKey) (tenantId : TenantId)
    (adapterKind : AdapterKind) (installation : AdapterInstallationId)
    (reference : ExternalConversationRef) (access : ReplyRouteAccess) (target : BindingTarget)
    (huuid : s.nextUuid ≤ uuid) :
    let s' := { s with nextUuid := uuid + 2 }.storeBinding key
      (.new uuid tenantId adapterKind installation reference access target)
    Evolves s s' ∧ Inv s' := by
  refine evolves_of_mint hinv rfl (Nat.le_add_right_of_le huuid) (.inl rfl) ?_ fun h => .inl h
  intro ref found hfound
  rcases Dict.lookup_of_lookup_insert _ hfound with hold | ⟨rfl, -⟩
  · exact .inl hold
  · exact .inr ⟨Nat.le_add_right_of_le huuid, Nat.lt_succ_self _⟩

/-- The event of a shared route is bound on no thread, or on one of the user. -/
def OwnEvent (s : InMemoryState) (request : ResolveConversationRequest) (userId : UserId) : Prop :=
  request.routeKind = .shared → ∀ event, s.eventSharedBindings.lookup request.eventKey = some event →
    s.Participant request.tenantId userId event.threadId

variable {answer : Except InboundTurnError ConversationBindingResolution}

theorem resolveBound_spec {binding : BindingRecord}
    (hpaired : s.pairings.lookup request.actorKey = some userId)
    (h : s.resolveBound request userId binding = (answer, s')) :
    (Evolves s s' ∧ Inv s') ∧ ∀ resolution, answer = .ok resolution → OwnEvent s request userId →
      s'.Rightful request.actorKey resolution := by
  unfold resolveBound at h
  dsimp only at h
  cases hrecord : s.recordExternalEventRoute request.eventKey request.identity userId with
  | error e =>
    rw [hrecord] at h
    cases h
    exact ⟨⟨.refl s, hinv⟩, fun _ h => by cases h⟩
  | ok recorded =>
    rw [hrecord] at h
    obtain ⟨⟨hevolves, hrecorded⟩, hpairings, hevents⟩ := recorded_evolves hinv hrecord
    cases hkind : request.routeKind with
    | shared =>
      simp only [hkind] at h
      cases h
      obtain ⟨⟨hminted, hinv'⟩, hpairings', hnew⟩ :=
        sharedEventBinding_evolves hrecorded request.eventKey request.actorKey userId
          binding.externalConversationRef binding.agentId binding.projectId
      refine ⟨⟨hevolves.trans hminted, hinv'⟩, ?_⟩
      rintro resolution hresolution hsteady
      cases hresolution
      refine ⟨?_, ?_⟩
      · rw [hpairings', hpairings]
        exact hpaired
      · cases hevent : s.eventSharedBindings.lookup request.eventKey with
        | none => exact hnew (by rw [hevents, hevent])
        | some event =>
          have hmember := hsteady hkind event hevent
          rw [sharedEventBinding_existing (by rw [hevents, hevent])]
          exact hevolves.participant hmember
    | direct =>
      simp only [hkind] at h
      cases hthread : recorded.threadForParticipant request.tenantId userId binding.threadId with
      | error e =>
        rw [hthread] at h
        cases h
        exact ⟨⟨hevolves, hrecorded⟩, fun _ h => by cases h⟩
      | ok thread =>
        rw [hthread] at h
        cases h
        refine ⟨⟨hevolves, hrecorded⟩, ?_⟩
        rintro resolution hresolution -
        cases hresolution
        refine ⟨?_, thread, threadForParticipant_eq hthread⟩
        rw [hpairings]
        exact hpaired

theorem bindShared_evolves (request : ResolveConversationRequest)
    (trusted : TrustedScope) (userId : UserId) (event : SharedEventBinding) :
    (Evolves s (s.bindShared request trusted userId event).2 ∧
      Inv (s.bindShared request trusted userId event).2) ∧
    (s.bindShared request trusted userId event).2.pairings = s.pairings :=
  ⟨storeBinding_evolves hinv _ _ _ _ _ _ _ le_rfl, rfl⟩

theorem bindDirect_evolves (request : ResolveConversationRequest)
    (trusted : TrustedScope) (userId : UserId) :
    (Evolves s (s.bindDirect request trusted userId).2 ∧ Inv (s.bindDirect request trusted userId).2) ∧
    (s.bindDirect request trusted userId).2.pairings = s.pairings ∧
    (s.bindDirect request trusted userId).2.Participant request.tenantId userId ⟨s.nextUuid⟩ := by
  refine ⟨?_, rfl, _, Dict.lookup_insert_self _ _ _, Finset.mem_singleton_self _⟩
  refine evolves_of_mint hinv rfl (Nat.le_add_right _ _)
    (.inr ⟨_, _, Nat.le_refl _, Nat.lt_add_of_pos_right (by decide), rfl⟩) ?_ fun h => .inl h
  intro ref target ht
  rcases Dict.lookup_of_lookup_insert _ ht with hold | ⟨rfl, -⟩
  · exact .inl hold
  · exact .inr ⟨Nat.le_add_right _ 2, Nat.lt_succ_self _⟩

/-- First contact: the thread is new, unless the event was bound on a route that is gone. -/
theorem firstContact_spec (request : ResolveConversationRequest)
    (trusted : TrustedScope) (userId : UserId) :
    (Evolves s (s.firstContact request trusted userId).2 ∧
      Inv (s.firstContact request trusted userId).2) ∧
    (s.firstContact request trusted userId).2.pairings = s.pairings ∧
    (s.firstContact request trusted userId).1.actor.userId = userId ∧
    (OwnEvent s request userId → (s.firstContact request trusted userId).2.Participant request.tenantId
      userId (s.firstContact request trusted userId).1.turnScope.threadId) := by
  unfold firstContact
  cases hkind : request.routeKind with
  | shared =>
    dsimp only
    obtain ⟨⟨hminted, hinv'⟩, hpairings, hnew⟩ :=
      sharedEventBinding_evolves hinv request.eventKey request.actorKey userId
        request.externalConversationRef trusted.agentId trusted.projectId
    obtain ⟨⟨hstored, hinv''⟩, hpairings'⟩ := bindShared_evolves hinv' request trusted userId _
    refine ⟨⟨hminted.trans hstored, hinv''⟩, hpairings'.trans hpairings, rfl, fun hown => ?_⟩
    refine hstored.participant ?_
    cases hevent : s.eventSharedBindings.lookup request.eventKey with
    | none => exact hnew hevent
    | some event =>
      rw [sharedEventBinding_existing hevent]
      exact hown hkind event hevent
  | direct =>
    obtain ⟨hevolves, hpairings, hparticipant⟩ := bindDirect_evolves hinv request trusted userId
    exact ⟨hevolves, hpairings, rfl, fun _ => hparticipant⟩

theorem resolveUnbound_spec (hpaired : s.pairings.lookup request.actorKey = some userId)
    (h : s.resolveUnbound request trusted userId = (answer, s')) :
    (Evolves s s' ∧ Inv s') ∧ ∀ resolution, answer = .ok resolution → OwnEvent s request userId →
      s'.Rightful request.actorKey resolution := by
  unfold resolveUnbound at h
  obtain ⟨⟨hcontact, hinv'⟩, hpairings, hactor, hparticipant⟩ :=
    firstContact_spec hinv request trusted userId
  dsimp only at h
  split at h
  next =>
    obtain ⟨rfl, rfl⟩ := Prod.mk.inj h
    exact ⟨⟨hcontact, hinv'⟩, fun _ h => by cases h⟩
  next recorded hrecorded =>
    obtain ⟨rfl, rfl⟩ := Prod.mk.inj h
    obtain ⟨⟨hevolves, hinv''⟩, hpairings', -⟩ := recorded_evolves hinv' hrecorded
    refine ⟨⟨hcontact.trans hevolves, hinv''⟩, ?_⟩
    rintro resolution hresolution hown
    cases hresolution
    unfold Rightful
    rw [hactor]
    refine ⟨?_, hevolves.participant (hparticipant hown)⟩
    rw [hpairings', hpairings]
    exact hpaired

/-- A resolve is rightful unless it finds its event on a thread of another user. -/
theorem resolveOrCreateBinding_spec (h : s.resolveOrCreateBinding request trusted = (answer, s')) :
    (Evolves s s' ∧ Inv s') ∧ ∀ resolution, answer = .ok resolution →
      (∀ userId binding, s.checkResolve request trusted = .ok (userId, binding) →
        OwnEvent s request userId) → s'.Rightful request.actorKey resolution := by
  unfold resolveOrCreateBinding at h
  split at h
  next =>
    cases h
    exact ⟨⟨.refl s, hinv⟩, fun _ h => by cases h⟩
  next userId binding hcheck =>
    obtain ⟨hevolves, hrightful⟩ := resolveBound_spec hinv (checkResolve_eq hcheck) h
    exact ⟨hevolves, fun resolution hok hown => hrightful resolution hok (hown _ _ hcheck)⟩
  next userId hcheck =>
    obtain ⟨hevolves, hrightful⟩ := resolveUnbound_spec hinv (checkResolve_eq hcheck) h
    exact ⟨hevolves, fun resolution hok hown => hrightful resolution hok (hown _ _ hcheck)⟩

omit hinv

theorem lookupBinding_spec {resolution : ConversationBindingResolution}
    (h : s.lookupBinding request = .ok resolution) : s.Rightful request.actorKey resolution := by
  obtain ⟨user, huser, h⟩ := bind_eq_ok.1 h
  obtain ⟨-, -, h⟩ := bind_eq_ok.1 h
  obtain ⟨binding, -, h⟩ := bind_eq_ok.1 h
  obtain ⟨-, -, h⟩ := bind_eq_ok.1 h
  obtain ⟨thread, hthread, h⟩ := bind_eq_ok.1 h
  obtain ⟨-, -, h⟩ := bind_eq_ok.1 h
  have hparticipant := threadForParticipant_eq hthread
  split at h
  next event hevent =>
    rw [← pure_eq_ok.1 h]
    rw [hevent] at hparticipant
    exact ⟨okOr_eq_ok.1 huser, thread, hparticipant⟩
  next hevent =>
    rw [← pure_eq_ok.1 h]
    rw [hevent] at hparticipant
    exact ⟨okOr_eq_ok.1 huser, thread, hparticipant⟩

end resolving

/-! ### Resetting, linking and accepting -/

section rotating

variable {s s' : InMemoryState}

variable {request : ResetConversationRequest}

/-- A reset that is not a replay: the new thread has the participants of the one it leaves. -/
theorem rotate_spec (hinv : Inv s) {userId : UserId}
    {current : BindingRecord} {previous : ThreadRecord}
    {answer : Except InboundTurnError ResetConversationOutcome}
    (hpaired : s.pairings.lookup request.resolveRequest.actorKey = some userId)
    (hmember : userId ∈ previous.participants)
    (h : s.rotate request userId current previous = (answer, s')) :
    (Evolves s s' ∧ Inv s') ∧ ∀ outcome, answer = .ok outcome →
      s'.Rightful request.resolveRequest.actorKey outcome.resolution := by
  have htargets : ∀ {replacement : BindingRecord} {ref : ReplyTargetBindingRef}
      {target new : ReplyTargetRecord},
      replacement.replyTargetBindingRef = ⟨s.nextUuid + 2⟩ →
      ((s.replyTargets.erase current.replyTargetBindingRef).insert
        replacement.replyTargetBindingRef new).lookup ref = some target →
      s.replyTargets.lookup ref = some target ∨
        (s.nextUuid ≤ ref.uuid ∧ ref.uuid < s.nextUuid + 3) := by
    intro replacement ref target new href ht
    rcases Dict.lookup_of_lookup_insert _ ht with hold | ⟨heq, -⟩
    · exact .inl (Dict.lookup_of_lookup_erase _ hold)
    · rw [← heq, href]
      exact .inr ⟨Nat.le_add_right _ 2, Nat.lt_succ_self _⟩
  have hthreads : ∀ thread : ThreadRecord, ∃ key record, s.nextUuid ≤ key.threadId.uuid ∧
      key.threadId.uuid < s.nextUuid + 3 ∧
      s.threads.insert ⟨request.resolveRequest.tenantId, ⟨s.nextUuid⟩⟩ thread =
        s.threads.insert key record := fun thread =>
    ⟨_, thread, Nat.le_refl _, Nat.lt_add_of_pos_right (by decide), rfl⟩
  unfold rotate at h
  dsimp only at h
  split at h
  next =>
    obtain ⟨rfl, rfl⟩ := Prod.mk.inj h
    refine ⟨evolves_of_mint hinv rfl (Nat.le_add_right _ _) (.inr (hthreads previous)) ?_ fun h => .inl h,
      fun _ h => by cases h⟩
    exact fun ht => htargets rfl ht
  next recorded hrecorded =>
    obtain ⟨rfl, rfl⟩ := Prod.mk.inj h
    rw [recordExternalEventRoute_eq hrecorded]
    have hnew := Dict.lookup_insert_self s.threads ⟨request.resolveRequest.tenantId, ⟨s.nextUuid⟩⟩ previous
    refine ⟨evolves_of_mint hinv rfl (Nat.le_add_right _ _) (.inr (hthreads previous)) ?_ ?_, ?_⟩
    · exact fun ht => htargets rfl ht
    · intro key outcome hreset
      rcases Dict.lookup_of_lookup_insert _ hreset with hold | ⟨rfl, rfl⟩
      · exact .inl hold
      · exact .inr ⟨previous, hnew, hmember⟩
    · rintro outcome houtcome
      cases houtcome
      exact ⟨hpaired, previous, hnew, hmember⟩

theorem checkResetActor_eq {userId : UserId} (h : s.checkResetActor request = .ok userId) :
    s.pairings.lookup request.resolveRequest.actorKey = some userId := by
  obtain ⟨user, huser, h⟩ := bind_eq_ok.1 h
  obtain ⟨-, -, h⟩ := bind_eq_ok.1 h
  rw [← pure_eq_ok.1 h]
  exact okOr_eq_ok.1 huser

theorem checkReset_eq {userId : UserId} {current : BindingRecord}
    {previous : ThreadRecord} (h : s.checkReset request userId = .ok (current, previous)) :
    userId ∈ previous.participants := by
  obtain ⟨found, -, h⟩ := bind_eq_ok.1 h
  obtain ⟨-, -, h⟩ := bind_eq_ok.1 h
  obtain ⟨-, -, h⟩ := bind_eq_ok.1 h
  obtain ⟨-, -, h⟩ := bind_eq_ok.1 h
  obtain ⟨thread, hthread, h⟩ := bind_eq_ok.1 h
  cases pure_eq_ok.1 h
  exact (threadForParticipant_eq hthread).2

/-- A reset is rightful unless it replays that of another user. -/
theorem resetConversationBinding_spec (hinv : Inv s)
    {answer : Except InboundTurnError ResetConversationOutcome}
    (h : s.resetConversationBinding request = (answer, s')) :
    (Evolves s s' ∧ Inv s') ∧ ∀ outcome, answer = .ok outcome →
      (∀ userId remembered, s.checkResetActor request = .ok userId →
        s.bindingResets.lookup request.resolveRequest.eventKey = some remembered →
        remembered.resolution.actor.userId = userId) →
      s'.Rightful request.resolveRequest.actorKey outcome.resolution := by
  unfold resetConversationBinding at h
  split at h
  next =>
    cases h
    exact ⟨⟨.refl s, hinv⟩, fun _ h => by cases h⟩
  next userId hactor =>
    have hpaired := checkResetActor_eq hactor
    split at h
    next remembered hremembered =>
      cases h
      refine ⟨⟨.refl s, hinv⟩, ?_⟩
      rintro outcome houtcome hsame
      cases houtcome
      refine ⟨?_, hinv.resets hremembered⟩
      rw [hsame userId remembered hactor hremembered]
      exact hpaired
    next =>
      split at h
      next =>
        cases h
        exact ⟨⟨.refl s, hinv⟩, fun _ h => by cases h⟩
      next current previous hcheck =>
        obtain ⟨hevolves, hrightful⟩ := rotate_spec hinv hpaired (checkReset_eq hcheck) h
        exact ⟨hevolves, fun outcome hok _ => hrightful outcome hok⟩

theorem linkConversationToThread_evolves (hinv : Inv s) (request : LinkConversationRequest) :
    Evolves s (s.linkConversationToThread request).2 ∧ Inv (s.linkConversationToThread request).2 := by
  unfold linkConversationToThread
  split
  next => exact ⟨.refl s, hinv⟩
  next =>
    split
    next =>
      split
      next => exact ⟨.refl s, hinv⟩
      next =>
        split
        next => exact ⟨.refl s, hinv⟩
        next => exact ⟨.refl s, hinv⟩
    next => exact storeBinding_evolves hinv _ _ _ _ _ _ _ le_rfl

theorem acceptInboundMessage_evolves (hinv : Inv s) (request : AcceptConversationMessageRequest) :
    Evolves s (s.acceptInboundMessage request).2 ∧ Inv (s.acceptInboundMessage request).2 := by
  unfold acceptInboundMessage
  split
  next => exact ⟨.refl s, hinv⟩
  next source _ =>
    split
    next => exact ⟨.refl s, hinv⟩
    next =>
      split
      next => exact ⟨.refl s, hinv⟩
      next reply _ =>
        split
        next => exact ⟨.refl s, hinv⟩
        next recorded hrecorded =>
          dsimp only
          rw [recordExternalEventRoute_eq hrecorded]
          refine evolves_of_mint hinv rfl (Nat.le_add_right _ _) (.inl rfl) ?_ fun h => .inl h
          intro ref target ht
          rcases Dict.lookup_of_lookup_insert _ ht with hold | ⟨rfl, -⟩
          · exact .inl hold
          · exact .inr ⟨Nat.le_add_right _ 1, Nat.lt_succ_self _⟩

end rotating

/-! ### Pairing -/

section pairing

variable {s : InMemoryState}

theorem revoke_targets {actorKey : ActorKey} {ref : ReplyTargetBindingRef} {target : ReplyTargetRecord}
    (h : (s.revokeDirectBindingsForActor actorKey).replyTargets.lookup ref = some target) :
    s.replyTargets.lookup ref = some target ∧ target.routeAccess.isDirectOwner actorKey = false := by
  obtain ⟨hleft, hother⟩ := (Dict.lookup_retain_eq_some _).1 h
  exact ⟨Dict.lookup_of_lookup_eraseAll _ hleft, by simpa using hother⟩

theorem unpair_evolves (hinv : Inv s) (actorKey : ActorKey) :
    Evolves s (s.unpairExternalActor actorKey) ∧ Inv (s.unpairExternalActor actorKey) := by
  refine ⟨⟨le_rfl, fun h => h, fun ht => .inl (revoke_targets ht).1, ?_⟩,
    fun h => hinv.threads h, fun ht => hinv.targets (revoke_targets ht).1, fun h => hinv.resets h⟩
  intro actorKey' userId hpaired hmoved ref target ht hdirect
  have hsame : actorKey = actorKey' := by
    by_contra hne
    refine hmoved ?_
    show (s.pairings.erase actorKey).lookup actorKey' = some userId
    rw [Dict.lookup_erase, if_neg hne]
    exact hpaired
  subst hsame
  rw [(revoke_targets ht).2] at hdirect
  cases hdirect

theorem pair_evolves (hinv : Inv s) (actorKey : ActorKey) (userId : UserId)
    (epoch : Option ExternalActorBindingEpoch) :
    Evolves s (s.pairExternalActor actorKey userId epoch) ∧
      Inv (s.pairExternalActor actorKey userId epoch) := by
  unfold pairExternalActor
  split
  next => exact ⟨.refl s, hinv⟩
  next =>
    dsimp only
    -- whether or not the actor had another user, its other pairings and the threads are kept
    have hother : ∀ {actorKey' : ActorKey} {user : UserId} {pairings : Dict ActorKey UserId},
        pairings = s.pairings → s.pairings.lookup actorKey' = some user →
        (pairings.insert actorKey userId).lookup actorKey' ≠ some user →
        actorKey = actorKey' ∧ (s.pairings.lookup actorKey).any (· ≠ userId) = true := by
      rintro actorKey' user pairings rfl hpaired hmoved
      rw [Dict.lookup_insert] at hmoved
      split at hmoved
      next heq =>
        subst heq
        rw [hpaired]
        refine ⟨rfl, ?_⟩
        simp only [Option.any_some, decide_eq_true_eq]
        exact fun hsame => hmoved (by rw [hsame])
      next => exact absurd hpaired hmoved
    split
    next =>
      refine ⟨⟨le_rfl, fun h => h, fun ht => .inl (revoke_targets ht).1, ?_⟩,
        fun h => hinv.threads h, fun ht => hinv.targets (revoke_targets ht).1, fun h => hinv.resets h⟩
      intro actorKey' user hpaired hmoved ref target ht hdirect
      obtain ⟨rfl, -⟩ := hother rfl hpaired hmoved
      rw [(revoke_targets ht).2] at hdirect
      cases hdirect
    next hkept =>
      refine ⟨⟨le_rfl, fun h => h, fun ht => .inl ht, ?_⟩,
        fun h => hinv.threads h, fun ht => hinv.targets ht, fun h => hinv.resets h⟩
      intro actorKey' user hpaired hmoved
      exact absurd (hother rfl hpaired hmoved).2 hkept

theorem unpairAll_evolves (hinv : Inv s) (actorKeys : List ActorKey) :
    Evolves s (actorKeys.foldl unpairExternalActor s) ∧
      Inv (actorKeys.foldl unpairExternalActor s) := by
  induction actorKeys generalizing s with
  | nil => exact ⟨.refl s, hinv⟩
  | cons actorKey rest ih =>
    obtain ⟨hevolves, hinv'⟩ := unpair_evolves hinv actorKey
    obtain ⟨hrest, hinv''⟩ := ih hinv'
    exact ⟨hevolves.trans hrest, hinv''⟩

end pairing

/-! ### Histories -/

/-- What the answer to a call says about its actor. -/
def Call.Rightful : (call : Call) → call.Answer → InMemoryState → Prop
  | .resolve request _, resolution, after => after.Rightful request.actorKey resolution
  | .lookup request, resolution, after => after.Rightful request.actorKey resolution
  | .reset request, outcome, after =>
    after.Rightful request.resolveRequest.actorKey outcome.resolution
  | _, _, _ => True

/-- The event of the call is not remembered for another user: a resolve of a shared route that passes
its checks does not find the event on a thread that the actor's user takes no part in, and a reset that
passes its checks does not find the event reset by another user. -/
def Call.Steady (before : InMemoryState) : Call → Prop
  | .resolve request trusted => ∀ userId binding,
      before.checkResolve request trusted = .ok (userId, binding) → OwnEvent before request userId
  | .reset request => ∀ userId remembered, before.checkResetActor request = .ok userId →
      before.bindingResets.lookup request.resolveRequest.eventKey = some remembered →
      remembered.resolution.actor.userId = userId
  | _ => True

def Call.replyTarget : Call → Option ReplyTargetBindingRef
  | .validate request => some request.replyTargetBindingRef
  | .resolveStored request => some request.replyTargetBindingRef
  | _ => none

/-- A call of a history. -/
structure Event where
  before : InMemoryState
  call : Call
  answer : Except InboundTurnError call.Answer
  after : InMemoryState

def Event.Rightful (event : Event) : Prop :=
  ∀ a, event.answer = .ok a → event.call.Rightful a event.after

/-- The calls up to a state, oldest first. -/
inductive History : List Event → InMemoryState → Prop
  | init : History [] .init
  | call {events : List Event} {s s' : InMemoryState} {c : Call}
      {answer : Except InboundTurnError c.Answer} : History events s → Serves s c answer s' →
      History (events ++ [⟨s, c, answer, s'⟩]) s'

section histories

variable {s s' : InMemoryState} {events : List Event}

theorem perform_evolves (hinv : Inv s) (call : Call) :
    Evolves s (s.perform call).2 ∧ Inv (s.perform call).2 := by
  cases call with
  | pair actorKey userId epoch => exact pair_evolves hinv actorKey userId epoch
  | unpair actorKey => exact unpair_evolves hinv actorKey
  | unpairIfOwnedBy actorKey expected =>
    show Evolves s (s.unpairExternalActorIfOwnedBy actorKey expected).2 ∧
      Inv (s.unpairExternalActorIfOwnedBy actorKey expected).2
    unfold unpairExternalActorIfOwnedBy
    split
    next => exact ⟨.refl s, hinv⟩
    next =>
      split
      next => exact ⟨.refl s, hinv⟩
      next => exact unpair_evolves hinv actorKey
  | unpairOwnedBy tenantId adapterKind installation userId => exact unpairAll_evolves hinv _
  | resolve request trusted => exact (resolveOrCreateBinding_spec hinv rfl).1
  | lookup request => exact ⟨.refl s, hinv⟩
  | reset request => exact (resetConversationBinding_spec hinv rfl).1
  | link request => exact linkConversationToThread_evolves hinv request
  | validate request => exact ⟨.refl s, hinv⟩
  | resolveStored request => exact ⟨.refl s, hinv⟩
  | accept request => exact acceptInboundMessage_evolves hinv request
  | replay lookup => exact ⟨.refl s, hinv⟩
  | submission messageRef => exact ⟨.refl s, hinv⟩
  | submissionKey messageRef =>
    show Evolves s (s.inboundMessageTurnSubmissionKey messageRef).2 ∧
      Inv (s.inboundMessageTurnSubmissionKey messageRef).2
    unfold inboundMessageTurnSubmissionKey
    split
    next => exact ⟨.refl s, hinv⟩
    next => exact evolves_of_mint hinv rfl le_rfl (.inl rfl) (fun h => .inl h) fun h => .inl h
  | rotateSubmissionKey messageRef =>
    exact evolves_of_mint hinv rfl (Nat.le_succ _) (.inl rfl) (fun h => .inl h) fun h => .inl h
  | markSubmitted messageRef response =>
    exact evolves_of_mint hinv rfl le_rfl (.inl rfl) (fun h => .inl h) fun h => .inl h

theorem serves_evolves (hinv : Inv s) {call : Call} {answer : Except InboundTurnError call.Answer}
    (h : Serves s call answer s') : Evolves s s' ∧ Inv s' := by
  cases h with
  | ran => exact perform_evolves hinv call
  | notSaved e => exact ⟨.refl s, hinv⟩
  | answerLost e => exact perform_evolves hinv call

theorem serves_rightful (hinv : Inv s) {call : Call} {answer : Except InboundTurnError call.Answer}
    (h : Serves s call answer s') (hsteady : call.Steady s) {a : call.Answer} (ha : answer = .ok a) :
    call.Rightful a s' := by
  cases h with
  | notSaved e => cases ha
  | answerLost e => cases ha
  | ran =>
    cases call with
    | resolve request trusted => exact (resolveOrCreateBinding_spec hinv rfl).2 a ha hsteady
    | lookup request => exact lookupBinding_spec ha
    | reset request => exact (resetConversationBinding_spec hinv rfl).2 a ha hsteady
    | pair => trivial
    | unpair => trivial
    | unpairIfOwnedBy => trivial
    | unpairOwnedBy => trivial
    | link => trivial
    | validate => trivial
    | resolveStored => trivial
    | accept => trivial
    | replay => trivial
    | submission => trivial
    | submissionKey => trivial
    | rotateSubmissionKey => trivial
    | markSubmitted => trivial

theorem History.evolves (h : History events s) :
    Inv s ∧ (∀ event ∈ events, Inv event.before ∧ Inv event.after ∧ Evolves event.before event.after ∧
      Evolves event.after s ∧ Serves event.before event.call event.answer event.after) ∧
    events.Pairwise fun first second => Evolves first.after second.before := by
  induction h with
  | init => exact ⟨.init, fun _ h => absurd h List.not_mem_nil, .nil⟩
  | @call events s s' c answer _ hserves ih =>
    obtain ⟨hinv, hevents, hordered⟩ := ih
    obtain ⟨hevolves, hinv'⟩ := serves_evolves hinv hserves
    refine ⟨hinv', fun event hevent => ?_, ?_⟩
    · rcases List.mem_append.1 hevent with hold | hnew
      · obtain ⟨hb, ha, hstep, hlater, hserves'⟩ := hevents event hold
        exact ⟨hb, ha, hstep, hlater.trans hevolves, hserves'⟩
      · cases List.mem_singleton.1 hnew
        exact ⟨hinv, hinv', hevolves, .refl s', hserves⟩
    · refine List.pairwise_append.2 ⟨hordered, List.pairwise_singleton _ _, fun event hevent last hlast => ?_⟩
      cases List.mem_singleton.1 hlast
      exact (hevents event hevent).2.2.2.1

/-- A reply target that is not stored under a number that was drawn does not come back. -/
theorem refused_of_absent {ref : ReplyTargetBindingRef} {call : Call}
    {answer : Except InboundTurnError call.Answer} (habsent : s.replyTargets.lookup ref = none)
    (h : Serves s call answer s') (hcall : call.replyTarget = some ref) (a : call.Answer) :
    answer ≠ .ok a := by
  intro ha
  cases h with
  | notSaved e => cases ha
  | answerLost e => cases ha
  | ran =>
    cases call with
    | validate request =>
      cases hcall
      obtain ⟨target, htarget, -⟩ := bind_eq_ok.1 ha
      rw [habsent] at htarget
      cases htarget
    | resolveStored request =>
      cases hcall
      obtain ⟨target, htarget, -⟩ := bind_eq_ok.1 ha
      rw [habsent] at htarget
      cases htarget
    | pair => cases hcall
    | unpair => cases hcall
    | unpairIfOwnedBy => cases hcall
    | unpairOwnedBy => cases hcall
    | resolve => cases hcall
    | lookup => cases hcall
    | reset => cases hcall
    | link => cases hcall
    | accept => cases hcall
    | replay => cases hcall
    | submission => cases hcall
    | submissionKey => cases hcall
    | rotateSubmissionKey => cases hcall
    | markSubmitted => cases hcall

end histories

/-- In a history whose calls do not meet an event of another user, every resolution is rightful. In any
history a reply target of a direct route that was minted before its actor was unpaired or moved to another
user is never accepted afterwards. -/
theorem actor_reaches_own_threads (events : List Event) (s : InMemoryState) (history : History events s) :
    ((∀ event ∈ events, event.call.Steady event.before) → ∀ event ∈ events, event.Rightful) ∧
    ∀ first moved rest, events = first ++ moved :: rest →
      ∀ (actorKey : ActorKey) (userId : UserId), moved.before.pairings.lookup actorKey = some userId →
        moved.after.pairings.lookup actorKey ≠ some userId →
      ∀ minted ∈ first, ∀ ref target, minted.after.replyTargets.lookup ref = some target →
        target.routeAccess.isDirectOwner actorKey = true →
      ∀ later ∈ rest, later.call.replyTarget = some ref → ∀ a, later.answer ≠ .ok a := by
  obtain ⟨-, hevents, hordered⟩ := history.evolves
  refine ⟨fun hsteady event hevent a ha => ?_, ?_⟩
  · obtain ⟨hinv, -, -, -, hserves⟩ := hevents event hevent
    exact serves_rightful hinv hserves (hsteady event hevent) ha
  rintro first moved rest rfl actorKey userId hpaired hmoved minted hminted ref target htarget hdirect
    later hlater hcall
  obtain ⟨-, hrest, hbefore⟩ := List.pairwise_append.1 hordered
  have hevolves : Evolves minted.after moved.before := hbefore minted hminted moved List.mem_cons_self
  have hafter : Evolves moved.after later.before := (List.pairwise_cons.1 hrest).1 later hlater
  have hstep : Evolves moved.before moved.after := (hevents moved (by simp)).2.2.1
  have hdrawn : ref.uuid < minted.after.nextUuid :=
    (hevents minted (List.mem_append_left _ hminted)).2.1.targets htarget
  have hdrawn' : ref.uuid < moved.before.nextUuid := hdrawn.trans_le hevolves.uuid
  -- what is stored under the number later was stored under it all the time
  have habsent : later.before.replyTargets.lookup ref = none := by
    by_contra hstored
    obtain ⟨found, hfound⟩ := Option.ne_none_iff_exists'.1 hstored
    have hthen := (hafter.targets hfound).resolve_right
      (Nat.not_le.2 (hdrawn'.trans_le hstep.uuid))
    have hprior := (hstep.targets hthen).resolve_right (Nat.not_le.2 hdrawn')
    have horigin := (hevolves.targets hprior).resolve_right (Nat.not_le.2 hdrawn)
    rw [htarget] at horigin
    cases horigin
    exact absurd (hstep.revoked hpaired hmoved hthen hdirect) (Nat.not_le.2 hdrawn')
  exact refused_of_absent habsent
    (hevents later (List.mem_append_right _ (List.mem_cons_of_mem _ hlater))).2.2.2.2 hcall

/-! ### Two short histories -/

/-- Calls one after another, where nothing fails. -/
def trace (s : InMemoryState) : List Call → List Event
  | [] => []
  | call :: rest => ⟨s, call, (s.perform call).1, (s.perform call).2⟩ :: trace (s.perform call).2 rest

theorem History.trace {events : List Event} {s : InMemoryState} (h : History events s)
    (calls : List Call) : ∃ s', History (events ++ trace s calls) s' := by
  induction calls generalizing events s with
  | nil => exact ⟨s, by simpa [Conversations.trace] using h⟩
  | cons call rest ih =>
    obtain ⟨s', hrest⟩ := ih (h.call (c := call) .ran)
    refine ⟨s', ?_⟩
    rw [List.append_assoc] at hrest
    exact hrest

def exampleRequest (routeKind : ConversationRouteKind) (event : String) : ResolveConversationRequest where
  tenantId := ⟨"tenant"⟩
  adapterKind := ⟨"telegram"⟩
  adapterInstallationId := ⟨"bot"⟩
  externalActorRef := ⟨"user", "7"⟩
  externalConversationRef := ⟨none, "chat", none, none⟩
  externalEventId := ⟨event⟩
  routeKind := routeKind

def afterCalls (s : InMemoryState) (calls : List Call) : InMemoryState :=
  calls.foldl (fun s call => (s.perform call).2) s

/-- The actor writes, resets its conversation, and moves to another user. -/
def movedAfterReset : List Call :=
  [.pair (exampleRequest .direct "first").actorKey ⟨"alice"⟩ none,
    .resolve (exampleRequest .direct "first") ⟨none, none, none⟩,
    .reset ⟨exampleRequest .direct "second", ⟨0⟩⟩,
    .pair (exampleRequest .direct "first").actorKey ⟨"bob"⟩ none]

/-- The reset is delivered again: the actor is `bob`'s, and the answer names `alice` and her thread. -/
theorem reset_replays_another_user :
    ¬ ∀ events s, History events s → ∀ event ∈ events, event.Rightful := by
  intro hall
  obtain ⟨s, history⟩ := History.init.trace
    (movedAfterReset ++ [.reset ⟨exampleRequest .direct "second", ⟨0⟩⟩])
  let state := afterCalls .init movedAfterReset
  let request : ResetConversationRequest := ⟨exampleRequest .direct "second", ⟨0⟩⟩
  have hrightful := hall _ s history ⟨state, .reset request, (state.resetConversationBinding request).1,
    (state.resetConversationBinding request).2⟩ (List.mem_of_getElem? (i := 4) rfl)
  obtain ⟨outcome, hok, halice⟩ : ∃ outcome, (state.resetConversationBinding request).1 = .ok outcome ∧
      outcome.resolution.actor.userId = ⟨"alice"⟩ := ⟨_, rfl, rfl⟩
  have hbob : (state.resetConversationBinding request).2.pairings.lookup
      (exampleRequest .direct "second").actorKey = some ⟨"bob"⟩ := rfl
  have hpaired := (hrightful outcome hok).1
  rw [halice] at hpaired
  have hsame := hbob.symm.trans hpaired
  simp at hsame

/-- An actor that writes and is unpaired: its resolution was rightful, and its reply target is refused. -/
theorem unpaired_target_refused :
    (∀ event ∈ trace .init
        [.pair (exampleRequest .direct "first").actorKey ⟨"alice"⟩ none,
          .resolve (exampleRequest .direct "first") ⟨none, none, none⟩], event.Rightful) ∧
    ∀ a, (afterCalls .init
        [.pair (exampleRequest .direct "first").actorKey ⟨"alice"⟩ none,
          .resolve (exampleRequest .direct "first") ⟨none, none, none⟩,
          .unpair (exampleRequest .direct "first").actorKey]).resolveStoredReplyTarget
      ⟨⟨"tenant"⟩, ⟨"alice"⟩, ⟨0⟩, ⟨2⟩, .ordinaryReply⟩ ≠ .ok a := by
  constructor
  · obtain ⟨s, history⟩ := History.init.trace
      [.pair (exampleRequest .direct "first").actorKey ⟨"alice"⟩ none,
        .resolve (exampleRequest .direct "first") ⟨none, none, none⟩]
    refine (actor_reaches_own_threads _ s history).1 ?_
    intro event hevent
    rcases List.mem_cons.1 hevent with rfl | hevent
    · trivial
    · cases List.mem_singleton.1 hevent
      intro userId binding _ hshared
      cases hshared
  · obtain ⟨s, history⟩ := History.init.trace
      [.pair (exampleRequest .direct "first").actorKey ⟨"alice"⟩ none,
        .resolve (exampleRequest .direct "first") ⟨none, none, none⟩,
        .unpair (exampleRequest .direct "first").actorKey,
        .resolveStored ⟨⟨"tenant"⟩, ⟨"alice"⟩, ⟨0⟩, ⟨2⟩, .ordinaryReply⟩]
    refine (actor_reaches_own_threads _ s history).2 [_, _] _ [_] rfl
      (exampleRequest .direct "first").actorKey ⟨"alice"⟩ rfl ?_ _
      (List.mem_cons_of_mem _ List.mem_cons_self) ⟨2⟩ _ rfl rfl _ List.mem_cons_self rfl
    intro hstill
    cases hstill

end Ironclaw.Conversations
