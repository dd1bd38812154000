import Ironclaw.Threads.Disjoint
import Ironclaw.Threads.InMemory

/-! # Redaction and summaries

A summary is shown while no message in its range is redacted. The range is a pair of sequences, and
coverage is computed anew at each read from the sequences that the messages have then. The only
operation that gives a message another sequence is the submission of a queued one.

`Transcript` is the service with ghosts: which summaries were made from which messages, and which
messages were redacted. -/

namespace Ironclaw.Threads

open LoopHost (ThreadScope ThreadMessageId)

/-! ### The operations -/

inductive ThreadOp where
  | ensureThread (scope : ThreadScope) (threadId : ThreadId)
  | acceptInboundMessage (messageId : ThreadMessageId) (request : AcceptInboundMessageRequest)
      (replayMetadata : InboundMessageReplayMetadata)
  | acceptSubagentResult (messageId : ThreadMessageId) (request : AcceptSubagentResultRequest)
  | acceptPreparedContext (request : PreparedContextRequest)
      (seed : Except SessionThreadError (List ThreadMessageRecord))
  | markMessageSubmitted (scope : ThreadScope) (threadId : ThreadId) (messageId : ThreadMessageId)
      (turnId turnRunId : String)
  | markMessageRejectedBusy (scope : ThreadScope) (threadId : ThreadId) (messageId : ThreadMessageId)
  | markMessageQueued (scope : ThreadScope) (threadId : ThreadId) (messageId : ThreadMessageId)
      (activeRunId : String)
  | appendAssistantDraft (scope : ThreadScope) (threadId : ThreadId) (messageId : ThreadMessageId)
      (turnRunId : String) (content : MessageContent)
  | appendFinalizedAssistantMessage (scope : ThreadScope) (threadId : ThreadId)
      (messageId : ThreadMessageId) (turnRunId : String) (content : MessageContent)
  | appendToolResultReference (scope : ThreadScope) (threadId : ThreadId) (messageId : ThreadMessageId)
      (request : AppendToolResultReferenceRequest)
  | appendCapabilityDisplayPreview (scope : ThreadScope) (threadId : ThreadId)
      (messageId : ThreadMessageId) (turnRunId : String) (preview : CapabilityDisplayPreviewEnvelope)
  | updateToolResultReference (scope : ThreadScope) (threadId : ThreadId)
      (request : UpdateToolResultReferenceRequest)
  | updateAssistantDraft (scope : ThreadScope) (threadId : ThreadId) (messageId : ThreadMessageId)
      (content : MessageContent)
  | finalizeAssistantMessage (scope : ThreadScope) (threadId : ThreadId) (messageId : ThreadMessageId)
      (content : MessageContent)
  | publishStructuredFinalizationMessage (scope : ThreadScope) (threadId : ThreadId)
      (messageId : ThreadMessageId) (turnRunId replacement : String)
      (stored : Option StructuredFinalizationRecord)
  | redactMessage (scope : ThreadScope) (threadId : ThreadId) (messageId : ThreadMessageId)
      (redactionRef : String)
  | createSummaryArtifact (summaryId : SummaryArtifactId) (request : CreateSummaryArtifactRequest)
  | deleteThread (scope : ThreadScope) (threadId : ThreadId)

/-- The state that an operation leaves. -/
def ThreadOp.run (rendering : Rendering) (state : InMemoryState) : ThreadOp → InMemoryState
  | .ensureThread scope threadId => (Threads.ensureThread state scope threadId).2
  | .acceptInboundMessage messageId request replayMetadata =>
    (acceptInboundMessageWithReplayMetadata rendering state messageId request replayMetadata).2
  | .acceptSubagentResult messageId request => (Threads.acceptSubagentResult state messageId request).2
  | .acceptPreparedContext request seed => (Threads.acceptPreparedContext state request seed).2
  | .markMessageSubmitted scope threadId messageId turnId turnRunId =>
    (onThread state scope threadId (·.markMessageSubmitted messageId turnId turnRunId)).2
  | .markMessageRejectedBusy scope threadId messageId =>
    (onThread state scope threadId (·.markMessageRejectedBusy messageId)).2
  | .markMessageQueued scope threadId messageId activeRunId =>
    (onThread state scope threadId (·.markMessageQueued messageId activeRunId)).2
  | .appendAssistantDraft scope threadId messageId turnRunId content =>
    (onThread state scope threadId (·.appendAssistantDraft messageId threadId turnRunId content)).2
  | .appendFinalizedAssistantMessage scope threadId messageId turnRunId content =>
    (checkedFirst (validateAttachmentRefs rendering [] content.attachments) state
      (onThread state scope threadId
        (·.appendFinalizedAssistantMessage messageId threadId turnRunId content))).2
  | .appendToolResultReference scope threadId messageId request =>
    (onThread state scope threadId
      (·.appendToolResultReference rendering messageId threadId request)).2
  | .appendCapabilityDisplayPreview scope threadId messageId turnRunId preview =>
    (checkedFirst ((rendering.validatePreview preview).mapError .serialization) state
      (onThread state scope threadId
        (·.appendCapabilityDisplayPreview rendering messageId threadId turnRunId preview))).2
  | .updateToolResultReference scope threadId request =>
    (onThread state scope threadId (·.updateToolResultReference rendering threadId request)).2
  | .updateAssistantDraft scope threadId messageId content =>
    (onThread state scope threadId (·.updateAssistantDraft messageId content)).2
  | .finalizeAssistantMessage scope threadId messageId content =>
    (checkedFirst (validateAttachmentRefs rendering [] content.attachments) state
      (onThread state scope threadId (·.finalizeAssistantMessage messageId content))).2
  | .publishStructuredFinalizationMessage scope threadId messageId turnRunId replacement stored =>
    (onThread state scope threadId (·.publishStructuredFinalizationMessage messageId scope threadId
      turnRunId replacement stored)).2
  | .redactMessage scope threadId messageId redactionRef =>
    (onThread state scope threadId (·.redactMessage messageId redactionRef)).2
  | .createSummaryArtifact summaryId request => (createSummaryArtifactInMemory state summaryId request).2
  | .deleteThread scope threadId => (Threads.deleteThread state scope threadId).2

/-- The ids of the rows that a prepared context adds: a replay adds none. -/
def preparedIds (state : InMemoryState) (request : PreparedContextRequest)
    (seed : Except SessionThreadError (List ThreadMessageRecord)) : List ThreadMessageId :=
  match (acceptPreparedContext state request seed).1, seed with
  | .ok ⟨_, _, false⟩, .ok rows => rows.map (·.messageId)
  | _, _ => []

/-- The ids that the operation gives to messages, where it makes some. -/
def ThreadOp.messageIds (state : InMemoryState) : ThreadOp → List ThreadMessageId
  | .acceptInboundMessage messageId _ _ => [messageId]
  | .acceptSubagentResult messageId _ => [messageId]
  | .acceptPreparedContext request seed => preparedIds state request seed
  | .appendAssistantDraft _ _ messageId _ _ => [messageId]
  | .appendFinalizedAssistantMessage _ _ messageId _ _ => [messageId]
  | .appendToolResultReference _ _ messageId _ => [messageId]
  | .appendCapabilityDisplayPreview _ _ messageId _ _ => [messageId]
  | _ => []

def ThreadOp.summaryId? : ThreadOp → Option SummaryArtifactId
  | .createSummaryArtifact summaryId _ => some summaryId
  | _ => none

/-! ### What an operation does to the messages of a thread -/

/-- The messages of a thread after an operation that adds at most the messages in `added`, and moves
at most those in `moved`. -/
structure Revises (added : List ThreadMessageId) (moved : ThreadMessageId → Prop)
    (old new : List ThreadMessageRecord) : Prop where
  ids : ∃ given, given.Sublist added ∧
    (new.map (·.messageId)).Perm (old.map (·.messageId) ++ given)
  keeps : ∀ message ∈ old, ∃ message' ∈ new, message'.messageId = message.messageId ∧
    (¬ moved message.messageId → message'.sequence = message.sequence) ∧
    (message.status = .redacted → message'.status = .redacted)

section updates

variable {added : List ThreadMessageId} {moved : ThreadMessageId → Prop}
  {messages : List ThreadMessageRecord} {p : ThreadMessageRecord → Bool}
  {edit : ThreadMessageRecord → ThreadMessageRecord}

theorem Revises.append {rows : List ThreadMessageRecord}
    (hadded : (rows.map (·.messageId)).Sublist added) :
    Revises added moved messages (messages ++ rows) := by
  refine ⟨⟨_, hadded, ?_⟩, fun other hother => ?_⟩
  · rw [List.map_append]
  · exact ⟨other, List.mem_append_left _ hother, rfl, fun _ => rfl, id⟩

theorem Revises.refl (messages : List ThreadMessageRecord) : Revises added moved messages messages := by
  have happend : Revises added moved messages (messages ++ []) := .append added.nil_sublist
  rwa [List.append_nil] at happend

variable {message : ThreadMessageRecord}

theorem map_updateFirst (hid : ∀ message, (edit message).messageId = message.messageId) :
    ∀ messages : List ThreadMessageRecord,
      (updateFirst p edit messages).map (·.messageId) = messages.map (·.messageId)
  | [] => rfl
  | message :: rest => by
    unfold updateFirst
    split
    · rw [List.map_cons, List.map_cons, hid]
    · rw [List.map_cons, List.map_cons, map_updateFirst hid rest]

/-- Each element is still there, or was the one that is changed. -/
theorem mem_updateFirst :
    ∀ {messages : List ThreadMessageRecord}, message ∈ messages →
      message ∈ updateFirst p edit messages ∨
        (messages.find? p = some message ∧ edit message ∈ updateFirst p edit messages)
  | [], h => absurd h List.not_mem_nil
  | first :: rest, h => by
    unfold updateFirst
    by_cases hp : p first = true
    · rw [if_pos hp, List.find?_cons_of_pos hp]
      rcases List.mem_cons.1 h with rfl | hrest
      · exact .inr ⟨rfl, List.mem_cons_self⟩
      · exact .inl (List.mem_cons_of_mem _ hrest)
    · rw [if_neg hp, List.find?_cons_of_neg hp]
      rcases List.mem_cons.1 h with rfl | hrest
      · exact .inl List.mem_cons_self
      · rcases mem_updateFirst hrest with hsame | ⟨hfind, hedit⟩
        · exact .inl (List.mem_cons_of_mem _ hsame)
        · exact .inr ⟨hfind, List.mem_cons_of_mem _ hedit⟩

theorem edit_mem_updateFirst :
    ∀ {messages : List ThreadMessageRecord}, messages.find? p = some message →
      edit message ∈ updateFirst p edit messages
  | first :: rest, hfind => by
    unfold updateFirst
    by_cases hp : p first = true
    · rw [List.find?_cons_of_pos hp] at hfind
      rw [if_pos hp, Option.some.inj hfind]
      exact List.mem_cons_self
    · rw [List.find?_cons_of_neg hp] at hfind
      rw [if_neg hp]
      exact List.mem_cons_of_mem _ (edit_mem_updateFirst hfind)

theorem Revises.updateFirst (hid : ∀ message, (edit message).messageId = message.messageId)
    (hedit : ∀ message, messages.find? p = some message →
      (¬ moved message.messageId → (edit message).sequence = message.sequence) ∧
        (message.status = .redacted → (edit message).status = .redacted)) :
    Revises added moved messages (updateFirst p edit messages) := by
  refine ⟨⟨[], added.nil_sublist, ?_⟩, fun message hmem => ?_⟩
  · rw [map_updateFirst hid, List.append_nil]
  · rcases mem_updateFirst hmem with hsame | ⟨hfind, hchanged⟩
    · exact ⟨message, hsame, rfl, fun _ => rfl, id⟩
    · exact ⟨_, hchanged, hid message, hedit message hfind⟩

theorem Revises.of_perm {old new sorted : List ThreadMessageRecord} (h : Revises added moved old new)
    (hperm : sorted.Perm new) : Revises added moved old sorted := by
  refine ⟨?_, fun message hmem => ?_⟩
  · obtain ⟨given, hadded, hids⟩ := h.ids
    exact ⟨given, hadded, (hperm.map (·.messageId)).trans hids⟩
  · obtain ⟨message', hmem', hkept⟩ := h.keeps message hmem
    exact ⟨message', hperm.mem_iff.2 hmem', hkept⟩

end updates

/-! ### The operations on a thread -/

/-- An edit that a message comes out of as it was, but for its content. -/
structure SamePlace (old new : ThreadMessageRecord) : Prop where
  messageId : new.messageId = old.messageId
  sequence : new.sequence = old.sequence
  redacted : old.status = .redacted → new.status = .redacted

theorem SamePlace.refl (message : ThreadMessageRecord) : SamePlace message message := ⟨rfl, rfl, id⟩

theorem SamePlace.trans {a b c : ThreadMessageRecord} (hab : SamePlace a b) (hbc : SamePlace b c) :
    SamePlace a c :=
  ⟨hbc.messageId.trans hab.messageId, hbc.sequence.trans hab.sequence, fun h => hbc.redacted (hab.redacted h)⟩

theorem editIf_samePlace {check : ThreadMessageRecord → Except SessionThreadError Unit}
    {edit : ThreadMessageRecord → ThreadMessageRecord} (message : ThreadMessageRecord)
    (hedit : check message = .ok () → SamePlace message (edit message)) :
    SamePlace message (editIf check edit message).2 := by
  unfold editIf
  split
  next => exact .refl message
  next hcheck => exact hedit hcheck

theorem mergeContent_samePlace (merge : String → Except String (Option String))
    (message : ThreadMessageRecord) : SamePlace message (mergeContent merge message).2 := by
  unfold mergeContent
  split
  next => exact .refl message
  next =>
    split
    next => exact .refl message
    next => exact .refl message
    next => exact ⟨rfl, rfl, id⟩

theorem mergeOptional_samePlace {β : Type} (merge : String → β → Except String (Option String))
    (value : Option β) (message : ThreadMessageRecord) :
    SamePlace message (mergeOptional merge value message).2 := by
  cases value with
  | none => exact .refl message
  | some value => exact mergeContent_samePlace _ message

theorem attachProviderCall_samePlace (providerCall : Option ProviderToolCallReferenceEnvelope)
    (message : ThreadMessageRecord) : SamePlace message (attachProviderCall providerCall message).2 := by
  unfold attachProviderCall
  split
  next => exact .refl message
  next => exact ⟨rfl, rfl, id⟩
  next =>
    split
    · exact .refl message
    · exact .refl message

theorem editThen_samePlace {first second : ThreadMessageRecord → Outcome ThreadMessageRecord Unit}
    (hfirst : ∀ message, SamePlace message (first message).2)
    (hsecond : ∀ message, SamePlace message (second message).2) (message : ThreadMessageRecord) :
    SamePlace message (editThen first second message).2 := by
  unfold editThen
  split
  next => exact hfirst message
  next => exact (hfirst message).trans (hsecond _)

theorem mergeToolResult_samePlace (rendering : Rendering)
    (providerCall : Option ProviderToolCallReferenceEnvelope) (envelope : ToolResultReferenceEnvelope)
    (message : ThreadMessageRecord) :
    SamePlace message (mergeToolResult rendering providerCall envelope message).2 :=
  editThen_samePlace (attachProviderCall_samePlace providerCall)
    (editThen_samePlace (mergeOptional_samePlace _ _) (mergeOptional_samePlace _ _)) message

theorem ensureUserAccepted_ne_redacted {message : ThreadMessageRecord} {attempted : String}
    (h : ensureUserAccepted message attempted = .ok ()) : message.status ≠ .redacted := by
  unfold ensureUserAccepted at h
  split at h
  next haccepted =>
    intro hredacted
    rw [hredacted] at haccepted
    exact absurd haccepted.2 (by decide)
  next => cases h

theorem ensureDraft_ne_redacted {message : ThreadMessageRecord} (h : ensureDraft message = .ok ()) :
    message.status ≠ .redacted := by
  unfold ensureDraft at h
  split at h
  next => cases h
  next hdraft =>
    intro hredacted
    exact hdraft (.inr (by rw [hredacted]; decide))

/-- What an operation on a thread leaves of it. -/
structure KeepsThread (added : List ThreadMessageId) (moved : ThreadMessageId → Prop)
    (old new : StoredThread) : Prop where
  messages : Revises added moved old.messages new.messages
  summaries : new.summaryArtifacts = old.summaryArtifacts

namespace StoredThread

variable {added : List ThreadMessageId} {moved : ThreadMessageId → Prop} (thread : StoredThread)
  {messageId : ThreadMessageId}

theorem keeps_refl : KeepsThread added moved thread thread := ⟨.refl _, rfl⟩

variable {message : ThreadMessageRecord}

theorem keeps_push (hadded : added = [message.messageId]) :
    KeepsThread added moved thread (thread.push message) :=
  ⟨.append (hadded ▸ .refl _), rfl⟩

/-- The rows come after the messages of the thread, at other sequences. -/
theorem seed_eq : ∀ (rows : List ThreadMessageRecord) (thread : StoredThread),
    ∃ placed : List ThreadMessageRecord, placed.map (·.messageId) = rows.map (·.messageId) ∧
      (thread.seed rows).messages = thread.messages ++ placed ∧
      (thread.seed rows).summaryArtifacts = thread.summaryArtifacts
  | [], thread => ⟨[], rfl, (List.append_nil _).symm, rfl⟩
  | row :: rows, thread => by
    let first := { row with sequence := thread.nextSequence }
    obtain ⟨placed, hids, hmessages, hsummaries⟩ := seed_eq rows (thread.push first)
    refine ⟨first :: placed, ?_, hmessages.trans (List.append_assoc _ [first] _), hsummaries⟩
    rw [List.map_cons, List.map_cons, hids]

theorem keeps_seed (rows : List ThreadMessageRecord) :
    KeepsThread (rows.map (·.messageId)) moved thread (thread.seed rows) := by
  obtain ⟨placed, hids, hmessages, hsummaries⟩ := seed_eq rows thread
  refine ⟨?_, hsummaries⟩
  rw [hmessages]
  exact .append (by rw [hids])

theorem keeps_editFirst {missing : SessionThreadError} {p : ThreadMessageRecord → Bool}
    {edit : ThreadMessageRecord → Outcome ThreadMessageRecord Unit}
    (hedit : ∀ message, SamePlace message (edit message).2) :
    KeepsThread added moved thread (thread.editFirst missing p edit).2 := by
  unfold editFirst
  split
  next => exact thread.keeps_refl
  next =>
    exact ⟨.updateFirst (fun message => (hedit message).messageId) fun message _ =>
      ⟨fun _ => (hedit message).sequence, (hedit message).redacted⟩, rfl⟩

omit thread in
theorem messageId_of_find {messages : List ThreadMessageRecord}
    (h : messages.find? (byId messageId) = some message) : message.messageId = messageId := by
  have hpass := List.find?_some h
  exact of_decide_eq_true hpass

theorem keeps_submit {turnId turnRunId : String}
    (hfind : thread.messages.find? (byId messageId) = some message)
    (hmoved : message.status = .queued → moved messageId) :
    KeepsThread added moved thread (thread.submit messageId message turnId turnRunId).2 := by
  have hid := messageId_of_find hfind
  unfold submit
  split
  next => exact thread.keeps_refl
  next haccepted =>
    have hvisible := ensureUserAccepted_ne_redacted haccepted
    dsimp only
    split
    next hqueued =>
      refine ⟨?_, rfl⟩
      dsimp only
      refine Revises.of_perm ?_ (List.mergeSort_perm _ _)
      refine .updateFirst (fun _ => rfl) fun other hother => ?_
      obtain rfl := Option.some.inj (hfind.symm.trans hother)
      rw [hid]
      exact ⟨fun hstays => absurd (hmoved hqueued) hstays, fun hredacted => absurd hredacted hvisible⟩
    next =>
      refine ⟨.updateFirst (fun _ => rfl) fun other hother => ?_, rfl⟩
      obtain rfl := Option.some.inj (hfind.symm.trans hother)
      exact ⟨fun _ => rfl, fun hredacted => absurd hredacted hvisible⟩

theorem keeps_markMessageSubmitted {turnId turnRunId : String}
    (hmoved : ∀ message ∈ thread.messages, message.messageId = messageId →
      message.status = .queued → moved messageId) :
    KeepsThread added moved thread (thread.markMessageSubmitted messageId turnId turnRunId).2 := by
  unfold markMessageSubmitted
  split
  next => exact thread.keeps_refl
  next message hfind =>
    split
    next => exact thread.keeps_refl
    next =>
      split
      next => exact thread.keeps_refl
      next =>
        exact thread.keeps_submit hfind
          (hmoved message (List.mem_of_find?_eq_some hfind) (messageId_of_find hfind))

theorem keeps_markMessageRejectedBusy :
    KeepsThread added moved thread (thread.markMessageRejectedBusy messageId).2 :=
  thread.keeps_editFirst fun message => editIf_samePlace message fun haccepted =>
    ⟨rfl, rfl, fun h => absurd h (ensureUserAccepted_ne_redacted haccepted)⟩

theorem keeps_markMessageQueued {activeRunId : String} :
    KeepsThread added moved thread (thread.markMessageQueued messageId activeRunId).2 :=
  thread.keeps_editFirst fun message => editIf_samePlace message fun haccepted =>
    ⟨rfl, rfl, fun h => absurd h (ensureUserAccepted_ne_redacted haccepted)⟩

variable {content : MessageContent}

theorem keeps_updateAssistantDraft :
    KeepsThread added moved thread (thread.updateAssistantDraft messageId content).2 :=
  thread.keeps_editFirst fun message => editIf_samePlace message fun _ => ⟨rfl, rfl, id⟩

theorem keeps_finalizeAssistantMessage :
    KeepsThread added moved thread (thread.finalizeAssistantMessage messageId content).2 :=
  thread.keeps_editFirst fun message => editIf_samePlace message fun hdraft =>
    ⟨rfl, rfl, fun h => absurd h (ensureDraft_ne_redacted hdraft)⟩

theorem keeps_publishStructuredFinalizationMessage {scope : ThreadScope} {threadId : ThreadId}
    {turnRunId replacement : String} {stored : Option StructuredFinalizationRecord} :
    KeepsThread added moved thread (thread.publishStructuredFinalizationMessage messageId scope threadId
      turnRunId replacement stored).2 := by
  unfold publishStructuredFinalizationMessage
  cases stored with
  | none => exact thread.keeps_refl
  | some record =>
    dsimp only
    split
    next => exact thread.keeps_refl
    next =>
      split
      next => exact thread.keeps_refl
      next =>
        refine thread.keeps_editFirst fun message => editIf_samePlace message fun _ => ?_
        split
        · exact ⟨rfl, rfl, id⟩
        · exact .refl message

theorem keeps_redactMessage {redactionRef : String} :
    KeepsThread added moved thread (thread.redactMessage messageId redactionRef).2 :=
  thread.keeps_editFirst fun _ => ⟨rfl, rfl, fun _ => rfl⟩

variable {threadId : ThreadId}

theorem keeps_appendAssistantDraft {turnRunId : String} :
    KeepsThread [messageId] moved thread
      (thread.appendAssistantDraft messageId threadId turnRunId content).2 := by
  unfold appendAssistantDraft
  split
  next => exact thread.keeps_refl
  next => exact thread.keeps_push rfl

theorem keeps_appendFinalizedAssistantMessage {turnRunId : String} :
    KeepsThread [messageId] moved thread
      (thread.appendFinalizedAssistantMessage messageId threadId turnRunId content).2 := by
  unfold appendFinalizedAssistantMessage
  dsimp only
  split
  next => exact thread.keeps_push rfl
  next existing hfind =>
    split
    next hdraft =>
      -- only the last reply of the run is changed, and it is a draft
      have hreversed : Revises [messageId] moved thread.messages.reverse
          (updateFirst (ofRun turnRunId) (finalized content) thread.messages.reverse) := by
        refine .updateFirst (fun _ => rfl) fun message hmessage => ⟨fun _ => rfl, fun hredacted => ?_⟩
        obtain rfl := Option.some.inj (hfind.symm.trans hmessage)
        rw [hdraft] at hredacted
        cases hredacted
      have hforward := hreversed.of_perm (List.reverse_perm _)
      refine ⟨⟨?_, fun message hmem => hforward.keeps message (List.mem_reverse.2 hmem)⟩, rfl⟩
      have hsame : (thread.messages.reverse.map (·.messageId)).Perm
          (thread.messages.map (·.messageId)) := (List.reverse_perm _).map _
      obtain ⟨given, hgiven, hids⟩ := hforward.ids
      exact ⟨given, hgiven, hids.trans (hsame.append_right _)⟩
    next =>
      split
      next => exact thread.keeps_refl
      next =>
        split
        next => exact thread.keeps_refl
        next => exact thread.keeps_push rfl

variable {rendering : Rendering}

theorem keeps_appendToolResultReference {request : AppendToolResultReferenceRequest} :
    KeepsThread [messageId] moved thread
      (thread.appendToolResultReference rendering messageId threadId request).2 := by
  unfold appendToolResultReference
  split
  next => exact thread.keeps_refl
  next =>
    split
    next => exact thread.keeps_refl
    next =>
      dsimp only
      split
      next => exact thread.keeps_editFirst (mergeToolResult_samePlace rendering _ _)
      next =>
        unfold appendEnvelope
        split
        next => exact thread.keeps_refl
        next => exact thread.keeps_push rfl

theorem keeps_appendCapabilityDisplayPreview {turnRunId : String}
    {preview : CapabilityDisplayPreviewEnvelope} :
    KeepsThread [messageId] moved thread
      (thread.appendCapabilityDisplayPreview rendering messageId threadId turnRunId preview).2 := by
  unfold appendCapabilityDisplayPreview
  split
  next => exact thread.keeps_refl
  next => exact thread.keeps_refl
  next =>
    split
    next => exact thread.keeps_refl
    next => exact thread.keeps_push rfl

theorem keeps_updateToolResultReference {request : UpdateToolResultReferenceRequest} :
    KeepsThread added moved thread (thread.updateToolResultReference rendering threadId request).2 :=
  thread.keeps_editFirst (mergeContent_samePlace _)

end StoredThread

/-! ### The service with its history -/

/-- The service, with what was made from what and what was redacted, and the ids that were given. -/
structure Transcript where
  state : InMemoryState
  made : List (ThreadId × SummaryArtifact × ThreadMessageId)
  redacted : List (ThreadId × ThreadMessageId)
  messageIds : List ThreadMessageId
  summaryIds : List SummaryArtifactId

def Transcript.start : Transcript := ⟨.empty, [], [], [], []⟩

/-- The messages that a summary is made from: those in its range that the model sees. -/
def sources (threadId : ThreadId) (thread : StoredThread) (summary : SummaryArtifact) :
    List (ThreadId × SummaryArtifact × ThreadMessageId) :=
  (thread.messages.filter fun message => summary.covers message && isModelContextVisible message).map
    fun message => (threadId, summary, message.messageId)

namespace Transcript

/-- What an operation adds to the summaries that were made. -/
def madeBy (h : Transcript) : ThreadOp → List (ThreadId × SummaryArtifact × ThreadMessageId)
  | .createSummaryArtifact summaryId request =>
    match (createSummaryArtifactInMemory h.state summaryId request).1, h.state.threads request.threadId with
    | .ok artifact, some thread =>
      if artifact.summaryId = summaryId then sources request.threadId thread artifact else []
    | _, _ => []
  | _ => []

def redactedBy (h : Transcript) : ThreadOp → List (ThreadId × ThreadMessageId)
  | .redactMessage scope threadId messageId redactionRef =>
    match (onThread h.state scope threadId (·.redactMessage messageId redactionRef)).1 with
    | .ok _ => [(threadId, messageId)]
    | .error _ => []
  | _ => []

def after (rendering : Rendering) (h : Transcript) (op : ThreadOp) : Transcript where
  state := op.run rendering h.state
  made := h.madeBy op ++ h.made
  redacted := h.redactedBy op ++ h.redacted
  messageIds := op.messageIds h.state ++ h.messageIds
  summaryIds := op.summaryId?.toList ++ h.summaryIds

/-- The ids that an operation gives are new and differ. -/
structure Fresh (h : Transcript) (op : ThreadOp) : Prop where
  message : ∀ messageId ∈ op.messageIds h.state, messageId ∉ h.messageIds
  apart : (op.messageIds h.state).Nodup
  summary : ∀ summaryId, op.summaryId? = some summaryId → summaryId ∉ h.summaryIds

/-- The operation submits a queued message, and so moves it. -/
def Moves (h : Transcript) (op : ThreadOp) (threadId : ThreadId) (messageId : ThreadMessageId) : Prop :=
  ∃ scope turnId turnRunId thread, op = .markMessageSubmitted scope threadId messageId turnId turnRunId ∧
    h.state.threads threadId = some thread ∧
    ∃ message ∈ thread.messages, message.messageId = messageId ∧ message.status = .queued

/-- The operation moves no message that a summary was made from. -/
def MovesNoSource (h : Transcript) (op : ThreadOp) : Prop :=
  ∀ threadId summary messageId, (threadId, summary, messageId) ∈ h.made → ¬ h.Moves op threadId messageId

/-- Runs of the service. -/
inductive Run (rendering : Rendering) (Allowed : Transcript → ThreadOp → Prop) : Transcript → Prop
  | start : Run rendering Allowed .start
  | step {h : Transcript} {op : ThreadOp} (hrun : Run rendering Allowed h) (hfresh : h.Fresh op)
      (hallowed : Allowed h op) : Run rendering Allowed (h.after rendering op)

end Transcript

/-! ### What holds along a run -/

/-- The summaries of a thread and the messages that they were made from. -/
structure Traced (h : Transcript) (threadId : ThreadId) (thread : StoredThread) : Prop where
  ids : (thread.messages.map (·.messageId)).Nodup
  used : ∀ message ∈ thread.messages, message.messageId ∈ h.messageIds
  summaryIds : (thread.summaryArtifacts.map (·.summaryId)).Nodup
  usedSummaries : ∀ summary ∈ thread.summaryArtifacts, summary.summaryId ∈ h.summaryIds
  redacted : ∀ message ∈ thread.messages, (threadId, message.messageId) ∈ h.redacted →
    message.status = .redacted
  made : ∀ summary messageId, (threadId, summary, messageId) ∈ h.made →
    summary.summaryId ∈ thread.summaryArtifacts.map (·.summaryId) →
    summary ∈ thread.summaryArtifacts ∧
      ∃ message ∈ thread.messages, message.messageId = messageId ∧ summary.covers message = true

structure Transcript.Inv (h : Transcript) : Prop where
  threads : ∀ threadId thread, h.state.threads threadId = some thread → Traced h threadId thread
  made : ∀ threadId summary messageId, (threadId, summary, messageId) ∈ h.made →
    summary.summaryId ∈ h.summaryIds ∧ messageId ∈ h.messageIds
  redacted : ∀ threadId messageId, (threadId, messageId) ∈ h.redacted → messageId ∈ h.messageIds

/-- What an operation does to a thread. -/
inductive ThreadChange (h : Transcript) (op : ThreadOp) (threadId : ThreadId) : StoredThread → Prop
  | kept {thread thread' : StoredThread}
      (hthread : h.state.threads threadId = some thread ∨ ∃ scope, thread = .minted scope)
      (hkeeps : KeepsThread (op.messageIds h.state) (h.Moves op threadId) thread thread')
      (hmade : h.madeBy op = [])
      (hredacted : ∀ messageId, (threadId, messageId) ∈ h.redactedBy op →
        ∃ message ∈ thread'.messages, message.messageId = messageId ∧ message.status = .redacted) :
      ThreadChange h op threadId thread'
  | summarized {thread : StoredThread} {summary : SummaryArtifact}
      (hthread : h.state.threads threadId = some thread)
      (hid : op.summaryId? = some summary.summaryId)
      (hmade : h.madeBy op = sources threadId thread summary) (hredacted : h.redactedBy op = []) :
      ThreadChange h op threadId
        { thread with summaryArtifacts := thread.summaryArtifacts ++ [summary] }
  | other {thread : StoredThread} (hthread : h.state.threads threadId = some thread)
      (hmade : ∀ summary messageId, (threadId, summary, messageId) ∉ h.madeBy op)
      (hredacted : ∀ messageId, (threadId, messageId) ∉ h.redactedBy op) :
      ThreadChange h op threadId thread

section change

variable {h : Transcript} {op : ThreadOp} {threadId other : ThreadId} {thread thread' : StoredThread}
  {rendering : Rendering}

variable {scope : ThreadScope}

theorem getThread_some {state : InMemoryState}
    (hget : getThread state scope threadId = .ok thread) : state.threads threadId = some thread := by
  unfold getThread at hget
  split at hget
  next => cases hget
  next stored hstored =>
    split at hget
    · cases hget
      exact hstored
    · cases hget

/-- A call on one thread leaves the others, and of its own what the call leaves of it. -/
theorem onThread_cases {α : Type} {state : InMemoryState}
    {call : StoredThread → Outcome StoredThread α}
    (hafter : (onThread state scope threadId call).2.threads other = some thread') :
    (state.threads other = some thread' ∧
        (other = threadId → ∃ e, (onThread state scope threadId call).1 = .error e)) ∨
      (other = threadId ∧ ∃ thread, state.threads threadId = some thread ∧ thread' = (call thread).2 ∧
        (onThread state scope threadId call).1 = (call thread).1) := by
  unfold onThread at hafter ⊢
  split at hafter
  next e he => exact .inl ⟨hafter, fun _ => ⟨e, rfl⟩⟩
  next thread hthread =>
    by_cases hother : other = threadId
    · subst hother
      refine .inr ⟨rfl, thread, getThread_some hthread, ?_, rfl⟩
      dsimp only at hafter
      rw [Function.update_self] at hafter
      exact (Option.some.inj hafter).symm
    · dsimp only at hafter
      rw [Function.update_of_ne hother] at hafter
      exact .inl ⟨hafter, fun h => absurd h hother⟩

theorem ThreadChange.same (hthread : h.state.threads threadId = some thread) (hmade : h.madeBy op = [])
    (hredacted : h.redactedBy op = []) : ThreadChange h op threadId thread := by
  refine .other hthread (fun _ _ => ?_) fun _ => ?_
  · rw [hmade]
    exact List.not_mem_nil
  · rw [hredacted]
    exact List.not_mem_nil

theorem ThreadChange.keeps (hthread : h.state.threads threadId = some thread ∨ ∃ scope, thread = .minted scope)
    (hkeeps : KeepsThread (op.messageIds h.state) (h.Moves op threadId) thread thread')
    (hmade : h.madeBy op = []) (hredacted : h.redactedBy op = []) : ThreadChange h op threadId thread' := by
  refine .kept hthread hkeeps hmade fun messageId hmem => ?_
  rw [hredacted] at hmem
  exact absurd hmem List.not_mem_nil

/-- One thread is put in its place, and the others stay. -/
theorem change_update (hmade : h.madeBy op = []) (hredacted : h.redactedBy op = [])
    (hthread : h.state.threads threadId = some thread ∨ ∃ scope, thread = .minted scope)
    (hkeeps : KeepsThread (op.messageIds h.state) (h.Moves op threadId) thread thread')
    {left : StoredThread}
    (hafter : Function.update h.state.threads threadId (some thread') other = some left) :
    ThreadChange h op other left := by
  by_cases hother : other = threadId
  · subst hother
    rw [Function.update_self] at hafter
    obtain rfl := Option.some.inj hafter
    exact .keeps hthread hkeeps hmade hredacted
  · rw [Function.update_of_ne hother] at hafter
    exact .same hafter hmade hredacted

theorem change_onThread {α : Type} {call : StoredThread → Outcome StoredThread α}
    (hmade : h.madeBy op = []) (hredacted : h.redactedBy op = [])
    (hcall : ∀ thread, h.state.threads threadId = some thread →
      KeepsThread (op.messageIds h.state) (h.Moves op threadId) thread (call thread).2)
    (hafter : (onThread h.state scope threadId call).2.threads other = some thread') :
    ThreadChange h op other thread' := by
  rcases onThread_cases hafter with ⟨hsame, -⟩ | ⟨rfl, thread, hthread, rfl, -⟩
  · exact .same hsame hmade hredacted
  · exact .keeps (.inl hthread) (hcall thread hthread) hmade hredacted

theorem change_checkedFirst {α : Type} {check : Except SessionThreadError Unit}
    {call : Outcome InMemoryState α} (hmade : h.madeBy op = []) (hredacted : h.redactedBy op = [])
    (hcall : call.2.threads other = some thread' → ThreadChange h op other thread')
    (hafter : (checkedFirst check h.state call).2.threads other = some thread') :
    ThreadChange h op other thread' := by
  unfold checkedFirst at hafter
  split at hafter
  next => exact .same hafter hmade hredacted
  next => exact hcall hafter

theorem threads_remember (state : InMemoryState) (key : Option InboundIdempotencyKey)
    (record : InboundIdempotencyRecord) : (state.remember key record).threads = state.threads := by
  cases key with
  | none => rfl
  | some key => rfl

variable {messageId : ThreadMessageId}

theorem change_acceptInboundMessage {request : AcceptInboundMessageRequest}
    {replayMetadata : InboundMessageReplayMetadata}
    (hafter : (acceptInboundMessageWithReplayMetadata rendering h.state messageId request
      replayMetadata).2.threads other = some thread') :
    ThreadChange h (.acceptInboundMessage messageId request replayMetadata) other thread' := by
  unfold acceptInboundMessageWithReplayMetadata at hafter
  split at hafter
  next => exact .same hafter rfl rfl
  next =>
    unfold acceptNewInbound at hafter
    split at hafter
    next => exact .same hafter rfl rfl
    next thread hthread =>
      split at hafter
      next => exact .same hafter rfl rfl
      next =>
        dsimp only at hafter
        rw [threads_remember] at hafter
        exact change_update rfl rfl (.inl (getThread_some hthread)) (thread.keeps_push rfl) hafter

theorem change_acceptSubagentResult {request : AcceptSubagentResultRequest}
    (hafter : (acceptSubagentResult h.state messageId request).2.threads other = some thread') :
    ThreadChange h (.acceptSubagentResult messageId request) other thread' := by
  unfold acceptSubagentResult at hafter
  dsimp only at hafter
  split at hafter
  next => exact .same hafter rfl rfl
  next =>
    split at hafter
    next => exact .same hafter rfl rfl
    next =>
      split at hafter
      next => exact .same hafter rfl rfl
      next thread hthread =>
        dsimp only at hafter
        rw [threads_remember] at hafter
        exact change_update rfl rfl (.inl (getThread_some hthread)) (thread.keeps_push rfl) hafter

theorem change_acceptPreparedContext {request : PreparedContextRequest}
    {seed : Except SessionThreadError (List ThreadMessageRecord)}
    (hafter : (acceptPreparedContext h.state request seed).2.threads other = some thread') :
    ThreadChange h (.acceptPreparedContext request seed) other thread' := by
  rcases seed with e | rows
  · exact .same hafter rfl rfl
  · cases hprepared : h.state.preparedContexts request.threadId with
    | some record =>
      simp only [acceptPreparedContext, hprepared] at hafter
      split at hafter
      · exact .same hafter rfl rfl
      · exact .same hafter rfl rfl
    | none =>
      simp only [acceptPreparedContext, hprepared] at hafter
      split at hafter
      next => exact .same hafter rfl rfl
      next hscope =>
        split at hafter
        next => exact .same hafter rfl rfl
        next last hlast =>
          have hids : preparedIds h.state request (.ok rows) = rows.map (·.messageId) := by
            simp only [preparedIds, acceptPreparedContext, hprepared, if_neg hscope, hlast]
          refine change_update rfl rfl ?_ (hids ▸ StoredThread.keeps_seed _ rows) hafter
          cases h.state.threads request.threadId with
          | none => exact .inr ⟨_, rfl⟩
          | some thread => exact .inl rfl

variable {redactionRef : String}

theorem mem_redactedBy {messageId redacted : ThreadMessageId}
    (hmem : (other, redacted) ∈ h.redactedBy (.redactMessage scope threadId messageId redactionRef)) :
    other = threadId ∧ redacted = messageId ∧
      ∃ row, (onThread h.state scope threadId (·.redactMessage messageId redactionRef)).1 = .ok row := by
  simp only [Transcript.redactedBy] at hmem
  split at hmem
  next row hok =>
    obtain ⟨rfl, rfl⟩ := Prod.mk.inj (List.mem_singleton.1 hmem)
    exact ⟨rfl, rfl, row, hok⟩
  next => exact absurd hmem List.not_mem_nil

theorem redactMessage_found {row : ThreadMessageRecord}
    (hok : (thread.redactMessage messageId redactionRef).1 = .ok row) :
    ∃ message ∈ thread.messages, message.messageId = messageId ∧
      StoredThread.redacted redactionRef message ∈ (thread.redactMessage messageId redactionRef).2.messages := by
  unfold StoredThread.redactMessage StoredThread.editMessage StoredThread.editFirst at hok ⊢
  cases hfind : thread.messages.find? (StoredThread.byId messageId) with
  | none =>
    rw [hfind] at hok
    cases hok
  | some message =>
    exact ⟨message, List.mem_of_find?_eq_some hfind, StoredThread.messageId_of_find hfind,
      edit_mem_updateFirst hfind⟩

theorem change_redactMessage
    (hafter : (onThread h.state scope threadId (·.redactMessage messageId redactionRef)).2.threads other =
      some thread') :
    ThreadChange h (.redactMessage scope threadId messageId redactionRef) other thread' := by
  rcases onThread_cases hafter with ⟨hsame, herror⟩ | ⟨rfl, thread, hthread, rfl, hresult⟩
  · refine .other hsame (fun _ _ => List.not_mem_nil) fun redacted hmem => ?_
    obtain ⟨hother, -, row, hok⟩ := mem_redactedBy hmem
    obtain ⟨e, he⟩ := herror hother
    rw [he] at hok
    cases hok
  · refine .kept (.inl hthread) thread.keeps_redactMessage rfl fun redacted hmem => ?_
    obtain ⟨-, rfl, row, hok⟩ := mem_redactedBy hmem
    rw [hresult] at hok
    obtain ⟨message, -, hid, hrow⟩ := redactMessage_found hok
    exact ⟨_, hrow, hid, rfl⟩

variable {request : CreateSummaryArtifactRequest} {summaryId : SummaryArtifactId}

theorem createSummary_cases :
    (∃ artifact, thread.createSummary summaryId request =
        (.ok artifact, thread) ∧ artifact ∈ thread.summaryArtifacts) ∨
      (∃ e, thread.createSummary summaryId request = (.error e, thread)) ∨
      thread.createSummary summaryId request = (.ok (request.artifact summaryId),
        { thread with summaryArtifacts := thread.summaryArtifacts ++ [request.artifact summaryId] }) := by
  unfold StoredThread.createSummary
  split
  next => exact .inr (.inl ⟨_, rfl⟩)
  next =>
    cases htest : findOverlappingSummary thread.summaryArtifacts request request.content.text with
    | error e => exact .inr (.inl ⟨e, rfl⟩)
    | ok found =>
      cases found with
      | none => exact .inr (.inr rfl)
      | some overlapping => exact .inl ⟨overlapping, rfl, (findOverlappingSummary_found htest).1⟩

theorem madeBy_error {e : SessionThreadError}
    (herror : (createSummaryArtifactInMemory h.state summaryId request).1 = .error e) :
    h.madeBy (.createSummaryArtifact summaryId request) = [] := by
  simp only [Transcript.madeBy, herror]

theorem madeBy_ok {artifact : SummaryArtifact}
    (hthread : h.state.threads request.threadId = some thread)
    (hok : (createSummaryArtifactInMemory h.state summaryId request).1 = .ok artifact) :
    h.madeBy (.createSummaryArtifact summaryId request) =
      if artifact.summaryId = summaryId then sources request.threadId thread artifact else [] := by
  simp only [Transcript.madeBy, hok, hthread]

theorem madeBy_thread {summary : SummaryArtifact}
    (hmem : (other, summary, messageId) ∈ h.madeBy (.createSummaryArtifact summaryId request)) :
    other = request.threadId ∧ summary.summaryId = summaryId ∧ ∃ thread,
      h.state.threads request.threadId = some thread ∧
        ∃ message ∈ thread.messages, message.messageId = messageId := by
  simp only [Transcript.madeBy] at hmem
  split at hmem
  next artifact thread _ hthread =>
    split at hmem
    next hid =>
      obtain ⟨message, hmessage, heq⟩ := List.mem_map.1 hmem
      cases heq
      exact ⟨rfl, hid, thread, hthread, message, (List.mem_filter.1 hmessage).1, rfl⟩
    next => exact absurd hmem List.not_mem_nil
  next => exact absurd hmem List.not_mem_nil

theorem change_createSummaryArtifact (hinv : h.Inv) (hfresh : summaryId ∉ h.summaryIds)
    (hafter : (createSummaryArtifactInMemory h.state summaryId request).2.threads other = some thread') :
    ThreadChange h (.createSummaryArtifact summaryId request) other thread' := by
  by_cases hrange : request.startSequence = 0 ∨ request.endSequence < request.startSequence
  · have hcall : createSummaryArtifactInMemory h.state summaryId request =
        (.error (.invalidSummaryRange request.startSequence request.endSequence), h.state) := if_pos hrange
    rw [hcall] at hafter
    exact .same hafter (madeBy_error (by rw [hcall])) rfl
  · have hcall : createSummaryArtifactInMemory h.state summaryId request =
        onThread h.state request.scope request.threadId (·.createSummary summaryId request) := if_neg hrange
    rw [hcall] at hafter
    rcases onThread_cases hafter with ⟨hsame, herror⟩ | ⟨rfl, thread, hthread, rfl, hresult⟩
    · refine .other hsame (fun summary messageId hmem => ?_) fun _ => List.not_mem_nil
      obtain ⟨e, he⟩ := herror (madeBy_thread hmem).1
      rw [madeBy_error (by rw [hcall, he])] at hmem
      exact List.not_mem_nil hmem
    · rw [← hcall] at hresult
      rcases createSummary_cases with ⟨artifact, heq, hstored⟩ | ⟨e, heq⟩ | heq
      · rw [heq] at hresult ⊢
        have hid : artifact.summaryId ≠ summaryId := by
          rintro rfl
          exact hfresh ((hinv.threads _ thread hthread).usedSummaries artifact hstored)
        refine .same hthread ?_ rfl
        rw [madeBy_ok hthread hresult, if_neg hid]
      · rw [heq] at hresult ⊢
        exact .same hthread (madeBy_error hresult) rfl
      · rw [heq] at hresult ⊢
        refine .summarized hthread rfl ?_ rfl
        rw [madeBy_ok hthread hresult]
        exact if_pos rfl

/-- What an operation does to each of the threads there are after it. -/
theorem change_after (hinv : h.Inv) (hfresh : h.Fresh op)
    (hafter : (op.run rendering h.state).threads other = some thread') :
    ThreadChange h op other thread' := by
  cases op with
  | ensureThread scope threadId =>
    simp only [ThreadOp.run, Threads.ensureThread] at hafter
    split at hafter
    next =>
      split at hafter
      next => exact .same hafter rfl rfl
      next => exact .same hafter rfl rfl
    next =>
      exact change_update rfl rfl (.inr ⟨scope, rfl⟩) (StoredThread.keeps_refl _) hafter
  | acceptInboundMessage messageId request replayMetadata => exact change_acceptInboundMessage hafter
  | acceptSubagentResult messageId request => exact change_acceptSubagentResult hafter
  | acceptPreparedContext request seed => exact change_acceptPreparedContext hafter
  | markMessageSubmitted scope threadId messageId turnId turnRunId =>
    refine change_onThread rfl rfl (fun thread hthread => ?_) hafter
    exact thread.keeps_markMessageSubmitted fun message hmem hid hqueued =>
      ⟨scope, turnId, turnRunId, thread, rfl, hthread, message, hmem, hid, hqueued⟩
  | markMessageRejectedBusy scope threadId messageId =>
    exact change_onThread rfl rfl (fun thread _ => thread.keeps_markMessageRejectedBusy) hafter
  | markMessageQueued scope threadId messageId activeRunId =>
    exact change_onThread rfl rfl (fun thread _ => thread.keeps_markMessageQueued) hafter
  | appendAssistantDraft scope threadId messageId turnRunId content =>
    exact change_onThread rfl rfl (fun thread _ => thread.keeps_appendAssistantDraft) hafter
  | appendFinalizedAssistantMessage scope threadId messageId turnRunId content =>
    exact change_checkedFirst rfl rfl
      (change_onThread rfl rfl fun thread _ => thread.keeps_appendFinalizedAssistantMessage) hafter
  | appendToolResultReference scope threadId messageId request =>
    exact change_onThread rfl rfl (fun thread _ => thread.keeps_appendToolResultReference) hafter
  | appendCapabilityDisplayPreview scope threadId messageId turnRunId preview =>
    exact change_checkedFirst rfl rfl
      (change_onThread rfl rfl fun thread _ => thread.keeps_appendCapabilityDisplayPreview) hafter
  | updateToolResultReference scope threadId request =>
    exact change_onThread rfl rfl (fun thread _ => thread.keeps_updateToolResultReference) hafter
  | updateAssistantDraft scope threadId messageId content =>
    exact change_onThread rfl rfl (fun thread _ => thread.keeps_updateAssistantDraft) hafter
  | finalizeAssistantMessage scope threadId messageId content =>
    exact change_checkedFirst rfl rfl
      (change_onThread rfl rfl fun thread _ => thread.keeps_finalizeAssistantMessage) hafter
  | publishStructuredFinalizationMessage scope threadId messageId turnRunId replacement stored =>
    exact change_onThread rfl rfl
      (fun thread _ => thread.keeps_publishStructuredFinalizationMessage) hafter
  | redactMessage scope threadId messageId redactionRef => exact change_redactMessage hafter
  | createSummaryArtifact summaryId request =>
    exact change_createSummaryArtifact hinv (hfresh.summary summaryId rfl) hafter
  | deleteThread scope threadId =>
    simp only [ThreadOp.run, Threads.deleteThread] at hafter
    split at hafter
    next => exact .same hafter rfl rfl
    next =>
      dsimp only at hafter
      by_cases hother : other = threadId
      · subst hother
        rw [Function.update_self] at hafter
        cases hafter
      · rw [Function.update_of_ne hother] at hafter
        exact .same hafter rfl rfl

end change

/-! ### One step -/

section step

variable {h : Transcript} {op : ThreadOp} {threadId : ThreadId} {thread thread' : StoredThread}
  {rendering : Rendering}

theorem messageIds_after {messageId : ThreadMessageId} (hmem : messageId ∈ h.messageIds) :
    messageId ∈ (h.after rendering op).messageIds :=
  List.mem_append_right _ hmem

theorem summaryIds_after {summaryId : SummaryArtifactId} (hmem : summaryId ∈ h.summaryIds) :
    summaryId ∈ (h.after rendering op).summaryIds :=
  List.mem_append_right _ hmem

theorem Revises.nodup {moved : ThreadMessageId → Prop} {old new : List ThreadMessageRecord}
    (hrevises : Revises (op.messageIds h.state) moved old new) (hfresh : h.Fresh op)
    (hids : (old.map (·.messageId)).Nodup) (hused : ∀ message ∈ old, message.messageId ∈ h.messageIds) :
    (new.map (·.messageId)).Nodup := by
  obtain ⟨given, hadded, hmore⟩ := hrevises.ids
  refine hmore.nodup_iff.2 (hids.append (hfresh.apart.sublist hadded) fun id hold hnew => ?_)
  obtain ⟨message, hmem, rfl⟩ := List.mem_map.1 hold
  exact hfresh.message _ (hadded.subset hnew) (hused message hmem)

theorem Revises.source {moved : ThreadMessageId → Prop} {old new : List ThreadMessageRecord}
    {message : ThreadMessageRecord} (hrevises : Revises (op.messageIds h.state) moved old new)
    (hmem : message ∈ new) :
    (∃ prior ∈ old, prior.messageId = message.messageId) ∨
      message.messageId ∈ op.messageIds h.state := by
  have hid := List.mem_map_of_mem (f := (·.messageId)) hmem
  obtain ⟨given, hadded, hmore⟩ := hrevises.ids
  rcases List.mem_append.1 (hmore.mem_iff.1 hid) with hold | hnew
  · exact .inl (List.mem_map.1 hold)
  · exact .inr (hadded.subset hnew)

/-- A thread that an operation keeps stays traced, unless it moves a source. -/
theorem Traced.kept (htraced : Traced h threadId thread) (hinv : h.Inv) (hfresh : h.Fresh op)
    (hquiet : h.MovesNoSource op)
    (hkeeps : KeepsThread (op.messageIds h.state) (h.Moves op threadId) thread thread')
    (hmade : h.madeBy op = [])
    (hredacted : ∀ messageId, (threadId, messageId) ∈ h.redactedBy op →
      ∃ message ∈ thread'.messages, message.messageId = messageId ∧ message.status = .redacted) :
    Traced (h.after rendering op) threadId thread' := by
  have hids := hkeeps.messages.nodup hfresh htraced.ids htraced.used
  have hunique : ∀ {a b : ThreadMessageRecord}, a ∈ thread'.messages → b ∈ thread'.messages →
      a.messageId = b.messageId → a = b := fun ha hb => List.inj_on_of_nodup_map hids ha hb
  refine ⟨hids, fun message hmem => ?_, ?_, fun summary hmem => ?_, fun message hmem hlog => ?_, ?_⟩
  · rcases hkeeps.messages.source hmem with ⟨prior, hprior, hsame⟩ | hadded
    · exact messageIds_after (hsame ▸ htraced.used prior hprior)
    · exact List.mem_append_left _ hadded
  · rw [hkeeps.summaries]
    exact htraced.summaryIds
  · rw [hkeeps.summaries] at hmem
    exact summaryIds_after (htraced.usedSummaries summary hmem)
  · rcases List.mem_append.1 hlog with hnew | hold
    · obtain ⟨found, hfound, hsame, hstatus⟩ := hredacted _ hnew
      rw [← hunique hfound hmem hsame]
      exact hstatus
    · rcases hkeeps.messages.source hmem with ⟨prior, hprior, hsame⟩ | hadded
      · obtain ⟨found, hfound, hid, -, hstays⟩ := hkeeps.messages.keeps prior hprior
        rw [← hunique hfound hmem (hid.trans hsame)]
        exact hstays (htraced.redacted prior hprior (hsame ▸ hold))
      · exact absurd (hinv.redacted _ _ hold) (hfresh.message _ hadded)
  · intro summary messageId hlog hstored
    rw [hkeeps.summaries] at hstored ⊢
    change _ ∈ h.madeBy op ++ h.made at hlog
    rw [hmade, List.nil_append] at hlog
    obtain ⟨hmem, message, hmessage, rfl, hcovers⟩ := htraced.made summary messageId hlog hstored
    obtain ⟨message', hmem', hid, hplace, -⟩ := hkeeps.messages.keeps message hmessage
    have hsequence := hplace (hquiet threadId summary message.messageId hlog)
    refine ⟨hmem, message', hmem', hid, ?_⟩
    simpa only [SummaryArtifact.covers, hsequence] using hcovers

/-- A thread stays traced when a summary is added. -/
theorem Traced.summarized {summary : SummaryArtifact} (htraced : Traced h threadId thread) (hinv : h.Inv)
    (hfresh : h.Fresh op) (hid : op.summaryId? = some summary.summaryId)
    (hmade : h.madeBy op = sources threadId thread summary) (hredacted : h.redactedBy op = []) :
    Traced (h.after rendering op) threadId
      { thread with summaryArtifacts := thread.summaryArtifacts ++ [summary] } := by
  have hnew := hfresh.summary _ hid
  refine ⟨htraced.ids, fun message hmem => messageIds_after (htraced.used message hmem), ?_,
    fun other hmem => ?_, fun message hmem hlog => ?_, fun other messageId hlog hstored => ?_⟩
  · rw [List.map_append]
    refine htraced.summaryIds.append (List.nodup_singleton _) fun id hold hlast => ?_
    obtain ⟨other, hmem, rfl⟩ := List.mem_map.1 hold
    have hsame : other.summaryId = summary.summaryId := List.mem_singleton.1 hlast
    exact hnew (hsame ▸ htraced.usedSummaries other hmem)
  · rcases List.mem_append.1 hmem with hold | hlast
    · exact summaryIds_after (htraced.usedSummaries other hold)
    · rw [List.mem_singleton.1 hlast]
      refine List.mem_append_left _ ?_
      rw [hid]
      exact List.mem_singleton_self _
  · change _ ∈ h.redactedBy op ++ h.redacted at hlog
    rw [hredacted, List.nil_append] at hlog
    exact htraced.redacted message hmem hlog
  · change _ ∈ h.madeBy op ++ h.made at hlog
    rcases List.mem_append.1 hlog with hlog | hlog
    · rw [hmade] at hlog
      obtain ⟨message, hmessage, heq⟩ := List.mem_map.1 hlog
      cases heq
      obtain ⟨hmem, hseen⟩ := List.mem_filter.1 hmessage
      exact ⟨List.mem_append_right _ (List.mem_singleton_self _), message, hmem, rfl,
        (Bool.and_eq_true_iff.1 hseen).1⟩
    · have hknown := (hinv.made threadId other messageId hlog).1
      rw [List.map_append] at hstored
      rcases List.mem_append.1 hstored with hstored | hlast
      · obtain ⟨hmem, hmessage⟩ := htraced.made other messageId hlog hstored
        exact ⟨List.mem_append_left _ hmem, hmessage⟩
      · have hsame : other.summaryId = summary.summaryId := List.mem_singleton.1 hlast
        exact absurd (hsame ▸ hknown) hnew

theorem Traced.minted (scope : ThreadScope) : Traced h threadId (.minted scope) := by
  refine ⟨List.nodup_nil, fun _ hmem => ?_, List.nodup_nil, fun _ hmem => ?_, fun _ hmem => ?_,
    fun _ _ _ hmem => ?_⟩
  all_goals exact absurd hmem List.not_mem_nil

theorem Traced.change (hinv : h.Inv) (hfresh : h.Fresh op) (hquiet : h.MovesNoSource op)
    (hchange : ThreadChange h op threadId thread') : Traced (h.after rendering op) threadId thread' := by
  cases hchange with
  | kept hthread hkeeps hmade hredacted =>
    refine Traced.kept ?_ hinv hfresh hquiet hkeeps hmade hredacted
    rcases hthread with hthread | ⟨scope, rfl⟩
    · exact hinv.threads threadId _ hthread
    · exact .minted scope
  | summarized hthread hid hmade hredacted =>
    exact (hinv.threads threadId _ hthread).summarized hinv hfresh hid hmade hredacted
  | other hthread hmade hredacted =>
    have htraced := hinv.threads threadId _ hthread
    refine ⟨htraced.ids, fun message hmem => messageIds_after (htraced.used message hmem),
      htraced.summaryIds, fun summary hmem => summaryIds_after (htraced.usedSummaries summary hmem),
      fun message hmem hlog => ?_, fun summary messageId hlog => ?_⟩
    · rcases List.mem_append.1 hlog with hlog | hlog
      · exact absurd hlog (hredacted message.messageId)
      · exact htraced.redacted message hmem hlog
    · rcases List.mem_append.1 hlog with hlog | hlog
      · exact absurd hlog (hmade summary messageId)
      · exact htraced.made summary messageId hlog

theorem Transcript.Inv.step (hinv : h.Inv) (hfresh : h.Fresh op) (hquiet : h.MovesNoSource op) :
    (h.after rendering op).Inv := by
  refine ⟨fun threadId thread hthread => ?_, fun threadId summary messageId hlog => ?_,
    fun threadId messageId hlog => ?_⟩
  · exact Traced.change hinv hfresh hquiet (change_after hinv hfresh hthread)
  · rcases List.mem_append.1 hlog with hlog | hlog
    · cases op with
      | createSummaryArtifact summaryId request =>
        obtain ⟨-, rfl, thread, hthread, message, hmem, rfl⟩ := madeBy_thread hlog
        exact ⟨List.mem_cons_self, messageIds_after ((hinv.threads _ thread hthread).used message hmem)⟩
      | _ => exact absurd hlog List.not_mem_nil
    · obtain ⟨hsummary, hmessage⟩ := hinv.made threadId summary messageId hlog
      exact ⟨summaryIds_after hsummary, messageIds_after hmessage⟩
  · rcases List.mem_append.1 hlog with hlog | hlog
    · cases op with
      | redactMessage scope redactedThread redactedMessage redactionRef =>
        obtain ⟨rfl, rfl, row, hok⟩ := mem_redactedBy hlog
        unfold onThread at hok
        split at hok
        next => cases hok
        next thread hthread =>
          obtain ⟨message, hmem, rfl, -⟩ := redactMessage_found hok
          exact messageIds_after ((hinv.threads _ thread (getThread_some hthread)).used message hmem)
      | _ => exact absurd hlog List.not_mem_nil
    · exact messageIds_after (hinv.redacted threadId messageId hlog)

end step

theorem Transcript.Run.inv {rendering : Rendering} {h : Transcript}
    (hrun : Transcript.Run rendering Transcript.MovesNoSource h) : h.Inv := by
  induction hrun with
  | start =>
    refine ⟨fun _ _ hthread => ?_, fun _ _ _ hlog => ?_, fun _ _ hlog => ?_⟩
    · cases hthread
    · exact absurd hlog List.not_mem_nil
    · exact absurd hlog List.not_mem_nil
  | step _ hfresh hquiet ih => exact ih.step hfresh hquiet

/-! ### What the reads show -/

section reads

variable {rendering : Rendering} {messages : List ThreadMessageRecord} {summaries : List SummaryArtifact}

theorem foldl_newerBarrier {barrier : SummaryArtifact} :
    ∀ {summaries : List SummaryArtifact} {best : Option SummaryArtifact},
      summaries.foldl newerBarrier best = some barrier → barrier ∈ summaries ∨ best = some barrier
  | [], _, h => .inr h
  | summary :: rest, best, h => by
    rw [List.foldl_cons] at h
    rcases foldl_newerBarrier h with hrest | hbest
    · exact .inl (List.mem_cons_of_mem _ hrest)
    · unfold newerBarrier at hbest
      split at hbest
      next =>
        obtain rfl := Option.some.inj hbest
        exact .inl List.mem_cons_self
      next prior =>
        split at hbest
        · obtain rfl := Option.some.inj hbest
          exact .inl List.mem_cons_self
        · exact .inr hbest

theorem newestContextBarrier_eligible {eligible : SummaryArtifact → Bool} {barrier : SummaryArtifact}
    (h : newestContextBarrier summaries eligible = some barrier) :
    barrier ∈ summaries ∧ eligible barrier = true := by
  rcases foldl_newerBarrier h with hmem | hnone
  · obtain ⟨hstored, hpass⟩ := List.mem_filter.1 hmem
    exact ⟨hstored, (of_decide_eq_true hpass).2⟩
  · cases hnone

variable {context : ContextMessage}

/-- The summaries in a context are among those that may replace ranges. -/
theorem replaceRanges_summary {summaryId : SummaryArtifactId}
    (hid : context.summaryId = some summaryId) :
    ∀ {messages : List ThreadMessageRecord} {skipThrough : ℕ} {emitted : List SummaryArtifactId},
      context ∈ replaceRanges rendering summaries messages skipThrough emitted →
      ∃ summary ∈ summaries, summary.summaryId = summaryId
  | [], _, _, hmem => absurd hmem List.not_mem_nil
  | message :: rest, skipThrough, emitted, hmem => by
    unfold replaceRanges at hmem
    split at hmem
    next => exact replaceRanges_summary hid hmem
    next =>
      split at hmem
      next summary hfind =>
        rcases List.mem_cons.1 hmem with rfl | hrest
        · exact ⟨summary, List.mem_of_find?_eq_some hfind, Option.some.inj hid⟩
        · exact replaceRanges_summary hid hrest
      next =>
        dsimp only at hmem
        split at hmem
        next =>
          rcases List.mem_cons.1 hmem with rfl | hrest
          · cases hid
          · exact replaceRanges_summary hid hrest
        next => exact replaceRanges_summary hid hmem

/-- A summary that covers hidden content is in no context. -/
theorem context_summary_visible {summaryId : SummaryArtifactId}
    (hid : context.summaryId = some summaryId)
    (hmem : context ∈ contextMessagesWithSummaryReplacements rendering messages summaries) :
    ∃ summary ∈ summaries, summary.summaryId = summaryId ∧
      summaryCoversHiddenContent messages summary = false := by
  unfold contextMessagesWithSummaryReplacements at hmem
  split at hmem
  next barrier hbarrier =>
    rcases List.mem_cons.1 hmem with rfl | hrest
    · obtain ⟨hstored, hvisible⟩ := newestContextBarrier_eligible hbarrier
      exact ⟨barrier, hstored, Option.some.inj hid, by simpa using hvisible⟩
    · obtain ⟨message, -, hmessage⟩ := List.mem_filterMap.1 hrest
      obtain ⟨content, -, rfl⟩ := Option.map_eq_some_iff.1 hmessage
      cases hid
  next =>
    obtain ⟨summary, hsorted, hsame⟩ := replaceRanges_summary hid hmem
    obtain ⟨hstored, hpass⟩ := List.mem_filter.1 ((List.mergeSort_perm _ _).mem_iff.1 hsorted)
    exact ⟨summary, hstored, hsame, by simpa using (of_decide_eq_true hpass).2⟩

theorem mem_truncateContextWindow {contexts : List ContextMessage}
    {maxMessages : ℕ} (hmem : context ∈ (truncateContextWindow contexts maxMessages).1) :
    context ∈ contexts := by
  unfold truncateContextWindow at hmem
  split at hmem
  · exact hmem
  · exact List.mem_of_mem_drop hmem

end reads

/-- Along every run that moves no message a summary was made from: once a message has been redacted,
no context window holds a summary that was made from it, and the history shows such a summary as
redacted. -/
theorem redaction_reaches_summaries {rendering : Rendering} {h : Transcript}
    (hrun : Transcript.Run rendering Transcript.MovesNoSource h) {threadId : ThreadId}
    {summary : SummaryArtifact} {messageId : ThreadMessageId}
    (hmade : (threadId, summary, messageId) ∈ h.made) (hredacted : (threadId, messageId) ∈ h.redacted) :
    (∀ scope maxMessages window, loadContextWindow rendering h.state scope threadId maxMessages = .ok window →
        ∀ context ∈ window.messages, context.summaryId ≠ some summary.summaryId) ∧
      ∀ scope history, listThreadHistory h.state scope threadId = .ok history →
        ∀ artifact ∈ history.summaryArtifacts, artifact.summaryId = summary.summaryId →
          artifact.content = redactedSummaryContent := by
  -- the summary that is stored under the id has a redacted message in its range
  have hcovered : ∀ thread stored, h.state.threads threadId = some thread →
      stored ∈ thread.summaryArtifacts → stored.summaryId = summary.summaryId →
      ∃ message ∈ thread.messages, stored.covers message = true ∧ message.status = .redacted := by
    intro thread stored hthread hstored hid
    have htraced := hrun.inv.threads threadId thread hthread
    have hlisted := List.mem_map_of_mem (f := (·.summaryId)) hstored
    obtain ⟨hmem, message, hmessage, rfl, hcovers⟩ := htraced.made summary messageId hmade (hid ▸ hlisted)
    obtain rfl := List.inj_on_of_nodup_map htraced.summaryIds hstored hmem hid
    exact ⟨message, hmessage, hcovers, htraced.redacted message hmessage hredacted⟩
  constructor
  · intro scope maxMessages window hload context hcontext hid
    unfold loadContextWindow at hload
    split at hload
    next => cases hload
    next thread hthread =>
      obtain rfl := Except.ok.inj hload
      obtain ⟨stored, hstored, hsame, hvisible⟩ :=
        context_summary_visible hid (mem_truncateContextWindow hcontext)
      obtain ⟨message, hmessage, hcovers, hstatus⟩ :=
        hcovered thread stored (getThread_some hthread) hstored hsame
      have hhidden : summaryCoversHiddenContent thread.messages stored = true := by
        refine List.any_eq_true.2 ⟨message, hmessage, ?_⟩
        simp [hcovers, isModelContextVisible, isModelVisible, isRedactedOrDeleted, hstatus]
      rw [hvisible] at hhidden
      cases hhidden
  · intro scope history hlist artifact hartifact hid
    unfold listThreadHistory at hlist
    split at hlist
    next => cases hlist
    next thread hthread =>
      obtain rfl := Except.ok.inj hlist
      obtain ⟨stored, hstored, rfl⟩ := List.mem_map.1 hartifact
      have hsame : stored.summaryId = summary.summaryId := by
        split at hid
        · exact hid
        · exact hid
      obtain ⟨message, hmessage, hcovers, hstatus⟩ :=
        hcovered thread stored (getThread_some hthread) hstored hsame
      have hredactedRange : summaryCoversRedactedOrDeletedContent thread.messages stored = true := by
        refine List.any_eq_true.2 ⟨message, hmessage, ?_⟩
        simp [hcovers, isRedactedOrDeleted, hstatus]
      rw [if_pos hredactedRange]

/-! ### A message that is moved -/

section moved

/-- Contents as they are, and no envelopes. -/
def plainRendering : Rendering where
  debugText := id
  augmentModelContent content _ := content
  validateProviderCall _ := .ok ()
  newBestEffortModelObservation resultRef safeSummary observation :=
    .ok ⟨resultRef, safeSummary, observation, none⟩
  envelopeJson envelope := .ok envelope.safeSummary
  mergeModelObservationContentIfAbsent _ _ := .ok none
  mergeIntrinsicOutcomeContentIfAbsent _ _ := .ok none
  withSafeSummary _ summary := .ok summary
  validatePreview _ := .ok ()
  invocationIdFromJson _ := .ok none
  previewJson preview := .ok preview.payload

def secretScope : ThreadScope := ⟨⟨"tenant"⟩, ⟨"agent"⟩, none, none, none⟩

def secretThread : ThreadId := ⟨"thread"⟩

def secretMessage : ThreadMessageId := ⟨1⟩

/-- A compaction of the first message. -/
def secretSummary : CreateSummaryArtifactRequest where
  scope := secretScope
  threadId := secretThread
  startSequence := 1
  endSequence := 1
  summaryKind := .compaction
  content := ⟨"the password is 1234", []⟩
  modelContextPolicy := some .replaceRangeWhenSelected
  contextMode := some .cumulativeBarrier

def ensuring : ThreadOp := .ensureThread secretScope secretThread

def accepting : ThreadOp :=
  .acceptInboundMessage secretMessage
    ⟨secretScope, secretThread, "actor", none, none, none, ⟨"my password is 1234", []⟩⟩ ⟨none⟩

def summarizing : ThreadOp := .createSummaryArtifact ⟨1⟩ secretSummary

def queueing : ThreadOp := .markMessageQueued secretScope secretThread secretMessage "run"

def submitting : ThreadOp := .markMessageSubmitted secretScope secretThread secretMessage "turn" "run"

def redacting : ThreadOp := .redactMessage secretScope secretThread secretMessage "request"

/-- The message is accepted, and a compaction summarizes it. -/
def secretSummarized : Transcript :=
  ((Transcript.start.after plainRendering ensuring).after plainRendering accepting).after plainRendering
    summarizing

theorem Transcript.Fresh.of_none {h : Transcript} {op : ThreadOp} (hmessage : op.messageIds h.state = [])
    (hsummary : op.summaryId? = none) : h.Fresh op := by
  refine ⟨fun messageId hid => ?_, ?_, fun summaryId hid => ?_⟩
  · rw [hmessage] at hid
    cases hid
  · rw [hmessage]
    exact List.nodup_nil
  · rw [hsummary] at hid
    cases hid

theorem run_secretSummarized {Allowed : Transcript → ThreadOp → Prop}
    (hallowed : ∀ h, ∀ op ∈ [ensuring, accepting, summarizing], Allowed h op) :
    Transcript.Run plainRendering Allowed secretSummarized := by
  have hensured : Transcript.Run plainRendering Allowed
      (Transcript.start.after plainRendering ensuring) :=
    .step .start (.of_none rfl rfl) (hallowed _ _ (by simp))
  refine .step (.step hensured ⟨fun _ _ => List.not_mem_nil, List.nodup_singleton _, fun _ hid => ?_⟩
    (hallowed _ _ (by simp))) ⟨fun _ hid => ?_, List.nodup_nil, fun _ _ => List.not_mem_nil⟩
    (hallowed _ _ (by simp))
  · cases hid
  · cases hid

/-- What is redacted where it stands is shown no more, also in the summary. -/
theorem redacted_secret_is_gone :
    (∀ window, loadContextWindow plainRendering (secretSummarized.after plainRendering redacting).state
        secretScope secretThread 10 = .ok window →
      ∀ context ∈ window.messages, context.summaryId ≠ some ⟨1⟩) ∧
    ∀ history, listThreadHistory (secretSummarized.after plainRendering redacting).state secretScope
        secretThread = .ok history →
      ∀ artifact ∈ history.summaryArtifacts, artifact.summaryId = ⟨1⟩ → artifact.content = "[redacted]" := by
  have hquiet : ∀ h : Transcript, ∀ op ∈ [ensuring, accepting, summarizing, redacting],
      h.MovesNoSource op := by
    rintro h op hop _ _ _ _ ⟨_, _, _, _, rfl, -⟩
    simp [ensuring, accepting, summarizing, redacting] at hop
  have hrun : Transcript.Run plainRendering Transcript.MovesNoSource
      (secretSummarized.after plainRendering redacting) :=
    .step (run_secretSummarized fun h op hop => hquiet h op (by simp at hop ⊢; tauto))
      (.of_none rfl rfl) (hquiet _ _ (by simp))
  have hmade : (secretThread, secretSummary.artifact ⟨1⟩, secretMessage) ∈
      (secretSummarized.after plainRendering redacting).made := by decide
  have hredacted : (secretThread, secretMessage) ∈
      (secretSummarized.after plainRendering redacting).redacted := by decide
  obtain ⟨hwindow, hhistory⟩ := redaction_reaches_summaries hrun hmade hredacted
  exact ⟨hwindow secretScope 10, hhistory secretScope⟩

/-- The message waits in the queue after it was summarized, and is then submitted. -/
def secretMoved : Transcript :=
  (secretSummarized.after plainRendering queueing).after plainRendering submitting

/-- The message at its new place. -/
def movedSecret : ThreadMessageRecord :=
  { newMessage secretMessage secretThread 2 .user .submitted (some "run") "my password is 1234" [] with
    actorId := some "actor"
    turnId := some "turn" }

theorem threads_secretMoved : secretMoved.state.threads secretThread =
    some ⟨secretScope, [movedSecret], [secretSummary.artifact ⟨1⟩], 3⟩ := by
  have hsorted : secretMoved.state.threads secretThread = some ⟨secretScope,
      [movedSecret].mergeSort fun a b => a.sequence ≤ b.sequence, [secretSummary.artifact ⟨1⟩], 3⟩ := rfl
  rw [hsorted, List.mergeSort_singleton]

/-- A message that is summarized, then queued and submitted, is redacted: the context window and the
history still show the summary. -/
theorem moved_message_escapes_redaction : ∃ h : Transcript,
    Transcript.Run plainRendering (fun _ _ => True) h ∧
      (secretThread, secretSummary.artifact ⟨1⟩, secretMessage) ∈ h.made ∧
      (secretThread, secretMessage) ∈ h.redacted ∧
      (∃ window, loadContextWindow plainRendering h.state secretScope secretThread 10 = .ok window ∧
        ∃ context ∈ window.messages, context.summaryId = some ⟨1⟩ ∧
          context.content = "the password is 1234") ∧
      ∃ history, listThreadHistory h.state secretScope secretThread = .ok history ∧
        secretSummary.artifact ⟨1⟩ ∈ history.summaryArtifacts := by
  have hmoved := threads_secretMoved
  have hthread : (secretMoved.after plainRendering redacting).state.threads secretThread =
      some ⟨secretScope, [StoredThread.redacted "request" movedSecret],
        [secretSummary.artifact ⟨1⟩], 3⟩ := by
    simp only [Transcript.after, ThreadOp.run, redacting, onThread, getThread, hmoved]
    rfl
  refine ⟨secretMoved.after plainRendering redacting, ?_, ?_, ?_, ?_, ?_⟩
  · exact .step (.step (.step (run_secretSummarized fun _ _ _ => trivial) (.of_none rfl rfl) trivial)
      (.of_none rfl rfl) trivial) (.of_none rfl rfl) trivial
  · show _ ∈ secretMoved.made
    decide
  · have hlogged : secretMoved.redactedBy redacting = [(secretThread, secretMessage)] := by
      simp only [Transcript.redactedBy, redacting, onThread, getThread, hmoved]
      rfl
    show _ ∈ secretMoved.redactedBy redacting ++ secretMoved.redacted
    rw [hlogged]
    exact List.mem_cons_self
  · simp only [loadContextWindow, getThread, hthread]
    exact ⟨_, rfl, _, List.mem_singleton_self _, rfl, rfl⟩
  · simp only [listThreadHistory, getThread, hthread]
    exact ⟨_, rfl, List.mem_singleton_self _⟩

end moved

end Ironclaw.Threads
