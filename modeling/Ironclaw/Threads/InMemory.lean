import Mathlib.Data.String.Basic
import Ironclaw.Threads.Summaries

/-! # The in-memory thread service

`InMemorySessionThreadService` of `in_memory.rs`: the operations that change a transcript, and the two
reads that show it, the context window and the thread history. Each call holds the lock of the
service, so an operation is a function of the state; it returns the state also where it fails, since
`append_tool_result_reference` may fail after a change. New ids are arguments.

What the service takes from elsewhere is in `Rendering`: the JSON of the stored envelopes, the text of
attachments in a context, and the debug form of a string. -/

namespace Ironclaw.Threads

open LoopHost (ThreadScope ThreadMessageId)

/-! ### Records -/

inductive ToolResultIntrinsicOutcome where
  | nothingToReport

structure ToolResultReferenceEnvelope where
  resultRef : String
  safeSummary : String
  modelObservation : Option String
  intrinsicOutcome : Option ToolResultIntrinsicOutcome

structure CapabilityDisplayPreviewEnvelope where
  invocationId : String
  resultRef : Option String
  payload : String

structure Rendering where
  debugText : String → String
  augmentModelContent : String → List AttachmentRef → String
  validateProviderCall : ProviderToolCallReferenceEnvelope → Except String Unit
  newBestEffortModelObservation : String → String → Option String →
    Except String ToolResultReferenceEnvelope
  envelopeJson : ToolResultReferenceEnvelope → Except String String
  mergeModelObservationContentIfAbsent : String → String → Except String (Option String)
  mergeIntrinsicOutcomeContentIfAbsent : String → ToolResultIntrinsicOutcome →
    Except String (Option String)
  /-- The content with another summary in its envelope. -/
  withSafeSummary : String → String → Except String String
  validatePreview : CapabilityDisplayPreviewEnvelope → Except String Unit
  invocationIdFromJson : Option String → Except String (Option String)
  previewJson : CapabilityDisplayPreviewEnvelope → Except String String

structure InboundMessageReplayMetadata where
  resolvedModel : Option String

structure AcceptInboundMessageRequest where
  scope : ThreadScope
  threadId : ThreadId
  actorId : String
  sourceBindingId : Option String
  replyTargetBindingId : Option String
  externalEventId : Option String
  content : MessageContent

structure AcceptedInboundMessage where
  threadId : ThreadId
  messageId : ThreadMessageId
  sequence : ℕ
  idempotentReplay : Bool
  replayMetadata : InboundMessageReplayMetadata

structure AcceptSubagentResultRequest where
  scope : ThreadScope
  threadId : ThreadId
  sourceBindingId : String
  externalEventId : String
  content : String

structure AcceptedSubagentResult where
  messageId : ThreadMessageId
  sequence : ℕ
  idempotentReplay : Bool

structure AppendToolResultReferenceRequest where
  turnRunId : String
  resultRef : String
  safeSummary : String
  providerCall : Option ProviderToolCallReferenceEnvelope
  modelObservation : Option String
  intrinsicOutcome : Option ToolResultIntrinsicOutcome

structure UpdateToolResultReferenceRequest where
  turnRunId : String
  resultRef : String
  providerCallId : Option String
  safeSummary : String

/-- What `accept_prepared_context` reads of its request next to the rows that it seeds. -/
structure PreparedContextRequest where
  scope : ThreadScope
  threadId : ThreadId
  actorId : String
  idempotencyKey : String

structure PreparedContextRecord where
  idempotencyKey : String
  actorId : String
  acceptedMessageRef : ThreadMessageId

structure AcceptedPreparedContext where
  threadId : ThreadId
  acceptedMessageRef : ThreadMessageId
  idempotentReplay : Bool

/-- The output that a finalizer stored for a run. -/
structure StructuredFinalizationRecord where
  scope : ThreadScope
  threadId : ThreadId
  turnRunId : String
  candidate : String
  rawJson : String

structure StoredThread where
  scope : ThreadScope
  messages : List ThreadMessageRecord
  summaryArtifacts : List SummaryArtifact
  nextSequence : ℕ

structure InboundIdempotencyKey where
  scope : ThreadScope
  sourceBindingId : String
  externalEventId : String
deriving DecidableEq

structure InboundIdempotencyRecord where
  threadId : ThreadId
  messageId : ThreadMessageId
  replayMetadata : InboundMessageReplayMetadata

structure InMemoryState where
  threads : ThreadId → Option StoredThread
  inboundIdempotency : InboundIdempotencyKey → Option InboundIdempotencyRecord
  preparedContexts : ThreadId → Option PreparedContextRecord

def InMemoryState.empty : InMemoryState := ⟨fun _ => none, fun _ => none, fun _ => none⟩

/-- What a call returns, and what it leaves. -/
abbrev Outcome (σ α : Type) := Except SessionThreadError α × σ

/-! ### Messages of a thread -/

/-- The first element that passes the test is changed. -/
def updateFirst {α : Type} (p : α → Bool) (f : α → α) : List α → List α
  | [] => []
  | a :: l => if p a then f a :: l else a :: updateFirst p f l

namespace StoredThread

variable (thread : StoredThread)

/-- A message is looked for, and changed or not. -/
def editFirst (missing : SessionThreadError) (p : ThreadMessageRecord → Bool)
    (edit : ThreadMessageRecord → Outcome ThreadMessageRecord Unit) :
    Outcome StoredThread ThreadMessageRecord :=
  match thread.messages.find? p with
  | none => (.error missing, thread)
  | some message =>
    ((edit message).1.map fun _ => (edit message).2,
      { thread with messages := updateFirst p (fun message => (edit message).2) thread.messages })

/-- A new message at the end of the transcript. -/
def push (message : ThreadMessageRecord) : StoredThread :=
  { thread with
    messages := thread.messages ++ [message]
    nextSequence := thread.nextSequence + 1 }

/-- The rows are pushed one after the other, each with the sequence it comes to. -/
def seed (rows : List ThreadMessageRecord) : StoredThread :=
  rows.foldl (fun thread row => thread.push { row with sequence := thread.nextSequence }) thread

def minted (scope : ThreadScope) : StoredThread := ⟨scope, [], [], 1⟩

end StoredThread

/-- A message as it is appended: nothing but what the argument list says is set. -/
def newMessage (messageId : ThreadMessageId) (threadId : ThreadId) (sequence : ℕ) (kind : MessageKind)
    (status : MessageStatus) (turnRunId : Option String) (content : String)
    (attachments : List AttachmentRef) : ThreadMessageRecord where
  messageId := messageId
  threadId := threadId
  sequence := sequence
  kind := kind
  status := status
  actorId := none
  sourceBindingId := none
  replyTargetBindingId := none
  turnId := none
  turnRunId := turnRunId
  toolResultRef := none
  toolResultProviderCall := none
  content := some content
  attachments := attachments
  redactionRef := none

def maxExtractedTextChars : ℕ := 200000

/-- `validate_attachment_refs`, with the ids that were seen. -/
def validateAttachmentRefs (rendering : Rendering) :
    List String → List AttachmentRef → Except SessionThreadError Unit
  | _, [] => .ok ()
  | seen, attachment :: rest =>
    if attachment.id ∈ seen then
      .error (.invalidAttachment
        ("duplicate attachment id " ++ rendering.debugText attachment.id ++ " in one message"))
    else if attachment.extractedText.any (maxExtractedTextChars < ·.length) then
      .error (.invalidAttachment ("attachment " ++ rendering.debugText attachment.id ++
        " extracted_text exceeds 200000 chars"))
    else validateAttachmentRefs rendering (attachment.id :: seen) rest

def ensureDraft (message : ThreadMessageRecord) : Except SessionThreadError Unit :=
  if message.kind ≠ .assistant ∨ message.status ≠ .draft then .error (.messageNotDraft message.messageId)
  else .ok ()

def ensureUserAccepted (message : ThreadMessageRecord) (attempted : String) :
    Except SessionThreadError Unit :=
  if message.kind = .user ∧ message.status ∈ [MessageStatus.accepted, .deferredBusy, .queued] then .ok ()
  else .error (.invalidMessageTransition message.messageId message.status attempted)

/-- An edit that is made where a check passes. -/
def editIf (check : ThreadMessageRecord → Except SessionThreadError Unit)
    (edit : ThreadMessageRecord → ThreadMessageRecord) (message : ThreadMessageRecord) :
    Outcome ThreadMessageRecord Unit :=
  match check message with
  | .error e => (.error e, message)
  | .ok () => (.ok (), edit message)

def shouldReuseAssistantRunMessage (message : ThreadMessageRecord) (requestedContent : String)
    (requestedAttachments : List AttachmentRef) : Bool :=
  match message.status with
  | .draft | .redacted | .deleted => true
  | .finalized => message.content = some requestedContent ∧ message.attachments = requestedAttachments
  | _ => false

namespace StoredThread

variable (thread : StoredThread)

variable (messageId : ThreadMessageId)

def byId : ThreadMessageRecord → Bool := (·.messageId = messageId)

/-- A message that is found by its id is edited. -/
def editMessage (edit : ThreadMessageRecord → Outcome ThreadMessageRecord Unit) :
    Outcome StoredThread ThreadMessageRecord :=
  thread.editFirst (.unknownMessage messageId) (byId messageId) edit

/-- The message that an acknowledged run took up; one that waited in the queue gets a new place. -/
def submit (message : ThreadMessageRecord) (turnId turnRunId : String) :
    Outcome StoredThread ThreadMessageRecord :=
  match ensureUserAccepted message "mark_message_submitted" with
  | .error e => (.error e, thread)
  | .ok () =>
    let submitted := fun sequence (message : ThreadMessageRecord) =>
      { message with
        sequence := sequence
        status := .submitted
        turnId := some turnId
        turnRunId := some turnRunId }
    if message.status = .queued then
      (.ok (submitted thread.nextSequence message),
        { thread with
          messages := (updateFirst (byId messageId) (submitted thread.nextSequence)
            thread.messages).mergeSort fun a b => a.sequence ≤ b.sequence
          nextSequence := thread.nextSequence + 1 })
    else
      (.ok (submitted message.sequence message),
        { thread with
          messages := updateFirst (byId messageId) (submitted message.sequence) thread.messages })

def markMessageSubmitted (turnId turnRunId : String) : Outcome StoredThread ThreadMessageRecord :=
  match thread.messages.find? (byId messageId) with
  | none => (.error (.unknownMessage messageId), thread)
  | some message =>
    if message.status = .submitted ∧ message.turnRunId = some turnRunId then (.ok message, thread)
    else if message.kind = .system ∧ message.status = .finalized then (.ok message, thread)
    else thread.submit messageId message turnId turnRunId

def markMessageRejectedBusy : Outcome StoredThread ThreadMessageRecord :=
  thread.editMessage messageId (editIf (ensureUserAccepted · "mark_message_rejected_busy") fun message =>
    { message with status := .rejectedBusy, turnId := none, turnRunId := none })

def markMessageQueued (activeRunId : String) : Outcome StoredThread ThreadMessageRecord :=
  thread.editMessage messageId (editIf (ensureUserAccepted · "mark_message_queued") fun message =>
    { message with status := .queued, turnId := none, turnRunId := some activeRunId })

/-- The reply of a run, for the last message first. -/
def ofRun (turnRunId : String) (message : ThreadMessageRecord) : Bool :=
  message.kind = .assistant ∧ message.turnRunId = some turnRunId

def appendAssistantDraft (threadId : ThreadId) (turnRunId : String)
    (content : MessageContent) : Outcome StoredThread ThreadMessageRecord :=
  match thread.messages.reverse.find? fun message => ofRun turnRunId message &&
      shouldReuseAssistantRunMessage message content.text content.attachments with
  | some existing => (.ok existing, thread)
  | none =>
    let message := newMessage messageId threadId thread.nextSequence .assistant .draft (some turnRunId)
      content.text []
    (.ok message, thread.push message)

/-- The last message that passes the test is changed. -/
def updateLast (p : ThreadMessageRecord → Bool) (edit : ThreadMessageRecord → ThreadMessageRecord) :
    StoredThread :=
  { thread with messages := (updateFirst p edit thread.messages.reverse).reverse }

/-- What a reply becomes when it is final. -/
def finalized (content : MessageContent) (message : ThreadMessageRecord) : ThreadMessageRecord :=
  { message with status := .finalized, content := some content.text, attachments := content.attachments }

def appendFinalizedAssistantMessage (threadId : ThreadId)
    (turnRunId : String) (content : MessageContent) : Outcome StoredThread ThreadMessageRecord :=
  let appended := newMessage messageId threadId thread.nextSequence .assistant .finalized
    (some turnRunId) content.text content.attachments
  match thread.messages.reverse.find? (ofRun turnRunId) with
  | none => (.ok appended, thread.push appended)
  | some existing =>
    if existing.status = .draft then
      (.ok (finalized content existing), thread.updateLast (ofRun turnRunId) (finalized content))
    else if shouldReuseAssistantRunMessage existing content.text content.attachments then
      (.ok existing, thread)
    else if existing.status = .finalized ∧ existing.content = some content.text then
      (.error (.invalidMessageTransition existing.messageId .finalized
        "append_finalized_assistant_message with mismatched attachments"), thread)
    else (.ok appended, thread.push appended)

end StoredThread

/-! ### Tool results and previews -/

def missingContent : SessionThreadError := .serialization "tool result reference content is missing"

/-- The content of a row, merged with something that it may lack. -/
def mergeContent (merge : String → Except String (Option String)) (message : ThreadMessageRecord) :
    Outcome ThreadMessageRecord Unit :=
  match message.content with
  | none => (.error missingContent, message)
  | some content =>
    match merge content with
    | .error e => (.error (.serialization e), message)
    | .ok none => (.ok (), message)
    | .ok (some merged) => (.ok (), { message with content := some merged })

def attachProviderCall (providerCall : Option ProviderToolCallReferenceEnvelope)
    (message : ThreadMessageRecord) : Outcome ThreadMessageRecord Unit :=
  match providerCall, message.toolResultProviderCall with
  | none, _ => (.ok (), message)
  | some call, none => (.ok (), { message with toolResultProviderCall := some call })
  | some call, some existing =>
    if existing = call then (.ok (), message)
    else (.error (.serialization "tool result provider metadata conflicts with existing record"), message)

/-- One edit after another, up to the first that fails. -/
def editThen (first second : ThreadMessageRecord → Outcome ThreadMessageRecord Unit)
    (message : ThreadMessageRecord) : Outcome ThreadMessageRecord Unit :=
  match (first message).1 with
  | .error e => (.error e, (first message).2)
  | .ok () => second (first message).2

def mergeOptional {β : Type} (merge : String → β → Except String (Option String)) :
    Option β → ThreadMessageRecord → Outcome ThreadMessageRecord Unit
  | none, message => (.ok (), message)
  | some value, message => mergeContent (merge · value) message

def mergeToolResult (rendering : Rendering) (providerCall : Option ProviderToolCallReferenceEnvelope)
    (envelope : ToolResultReferenceEnvelope) : ThreadMessageRecord → Outcome ThreadMessageRecord Unit :=
  editThen (attachProviderCall providerCall)
    (editThen (mergeOptional rendering.mergeModelObservationContentIfAbsent envelope.modelObservation)
      (mergeOptional rendering.mergeIntrinsicOutcomeContentIfAbsent envelope.intrinsicOutcome))

/-- A finalized row of a run with a result ref. -/
def isToolResult (turnRunId resultRef : String) (message : ThreadMessageRecord) : Bool :=
  message.kind = .toolResultReference ∧ message.status = .finalized ∧
    message.turnRunId = some turnRunId ∧ message.toolResultRef = some resultRef

/-- The provider's call of a row is not another than the requested one. -/
def sameProviderCall (requested : Option ProviderToolCallReferenceEnvelope)
    (message : ThreadMessageRecord) : Bool :=
  requested.all fun requested => message.toolResultProviderCall.all fun existing =>
    existing.providerCallId = requested.providerCallId

namespace StoredThread

variable (thread : StoredThread)

/-- The envelope is new to the transcript. -/
def appendEnvelope (rendering : Rendering) (messageId : ThreadMessageId) (threadId : ThreadId)
    (turnRunId : String) (providerCall : Option ProviderToolCallReferenceEnvelope)
    (envelope : ToolResultReferenceEnvelope) : Outcome StoredThread ThreadMessageRecord :=
  match rendering.envelopeJson envelope with
  | .error e => (.error (.serialization e), thread)
  | .ok content =>
    let message :=
      { newMessage messageId threadId thread.nextSequence .toolResultReference .finalized
          (some turnRunId) content [] with
        toolResultRef := some envelope.resultRef
        toolResultProviderCall := providerCall }
    (.ok message, thread.push message)

def appendToolResultReference (rendering : Rendering) (messageId : ThreadMessageId)
    (threadId : ThreadId) (request : AppendToolResultReferenceRequest) :
    Outcome StoredThread ThreadMessageRecord :=
  match request.providerCall.elim (.ok ()) rendering.validateProviderCall with
  | .error e => (.error (.serialization e), thread)
  | .ok () =>
    match rendering.newBestEffortModelObservation request.resultRef request.safeSummary
        request.modelObservation with
    | .error e => (.error (.serialization e), thread)
    | .ok envelope =>
      let envelope := { envelope with intrinsicOutcome := request.intrinsicOutcome }
      let found := fun message => isToolResult request.turnRunId envelope.resultRef message &&
        sameProviderCall request.providerCall message
      if thread.messages.any found then
        thread.editFirst missingContent found (mergeToolResult rendering request.providerCall envelope)
      else
        thread.appendEnvelope rendering messageId threadId request.turnRunId request.providerCall
          envelope

/-- The first preview of an invocation, unless a stored preview cannot be read before it. -/
def findPreview (rendering : Rendering) (turnRunId invocationId : String) :
    List ThreadMessageRecord → Except SessionThreadError (Option ThreadMessageRecord)
  | [] => .ok none
  | message :: rest =>
    if message.kind ≠ .capabilityDisplayPreview ∨ message.status ≠ .finalized ∨
        message.turnRunId ≠ some turnRunId then findPreview rendering turnRunId invocationId rest
    else
      match rendering.invocationIdFromJson message.content with
      | .error e => .error (.serialization e)
      | .ok stored =>
        if stored = some invocationId then .ok (some message)
        else findPreview rendering turnRunId invocationId rest

def appendCapabilityDisplayPreview (rendering : Rendering) (messageId : ThreadMessageId)
    (threadId : ThreadId) (turnRunId : String) (preview : CapabilityDisplayPreviewEnvelope) :
    Outcome StoredThread ThreadMessageRecord :=
  match findPreview rendering turnRunId preview.invocationId thread.messages with
  | .error e => (.error e, thread)
  | .ok (some message) => (.ok message, thread)
  | .ok none =>
    match rendering.previewJson preview with
    | .error e => (.error (.serialization e), thread)
    | .ok content =>
      let message :=
        { newMessage messageId threadId thread.nextSequence .capabilityDisplayPreview .finalized
            (some turnRunId) content [] with
          toolResultRef := preview.resultRef }
      (.ok message, thread.push message)

/-- The row whose summary is updated: that of the provider's call, or one that names no call. -/
def updatedRow (request : UpdateToolResultReferenceRequest) : ThreadMessageRecord → Bool :=
  let found := isToolResult request.turnRunId request.resultRef
  match request.providerCallId with
  | none => found
  | some requested =>
    let exactly := fun message : ThreadMessageRecord => found message &&
      message.toolResultProviderCall.any (·.providerCallId = requested)
    if thread.messages.any exactly then exactly
    else fun message => found message && message.toolResultProviderCall.isNone

def updateToolResultReference (rendering : Rendering) (threadId : ThreadId)
    (request : UpdateToolResultReferenceRequest) : Outcome StoredThread ThreadMessageRecord :=
  thread.editFirst
    (.backend ("tool result reference " ++ request.resultRef ++ " was not found in thread " ++
      threadId.asStr))
    (thread.updatedRow request)
    (mergeContent fun content => (rendering.withSafeSummary content request.safeSummary).map some)

/-! ### Drafts, redaction and summaries -/

variable (messageId : ThreadMessageId)

def updateAssistantDraft (content : MessageContent) : Outcome StoredThread ThreadMessageRecord :=
  thread.editMessage messageId (editIf ensureDraft fun message =>
    { message with content := some content.text, attachments := [] })

def finalizeAssistantMessage (content : MessageContent) :
    Outcome StoredThread ThreadMessageRecord :=
  thread.editMessage messageId (editIf ensureDraft (finalized content))

def redacted (redactionRef : String) (message : ThreadMessageRecord) : ThreadMessageRecord :=
  { message with
    status := .redacted
    content := none
    attachments := []
    toolResultProviderCall := none
    redactionRef := some redactionRef }

def redactMessage (redactionRef : String) : Outcome StoredThread ThreadMessageRecord :=
  thread.editMessage messageId fun message => (.ok (), redacted redactionRef message)

/-- The finalized message of the run still has the candidate, or the output already. -/
def ensurePublishable (threadId : ThreadId) (record : StructuredFinalizationRecord)
    (message : ThreadMessageRecord) : Except SessionThreadError Unit :=
  let mismatch reason := .error (.structuredFinalizationPublishMismatch message.messageId reason)
  if message.kind ≠ .assistant ∨ message.status ≠ .finalized then
    mismatch "message is not a finalized assistant"
  else if message.threadId ≠ threadId then mismatch "message belongs to a different thread"
  else if message.turnRunId ≠ some record.turnRunId then
    mismatch "message belongs to a different turn run"
  else if message.content = none then mismatch "message content is missing"
  else if message.content ≠ some record.candidate ∧ message.content ≠ some record.rawJson then
    mismatch "message content does not match durable candidate"
  else .ok ()

/-- `stored` is the durable finalization of the run. -/
def publishStructuredFinalizationMessage (scope : ThreadScope) (threadId : ThreadId)
    (turnRunId replacement : String) (stored : Option StructuredFinalizationRecord) :
    Outcome StoredThread ThreadMessageRecord :=
  let mismatch reason := (.error (.structuredFinalizationPublishMismatch messageId reason), thread)
  match stored with
  | none => mismatch "durable finalization record is missing"
  | some record =>
    if record.scope ≠ scope ∨ record.threadId ≠ threadId ∨ record.turnRunId ≠ turnRunId then
      mismatch "durable finalization record identity does not match request"
    else if record.rawJson ≠ replacement then
      mismatch "replacement does not match durable finalization output"
    else
      thread.editMessage messageId (editIf (ensurePublishable threadId record) fun message =>
        if message.content = some record.candidate then { message with content := some replacement }
        else message)

def createSummary (summaryId : SummaryArtifactId) (request : CreateSummaryArtifactRequest) :
    Outcome StoredThread SummaryArtifact :=
  if thread.messages.all (·.sequence ≠ request.startSequence) ∨
      thread.messages.all (·.sequence ≠ request.endSequence) then
    (.error (.invalidSummaryRange request.startSequence request.endSequence), thread)
  else
    match findOverlappingSummary thread.summaryArtifacts request request.content.text with
    | .error e => (.error e, thread)
    | .ok (some overlapping) => (.ok overlapping, thread)
    | .ok none =>
      (.ok (request.artifact summaryId),
        { thread with summaryArtifacts := thread.summaryArtifacts ++ [request.artifact summaryId] })

end StoredThread

/-! ### The service -/

variable (state : InMemoryState)

def getThread (scope : ThreadScope) (threadId : ThreadId) :
    Except SessionThreadError StoredThread :=
  match state.threads threadId with
  | none => .error (.unknownThread threadId)
  | some thread => if thread.scope = scope then .ok thread else .error (.unknownThread threadId)

def onThread {α : Type} (scope : ThreadScope) (threadId : ThreadId)
    (call : StoredThread → Outcome StoredThread α) : Outcome InMemoryState α :=
  match getThread state scope threadId with
  | .error e => (.error e, state)
  | .ok thread =>
    ((call thread).1,
      { state with threads := Function.update state.threads threadId (some (call thread).2) })

def ensureThread (scope : ThreadScope) (threadId : ThreadId) : Outcome InMemoryState Unit :=
  match state.threads threadId with
  | some existing =>
    if existing.scope = scope then (.ok (), state) else (.error (.threadScopeMismatch threadId), state)
  | none =>
    (.ok (), { state with
      threads := Function.update state.threads threadId (some (.minted scope)) })

def replayPreparedContext (record : PreparedContextRecord) (request : PreparedContextRequest) :
    Except SessionThreadError AcceptedPreparedContext :=
  if record.idempotencyKey ≠ request.idempotencyKey then
    .error (.preparedContextKeyMismatch request.threadId)
  else if record.actorId ≠ request.actorId then
    .error (.idempotentReplayActorMismatch record.actorId request.actorId)
  else .ok ⟨request.threadId, record.acceptedMessageRef, true⟩

/-- `seed` has the rows that the request is turned into, or why it is refused. -/
def acceptPreparedContext (request : PreparedContextRequest)
    (seed : Except SessionThreadError (List ThreadMessageRecord)) :
    Outcome InMemoryState AcceptedPreparedContext :=
  match seed with
  | .error e => (.error e, state)
  | .ok rows =>
    match state.preparedContexts request.threadId with
    | some record =>
      if (state.threads request.threadId).any (·.scope = request.scope) then
        (replayPreparedContext record request, state)
      else (.error (.threadScopeMismatch request.threadId), state)
    | none =>
      let stored := (state.threads request.threadId).getD (.minted request.scope)
      if stored.scope ≠ request.scope then (.error (.threadScopeMismatch request.threadId), state)
      else
        match rows.getLast? with
        | none => (.error (.invalidPreparedContext "seeded rows must not be empty"), state)
        | some last =>
          (.ok ⟨request.threadId, last.messageId, false⟩,
            { state with
              threads := Function.update state.threads request.threadId (some (stored.seed rows))
              preparedContexts := Function.update state.preparedContexts request.threadId
                (some ⟨request.idempotencyKey, request.actorId, last.messageId⟩) })

def AcceptInboundMessageRequest.key (request : AcceptInboundMessageRequest) :
    Option InboundIdempotencyKey :=
  match request.sourceBindingId, request.externalEventId with
  | some binding, some event => some ⟨request.scope, binding, event⟩
  | _, _ => none

/-- The row that an acceptance made before. -/
def acceptedRow (scope : ThreadScope) (threadId : ThreadId)
    (record : InboundIdempotencyRecord) : Except SessionThreadError ThreadMessageRecord :=
  if record.threadId ≠ threadId then
    .error (.idempotentReplayThreadMismatch record.threadId threadId)
  else
    match getThread state scope record.threadId with
    | .error e => .error e
    | .ok thread =>
      match thread.messages.find? (·.messageId = record.messageId) with
      | none => .error (.unknownMessage record.messageId)
      | some message => .ok message

def replayInbound (request : AcceptInboundMessageRequest)
    (record : InboundIdempotencyRecord) : Except SessionThreadError AcceptedInboundMessage :=
  match acceptedRow state request.scope request.threadId record with
  | .error e => .error e
  | .ok existing =>
    if existing.actorId ≠ some request.actorId then
      .error (.idempotentReplayActorMismatch (existing.actorId.getD "") request.actorId)
    else .ok ⟨existing.threadId, record.messageId, existing.sequence, true, record.replayMetadata⟩

/-- The row of a message that is accepted for the first time. -/
def AcceptInboundMessageRequest.message (request : AcceptInboundMessageRequest)
    (messageId : ThreadMessageId) (sequence : ℕ) : ThreadMessageRecord :=
  { newMessage messageId request.threadId sequence .user .accepted none request.content.text
      request.content.attachments with
    actorId := some request.actorId
    sourceBindingId := request.sourceBindingId
    replyTargetBindingId := request.replyTargetBindingId }

/-- The identity of an acceptance is remembered, where it has one. -/
def InMemoryState.remember (key : Option InboundIdempotencyKey)
    (record : InboundIdempotencyRecord) : InMemoryState :=
  match key with
  | none => state
  | some key =>
    { state with inboundIdempotency := Function.update state.inboundIdempotency key (some record) }

def acceptNewInbound (rendering : Rendering) (state : InMemoryState) (messageId : ThreadMessageId)
    (request : AcceptInboundMessageRequest) (replayMetadata : InboundMessageReplayMetadata) :
    Outcome InMemoryState AcceptedInboundMessage :=
  match getThread state request.scope request.threadId with
  | .error e => (.error e, state)
  | .ok thread =>
    match validateAttachmentRefs rendering [] request.content.attachments with
    | .error e => (.error e, state)
    | .ok () =>
      let pushed := thread.push (request.message messageId thread.nextSequence)
      (.ok ⟨request.threadId, messageId, thread.nextSequence, false, replayMetadata⟩,
        InMemoryState.remember
          { state with threads := Function.update state.threads request.threadId (some pushed) }
          request.key ⟨request.threadId, messageId, replayMetadata⟩)

def acceptInboundMessageWithReplayMetadata (rendering : Rendering) (state : InMemoryState)
    (messageId : ThreadMessageId) (request : AcceptInboundMessageRequest)
    (replayMetadata : InboundMessageReplayMetadata) : Outcome InMemoryState AcceptedInboundMessage :=
  match request.key.bind state.inboundIdempotency with
  | some record => (replayInbound state request record, state)
  | none => acceptNewInbound rendering state messageId request replayMetadata

def validateSubagentAcceptanceIdentity (sourceBindingId externalEventId : String) :
    Except SessionThreadError Unit :=
  if Text.trim sourceBindingId = "" then
    .error (.invalidSubagentResult "source_binding_id must not be empty")
  else if Text.trim externalEventId = "" then
    .error (.invalidSubagentResult "external_event_id must not be empty")
  else .ok ()

/-- The kind as Rust prints it. -/
def MessageKind.debugText : MessageKind → String
  | .user => "User"
  | .assistant => "Assistant"
  | .system => "System"
  | .summary => "Summary"
  | .checkpointReference => "CheckpointReference"
  | .toolResultReference => "ToolResultReference"
  | .capabilityDisplayPreview => "CapabilityDisplayPreview"

def replaySubagentResult (request : AcceptSubagentResultRequest)
    (record : InboundIdempotencyRecord) : Except SessionThreadError AcceptedSubagentResult :=
  match acceptedRow state request.scope request.threadId record with
  | .error e => .error e
  | .ok existing =>
    if existing.kind ≠ .system then
      .error (.backend ("subagent-result acceptance identity is already held by a non-system row (" ++
        existing.kind.debugText ++ ")"))
    else .ok ⟨record.messageId, existing.sequence, true⟩

def acceptSubagentResult (messageId : ThreadMessageId)
    (request : AcceptSubagentResultRequest) : Outcome InMemoryState AcceptedSubagentResult :=
  let key : InboundIdempotencyKey := ⟨request.scope, request.sourceBindingId, request.externalEventId⟩
  match validateSubagentAcceptanceIdentity request.sourceBindingId request.externalEventId with
  | .error e => (.error e, state)
  | .ok () =>
    match state.inboundIdempotency key with
    | some record => (replaySubagentResult state request record, state)
    | none =>
      match getThread state request.scope request.threadId with
      | .error e => (.error e, state)
      | .ok thread =>
        let message :=
          { newMessage messageId request.threadId thread.nextSequence .system .finalized none
              request.content [] with
            sourceBindingId := some request.sourceBindingId }
        (.ok ⟨messageId, thread.nextSequence, false⟩,
          InMemoryState.remember
            { state with
              threads := Function.update state.threads request.threadId (some (thread.push message)) }
            (some key) ⟨request.threadId, messageId, ⟨none⟩⟩)

def deleteThread (scope : ThreadScope) (threadId : ThreadId) : Outcome InMemoryState Unit :=
  match getThread state scope threadId with
  | .error e => (.error e, state)
  | .ok _ =>
    (.ok (),
      { threads := Function.update state.threads threadId none
        inboundIdempotency := fun key =>
          (state.inboundIdempotency key).filter fun record => record.threadId ≠ threadId
        preparedContexts := Function.update state.preparedContexts threadId none })

/-- A call that is made where a check before the lock passes. -/
def checkedFirst {α : Type} (check : Except SessionThreadError Unit) (state : InMemoryState)
    (call : Outcome InMemoryState α) : Outcome InMemoryState α :=
  match check with
  | .error e => (.error e, state)
  | .ok () => call

def createSummaryArtifactInMemory (summaryId : SummaryArtifactId)
    (request : CreateSummaryArtifactRequest) : Outcome InMemoryState SummaryArtifact :=
  if request.startSequence = 0 ∨ request.endSequence < request.startSequence then
    (.error (.invalidSummaryRange request.startSequence request.endSequence), state)
  else onThread state request.scope request.threadId (·.createSummary summaryId request)

/-! ### Reads -/

structure ContextMessage where
  messageId : Option ThreadMessageId
  summaryId : Option SummaryArtifactId
  sequence : ℕ
  kind : MessageKind
  toolResultProviderCall : Option ProviderToolCallReferenceEnvelope
  content : String

structure ContextWindowTruncation where
  omittedThroughSequence : ℕ
  omittedThroughKind : MessageKind

structure ContextWindow where
  threadId : ThreadId
  messages : List ContextMessage
  recentWindowTruncation : Option ContextWindowTruncation

structure ThreadHistory where
  messages : List ThreadMessageRecord
  summaryArtifacts : List SummaryArtifact

def isModelVisible (status : MessageStatus) : Bool :=
  status ∈ [MessageStatus.accepted, .submitted, .finalized]

def isModelContextVisible (message : ThreadMessageRecord) : Bool :=
  isModelVisible message.status ∧ message.kind ≠ .capabilityDisplayPreview

def canResurfaceAsModelVisible (message : ThreadMessageRecord) : Bool :=
  message.status ∈ [MessageStatus.draft, .interrupted, .superseded, .queued, .deferredBusy]

def isRedactedOrDeleted (message : ThreadMessageRecord) : Bool :=
  message.status ∈ [MessageStatus.redacted, .deleted]

variable (summary : SummaryArtifact)

def SummaryArtifact.covers (message : ThreadMessageRecord) : Bool :=
  summary.startSequence ≤ message.sequence ∧ message.sequence ≤ summary.endSequence

def summaryCoversHiddenContent (messages : List ThreadMessageRecord) (summary : SummaryArtifact) : Bool :=
  messages.any fun message => summary.covers message && !isModelContextVisible message &&
    (canResurfaceAsModelVisible message || isRedactedOrDeleted message)

def summaryCoversRedactedOrDeletedContent (messages : List ThreadMessageRecord)
    (summary : SummaryArtifact) : Bool :=
  messages.any fun message => summary.covers message && isRedactedOrDeleted message

/-- Place of a summary among those that replace ranges. -/
def SummaryArtifact.contextKey : ℕ ×ₗ ℕ ×ₗ String ×ₗ ℕ :=
  toLex (summary.startSequence, toLex (summary.endSequence,
    toLex (summary.content, summary.summaryId.asUuid.toNat)))

def sortedContextSummaries (summaries : List SummaryArtifact) (eligible : SummaryArtifact → Bool) :
    List SummaryArtifact :=
  (summaries.filter eligible).mergeSort fun a b => a.contextKey ≤ b.contextKey

/-- How new a barrier is. -/
def SummaryArtifact.barrierKey : ℕ ×ₗ ℕ ×ₗ String ×ₗ ℕ :=
  toLex (summary.endSequence, toLex (summary.startSequence,
    toLex (summary.content, summary.summaryId.asUuid.toNat)))

/-- The later of the best summaries so far. -/
def newerBarrier (best : Option SummaryArtifact) (summary : SummaryArtifact) : Option SummaryArtifact :=
  match best with
  | none => some summary
  | some best => if best.barrierKey ≤ summary.barrierKey then some summary else some best

def newestContextBarrier (summaries : List SummaryArtifact) (eligible : SummaryArtifact → Bool) :
    Option SummaryArtifact :=
  (summaries.filter fun summary =>
    summary.contextMode = some .cumulativeBarrier ∧ eligible summary).foldl newerBarrier none

def ContextMessage.fromTranscriptMessage (rendering : Rendering) (message : ThreadMessageRecord)
    (content : String) : ContextMessage where
  messageId := some message.messageId
  summaryId := none
  sequence := message.sequence
  kind := message.kind
  toolResultProviderCall := message.toolResultProviderCall
  content := rendering.augmentModelContent content message.attachments

def ContextMessage.ofSummary (sequence : ℕ) : ContextMessage where
  messageId := none
  summaryId := some summary.summaryId
  sequence := sequence
  kind := .summary
  toolResultProviderCall := none
  content := summary.content

/-- Messages with the ranges of summaries replaced; `skipThrough` is the end of the last of these, and
`emitted` are those that stand in the context already. -/
def replaceRanges (rendering : Rendering) (summaries : List SummaryArtifact) :
    List ThreadMessageRecord → ℕ → List SummaryArtifactId → List ContextMessage
  | [], _, _ => []
  | message :: rest, skipThrough, emitted =>
    if message.sequence ≤ skipThrough then replaceRanges rendering summaries rest skipThrough emitted
    else
      match summaries.find? fun summary => summary.covers message && summary.summaryId ∉ emitted with
      | some summary =>
        .ofSummary summary summary.startSequence ::
          replaceRanges rendering summaries rest summary.endSequence (summary.summaryId :: emitted)
      | none =>
        let context := replaceRanges rendering summaries rest skipThrough emitted
        match message.content with
        | some content => .fromTranscriptMessage rendering message content :: context
        | none => context

def contextMessagesWithSummaryReplacements (rendering : Rendering) (messages : List ThreadMessageRecord)
    (summaries : List SummaryArtifact) : List ContextMessage :=
  match newestContextBarrier summaries (!summaryCoversHiddenContent messages ·) with
  | some barrier =>
    .ofSummary barrier barrier.endSequence ::
      (messages.filter fun message =>
        barrier.endSequence < message.sequence ∧ isModelContextVisible message).filterMap fun message =>
          message.content.map (.fromTranscriptMessage rendering message)
  | none =>
    replaceRanges rendering
      (sortedContextSummaries summaries fun summary =>
        summary.modelContextPolicy = some .replaceRangeWhenSelected ∧
          !summaryCoversHiddenContent messages summary)
      (messages.filter isModelContextVisible) 0 []

def truncateContextWindow (messages : List ContextMessage) (maxMessages : ℕ) :
    List ContextMessage × Option ContextWindowTruncation :=
  if messages.length ≤ maxMessages then (messages, none)
  else
    let start := messages.length - maxMessages
    (messages.drop start,
      messages[start - 1]?.map fun boundary => ⟨boundary.sequence, boundary.kind⟩)

def loadContextWindow (rendering : Rendering) (state : InMemoryState) (scope : ThreadScope)
    (threadId : ThreadId) (maxMessages : ℕ) : Except SessionThreadError ContextWindow :=
  match getThread state scope threadId with
  | .error e => .error e
  | .ok thread =>
    let messages := contextMessagesWithSummaryReplacements rendering thread.messages
      thread.summaryArtifacts
    .ok ⟨threadId, (truncateContextWindow messages maxMessages).1,
      (truncateContextWindow messages maxMessages).2⟩

def redactedSummaryContent : String := "[redacted]"

def historySummaryArtifacts (thread : StoredThread) : List SummaryArtifact :=
  thread.summaryArtifacts.map fun summary =>
    if summaryCoversRedactedOrDeletedContent thread.messages summary then
      { summary with content := redactedSummaryContent, modelContextPolicy := none }
    else summary

def historyMessage (message : ThreadMessageRecord) : ThreadMessageRecord :=
  { message with toolResultProviderCall := none }

def listThreadHistory (scope : ThreadScope) (threadId : ThreadId) :
    Except SessionThreadError ThreadHistory :=
  match getThread state scope threadId with
  | .error e => .error e
  | .ok thread => .ok ⟨thread.messages.map historyMessage, historySummaryArtifacts thread⟩

end Ironclaw.Threads
