import Ironclaw.Lib.Task
import Ironclaw.LoopHost.InputQueue

/-! # The durable input queue

`FilesystemHostInputQueue` of `durable_input_queue.rs`: the operations on the document of one run, as
programs whose requests go to the filesystem, to the thread service and to the handler of
acknowledgement effects. An operation reads the document, computes its new value and writes it on
condition that the version is still the one it read; a write that comes too late is tried again.

The document is deleted once it is closed and nothing is left to flip. A document that is created
again afterwards starts at the first version and with an empty queue. -/

namespace Ironclaw.LoopHost

def maxCasRetries : ℕ := 8

inductive QueueRequest where
  | get
  | put (model : RunQueueModel) (expected : Option ℕ)
  | deleteIfVersion (version : ℕ)
  | markMessageSubmitted (update : QueuedMessageStatusUpdate)
  | markMessageRejectedBusy (update : QueuedMessageStatusUpdate)
  | readThreadMessage (update : QueuedMessageStatusUpdate)
  | handleAckEffect (effect : LoopInputAckEffect)

/-- The answer to a conditional write or delete. -/
inductive WriteAnswer where
  | done
  | conflict
  | fatal (reason : String)

/-- A transcript update or an effect is answered with whether it succeeded, a read of a message with its
status when there is one. -/
@[reducible] def QueueRequest.Answer : QueueRequest → Type
  | .get => Except String (Option (RunQueueModel × ℕ))
  | .put _ _ | .deleteIfVersion _ => WriteAnswer
  | .markMessageSubmitted _ | .markMessageRejectedBusy _ | .handleAckEffect _ => Bool
  | .readThreadMessage _ => Option MessageStatus

abbrev QueueTask := Task QueueRequest.Answer

def QueueRequest.make (request : QueueRequest) : QueueTask request.Answer := Task.request request

/-! ### Transcript flips -/

/-- The sequences whose flips succeeded. -/
def flipSubmitted : List PendingSubmitFlip → QueueTask (List ℕ)
  | [] => pure []
  | flip :: rest => do
    let succeeded ← (QueueRequest.markMessageSubmitted flip.status).make
    let flipped ← flipSubmitted rest
    pure (if succeeded then flip.sequence :: flipped else flipped)

/-- The rows that were flipped, and those that someone else has settled. -/
structure RejectFlipOutcome where
  flipped : List ThreadMessageId
  settled : List ThreadMessageId

def RejectFlipOutcome.confirmable (outcome : RejectFlipOutcome) : List ThreadMessageId :=
  outcome.flipped ++ outcome.settled

/-- A row that could not be flipped is read again: one that is no longer queued is settled. -/
def rejectSettled (update : QueuedMessageStatusUpdate) : QueueTask Bool := do
  match ← (QueueRequest.readThreadMessage update).make with
  | some status => pure (decide (status ≠ .queued))
  | none => pure false

def flipRejectedBusy : List QueuedMessageStatusUpdate → RejectFlipOutcome →
    QueueTask RejectFlipOutcome
  | [], outcome => pure outcome
  | update :: rest, outcome => do
    if ← (QueueRequest.markMessageRejectedBusy update).make then
      flipRejectedBusy rest { outcome with flipped := outcome.flipped ++ [update.messageId] }
    else if ← rejectSettled update then
      flipRejectedBusy rest { outcome with settled := outcome.settled ++ [update.messageId] }
    else flipRejectedBusy rest outcome

/-! ### The document -/

def fsError (reason : String) : HostInputQueueError := .unavailable reason

def casExhausted (operation : String) : HostInputQueueError :=
  .unavailable ("durable input queue " ++ operation ++ " exhausted CAS retries")

/-- The document, or an empty queue when there is none. -/
def load : QueueTask (Except HostInputQueueError (RunQueueModel × Option ℕ)) := do
  match ← QueueRequest.get.make with
  | .error reason => pure (.error (fsError reason))
  | .ok (some (model, version)) => pure (.ok (model, some version))
  | .ok none => pure (.ok ({}, none))

def store (model : RunQueueModel) (version : Option ℕ) : QueueTask WriteAnswer :=
  (QueueRequest.put model version).make

/-- Delete a settled document, and write any other. -/
def storeOrReclaim (model : RunQueueModel) (version : ℕ) : QueueTask WriteAnswer :=
  if model.isSettled then (QueueRequest.deleteIfVersion version).make else store model (some version)

def confirmLoop (submitted : List ℕ) (rejected : List ThreadMessageId) (ackEffects : List ℕ) :
    ℕ → QueueTask Unit
  | 0 => pure ()
  | attempts + 1 => do
    match ← load with
    | .error _ => pure ()
    | .ok (_, none) => pure ()
    | .ok (model, some version) =>
      let confirmed := ((model.confirmSubmitFlips submitted).confirmRejectFlips
        rejected).confirmAckEffects ackEffects
      match ← storeOrReclaim confirmed version with
      | .conflict => confirmLoop submitted rejected ackEffects attempts
      | .done => pure ()
      | .fatal _ => pure ()

def confirmFlips (submitted : List ℕ) (rejected : List ThreadMessageId) (ackEffects : List ℕ) :
    QueueTask Unit :=
  if submitted.isEmpty && rejected.isEmpty && ackEffects.isEmpty then pure ()
  else confirmLoop submitted rejected ackEffects maxCasRetries

/-- The sequences whose effects were handled. -/
def handleAckEffects : List PendingAckEffect → QueueTask (List ℕ)
  | [] => pure []
  | pending :: rest => do
    let handled ← (QueueRequest.handleAckEffect pending.effect).make
    let confirmed ← handleAckEffects rest
    pure (if handled then pending.sequence :: confirmed else confirmed)

/-- `handler` says whether a handler is bound. -/
def retryPendingAckEffects (handler : Bool) : QueueTask Unit := do
  if handler then
    match ← load with
    | .error _ => pure ()
    | .ok (model, _) =>
      let confirmed ← handleAckEffects model.pendingAckEffects
      confirmFlips [] [] confirmed
  else pure ()

/-! ### The operations -/

section operations

variable (handler : Bool)

def enqueueLoop (request : EnqueueQueuedMessageRequest) :
    ℕ → QueueTask (Except HostInputQueueError HostInputEnvelope)
  | 0 => pure (.error (casExhausted "enqueue"))
  | attempts + 1 => do
    match ← load with
    | .error e => pure (.error e)
    | .ok (model, version) =>
      match model.enqueueDedup request.input request.status with
      | .error e => pure (.error e)
      | .ok (.inserted sequence, inserted) =>
        match inserted.attachAckEffect sequence request.ackEffect with
        | .error e => pure (.error e)
        | .ok attached =>
          match ← store attached version with
          | .done =>
            retryPendingAckEffects handler
            pure (.ok (envelopeFor sequence request.input))
          | .conflict => enqueueLoop request attempts
          | .fatal reason => pure (.error (fsError reason))
      | .ok (.duplicate sequence, _) =>
        retryPendingAckEffects handler
        pure (.ok (envelopeFor sequence request.input))
      | .ok (.alreadyConsumed flip, _) =>
        -- the row of a consumed message is repaired, and no new sequence is issued
        let flipped ← flipSubmitted [flip]
        confirmFlips flipped [] []
        retryPendingAckEffects handler
        pure (.ok (envelopeFor flip.sequence request.input))

def enqueueQueuedMessage (request : EnqueueQueuedMessageRequest) :
    QueueTask (Except HostInputQueueError HostInputEnvelope) :=
  enqueueLoop handler request maxCasRetries

omit handler in
def nextAfter (after : String) (limit : ℕ) : QueueTask (Except HostInputQueueError HostInputBatch) := do
  match cursorSequence after with
  | .error e => pure (.error e)
  | .ok afterSequence =>
    match ← load with
    | .error e => pure (.error e)
    | .ok (_, none) => pure (.ok ⟨[], after⟩)
    | .ok (model, some _) => pure (model.scanAfter afterSequence limit)

omit handler in
/-- The flips that are due once the acknowledgements are recorded, or `none` when there is no document. -/
def ackLoop (tokens : List String) :
    ℕ → QueueTask (Except HostInputQueueError (Option (List PendingSubmitFlip)))
  | 0 => pure (.error (casExhausted "ack_consumed"))
  | attempts + 1 => do
    match ← load with
    | .error e => pure (.error e)
    | .ok (_, none) => pure (.ok none)
    | .ok (model, some version) =>
      match model.validateAndAck tokens with
      | (.error e, _) => pure (.error e)
      | (.ok outcome, acked) =>
        if outcome.newlyAcked then
          match ← store acked (some version) with
          | .done => pure (.ok (some outcome.dueFlips))
          | .conflict => ackLoop tokens attempts
          | .fatal reason => pure (.error (fsError reason))
        else pure (.ok (some outcome.dueFlips))

def ackConsumed (tokens : List String) : QueueTask (Except HostInputQueueError Unit) := do
  match ← ackLoop tokens maxCasRetries with
  | .error e => pure (.error e)
  | .ok none => pure (.ok ())
  | .ok (some dueFlips) =>
    let flipped ← flipSubmitted dueFlips
    confirmFlips flipped [] []
    retryPendingAckEffects handler
    pure (.ok ())

omit handler in
/-- The flips that are due once the queue is closed, or `none` when nothing is left to do. -/
def rejectLoop : ℕ → QueueTask (Except HostInputQueueError
    (Option (List PendingSubmitFlip × List QueuedMessageStatusUpdate)))
  | 0 => pure (.error (casExhausted "reject_unconsumed"))
  | attempts + 1 => do
    match ← load with
    | .error e => pure (.error e)
    | .ok (_, none) => pure (.ok none)
    | .ok (model, some version) =>
      let closed := model.closeAndClaim
      match ← storeOrReclaim closed version with
      | .done =>
        if closed.isSettled then pure (.ok none)
        else pure (.ok (some (closed.pendingSubmitFlips, closed.pendingRejectFlips)))
      | .conflict => rejectLoop attempts
      | .fatal reason => pure (.error (fsError reason))

def rejectUnconsumed : QueueTask (Except HostInputQueueError (List ThreadMessageId)) := do
  match ← rejectLoop maxCasRetries with
  | .error e => pure (.error e)
  | .ok none => pure (.ok [])
  | .ok (some (submitFlips, rejectFlips)) =>
    let submitted ← flipSubmitted submitFlips
    let outcome ← flipRejectedBusy rejectFlips ⟨[], []⟩
    confirmFlips submitted outcome.confirmable []
    retryPendingAckEffects handler
    pure (.ok outcome.flipped)

end operations

inductive QueueCall where
  | enqueue (request : EnqueueQueuedMessageRequest)
  | poll (after : String) (limit : ℕ)
  | ack (tokens : List String)
  | reject

inductive QueueResult where
  | enqueued (result : Except HostInputQueueError HostInputEnvelope)
  | polled (result : Except HostInputQueueError HostInputBatch)
  | acked (result : Except HostInputQueueError Unit)
  | rejected (result : Except HostInputQueueError (List ThreadMessageId))

def QueueCall.durable (handler : Bool) : QueueCall → QueueTask QueueResult
  | .enqueue request => .enqueued <$> enqueueQueuedMessage handler request
  | .poll after limit => .polled <$> nextAfter after limit
  | .ack tokens => .acked <$> ackConsumed handler tokens
  | .reject => .rejected <$> rejectUnconsumed handler

end Ironclaw.LoopHost
