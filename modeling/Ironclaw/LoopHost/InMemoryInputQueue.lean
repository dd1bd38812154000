import Ironclaw.LoopHost.DurableInputQueue

/-! # The in-memory input queue

`InMemoryHostInputQueue` of `input_queue.rs`, on the record of one run. An operation holds the lock of
the map while it reads the record, changes it in place and leaves it; here that is a read of the record
and a write of what it has become, also where the operation then returns an error. The transcript flips
and the effects are those of the durable queue, made without the lock. -/

namespace Ironclaw.LoopHost.InMemory

def record : QueueTask (Option RunQueueModel) := do
  match ← QueueRequest.get.make with
  | .ok (some (model, _)) => pure (some model)
  | _ => pure none

/-- The record as it stands when the lock is released. -/
def leave (model : RunQueueModel) : QueueTask Unit := do
  let _ ← (QueueRequest.put model none).make
  pure ()

def remove : QueueTask Unit := do
  let _ ← (QueueRequest.deleteIfVersion 0).make
  pure ()

/-- Change the record, if there is one, and remove it when it is settled and `reclaim` says so. -/
def amend (reclaim : Bool) (change : RunQueueModel → RunQueueModel) : QueueTask Unit := do
  match ← record with
  | none => pure ()
  | some model => if reclaim && (change model).isSettled then remove else leave (change model)

def confirmSubmitted (flipped : List ℕ) : QueueTask Unit :=
  if flipped.isEmpty then pure () else amend false fun model => model.confirmSubmitFlips flipped

def confirmEffects (confirmed : List ℕ) : QueueTask Unit :=
  if confirmed.isEmpty then pure () else amend true fun model => model.confirmAckEffects confirmed

/-- The effects to retry: those that are due, or else those of the record. -/
def dueOrPending (due : List PendingAckEffect) : QueueTask (List PendingAckEffect) :=
  if due.isEmpty then do
    match ← record with
    | some model => pure model.pendingAckEffects
    | none => pure []
  else pure due

def retryPendingAckEffects (handler : Bool) (due : List PendingAckEffect) : QueueTask Unit := do
  if handler then
    let pending ← dueOrPending due
    let confirmed ← handleAckEffects pending
    confirmEffects confirmed
  else pure ()

section operations

variable (handler : Bool)

/-- Enqueue under the lock. -/
def insert (request : EnqueueQueuedMessageRequest) :
    QueueTask (Except HostInputQueueError EnqueueDisposition) := do
  let found ← record
  let model := found.getD {}
  match model.enqueueDedup request.input request.status with
  | .error e =>
    leave model
    pure (.error e)
  | .ok (.inserted sequence, inserted) =>
    match inserted.attachAckEffect sequence request.ackEffect with
    | .error e =>
      leave inserted
      pure (.error e)
    | .ok attached =>
      leave attached
      pure (.ok (.inserted sequence))
  | .ok (disposition, same) =>
    leave same
    pure (.ok disposition)

def enqueueQueuedMessage (request : EnqueueQueuedMessageRequest) :
    QueueTask (Except HostInputQueueError HostInputEnvelope) := do
  match ← insert request with
  | .error e => pure (.error e)
  | .ok (.inserted sequence) | .ok (.duplicate sequence) =>
    retryPendingAckEffects handler []
    pure (.ok (envelopeFor sequence request.input))
  | .ok (.alreadyConsumed flip) =>
    let flipped ← flipSubmitted [flip]
    confirmSubmitted flipped
    retryPendingAckEffects handler []
    pure (.ok (envelopeFor flip.sequence request.input))

omit handler in
def nextAfter (after : String) (limit : ℕ) : QueueTask (Except HostInputQueueError HostInputBatch) := do
  match cursorSequence after with
  | .error e => pure (.error e)
  | .ok afterSequence =>
    match ← record with
    | none => pure (.ok ⟨[], after⟩)
    | some model => pure (model.scanAfter afterSequence limit)

def ackConsumed (tokens : List String) : QueueTask (Except HostInputQueueError Unit) := do
  match ← record with
  | none => pure (.ok ())
  | some model =>
    match model.validateAndAck tokens with
    | (.error e, partway) =>
      -- the record keeps what the tokens before the unknown one added
      leave partway
      pure (.error e)
    | (.ok outcome, acked) =>
      leave acked
      let flipped ← flipSubmitted outcome.dueFlips
      confirmSubmitted flipped
      retryPendingAckEffects handler outcome.dueAckEffects
      pure (.ok ())

def rejectUnconsumed : QueueTask (Except HostInputQueueError (List ThreadMessageId)) := do
  match ← record with
  | none => pure (.ok [])
  | some model =>
    let closed := model.closeAndClaim
    leave closed
    let submitted ← flipSubmitted closed.pendingSubmitFlips
    let outcome ← flipRejectedBusy closed.pendingRejectFlips ⟨[], []⟩
    amend true fun model =>
      (model.confirmSubmitFlips submitted).confirmRejectFlips outcome.confirmable
    retryPendingAckEffects handler []
    pure (.ok outcome.flipped)

end operations

end Ironclaw.LoopHost.InMemory

namespace Ironclaw.LoopHost

def QueueCall.inMemory (handler : Bool) : QueueCall → QueueTask QueueResult
  | .enqueue request => .enqueued <$> InMemory.enqueueQueuedMessage handler request
  | .poll after limit => .polled <$> InMemory.nextAfter after limit
  | .ack tokens => .acked <$> InMemory.ackConsumed handler tokens
  | .reject => .rejected <$> InMemory.rejectUnconsumed handler

end Ironclaw.LoopHost
