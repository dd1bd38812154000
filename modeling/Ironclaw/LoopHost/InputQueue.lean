import Ironclaw.Outbound.Attempt

/-! # The input queue of a run

`RunQueueModel` of `input_queue.rs`: the inputs that wait for an active run, with what is known of the
inputs it has consumed. Both backends keep this value, the in-memory one in a map and the durable one
as the document of the run.

An input is live from the time it is enqueued until it is acknowledged or claimed by the terminal
reconciliation. What an acknowledgement moves out of `entries` is kept in three places: the transcript
flips that are still due, the effects that are still due, and the bounded list of recent messages that
makes a retried enqueue of a consumed message find its old sequence. -/

namespace Ironclaw.LoopHost

open Outbound (TurnRunId TurnScope)

structure TurnId where
  asUuid : BitVec 128
deriving DecidableEq

structure ThreadMessageId where
  asUuid : BitVec 128
deriving DecidableEq

structure ThreadScope where
  tenantId : TenantId
  agentId : AgentId
  projectId : Option ProjectId
  ownerUserId : Option UserId
  missionId : Option MissionId
deriving DecidableEq

inductive LoopInterruptKind where
  | userInterrupt | hostShutdown
deriving DecidableEq

inductive LoopCancelReasonKind where
  | userRequested | superseded | policy
deriving DecidableEq

inductive LoopInput where
  | userMessage (messageRef : String)
  | followUp (messageRef : String)
  | steering (messageRef : String)
  | subagentSettled (childRunId : TurnRunId) (messageRef : String)
  | interrupt (kind : LoopInterruptKind)
  | cancel (reasonKind : LoopCancelReasonKind)
  | gateResolved (gateRef : String)
  | capabilitySurfaceChanged (version : String)
deriving DecidableEq

structure LoopInputAckEffect where
  childScope : TurnScope
  parentRunId : TurnRunId
  childRunId : TurnRunId

inductive HostInputQueueError where
  | unavailable (reason : String)
  | invalidCursor (reason : String)
  | disabled
  | runClosed
  | capacityExhausted
  | internal

structure HostInputEnvelope where
  input : LoopInput
  cursor : String
  ackToken : String

structure HostInputBatch where
  inputs : List HostInputEnvelope
  nextCursor : String

/-! ### Tokens -/

def cursorOrigin : String := "input-cursor:origin"

def cursorToken (sequence : ℕ) : String := "input-cursor:" ++ toString sequence

def ackToken (sequence : ℕ) : String := "input-ack:" ++ toString sequence

def cursorSequence (token : String) : Except HostInputQueueError ℕ :=
  if token = cursorOrigin then .ok 0
  else
    match (Text.stripHead token "input-cursor:").bind Text.parseU64 with
    | some sequence => .ok sequence
    | none => .error (.invalidCursor "input cursor token is malformed")

def ackSequence (token : String) : Except HostInputQueueError ℕ :=
  match (Text.stripHead token "input-ack:").bind Text.parseU64 with
  | some sequence => .ok sequence
  | none => .error (.invalidCursor "input ack token is malformed")

def envelopeFor (sequence : ℕ) (input : LoopInput) : HostInputEnvelope :=
  ⟨input, cursorToken sequence, ackToken sequence⟩

/-! ### The queue -/

def maxQueuedInputsPerRun : ℕ := 32

def recentlyConsumedDedupLimit : ℕ := maxQueuedInputsPerRun

/-- The transcript message of a queued input. -/
structure QueuedMessageStatusUpdate where
  turnId : TurnId
  scope : ThreadScope
  threadId : ThreadId
  messageId : ThreadMessageId
deriving DecidableEq

structure QueueEntry where
  sequence : ℕ
  input : LoopInput
  status : QueuedMessageStatusUpdate
  ackEffect : Option LoopInputAckEffect

structure PendingSubmitFlip where
  sequence : ℕ
  status : QueuedMessageStatusUpdate

structure PendingAckEffect where
  sequence : ℕ
  effect : LoopInputAckEffect

structure ConsumedMessage where
  sequence : ℕ
  messageId : ThreadMessageId

structure RunQueueModel where
  /-- The next sequence to issue; sequence 0 is the position at the start of the run. The `u64` of
  the source saturates, which takes as many messages in one run. -/
  nextSequence : ℕ := 1
  entries : List QueueEntry := []
  /-- Every sequence up to here is acknowledged, and so are those of `ackedAbove`. -/
  ackedWatermark : ℕ := 0
  ackedAbove : Finset ℕ := ∅
  pendingSubmitFlips : List PendingSubmitFlip := []
  pendingAckEffects : List PendingAckEffect := []
  /-- Oldest first. -/
  recentlyConsumed : List ConsumedMessage := []
  closed : Bool := false
  pendingRejectFlips : List QueuedMessageStatusUpdate := []

inductive EnqueueDisposition where
  | inserted (sequence : ℕ)
  | duplicate (sequence : ℕ)
  | alreadyConsumed (flip : PendingSubmitFlip)

structure AckOutcome where
  newlyAcked : Bool
  dueFlips : List PendingSubmitFlip
  dueAckEffects : List PendingAckEffect

namespace RunQueueModel

variable (model : RunQueueModel)

def isAcked (sequence : ℕ) : Bool :=
  decide (sequence ≤ model.ackedWatermark) || decide (sequence ∈ model.ackedAbove)

/-- Move the watermark over the sequences right above it. -/
def compactAcks : ℕ → ℕ → Finset ℕ → ℕ × Finset ℕ
  | 0, watermark, above => (watermark, above)
  | fuel + 1, watermark, above =>
    if watermark + 1 ∈ above then compactAcks fuel (watermark + 1) (above.erase (watermark + 1))
    else (watermark, above)

def recordAck (sequence : ℕ) : RunQueueModel :=
  if sequence ≤ model.ackedWatermark then model
  else
    let above := insert sequence model.ackedAbove
    let compacted := compactAcks above.card model.ackedWatermark above
    { model with
      ackedWatermark := compacted.1
      ackedAbove := compacted.2 }

/-- The sequences that count against the capacity. -/
def trackedSequences : Finset ℕ :=
  (model.entries.map (·.sequence) ++ model.pendingSubmitFlips.map (·.sequence) ++
    model.pendingAckEffects.map (·.sequence)).toFinset

def enqueueDedup (input : LoopInput) (status : QueuedMessageStatusUpdate) :
    Except HostInputQueueError (EnqueueDisposition × RunQueueModel) :=
  if model.closed then .error .runClosed
  else
    match model.entries.find? (fun entry => entry.input = input) with
    | some existing => .ok (.duplicate existing.sequence, model)
    | none =>
      match model.pendingSubmitFlips.find? (fun pending => pending.status.messageId = status.messageId) with
      | some pending => .ok (.alreadyConsumed pending, model)
      | none =>
        match model.recentlyConsumed.find? (fun consumed => consumed.messageId = status.messageId) with
        | some consumed => .ok (.duplicate consumed.sequence, model)
        | none =>
          if maxQueuedInputsPerRun ≤ model.trackedSequences.card then .error .capacityExhausted
          else
            .ok (.inserted model.nextSequence,
              { model with
                nextSequence := model.nextSequence + 1
                entries := model.entries ++ [⟨model.nextSequence, input, status, none⟩] })

/-- Set the effect of the first entry with the sequence. -/
def setAckEffect (sequence : ℕ) (effect : Option LoopInputAckEffect) :
    List QueueEntry → Option (List QueueEntry)
  | [] => none
  | entry :: rest =>
    if entry.sequence = sequence then some ({ entry with ackEffect := effect } :: rest)
    else (setAckEffect sequence effect rest).map (entry :: ·)

def attachAckEffect (sequence : ℕ) (effect : Option LoopInputAckEffect) :
    Except HostInputQueueError RunQueueModel :=
  match setAckEffect sequence effect model.entries with
  | some entries => .ok { model with entries := entries }
  | none => .error .internal

/-- The envelopes collected so far and the cursor, over the entries that are left. -/
def scanEntries (limit : ℕ) : List QueueEntry → List HostInputEnvelope → ℕ → List HostInputEnvelope × ℕ
  | [], inputs, cursor => (inputs, cursor)
  | entry :: rest, inputs, cursor =>
    if model.isAcked entry.sequence then scanEntries limit rest inputs entry.sequence
    else if limit ≤ inputs.length then (inputs, cursor)
    else
      scanEntries limit rest (inputs ++ [envelopeFor entry.sequence entry.input]) entry.sequence

def scanAfter (afterSequence limit : ℕ) : Except HostInputQueueError HostInputBatch :=
  if model.nextSequence ≤ afterSequence then
    .error (.invalidCursor "input cursor is ahead of the run input queue")
  else
    let scanned := model.scanEntries limit
      (model.entries.filter fun entry => afterSequence < entry.sequence) [] afterSequence
    .ok ⟨scanned.1, if scanned.2 = 0 then cursorOrigin else cursorToken scanned.2⟩

/-- The message joins the recent ones, and the oldest leaves when there are too many. -/
def recordConsumed (consumed : ConsumedMessage) : List ConsumedMessage :=
  let recent := model.recentlyConsumed ++ [consumed]
  if recentlyConsumedDedupLimit < recent.length then recent.drop 1 else recent

/-- What the acknowledgement of a live entry adds to the lists of due work. -/
def consume (entry : QueueEntry) : RunQueueModel :=
  { model with
    pendingSubmitFlips := model.pendingSubmitFlips ++ [⟨entry.sequence, entry.status⟩]
    pendingAckEffects :=
      match entry.ackEffect with
      | some effect => model.pendingAckEffects ++ [⟨entry.sequence, effect⟩]
      | none => model.pendingAckEffects
    recentlyConsumed := model.recordConsumed ⟨entry.sequence, entry.status.messageId⟩ }

def unknownSequence (sequence : ℕ) : HostInputQueueError :=
  .invalidCursor ("ack token references sequence " ++ toString sequence ++
    " that is neither live nor already acked for this run")

/-- The tokens one after the other. The model is changed on the way, so an unknown token leaves behind
what the tokens before it added. -/
def consumeTokens : List String → List ℕ → RunQueueModel →
    Except HostInputQueueError (List ℕ) × RunQueueModel
  | [], newlyAcked, model => (.ok newlyAcked, model)
  | token :: rest, newlyAcked, model =>
    match ackSequence token with
    | .error e => (.error e, model)
    | .ok sequence =>
      if model.isAcked sequence then consumeTokens rest newlyAcked model
      else
        match model.entries.find? (fun entry => entry.sequence = sequence) with
        | none => (.error (unknownSequence sequence), model)
        | some entry => consumeTokens rest (newlyAcked ++ [sequence]) (model.consume entry)

/-- Record the acknowledgements and drop the entries. -/
def commitAcks (newlyAcked : List ℕ) : RunQueueModel :=
  let acked := newlyAcked.foldl recordAck model
  { acked with
    entries := acked.entries.filter fun entry => entry.sequence ∉ newlyAcked }

/-- The result, and the model as it stands then, also after an error. -/
def validateAndAck (tokens : List String) : Except HostInputQueueError AckOutcome × RunQueueModel :=
  if model.closed then (.ok ⟨false, [], []⟩, model)
  else
    match consumeTokens tokens [] model with
    | (.error e, partway) => (.error e, partway)
    | (.ok newlyAcked, consumed) =>
      let acked := consumed.commitAcks newlyAcked
      (.ok ⟨decide (newlyAcked ≠ []), acked.pendingSubmitFlips, acked.pendingAckEffects⟩, acked)

def confirmSubmitFlips (flipped : List ℕ) : RunQueueModel :=
  { model with
    pendingSubmitFlips := model.pendingSubmitFlips.filter fun pending => pending.sequence ∉ flipped }

def confirmAckEffects (confirmed : List ℕ) : RunQueueModel :=
  { model with
    pendingAckEffects := model.pendingAckEffects.filter fun pending => pending.sequence ∉ confirmed }

def closeAndClaim : RunQueueModel :=
  { model with
    closed := true
    pendingRejectFlips := model.pendingRejectFlips ++
      (model.entries.filter fun entry => !model.isAcked entry.sequence).map (·.status)
    entries := []
    recentlyConsumed := [] }

def confirmRejectFlips (flipped : List ThreadMessageId) : RunQueueModel :=
  { model with
    pendingRejectFlips := model.pendingRejectFlips.filter fun pending => pending.messageId ∉ flipped }

/-- Closed with nothing left to flip. -/
def isSettled : Bool :=
  model.closed && model.entries.isEmpty && model.pendingSubmitFlips.isEmpty &&
    model.pendingAckEffects.isEmpty && model.pendingRejectFlips.isEmpty

end RunQueueModel

structure EnqueueQueuedMessageRequest where
  turnId : TurnId
  scope : ThreadScope
  threadId : ThreadId
  messageId : ThreadMessageId
  input : LoopInput
  ackEffect : Option LoopInputAckEffect

def EnqueueQueuedMessageRequest.status (request : EnqueueQueuedMessageRequest) :
    QueuedMessageStatusUpdate :=
  ⟨request.turnId, request.scope, request.threadId, request.messageId⟩

def steeringRequest (number : BitVec 128) (messageRef : String) : EnqueueQueuedMessageRequest where
  turnId := ⟨0⟩
  scope := ⟨⟨"tenant"⟩, ⟨"agent"⟩, none, none, none⟩
  threadId := ⟨"thread"⟩
  messageId := ⟨number⟩
  input := .steering messageRef
  ackEffect := none

inductive MessageStatus where
  | accepted | queued | submitted | rejectedBusy | deferredBusy | draft | finalized | interrupted
  | superseded | redacted | deleted
deriving DecidableEq

end Ironclaw.LoopHost
