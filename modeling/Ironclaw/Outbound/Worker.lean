import Ironclaw.Outbound.Forward

/-! # The reconcile loop of a target

`run_target` of `publication/worker.rs`: the worker of one target of a reply plans against the newest
snapshot of the projection, prepares, reads the row, claims it, stores the desired revision, calls
the sink and stores what came of it.

`Phase` says how far a pass of the loop has got, `Worker.step` is one step of it. A step that talks
to the store is one operation of `Outbound.Publication` on the row; the store may fail before or
after it has written. What comes from outside, that is the snapshot, the channel, the clock and the
answer of the sink, is the input of a step. The sleeps of the loop are not modelled: between two
steps any time may pass. -/

namespace Ironclaw.Outbound

/-! ### What the loop reads -/

inductive ReplyReconcilePoint where
  | opened | progress | controlCritical | terminal | heartbeat
deriving DecidableEq

def ReplyTransport.reconcilesAt : ReplyTransport → ReplyReconcilePoint → Bool
  | .stream, _ => true
  | .message, .terminal => true
  | .message, _ => false

inductive ReplyAttentionKind where
  | approval | auth | resource
deriving DecidableEq

structure ReplyAttention where
  kind : ReplyAttentionKind
  gateRef : Option String
deriving DecidableEq

inductive ReplyOutcome where
  | completed
  | failed (summary : String)
  | cancelled

/-- The document of a reply, as far as the loop looks at it. -/
structure ReplyDocument where
  attention : Option ReplyAttention
  answerText : String
  answerFinalized : Bool
  answerTruncated : Bool
  attachments : List String
  outcome : Option ReplyOutcome

def ReplyDocument.empty : ReplyDocument := ⟨none, "", false, false, [], none⟩

def ReplyDocument.isTerminal (document : ReplyDocument) : Bool := document.outcome.isSome

structure ReplySnapshot where
  revision : ℕ
  document : ReplyDocument
  terminalPending : Bool

/-- Times are in nanoseconds. -/
structure ReplyPublicationSettings where
  leaseTtl : ℕ
  minProgressInterval : ℕ
  terminalAttemptBudget : ℕ
  reconcileTimeout : ℕ
  heartbeatInterval : ℕ

/-- What the last successful reconcile looked like. -/
structure Published where
  attention : Option ReplyAttention
  finalized : Bool
  hasText : Bool
  publishedAt : Option Timestamp
  /-- The published revision of the row, as the worker last saw it. -/
  revision : Option ℕ

def Published.default : Published := ⟨none, false, false, none, none⟩

inductive ReplySinkOutcome where
  | applied
  | retryable (reason : String) (retryAfter : Option ℕ)
  | ambiguous (reason : String)
  | permanent (reason : String)
  | unauthorized (reason : String)
  | stoppedByUser

structure ReplySinkReport where
  outcome : ReplySinkOutcome
  checkpoint : Option ReplySinkCheckpoint
  providerRefs : List String
  readBackVerified : Bool

inductive ChannelError where
  | parse (reason : String)
  | configuration (reason : String)
  | render (reason : String)
  | vendorWiring (reason : String)
  | attachmentTransfer (reason : String) (retryable : Bool)
  | unsupported

def ChannelError.toText : ChannelError → String
  | .parse reason => "inbound request could not be parsed: " ++ reason
  | .configuration reason => "channel configuration is unavailable: " ++ reason
  | .render reason => "outbound rendering failed: " ++ reason
  | .vendorWiring reason => "vendor wiring failed: " ++ reason
  | .attachmentTransfer reason _ => "attachment transfer failed: " ++ reason
  | .unsupported => "channel operation is not supported by this adapter"

/-- How a call of the sink ends. -/
inductive SinkAnswer where
  | report (report : ReplySinkReport)
  | error (error : ChannelError)
  | elapsed

/-- The channel of the target, if it is active. -/
structure ResolvedChannelDelivery where
  generation : ℕ
  bindsReply : Bool

/-- How reading the attachments of the terminal revision ends. -/
inductive Materialization where
  | files
  | refused (reason : String) (kind : DeliveryFailureKind)

/-- How a call of the store ends that the operation itself does not refuse. -/
inductive StoreFault where
  | works
  /-- An error, and nothing is written. -/
  | lost
  /-- An error, but the write has been made. -/
  | obscured
deriving DecidableEq

/-! ### Steps -/

inductive Step where
  | applied (report : ReplySinkReport) (generation : ℕ)
  | retry (reason : Option String) (retryAfter : Option ℕ) (generation : ℕ)
      (checkpoint : Option ReplySinkCheckpoint)
  | ambiguous (reason : String) (generation : ℕ) (checkpoint : Option ReplySinkCheckpoint)
  | permanent (reason : String) (kind : DeliveryFailureKind) (generation : ℕ)
      (checkpoint : Option ReplySinkCheckpoint)
  | stopped (generation : ℕ)
  | later

structure Plan where
  snapshot : ReplySnapshot
  publishedRevision : ℕ
  point : ReplyReconcilePoint

def Plan.terminal (plan : Plan) : Bool := plan.snapshot.document.isTerminal

/-- How far a pass of the loop has got. `preparation` is the generation of the channel, or the step
that the preparation found. -/
inductive Phase where
  | planning
  | preparing (plan : Plan)
  | loading (plan : Plan) (preparation : Except Step ℕ)
  | claiming (plan : Plan) (preparation : Except Step ℕ)
  | persisting (plan : Plan) (generation : ℕ) (record : ReplyPublicationRecord)
  | ready (plan : Plan) (generation : ℕ) (record : ReplyPublicationRecord)
  /-- The sink is called, at the latest until the deadline. -/
  | calling (plan : Plan) (generation : ℕ) (record : ReplyPublicationRecord) (deadline : Timestamp)
  | handling (plan : Plan) (record : ReplyPublicationRecord) (step : Step)
  /-- The channel has not come back; the publication is claimed to be settled. -/
  | failingClosed
  | settling (fence : ℕ) (settlement : ReplyPublicationSettlement)
  | exited

structure Worker where
  phase : Phase
  published : Published
  attempts : ℕ
  attemptedRevision : ℕ

def Worker.spawned : Worker := ⟨.planning, .default, 0, 0⟩

def Worker.goto (worker : Worker) (phase : Phase) : Worker :=
  { worker with
    phase := phase }

/-- The mirror of the row is stale: plan again. -/
def Worker.replan (worker : Worker) (publishedRevision : ℕ) : Worker :=
  { worker with
    phase := .planning
    published := { worker.published with
      revision := some publishedRevision } }

/-- Whose worker it is. -/
structure Target where
  scope : TurnScope
  publisherId : PublisherId
  transport : ReplyTransport
  settings : ReplyPublicationSettings

/-! ### Calls of the store -/

/-- An operation on the row, made by a store that may fail. -/
def storeCall {T : Type} (fault : StoreFault)
    (operation : Option DeliveryAttemptRow → Except OutboundError (RowUpdate T))
    (row : Option DeliveryAttemptRow) : Option DeliveryAttemptRow × Except OutboundError T :=
  match operation row with
  | .error error => (row, .error error)
  | .ok (.keep outcome) => (row, if fault = .works then .ok outcome else .error .backend)
  | .ok (.write new outcome) =>
    match fault with
    | .works => (some new, .ok outcome)
    | .lost => (row, .error .backend)
    | .obscured => (some new, .error .backend)

/-- `scope_matches`: the owner of the thread is not compared. -/
def scopeMatches (left right : TurnScope) : Prop :=
  left.tenantId = right.tenantId ∧ left.agentId = right.agentId ∧
    left.projectId = right.projectId ∧ left.threadId = right.threadId

instance (left right : TurnScope) : Decidable (scopeMatches left right) :=
  inferInstanceAs (Decidable (_ ∧ _))

def loadReplyPublication (scope : TurnScope) (row : Option DeliveryAttemptRow) :
    Option ReplyPublicationRecord :=
  match row with
  | some row =>
    if scopeMatches row.attempt.scope scope then
      row.publication.map fun publication => ⟨row.attempt, publication⟩
    else none
  | none => none

def isFencedOut : OutboundError → Bool
  | .staleReplyPublisher _ _ => true
  | .replyPublicationSettled => true
  | .replyPublicationNotFound => true
  | _ => false

/-! ### Planning -/

def attentionSignature (snapshot : ReplySnapshot) : Option ReplyAttention :=
  snapshot.document.attention

def reconcilePoint (snapshot : ReplySnapshot) (publishedRevision : ℕ) (published : Published) :
    ReplyReconcilePoint :=
  if snapshot.document.isTerminal then .terminal
  else if publishedRevision = 0 then .opened
  else if attentionSignature snapshot ≠ published.attention ∨
      snapshot.document.answerFinalized ≠ published.finalized ∨
      (published.hasText = false ∧ snapshot.document.answerText ≠ "") then .controlCritical
  else .progress

/-- The time since the last successful reconcile. -/
def Published.idleFor (published : Published) (now : Timestamp) : ℤ :=
  match published.publishedAt with
  | some publishedAt => now - publishedAt
  | none => 0

/-- The rest of the planning, with the published revision known. -/
def Worker.planAgainst (target : Target) (worker : Worker) (snapshot : ReplySnapshot)
    (publishedRevision : ℕ) (now : Timestamp) : Worker :=
  let behind := publishedRevision < snapshot.revision
  let canHeartbeat := snapshot.document.isTerminal = false ∧ 0 < publishedRevision ∧
    target.transport.reconcilesAt .heartbeat = true
  if ¬ behind ∧ ¬ canHeartbeat then worker.goto .planning
  else if ¬ behind ∧ worker.published.idleFor now < target.settings.heartbeatInterval then
    worker.goto .planning
  else
    let worker :=
      if snapshot.revision ≠ worker.attemptedRevision then { worker with
        attemptedRevision := snapshot.revision
        attempts := 0 }
      else worker
    let point :=
      if behind then reconcilePoint snapshot publishedRevision worker.published else .heartbeat
    if target.transport.reconcilesAt point = false then worker.goto .planning
    else if point = .progress ∧ worker.published.publishedAt.isSome = true ∧
        worker.published.idleFor now < target.settings.minProgressInterval then
      worker.goto .planning
    else worker.goto (.preparing ⟨snapshot, publishedRevision, point⟩)

/-- The top of the loop. -/
def Worker.plan (target : Target) (worker : Worker) (snapshot : Option ReplySnapshot)
    (fault : StoreFault) (now : Timestamp) (row : Option DeliveryAttemptRow) : Worker :=
  match snapshot with
  | none => worker
  | some snapshot =>
    if snapshot.terminalPending = true ∧ snapshot.document.isTerminal = false then worker
    else
      match worker.published.revision with
      | some publishedRevision => worker.planAgainst target snapshot publishedRevision now
      | none =>
        -- the first pass takes the mirror from the row
        if fault ≠ .works then worker
        else
          match loadReplyPublication target.scope row with
          | none => worker.goto .exited
          | some record =>
            if record.publication.status ≠ .active then worker.goto .exited
            else
              (worker.replan record.publication.publishedRevision).planAgainst target snapshot
                record.publication.publishedRevision now

/-! ### Preparing -/

def prepare (channel : Option ResolvedChannelDelivery) (materialized : Materialization)
    (plan : Plan) : Except Step ℕ :=
  match channel with
  | none => .error .later
  | some channel =>
    if channel.bindsReply = false then
      .error (.permanent "channel no longer binds a reply sink" .rejected channel.generation none)
    else if plan.point = .terminal ∧ plan.snapshot.document.attachments ≠ [] then
      match materialized with
      | .files => .ok channel.generation
      | .refused reason .transportUnavailable =>
        .error (.retry (some reason) none channel.generation none)
      | .refused reason kind => .error (.permanent reason kind channel.generation none)
    else .ok channel.generation

def Worker.prepared (target : Target) (worker : Worker) (plan : Plan)
    (preparation : Except Step ℕ) : Worker :=
  match preparation with
  | .error .later =>
    if plan.terminal = true then
      let worker := { worker with
        attempts := worker.attempts + 1 }
      if target.settings.terminalAttemptBudget ≤ worker.attempts then worker.goto .failingClosed
      else worker.goto .planning
    else worker.goto .planning
  | preparation => worker.goto (.loading plan preparation)

/-! ### Reading and claiming -/

def Worker.loaded (target : Target) (worker : Worker) (plan : Plan) (preparation : Except Step ℕ)
    (fault : StoreFault) (row : Option DeliveryAttemptRow) : Worker :=
  if fault ≠ .works then worker.goto .planning
  else
    match loadReplyPublication target.scope row with
    | none => worker.goto .exited
    | some record =>
      if record.publication.status ≠ .active then worker.goto .exited
      else if record.publication.publishedRevision ≠ plan.publishedRevision then
        worker.replan record.publication.publishedRevision
      else worker.goto (.claiming plan preparation)

def Target.claimRequest (target : Target) (now : Timestamp) : ClaimReplyPublicationLeaseRequest where
  scope := target.scope
  owner := target.publisherId
  ttl := target.settings.leaseTtl
  now := now

def Worker.claimed (worker : Worker) (plan : Plan) (preparation : Except Step ℕ)
    (claim : Except OutboundError ReplyPublicationClaim) : Worker :=
  match claim with
  | .ok (.acquired record) =>
    if record.publication.publishedRevision ≠ plan.publishedRevision then
      worker.replan record.publication.publishedRevision
    else
      match preparation with
      | .ok generation => worker.goto (.persisting plan generation record)
      | .error step => worker.goto (.handling plan record step)
  | .ok (.held _ _) => worker.goto .planning
  | .ok (.settled _) => worker.goto .exited
  | .error _ => worker.goto .planning

/-! ### Storing the desired revision -/

/-- `AdvanceScope::request`. -/
def advanceRequest (target : Target) (plan : Plan) (record : ReplyPublicationRecord)
    (publishedRevision : ℕ) (generation : Option ℕ) (checkpoint : Option ReplySinkCheckpoint)
    (evidence : ReplyPublicationEvidence) (now : Timestamp) : AdvanceReplyPublicationRequest where
  scope := target.scope
  fence := record.publication.fence
  desiredRevision := max plan.snapshot.revision record.publication.desiredRevision
  publishedRevision := publishedRevision
  terminalRevision := record.publication.terminalRevision.or
    (if plan.terminal then some plan.snapshot.revision else none)
  generation := generation
  checkpoint := checkpoint
  evidence := evidence
  now := now

/-- The row does not have the desired revision, or not the terminal one. -/
def NeedsPersist (plan : Plan) (record : ReplyPublicationRecord) : Prop :=
  record.publication.desiredRevision < plan.snapshot.revision ∨
    (plan.terminal = true ∧ record.publication.terminalRevision = none)

instance (plan : Plan) (record : ReplyPublicationRecord) : Decidable (NeedsPersist plan record) :=
  inferInstanceAs (Decidable (_ ∨ _))

def Worker.persisted (worker : Worker) (plan : Plan) (generation : ℕ)
    (advanced : Except OutboundError ReplyPublicationRecord) : Worker :=
  match advanced with
  | .ok record => worker.goto (.ready plan generation record)
  | .error error => worker.goto (if isFencedOut error then .exited else .planning)

/-! ### Calling the sink -/

def lapsedReason : String := "the claim's lease lapsed before the provider call; re-claiming"

/-- What is left of the claim, which bounds the call. -/
def Target.remaining (target : Target) (record : ReplyPublicationRecord) (now : Timestamp) : ℤ :=
  match record.publication.lease with
  | some lease => lease.expiresAt - now
  | none => target.settings.leaseTtl

def Worker.called (target : Target) (worker : Worker) (plan : Plan) (generation : ℕ)
    (record : ReplyPublicationRecord) (now : Timestamp) : Worker :=
  if target.remaining record now ≤ 0 then
    worker.goto (.handling plan record (.retry (some lapsedReason) none generation none))
  else
    worker.goto (.calling plan generation record
      (now + min (target.settings.reconcileTimeout : ℤ) (target.remaining record now)))

def channelErrorStep (error : ChannelError) (generation : ℕ) : Step :=
  match error with
  | .attachmentTransfer _ true => .retry (some error.toText) none generation none
  | _ => .permanent error.toText .rejected generation none

def SinkAnswer.step (answer : SinkAnswer) (generation : ℕ) : Step :=
  match answer with
  | .report sent =>
    match sent.outcome with
    | .applied => .applied sent generation
    | .retryable reason retryAfter => .retry (some reason) retryAfter generation sent.checkpoint
    | .ambiguous reason => .ambiguous reason generation sent.checkpoint
    | .permanent reason => .permanent reason .rejected generation sent.checkpoint
    | .unauthorized reason => .permanent reason .authorizationRevoked generation sent.checkpoint
    | .stoppedByUser => .stopped generation
  | .error raised => channelErrorStep raised generation
  | .elapsed => .ambiguous "reply sink reconcile timed out" generation none

/-! ### Handling the step -/

def generationChanged (record : ReplyPublicationRecord) (generation : ℕ) : Bool :=
  match record.publication.generation with
  | some previous => previous ≠ generation
  | none => false

/-- The advance that records a step: what was applied, or the outcome with the published revision
left as it is. -/
def stepRequest (target : Target) (plan : Plan) (record : ReplyPublicationRecord) (step : Step)
    (now : Timestamp) : Option AdvanceReplyPublicationRequest :=
  let outcome (lastOutcome : Option String) (generation : ℕ)
      (checkpoint : Option ReplySinkCheckpoint) : AdvanceReplyPublicationRequest :=
    advanceRequest target plan record record.publication.publishedRevision (some generation)
      checkpoint ⟨record.publication.evidence.providerRefs,
        record.publication.evidence.readBackVerified, lastOutcome,
        generationChanged record generation⟩ now
  match step with
  | .applied report generation =>
    some (advanceRequest target plan record plan.snapshot.revision (some generation)
      report.checkpoint ⟨report.providerRefs, report.readBackVerified, none,
        generationChanged record generation⟩ now)
  | .retry reason _ generation checkpoint => some (outcome reason generation checkpoint)
  | .ambiguous reason generation checkpoint => some (outcome (some reason) generation checkpoint)
  | .permanent reason _ generation checkpoint => some (outcome (some reason) generation checkpoint)
  | .stopped generation => some (outcome (some "stopped by user") generation none)
  | .later => none

/-- The worker after the reconcile has been applied and stored. -/
def Worker.applied (worker : Worker) (plan : Plan) (record : ReplyPublicationRecord)
    (now : Timestamp) : Worker where
  phase := if plan.terminal then .settling record.publication.fence .delivered else .planning
  published :=
    { attention := attentionSignature plan.snapshot
      finalized := plan.snapshot.document.answerFinalized
      hasText := plan.snapshot.document.answerText ≠ ""
      publishedAt := some now
      revision := some plan.snapshot.revision }
  attempts := 0
  attemptedRevision := worker.attemptedRevision

/-- What the loop does next, with the result of the advance. -/
def Worker.handled (target : Target) (worker : Worker) (plan : Plan)
    (record : ReplyPublicationRecord) (step : Step) (now : Timestamp)
    (advanced : Except OutboundError ReplyPublicationRecord) : Worker :=
  let exhausted := plan.terminal = true ∧
    target.settings.terminalAttemptBudget ≤ worker.attempts + 1
  let tried := { worker with
    attempts := worker.attempts + 1 }
  match step with
  | .applied _ _ =>
    match advanced with
    | .ok _ => worker.applied plan record now
    | .error error => worker.goto (if isFencedOut error then .exited else .planning)
  | .retry _ _ _ _ =>
    tried.goto (if exhausted then
      .settling record.publication.fence (.failed .transportUnavailable) else .planning)
  | .ambiguous _ _ checkpoint =>
    -- without a checkpoint a repeated call would repeat the effect blindly
    tried.goto (if (checkpoint = none ∧ record.publication.checkpoint = none) ∨ exhausted then
      .settling record.publication.fence .unknown else .planning)
  | .permanent _ kind _ _ => worker.goto (.settling record.publication.fence (.failed kind))
  | .stopped _ => worker.goto .planning
  | .later => worker.goto .planning

/-! ### The machine -/

inductive WorkerInput where
  | plan (snapshot : Option ReplySnapshot) (fault : StoreFault) (now : Timestamp)
  | prepare (channel : Option ResolvedChannelDelivery) (materialized : Materialization)
  /-- A call of the store, with the clock that its request carries. -/
  | store (fault : StoreFault) (now : Timestamp)
  | call (now : Timestamp)
  | answer (answer : SinkAnswer)

/-- The advance of a phase, if it makes one. -/
def Target.pendingAdvance (target : Target) (worker : Worker) (now : Timestamp) :
    Option AdvanceReplyPublicationRequest :=
  match worker.phase with
  | .persisting plan _ record =>
    if NeedsPersist plan record then
      some (advanceRequest target plan record record.publication.publishedRevision
        record.publication.generation none record.publication.evidence now)
    else none
  | .handling plan record step => stepRequest target plan record step now
  | _ => none

/-- A store step of the loop. -/
def Worker.store (target : Target) (worker : Worker) (fault : StoreFault) (now : Timestamp)
    (row : Option DeliveryAttemptRow) : Option DeliveryAttemptRow × Worker :=
  match worker.phase with
  | .loading plan preparation => (row, worker.loaded target plan preparation fault row)
  | .claiming plan preparation =>
    let claim := storeCall fault (claimReplyPublicationLease (target.claimRequest now)) row
    (claim.1, worker.claimed plan preparation claim.2)
  | .failingClosed =>
    let claim := storeCall fault (claimReplyPublicationLease (target.claimRequest now)) row
    match claim.2 with
    | .ok (.acquired record) =>
      (claim.1, worker.goto (.settling record.publication.fence (.failed .rejected)))
    | _ => (claim.1, worker.goto .exited)
  | .persisting plan generation record =>
    match target.pendingAdvance worker now with
    | some request =>
      let advance := storeCall fault (advanceReplyPublication request) row
      (advance.1, worker.persisted plan generation advance.2)
    | none => (row, worker.goto (.ready plan generation record))
  | .handling plan record step =>
    match target.pendingAdvance worker now with
    | some request =>
      let advance := storeCall fault (advanceReplyPublication request) row
      (advance.1, worker.handled target plan record step now advance.2)
    | none => (row, worker.handled target plan record step now (.error .backend))
  | .settling fence settlement =>
    let settle := storeCall fault (settleReplyPublication ⟨target.scope, fence, settlement, now⟩) row
    (settle.1, worker.goto .exited)
  | _ => (row, worker)

/-- A step of the loop. An input that the phase does not wait for does nothing. -/
def Worker.step (target : Target) (worker : Worker) (input : WorkerInput)
    (row : Option DeliveryAttemptRow) : Option DeliveryAttemptRow × Worker :=
  match input with
  | .plan snapshot fault now =>
    match worker.phase with
    | .planning => (row, worker.plan target snapshot fault now row)
    | _ => (row, worker)
  | .prepare channel materialized =>
    match worker.phase with
    | .preparing plan => (row, worker.prepared target plan (prepare channel materialized plan))
    | _ => (row, worker)
  | .store fault now => worker.store target fault now row
  | .call now =>
    match worker.phase with
    | .ready plan generation record => (row, worker.called target plan generation record now)
    | _ => (row, worker)
  | .answer answer =>
    match worker.phase with
    | .calling plan generation record _ =>
      (row, worker.goto (.handling plan record (answer.step generation)))
    | _ => (row, worker)

end Ironclaw.Outbound
