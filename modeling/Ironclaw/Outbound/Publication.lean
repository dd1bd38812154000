import Ironclaw.Filesystem.Cas
import Ironclaw.Lib.Versioned
import Ironclaw.Outbound.Attempt

/-! # Reply publication rows

`ReplyPublicationState` of `reply_publication.rs` and the five guarded operations of
`outbound_state_store.rs` on it: open, claim, advance, settle and release. Every one of them goes
through the compare-and-swap of the filesystem, so an operation is what it does to the row it
reads; `publicationStep` is a step of any number of publishers that race on one row.

The revisions and the fence of the source are 64-bit numbers; the only one that is counted up in
the store is the fence, with a check. -/

namespace Ironclaw.Outbound

structure ReplyPublicationTargetKey where
  asStr : String
deriving DecidableEq

structure PublisherId where
  asStr : String
deriving DecidableEq

structure ReplyPublicationTarget where
  runId : TurnRunId
  key : ReplyPublicationTargetKey
deriving DecidableEq

/-- How often the sink of a channel wants to hear of a reply. -/
inductive ReplyTransport where
  | stream | message
deriving DecidableEq

/-- What a publisher needs to address the target again, as far as the worker reads it. -/
structure ReplyPublicationTargetDescriptor where
  extensionId : ExtensionId
  actor : UserId
  replyTarget : ReplyTargetBindingRef
  transport : ReplyTransport
deriving DecidableEq

structure ReplyPublicationLease where
  owner : PublisherId
  expiresAt : Timestamp
deriving DecidableEq

structure ReplySinkCheckpoint where
  bytes : String
deriving DecidableEq

structure ReplyPublicationEvidence where
  providerRefs : List String
  readBackVerified : Bool
  lastOutcome : Option String
  generationChanged : Bool
deriving DecidableEq

def ReplyPublicationEvidence.default : ReplyPublicationEvidence := ⟨[], false, none, false⟩

inductive ReplyPublicationSettlement where
  | delivered
  | unknown
  | failed (kind : DeliveryFailureKind)
deriving DecidableEq

def ReplyPublicationSettlement.attemptStatus : ReplyPublicationSettlement → OutboundDeliveryStatus
  | .delivered => .delivered
  | .unknown => .unknown
  | .failed _ => .failed

def ReplyPublicationSettlement.failureKind :
    ReplyPublicationSettlement → Option DeliveryFailureKind
  | .delivered => none
  | .unknown => none
  | .failed kind => some kind

inductive ReplyPublicationStatus where
  | active
  | settled (settlement : ReplyPublicationSettlement)
deriving DecidableEq

structure ReplyPublicationState where
  target : ReplyPublicationTarget
  descriptor : Option ReplyPublicationTargetDescriptor
  fence : ℕ
  lease : Option ReplyPublicationLease
  desiredRevision : ℕ
  publishedRevision : ℕ
  terminalRevision : Option ℕ
  generation : Option ℕ
  checkpoint : Option ReplySinkCheckpoint
  evidence : ReplyPublicationEvidence
  status : ReplyPublicationStatus
  updatedAt : Timestamp
deriving DecidableEq

namespace ReplyPublicationState

/-- A publication without an owner, with nothing published. -/
def opened (target : ReplyPublicationTarget) (now : Timestamp) : ReplyPublicationState where
  target := target
  descriptor := none
  fence := 0
  lease := none
  desiredRevision := 0
  publishedRevision := 0
  terminalRevision := none
  generation := none
  checkpoint := none
  evidence := .default
  status := .active
  updatedAt := now

def liveLease (publication : ReplyPublicationState) (now : Timestamp) :
    Option ReplyPublicationLease :=
  publication.lease.filter fun lease => now < lease.expiresAt

def terminalApplied (publication : ReplyPublicationState) : Prop :=
  publication.terminalRevision = some publication.publishedRevision

instance (publication : ReplyPublicationState) : Decidable publication.terminalApplied :=
  inferInstanceAs (Decidable (_ = _))

end ReplyPublicationState

structure DeliveryAttemptRow where
  attempt : OutboundDeliveryAttempt
  publication : Option ReplyPublicationState
deriving DecidableEq

def DeliveryAttemptRow.plain (attempt : OutboundDeliveryAttempt) : DeliveryAttemptRow :=
  ⟨attempt, none⟩

structure ReplyPublicationRecord where
  attempt : OutboundDeliveryAttempt
  publication : ReplyPublicationState

/-- A guarded update writes the row back or leaves it as it was read. -/
inductive RowUpdate (T : Type) where
  | write (row : DeliveryAttemptRow) (outcome : T)
  | keep (outcome : T)

/-! ### Requests -/

structure OpenReplyPublicationRequest where
  attempt : OutboundDeliveryAttempt
  target : ReplyPublicationTarget
  descriptor : Option ReplyPublicationTargetDescriptor
  now : Timestamp

/-- `ttl` is in nanoseconds. -/
structure ClaimReplyPublicationLeaseRequest where
  scope : TurnScope
  owner : PublisherId
  ttl : ℕ
  now : Timestamp

inductive ReplyPublicationClaim where
  | acquired (record : ReplyPublicationRecord)
  | held (owner : PublisherId) (expiresAt : Timestamp)
  | settled (record : ReplyPublicationRecord)

structure AdvanceReplyPublicationRequest where
  scope : TurnScope
  fence : ℕ
  desiredRevision : ℕ
  publishedRevision : ℕ
  terminalRevision : Option ℕ
  generation : Option ℕ
  checkpoint : Option ReplySinkCheckpoint
  evidence : ReplyPublicationEvidence
  now : Timestamp

structure SettleReplyPublicationRequest where
  scope : TurnScope
  fence : ℕ
  settlement : ReplyPublicationSettlement
  now : Timestamp

structure ReleaseReplyPublicationLeaseRequest where
  scope : TurnScope
  fence : ℕ

/-- `chrono::Duration::MAX`, in nanoseconds. -/
def maxTtl : ℕ := (2 ^ 63 - 1) * 1000000

/-- The last instant that a `DateTime<Utc>` can hold, at the end of the year 262142. -/
def maxUtc : Timestamp := 8210266876799999999999

def leaseExpiresAt (now : Timestamp) (ttl : ℕ) : Except OutboundError Timestamp := do
  rejectIf (ttl = 0) (.invalidRequest "reply publication lease ttl must be positive")
  rejectIf (maxTtl < ttl) (.invalidRequest "reply publication lease ttl is out of range")
  rejectIf (maxUtc < now + ttl)
    (.invalidRequest "reply publication lease expiry is out of range")
  return now + ttl

theorem leaseExpiresAt_eq_ok {now expiresAt : Timestamp} {ttl : ℕ} :
    leaseExpiresAt now ttl = .ok expiresAt ↔
      ttl ≠ 0 ∧ ttl ≤ maxTtl ∧ now + ttl ≤ maxUtc ∧ now + ttl = expiresAt := by
  simp only [leaseExpiresAt, bind_eq_ok, rejectIf_eq_ok, exists_const, not_lt, pure_eq_ok, ne_eq]

def ensureActive (publication : ReplyPublicationState) : Except OutboundError Unit :=
  rejectIf (publication.status ≠ .active) .replyPublicationSettled

def ensureFence (publication : ReplyPublicationState) (fence : ℕ) : Except OutboundError Unit :=
  rejectIf (publication.fence ≠ fence) (.staleReplyPublisher fence publication.fence)

/-! ### The operations on the row -/

/-- `update_reply_publication`: the row exists, is of the scope and carries a publication. -/
def updateReplyPublication {T : Type} (scope : TurnScope)
    (apply : OutboundDeliveryAttempt → ReplyPublicationState → Except OutboundError (RowUpdate T))
    (row : Option DeliveryAttemptRow) : Except OutboundError (RowUpdate T) := do
  let row ← okOr row .replyPublicationNotFound
  rejectIf (row.attempt.scope ≠ scope) .subscriptionScopeMismatch
  let publication ← okOr row.publication .replyPublicationNotFound
  apply row.attempt publication

def openReplyPublication (request : OpenReplyPublicationRequest) (row : Option DeliveryAttemptRow) :
    Except OutboundError (RowUpdate ReplyPublicationRecord) := do
  validateDeliveryAttempt request.attempt
  rejectIf (request.attempt.status ≠ .prepared)
    (.invalidRequest "reply publication requires a prepared delivery attempt")
  match row with
  | none =>
    let publication := { ReplyPublicationState.opened request.target request.now with
      descriptor := request.descriptor }
    return .write ⟨request.attempt, some publication⟩ ⟨request.attempt, publication⟩
  | some row =>
    rejectIf (row.attempt.scope ≠ request.attempt.scope) .subscriptionScopeMismatch
    -- a plain attempt under this id is never adopted
    let publication ← okOr row.publication .replyPublicationTargetMismatch
    rejectIf (publication.target ≠ request.target) .replyPublicationTargetMismatch
    validateDeliveryIdentity row.attempt request.attempt
    return .keep ⟨row.attempt, publication⟩

/-- The row of a new ownership epoch. -/
def newEpoch (request : ClaimReplyPublicationLeaseRequest) (expiresAt : Timestamp)
    (attempt : OutboundDeliveryAttempt) (publication : ReplyPublicationState) :
    ReplyPublicationRecord where
  attempt :=
    if attempt.status = .prepared then { attempt with
      status := .sending
      failureKind := none }
    else attempt
  publication := { publication with
    fence := publication.fence + 1
    lease := some ⟨request.owner, expiresAt⟩
    updatedAt := request.now }

def ReplyPublicationRecord.row (record : ReplyPublicationRecord) : DeliveryAttemptRow :=
  ⟨record.attempt, some record.publication⟩

def claimReplyPublicationLease (request : ClaimReplyPublicationLeaseRequest)
    (row : Option DeliveryAttemptRow) :
    Except OutboundError (RowUpdate ReplyPublicationClaim) := do
  let expiresAt ← leaseExpiresAt request.now request.ttl
  updateReplyPublication request.scope (fun attempt publication =>
    if publication.status ≠ .active then .ok (.keep (.settled ⟨attempt, publication⟩))
    else
      match publication.liveLease request.now with
      | some live =>
        if live.owner ≠ request.owner then .ok (.keep (.held live.owner live.expiresAt))
        else
          -- the same owner again: the fence stays, the expiry only moves on
          let record : ReplyPublicationRecord := ⟨attempt, { publication with
            lease := some ⟨request.owner, max live.expiresAt expiresAt⟩
            updatedAt := request.now }⟩
          .ok (.write record.row (.acquired record))
      | none =>
        if publication.fence + 1 < 2 ^ 64 then
          let record := newEpoch request expiresAt attempt publication
          .ok (.write record.row (.acquired record))
        else .error (.invalidRequest "reply publication fence exhausted")) row

variable (request : AdvanceReplyPublicationRequest)

/-- What an advance refuses before it looks at the row. -/
def checkAdvance : Except OutboundError Unit := do
  rejectIf (request.desiredRevision < request.publishedRevision)
    (.replyPublicationRevisionRegressed request.publishedRevision request.desiredRevision)
  rejectIf (∃ terminal ∈ request.terminalRevision, request.desiredRevision < terminal)
    (.invalidRequest "reply publication terminal revision exceeds the desired revision")
  rejectIf (∃ terminal ∈ request.terminalRevision, terminal < request.publishedRevision)
    (.invalidRequest "reply publication terminal revision is below the published revision")

def advanced (publication : ReplyPublicationState) : ReplyPublicationState :=
  { publication with
    desiredRevision := request.desiredRevision
    publishedRevision := request.publishedRevision
    terminalRevision := request.terminalRevision.or publication.terminalRevision
    generation := request.generation
    checkpoint := request.checkpoint.or publication.checkpoint
    evidence := request.evidence
    updatedAt := request.now }

def advanceReplyPublication (row : Option DeliveryAttemptRow) :
    Except OutboundError (RowUpdate ReplyPublicationRecord) := do
  checkAdvance request
  updateReplyPublication request.scope (fun attempt publication => do
    ensureActive publication
    ensureFence publication request.fence
    rejectIf (publication.lease = none) .replyPublicationLeaseRequired
    rejectIf (request.desiredRevision < publication.desiredRevision)
      (.replyPublicationRevisionRegressed publication.desiredRevision request.desiredRevision)
    rejectIf (request.publishedRevision < publication.publishedRevision)
      (.replyPublicationRevisionRegressed publication.publishedRevision request.publishedRevision)
    rejectIf (publication.terminalRevision.isSome = true ∧
        request.terminalRevision ≠ publication.terminalRevision)
      (.invalidRequest "reply publication terminal revision is already set")
    let record : ReplyPublicationRecord := ⟨attempt, advanced request publication⟩
    return .write record.row record) row

def settledRecord (request : SettleReplyPublicationRequest) (attempt : OutboundDeliveryAttempt)
    (publication : ReplyPublicationState) : ReplyPublicationRecord where
  attempt := { attempt with
    status := request.settlement.attemptStatus
    failureKind := request.settlement.failureKind }
  publication := { publication with
    status := .settled request.settlement
    lease := none
    updatedAt := request.now }

def settleReplyPublication (request : SettleReplyPublicationRequest)
    (row : Option DeliveryAttemptRow) :
    Except OutboundError (RowUpdate ReplyPublicationRecord) :=
  updateReplyPublication request.scope (fun attempt publication => do
    ensureActive publication
    ensureFence publication request.fence
    rejectIf (request.settlement = .delivered ∧ ¬ publication.terminalApplied)
      .replyPublicationNotTerminal
    let record := settledRecord request attempt publication
    return .write record.row record) row

def releaseReplyPublicationLease (request : ReleaseReplyPublicationLeaseRequest)
    (row : Option DeliveryAttemptRow) : Except OutboundError (RowUpdate Unit) :=
  updateReplyPublication request.scope (fun attempt publication => do
    ensureFence publication request.fence
    if publication.lease = none then return .keep ()
    else
      return .write ⟨attempt, some { publication with lease := none }⟩ ()) row

/-! ### Racing publishers -/

/-- The calls on one row. -/
inductive PublicationCall where
  | opening (request : OpenReplyPublicationRequest)
  | claim (request : ClaimReplyPublicationLeaseRequest)
  | advance (request : AdvanceReplyPublicationRequest)
  | settle (request : SettleReplyPublicationRequest)
  | release (request : ReleaseReplyPublicationLeaseRequest)

/-- Why a call leaves the row as it is. -/
inductive Unwritten where
  | error (error : OutboundError)
  | kept

/-- The row that is to be written, if any. -/
def written {T : Type} :
    Except OutboundError (RowUpdate T) → Except Unwritten (Option DeliveryAttemptRow)
  | .ok (.write row _) => .ok (some row)
  | .ok (.keep _) => .error .kept
  | .error error => .error (.error error)

/-- What a call writes over the row it reads. -/
def PublicationCall.update (call : PublicationCall) (row : Option DeliveryAttemptRow) :
    Except Unwritten (Option DeliveryAttemptRow) :=
  match call with
  | .opening request => written (openReplyPublication request row)
  | .claim request => written (claimReplyPublicationLease request row)
  | .advance request => written (advanceReplyPublication request row)
  | .settle request => written (settleReplyPublication request row)
  | .release request => written (releaseReplyPublicationLease request row)

/-- A step of one of the publishers. -/
def publicationStep {ι : Type} [DecidableEq ι]
    (cell : Cell ι PublicationCall (Option DeliveryAttemptRow))
    (action : CellAction ι PublicationCall Unit) :
    Cell ι PublicationCall (Option DeliveryAttemptRow) :=
  cell.next (fun call (_ : Unit) row => call.update row) Filesystem.filesystemCasRetries action

end Ironclaw.Outbound
