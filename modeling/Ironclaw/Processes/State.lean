import Ironclaw.Lib.Reject
import Ironclaw.Processes.Journal

/-! # The materialized state of the process journal

The state of `journal_store/state.rs` and the checks of `journal_store/validation.rs`.

* A hash map is a `Table`; the enumeration order of a table is not part of what the program
  controls, and `ProcessJournalMaterializedState.SameRows` relates two states that differ in
  nothing else.
* An idempotency map and the queue that bounds it are one `IdempotencyRecords`. Replay keys,
  texts in the source, are the structures those texts render injectively. -/

namespace Ironclaw.Processes

/-! ### Errors and outcomes -/

/-- The errors a command can be rejected with. -/
inductive ProcessJournalStoreError where
  | unknownProcess (processId : ProcessId)
  | processAlreadyExists (processId : ProcessId)
  | activeProcessConflict (processId : ProcessId) (processKind : ProcessKind)
      (status : ProcessLifecycleStatus) (suspension : Option ProcessSuspension)
      (cursor : ProcessJournalCursor)
  | invalidTransition (processId : ProcessId) (source target : ProcessLifecycleStatus)
  | invalidLease (processId : ProcessId)
  | unauthorizedScope
  | invalidRequest (message : String)
  | processTreeCapacityExceeded (cap : UInt32)
  | staleSnapshot (processId : ProcessId) (expected actual : ProcessJournalCursor)

/-- What an accepted command answers. -/
inductive StoredCommandOutcome where
  | imported
  | submitted (snapshot : JournaledProcessSnapshot) (changed : Bool)
  | claimed (processes : List ClaimedProcess)
  | heartbeat (snapshot : JournaledProcessSnapshot)
  | recovered (processes : List JournaledProcessSnapshot)
  | transitioned (snapshot : JournaledProcessSnapshot)
  | controlled (result : ProcessControlResult)
  | treeReserved (reservation : ProcessTreeReservation)
  | treeReleased
  | treePruned
  | dependency (record : Option ProcessDependencyRecord)
  | checkpointed (record : ProcessCheckpointRecord)

/-! ### Bounded replay records -/

/-- Most records a replay map retains. -/
def maxIdempotencyRecords : ℕ := 4096

/-- A replay map with the keys it holds, oldest first. -/
structure IdempotencyRecords (κ ν : Type) where
  records : Table (Prod.fst : κ × ν → κ)
  order : List κ

namespace IdempotencyRecords

variable {κ ν : Type}

def empty : IdempotencyRecords κ ν := ⟨Table.empty, []⟩

/-- Equal up to the enumeration order of the map. -/
structure SameRows (a b : IdempotencyRecords κ ν) : Prop where
  records : a.records.SameRows b.records
  order : a.order = b.order

variable [DecidableEq κ]

variable (r : IdempotencyRecords κ ν)

/-- The value remembered under a key. -/
def get (key : κ) : Option ν := (r.records.get key).map Prod.snd

/-- Drop the oldest record while the queue is full. -/
def evict (records : Table (Prod.fst : κ × ν → κ)) : List κ → IdempotencyRecords κ ν
  | [] => ⟨records, []⟩
  | oldest :: order =>
    if maxIdempotencyRecords ≤ order.length + 1 then evict (records.remove oldest) order
    else ⟨records, oldest :: order⟩

/-- Make room and store a record at the back of the queue. -/
def pushBack (key : κ) (value : ν) : IdempotencyRecords κ ν :=
  let kept := evict r.records r.order
  ⟨kept.records.put (key, value), kept.order ++ [key]⟩

/-- Store the result of an operation that carries a replay key; a key already present keeps
its place in the queue. -/
def remember (key : Option κ) (value : ν) : IdempotencyRecords κ ν :=
  match key with
  | none => r
  | some key =>
    match r.get key with
    | some _ => ⟨r.records.put (key, value), r.order⟩
    | none => r.pushBack key value

end IdempotencyRecords

/-- The replay key of a control: `action:process:operation`. -/
structure ControlReplayKey where
  action : ProcessControlAction
  processId : ProcessId
  operationId : ProcessOperationId
deriving DecidableEq

/-- The replay key of a submission: `submit:scope:kind:operation`, where the scope is rendered
without its invocation. -/
structure SubmissionReplayKey where
  tenantId : TenantId
  userId : UserId
  agentId : Option AgentId
  projectId : Option ProjectId
  missionId : Option MissionId
  threadId : Option ThreadId
  processKind : ProcessKind
  operationId : ProcessOperationId
deriving DecidableEq

def submissionReplayKey (request : SubmitProcessRequest) : Option SubmissionReplayKey :=
  request.operationId.map fun operationId =>
    { tenantId := request.scope.tenantId
      userId := request.scope.userId
      agentId := request.scope.agentId
      projectId := request.scope.projectId
      missionId := request.scope.missionId
      threadId := request.scope.threadId
      processKind := request.processKind
      operationId }

def controlReplayKey (mutation : ProcessControlMutation) : Option ControlReplayKey :=
  mutation.operationId.map fun operationId =>
    ⟨mutation.action, mutation.processId, operationId⟩

/-! ### The state -/

structure ProcessJournalMaterializedState where
  nextCursor : ProcessJournalCursor
  processes : Table JournaledProcessSnapshot.processId
  journal : List ProcessJournalEntry
  controlIdempotency : IdempotencyRecords ControlReplayKey ProcessControlResult
  submissionIdempotency : IdempotencyRecords SubmissionReplayKey JournaledProcessSnapshot
  edgeSubmissionBindings : IdempotencyRecords SubmissionReplayKey ProcessId
  treeReservations : Table ProcessTreeReservation.rootProcessId
  dependencies : Table ProcessDependencyRecord.edge
  checkpoints : Table ProcessCheckpointRecord.checkpointId
  inputs : Table ProcessInputRecord.processId
  legacyImported : Bool

namespace ProcessJournalMaterializedState

/-- The state of a fresh store (`Default`). -/
def empty : ProcessJournalMaterializedState where
  nextCursor := 1
  processes := Table.empty
  journal := []
  controlIdempotency := .empty
  submissionIdempotency := .empty
  edgeSubmissionBindings := .empty
  treeReservations := Table.empty
  dependencies := Table.empty
  checkpoints := Table.empty
  inputs := Table.empty
  legacyImported := false

/-- Two states that differ in the enumeration order of their hash maps only. -/
structure SameRows (s t : ProcessJournalMaterializedState) : Prop where
  nextCursor : s.nextCursor = t.nextCursor
  processes : s.processes.SameRows t.processes
  journal : s.journal = t.journal
  controlIdempotency : s.controlIdempotency.SameRows t.controlIdempotency
  submissionIdempotency : s.submissionIdempotency.SameRows t.submissionIdempotency
  edgeSubmissionBindings : s.edgeSubmissionBindings.SameRows t.edgeSubmissionBindings
  treeReservations : s.treeReservations.SameRows t.treeReservations
  dependencies : s.dependencies.SameRows t.dependencies
  checkpoints : s.checkpoints.SameRows t.checkpoints
  inputs : s.inputs.SameRows t.inputs
  legacyImported : s.legacyImported = t.legacyImported

theorem SameRows.refl (s : ProcessJournalMaterializedState) : s.SameRows s where
  nextCursor := rfl
  processes := .refl _
  journal := rfl
  controlIdempotency := ⟨.refl _, rfl⟩
  submissionIdempotency := ⟨.refl _, rfl⟩
  edgeSubmissionBindings := ⟨.refl _, rfl⟩
  treeReservations := .refl _
  dependencies := .refl _
  checkpoints := .refl _
  inputs := .refl _
  legacyImported := rfl

theorem SameRows.processes_get {s t : ProcessJournalMaterializedState} (h : s.SameRows t)
    (p : ProcessId) : s.processes.get p = t.processes.get p := h.processes.get_eq p

theorem SameRows.treeReservations_get {s t : ProcessJournalMaterializedState} (h : s.SameRows t)
    (root : ProcessId) : s.treeReservations.get root = t.treeReservations.get root :=
  h.treeReservations.get_eq root

end ProcessJournalMaterializedState

/-! ### Scope and lease checks -/

variable (left right : ResourceScope)

/-- Equal owner axes; the invocation is not compared. -/
def sameScopeOwner : Bool :=
  left.tenantId = right.tenantId ∧ left.userId = right.userId ∧ left.agentId = right.agentId ∧
    left.projectId = right.projectId ∧ left.missionId = right.missionId ∧
    left.threadId = right.threadId

theorem sameScopeOwner_comm : sameScopeOwner left right = sameScopeOwner right left := by
  simp only [sameScopeOwner, eq_comm]

theorem sameScopeOwner_trans {a b c : ResourceScope} (hab : sameScopeOwner a b = true)
    (hbc : sameScopeOwner b c = true) : sameScopeOwner a c = true := by
  simp only [sameScopeOwner, decide_eq_true_eq] at hab hbc ⊢
  obtain ⟨h1, h2, h3, h4, h5, h6⟩ := hab
  rw [h1, h2, h3, h4, h5, h6]
  exact hbc

def processScopeVisible (stored requested : ResourceScope) : Bool :=
  sameScopeOwner stored requested

/-- Equal owner axes apart from the thread. -/
def sameLineageScope : Bool :=
  left.tenantId = right.tenantId ∧ left.userId = right.userId ∧ left.agentId = right.agentId ∧
    left.projectId = right.projectId ∧ left.missionId = right.missionId

/-- The transition table shared by leased transitions and controls. -/
def transitionValid (source target : ProcessLifecycleStatus) : Bool :=
  match source, target with
  | .queued, .running | .suspended, .queued | .running, .running | .running, .suspended
  | .running, .completed | .running, .cancelled | .running, .failed | .running, .queued
  | .cancelRequested, .cancelled => true
  | source, target => source = target

variable (snapshot : JournaledProcessSnapshot)

def ensureTransition (target : ProcessLifecycleStatus) : Except ProcessJournalStoreError Unit :=
  rejectIf (transitionValid snapshot.status target = false)
    (.invalidTransition snapshot.processId snapshot.status target)

/-- Whether the caller holds the stored lease. -/
def holdsLease (workerId : ProcessWorkerId)
    (leaseToken : ProcessLeaseToken) : Bool :=
  match snapshot.lease with
  | none => false
  | some lease => lease.workerId = workerId ∧ lease.leaseToken = leaseToken

theorem holdsLease_iff {snapshot : JournaledProcessSnapshot} {workerId : ProcessWorkerId}
    {leaseToken : ProcessLeaseToken} : holdsLease snapshot workerId leaseToken = true ↔
      ∃ lease, snapshot.lease = some lease ∧ lease.workerId = workerId ∧
        lease.leaseToken = leaseToken := by
  unfold holdsLease
  cases snapshot.lease <;> simp

def ensureLease (workerId : ProcessWorkerId)
    (leaseToken : ProcessLeaseToken) : Except ProcessJournalStoreError Unit :=
  rejectIf (holdsLease snapshot workerId leaseToken = false) (.invalidLease snapshot.processId)

/-! ### Concurrency limits -/

/-- A Running process of the candidate's tenant and the given owner. -/
def runningForOwner (tenantId : TenantId) (owner : UserId)
    (snapshot : JournaledProcessSnapshot) : Bool :=
  snapshot.status = .running ∧ snapshot.scope.tenantId = tenantId ∧
    snapshot.ownerUserId = some owner

/-- A Running process of the candidate's tenant and the given concurrency class. -/
def runningForClass (tenantId : TenantId) (concurrencyClass : ProcessConcurrencyClass)
    (snapshot : JournaledProcessSnapshot) : Bool :=
  snapshot.status = .running ∧ snapshot.scope.tenantId = tenantId ∧
    snapshot.concurrencyClass = some concurrencyClass

/-- The cap of a class, `BTreeMap::get`. -/
def ProcessConcurrencyLimits.classCap (limits : ProcessConcurrencyLimits)
    (concurrencyClass : ProcessConcurrencyClass) : Option UInt32 :=
  limits.maxRunningByClass.lookup concurrencyClass

namespace ProcessJournalMaterializedState

variable (s : ProcessJournalMaterializedState)

def ownerWithinLimits (candidate : JournaledProcessSnapshot)
    (limits : ProcessConcurrencyLimits) : Bool :=
  match limits.maxRunningPerOwner, candidate.ownerUserId with
  | some cap, some owner =>
    s.processes.count (runningForOwner candidate.scope.tenantId owner) < cap.toNat
  | _, _ => true

def classWithinLimits (candidate : JournaledProcessSnapshot)
    (limits : ProcessConcurrencyLimits) : Bool :=
  match candidate.concurrencyClass with
  | none => true
  | some concurrencyClass =>
    match limits.classCap concurrencyClass with
    | none => true
    | some cap =>
      s.processes.count (runningForClass candidate.scope.tenantId concurrencyClass) < cap.toNat

/-- Whether one more Running process keeps the candidate's owner and class within the caps. -/
def processClaimWithinLimits (processId : ProcessId)
    (limits : ProcessConcurrencyLimits) : Bool :=
  match s.processes.get processId with
  | none => false
  | some candidate => s.ownerWithinLimits candidate limits && s.classWithinLimits candidate limits

/-! ### Queries over the processes -/

/-- The process, or the error every command reports for a missing one (`process_mut`). -/
def process (processId : ProcessId) : Except ProcessJournalStoreError JournaledProcessSnapshot :=
  okOr (s.processes.get processId) (.unknownProcess processId)

end ProcessJournalMaterializedState

/-- Oldest first, ties by identifier: the order in which queued processes are claimed. -/
def claimedBefore (a b : JournaledProcessSnapshot) : Prop :=
  a.createdAt < b.createdAt ∨
    (a.createdAt = b.createdAt ∧ a.processId.asUuid.toNat ≤ b.processId.asUuid.toNat)

instance : DecidableRel claimedBefore := fun _ _ => inferInstanceAs (Decidable (_ ∨ _))

/-- Whether a request's filters select a process. -/
def filtersSelect (scopeFilter : Option ResourceScope) (processKindFilter : Option ProcessKind)
    (snapshot : JournaledProcessSnapshot) : Bool :=
  scopeFilter.all (fun scope => sameScopeOwner snapshot.scope scope) &&
    processKindFilter.all (fun kind => snapshot.processKind = kind)

def claimable (request : ClaimProcessesRequest) (snapshot : JournaledProcessSnapshot) : Bool :=
  snapshot.status = .queued && request.processIdFilter.all (fun id => snapshot.processId = id) &&
    filtersSelect request.scopeFilter request.processKindFilter snapshot

/-- Running or CancelRequested under a lease that has run out. -/
def leaseExpired (now : Timestamp) (snapshot : JournaledProcessSnapshot) : Bool :=
  (snapshot.status = .running || snapshot.status = .cancelRequested) &&
    (snapshot.lease.bind (·.leaseExpiresAt)).any (fun expiresAt => expiresAt ≤ now)

namespace ProcessJournalMaterializedState

variable (s : ProcessJournalMaterializedState)

def claimableProcessIds (request : ClaimProcessesRequest) : List ProcessId :=
  ((s.processes.rows.filter (claimable request)).insertionSort claimedBefore).map (·.processId)

def expiredProcessIds (request : RecoverExpiredProcessLeasesRequest) : List ProcessId :=
  (s.processes.rows.filter fun snapshot =>
    filtersSelect request.scopeFilter request.processKindFilter snapshot &&
      leaseExpired request.now snapshot).map (·.processId)

/-! ### Spawn trees -/

/-- Slots taken under a root; a root without a row has none taken. -/
def descendantCount (root : ProcessId) : ℕ :=
  ((s.treeReservations.get root).map (·.descendantCount)).getD 0

/-- Processes whose slot the row of a root remembers as released. -/
def releasedProcesses (root : ProcessId) : Finset ProcessId :=
  ((s.treeReservations.get root).map (·.releasedProcesses)).getD ∅

def validateTreeRoot (scope : ResourceScope)
    (rootProcessId : ProcessId) : Except ProcessJournalStoreError Unit := do
  let root ← s.process rootProcessId
  rejectIf (sameLineageScope root.scope scope = false) .unauthorizedScope
  rejectIf (root.rootProcessId.getD root.processId ≠ root.processId)
    (.invalidRequest "root_process_id must identify the process tree root")

end ProcessJournalMaterializedState

end Ironclaw.Processes
