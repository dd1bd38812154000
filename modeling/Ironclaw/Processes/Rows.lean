import Ironclaw.Processes.Command

/-! # Materialized rows and group commit

The durable side of the journal: `journal_store/rows.rs`, the references of
`journal_store/command.rs` and the transaction of `journal_store/flusher.rs`.

* `MaterializedRows` are the stored rows, one table for each collection. A tombstone counts as
  an absent row; replay keys and checkpoint identifiers address their rows directly, which
  takes the digests in the stored paths to be collision free.
* `load` reads the rows a batch refers to: those its commands name, and those its claims,
  recoveries and exclusive submissions find through the indexed queries. No reference names an
  input row, so none is ever loaded; edge bindings are not stored at all.
* `commitPending` is one transaction: load, preview (which rejects commands and counts cursors),
  reserve cursors, execute, persist. It fails when a write meets a stored row that was not
  loaded, in which case the store is left as it was.
* `StoreRun` are the runs of the store: one batch after another, from the store without rows.

A transaction is atomic and has no rival writer. The hash maps of a loaded state are
enumerated in the order of the stored rows; that order decides only which of several recovered
processes takes which cursor and which of several conflicting processes an error names. -/

namespace Ironclaw.Processes

/-! ### References -/

/-- Rows one or more commands need loaded before they can be applied. -/
structure LoadReferences where
  processIds : List ProcessId := []
  treeRoots : List ProcessId := []
  dependencies : List (ProcessId × ProcessId) := []
  checkpoints : List ProcessCheckpointId := []
  submissionIdempotencyKeys : List SubmissionReplayKey := []
  controlIdempotencyKeys : List ControlReplayKey := []
  activeConflicts : List (ResourceScope × ProcessKind) := []
  claims : List (ClaimProcessesRequest × ProcessConcurrencyLimits) := []
  recoverExpired : List RecoverExpiredProcessLeasesRequest := []

namespace LoadReferences

/-- Append another command's references. -/
def mergeFrom (references other : LoadReferences) : LoadReferences where
  processIds := references.processIds ++ other.processIds
  treeRoots := references.treeRoots ++ other.treeRoots
  dependencies := references.dependencies ++ other.dependencies
  checkpoints := references.checkpoints ++ other.checkpoints
  submissionIdempotencyKeys :=
    references.submissionIdempotencyKeys ++ other.submissionIdempotencyKeys
  controlIdempotencyKeys := references.controlIdempotencyKeys ++ other.controlIdempotencyKeys
  activeConflicts := references.activeConflicts ++ other.activeConflicts
  claims := references.claims ++ other.claims
  recoverExpired := references.recoverExpired ++ other.recoverExpired

/-- Drop repeated names of single rows. The source also sorts them, which no reader of the
references depends on. -/
def normalize (references : LoadReferences) : LoadReferences :=
  { references with
    processIds := references.processIds.dedup
    treeRoots := references.treeRoots.dedup
    dependencies := references.dependencies.dedup
    checkpoints := references.checkpoints.dedup
    submissionIdempotencyKeys := references.submissionIdempotencyKeys.dedup
    controlIdempotencyKeys := references.controlIdempotencyKeys.dedup }

end LoadReferences

/-- The rows a submission refers to. -/
def SubmitProcessRequest.loadReferences (request : SubmitProcessRequest) : LoadReferences where
  processIds := request.processId :: request.parentProcessId.toList ++ request.rootProcessId.toList ++
    request.dependency.elim [] fun dependency =>
      [dependency.dependentProcessId, dependency.rootProcessId]
  treeRoots := request.rootProcessId.toList ++
    request.dependency.elim [] fun dependency => [dependency.rootProcessId]
  dependencies := request.dependency.elim [] fun dependency =>
    [(dependency.dependentProcessId, request.processId)]
  submissionIdempotencyKeys := (submissionReplayKey request).toList
  activeConflicts :=
    if request.exclusiveWithinScope then [(request.scope, request.processKind)] else []

/-- The rows a change of an existing dependency refers to (`add_dependency_references`). -/
def dependencyReferences (dependentProcessId dependencyProcessId : ProcessId) : LoadReferences where
  processIds := [dependentProcessId, dependencyProcessId]
  dependencies := [(dependentProcessId, dependencyProcessId)]

namespace StoredProcessCommand

/-- Cursors a command that appended the given number of events needs. -/
def cursorReservationCount : StoredProcessCommand → ℕ → ℕ
  | .importLegacyState _, _ => 1
  | _, generatedEntryCount => generatedEntryCount

def loadReferences : StoredProcessCommand → LoadReferences
  | .importLegacyState _ => {}
  | .submit request => request.loadReferences
  | .submitWithCheckpoint request checkpoint =>
    { request.loadReferences with checkpoints := [checkpoint.checkpointId] }
  | .submitAtEdge request =>
    { processIds := [request.submission.processId]
      submissionIdempotencyKeys := (submissionReplayKey request.submission).toList }
  | .claim request _ _ _ limits =>
    { processIds := request.processIdFilter.toList, claims := [(request, limits)] }
  | .recoverExpired request _ => { recoverExpired := [request] }
  | .heartbeat request _ _ | .leasedTransition request _ => { processIds := [request.processId] }
  | .control mutation =>
    { processIds := [mutation.processId]
      controlIdempotencyKeys := (controlReplayKey mutation).toList }
  | .reserveTree request =>
    { processIds := [request.rootProcessId], treeRoots := [request.rootProcessId] }
  | .releaseTree request =>
    { processIds := [request.rootProcessId, request.idempotencyProcessId]
      treeRoots := [request.rootProcessId] }
  | .pruneTree request =>
    { processIds := [request.rootProcessId, request.processId]
      treeRoots := [request.rootProcessId] }
  | .openDependency request =>
    { processIds :=
        [request.dependentProcessId, request.dependencyProcessId, request.rootProcessId]
      treeRoots := [request.rootProcessId]
      dependencies := [(request.dependentProcessId, request.dependencyProcessId)] }
  | .settleDependency request =>
    dependencyReferences request.dependentProcessId request.dependencyProcessId
  | .transitionDependency request =>
    dependencyReferences request.dependentProcessId request.dependencyProcessId
  | .consumeDependency request | .abandonDependency request =>
    dependencyReferences request.dependentProcessId request.dependencyProcessId
  | .recordCheckpoint request =>
    { processIds := [request.processId], checkpoints := [request.checkpointId] }

end StoredProcessCommand

def batchReferences (batch : List StoredProcessCommand) : LoadReferences :=
  let merge (references : LoadReferences) (command : StoredProcessCommand) :=
    references.mergeFrom command.loadReferences.normalize
  (batch.foldl merge {}).normalize

/-- The references name every single row that another set of references names. -/
structure LoadReferences.Includes (references other : LoadReferences) : Prop where
  processIds : ∀ p ∈ other.processIds, p ∈ references.processIds
  treeRoots : ∀ root ∈ other.treeRoots, root ∈ references.treeRoots
  dependencies : ∀ edge ∈ other.dependencies, edge ∈ references.dependencies
  checkpoints : ∀ checkpointId ∈ other.checkpoints, checkpointId ∈ references.checkpoints
  submissionIdempotencyKeys : ∀ key ∈ other.submissionIdempotencyKeys,
    key ∈ references.submissionIdempotencyKeys
  controlIdempotencyKeys : ∀ key ∈ other.controlIdempotencyKeys,
    key ∈ references.controlIdempotencyKeys

private theorem mem_foldl_mergeFrom {α : Type} (part : LoadReferences → List α)
    (hmerge : ∀ a b, part (LoadReferences.mergeFrom a b) = part a ++ part b) {x : α} :
    ∀ (batch : List StoredProcessCommand) (references : LoadReferences),
      x ∈ part (batch.foldl (fun references command =>
        LoadReferences.mergeFrom references command.loadReferences.normalize) references) ↔
      x ∈ part references ∨ ∃ c ∈ batch, x ∈ part c.loadReferences.normalize
  | [], references => by simp
  | c :: batch, references => by
    rw [List.foldl_cons, mem_foldl_mergeFrom part hmerge batch, hmerge, List.mem_append]
    simp [or_assoc]

theorem mem_batchReferences {α : Type} (part : LoadReferences → List α)
    (hmerge : ∀ a b, part (LoadReferences.mergeFrom a b) = part a ++ part b)
    (hnormalize : ∀ references x, x ∈ part (LoadReferences.normalize references) ↔
      x ∈ part references) (hnone : part {} = []) {batch : List StoredProcessCommand} {x : α} :
    x ∈ part (batchReferences batch) ↔ ∃ c ∈ batch, x ∈ part c.loadReferences := by
  unfold batchReferences
  rw [hnormalize, mem_foldl_mergeFrom part hmerge]
  simp [hnone, hnormalize]

/-- A batch names every row that one of its commands names. -/
theorem batchReferences_includes {batch : List StoredProcessCommand} {c : StoredProcessCommand}
    (hc : c ∈ batch) : (batchReferences batch).Includes c.loadReferences := by
  have hmem {α : Type} (part : LoadReferences → List α)
      (hmerge : ∀ a b, part (LoadReferences.mergeFrom a b) = part a ++ part b)
      (hnormalize : ∀ references x, x ∈ part (LoadReferences.normalize references) ↔
        x ∈ part references) (hnone : part {} = []) :
      ∀ x ∈ part c.loadReferences, x ∈ part (batchReferences batch) :=
    fun x hx => (mem_batchReferences part hmerge hnormalize hnone).mpr ⟨c, hc, hx⟩
  constructor
  · exact hmem LoadReferences.processIds (fun _ _ => rfl) (fun _ _ => List.mem_dedup) rfl
  · exact hmem LoadReferences.treeRoots (fun _ _ => rfl) (fun _ _ => List.mem_dedup) rfl
  · exact hmem LoadReferences.dependencies (fun _ _ => rfl) (fun _ _ => List.mem_dedup) rfl
  · exact hmem LoadReferences.checkpoints (fun _ _ => rfl) (fun _ _ => List.mem_dedup) rfl
  · exact hmem LoadReferences.submissionIdempotencyKeys (fun _ _ => rfl)
      (fun _ _ => List.mem_dedup) rfl
  · exact hmem LoadReferences.controlIdempotencyKeys (fun _ _ => rfl)
      (fun _ _ => List.mem_dedup) rfl

/-! ### Stored rows -/

/-- The row that marks a store as initialized; it is written once. -/
structure StoreMetadata where
  nextCursor : ProcessJournalCursor
  controlOrder : List ControlReplayKey
  submissionOrder : List SubmissionReplayKey
  legacyImported : Bool

/-- The row that holds the two replay queues. -/
structure IdempotencyOrder where
  controlOrder : List ControlReplayKey
  submissionOrder : List SubmissionReplayKey

/-- The stored rows of the journal, with the last cursor its sequence has handed out. -/
structure MaterializedRows where
  metadata : Option StoreMetadata
  idempotencyOrder : Option IdempotencyOrder
  processes : Table JournaledProcessSnapshot.processId
  inputs : Table ProcessInputRecord.processId
  treeReservations : Table ProcessTreeReservation.rootProcessId
  dependencies : Table ProcessDependencyRecord.edge
  checkpoints : Table ProcessCheckpointRecord.checkpointId
  controlIdempotency : Table (Prod.fst : ControlReplayKey × ProcessControlResult → _)
  submissionIdempotency : Table (Prod.fst : SubmissionReplayKey × JournaledProcessSnapshot → _)
  journal : List ProcessJournalEntry
  sequence : ProcessJournalCursor

namespace MaterializedRows

/-- A store without rows. -/
def empty : MaterializedRows where
  metadata := none
  idempotencyOrder := none
  processes := Table.empty
  inputs := Table.empty
  treeReservations := Table.empty
  dependencies := Table.empty
  checkpoints := Table.empty
  controlIdempotency := Table.empty
  submissionIdempotency := Table.empty
  journal := []
  sequence := 0

/-- The replay queues in force: those of the order row, else those of the metadata. -/
def order (d : MaterializedRows) : IdempotencyOrder :=
  d.idempotencyOrder.getD
    ((d.metadata.map fun metadata => ⟨metadata.controlOrder, metadata.submissionOrder⟩).getD
      ⟨[], []⟩)

end MaterializedRows

/-! ### Indexed queries -/

/-- Most rows one page of an indexed query returns. -/
def pageMaxLimit : ℕ := 1024

/-- Candidates a claim loads beyond the number it may take. -/
def claimQuotaSkipAllowance : ℕ := 64

/-- The indexed form of an instant. -/
def timestampMicros (instant : Timestamp) : ℤ := instant / 1000

/-- The order of an index: by the sort key, ties by process identifier. -/
def indexedBefore (sortKey : JournaledProcessSnapshot → ℤ) (a b : JournaledProcessSnapshot) :
    Prop :=
  sortKey a < sortKey b ∨
    (sortKey a = sortKey b ∧ a.processId.asUuid.toNat ≤ b.processId.asUuid.toNat)

instance (sortKey : JournaledProcessSnapshot → ℤ) : DecidableRel (indexedBefore sortKey) :=
  fun _ _ => inferInstanceAs (Decidable (_ ∨ _))

namespace MaterializedRows

variable (d : MaterializedRows)

/-- One page of the processes with a property. -/
def orderedProcessQuery (select : JournaledProcessSnapshot → Bool)
    (sortKey : JournaledProcessSnapshot → ℤ) (limit : ℕ) : List JournaledProcessSnapshot :=
  ((d.processes.rows.filter select).insertionSort (indexedBefore sortKey)).take
    (min limit pageMaxLimit)

/-- Queued candidates of one claim; `batchedDemand` sums what equivalent claims of the batch
may take. -/
def queryClaimCandidates (request : ClaimProcessesRequest)
    (batchedDemand : ℕ) : List JournaledProcessSnapshot :=
  if request.maxProcesses = 0 then []
  else d.orderedProcessQuery
    (fun snapshot => snapshot.status = .queued &&
      filtersSelect request.scopeFilter request.processKindFilter snapshot)
    (fun snapshot => timestampMicros snapshot.createdAt)
    (max batchedDemand request.maxProcesses + claimQuotaSkipAllowance)

/-- The oldest process that keeps an exclusive submission out. -/
def queryActiveConflict (scope : ResourceScope)
    (processKind : ProcessKind) : List JournaledProcessSnapshot :=
  d.orderedProcessQuery (holdsActiveLock scope processKind)
    (fun snapshot => timestampMicros snapshot.createdAt) 1

/-- Running processes of the candidate's owner and of its class, as many as the caps allow.
The source asks once for each owner and class among the candidates of a claim; asking again
returns the same rows. -/
def queryRunningQuotaRows (candidate : JournaledProcessSnapshot)
    (limits : ProcessConcurrencyLimits) : List JournaledProcessSnapshot :=
  (match limits.maxRunningPerOwner, candidate.ownerUserId with
    | some cap, some owner =>
      d.orderedProcessQuery (runningForOwner candidate.scope.tenantId owner)
        (fun snapshot => timestampMicros snapshot.createdAt) cap.toNat
    | _, _ => []) ++
  match candidate.concurrencyClass with
  | none => []
  | some concurrencyClass =>
    match limits.classCap concurrencyClass with
    | none => []
    | some cap =>
      d.orderedProcessQuery (runningForClass candidate.scope.tenantId concurrencyClass)
        (fun snapshot => timestampMicros snapshot.createdAt) cap.toNat

/-- Processes of one status in the order of their lease expiry, up to the first whose lease
still runs. -/
def queryExpiredStatus (request : RecoverExpiredProcessLeasesRequest)
    (status : ProcessLifecycleStatus) : List JournaledProcessSnapshot :=
  let expiry (snapshot : JournaledProcessSnapshot) := snapshot.lease.bind (·.leaseExpiresAt)
  (d.orderedProcessQuery
    (fun snapshot => snapshot.status = status && (expiry snapshot).isSome &&
      filtersSelect request.scopeFilter request.processKindFilter snapshot)
    (fun snapshot => timestampMicros ((expiry snapshot).getD 0)) pageMaxLimit).takeWhile
      fun snapshot => (expiry snapshot).any (fun expiresAt => expiresAt ≤ request.now)

def queryExpiredProcesses (request : RecoverExpiredProcessLeasesRequest) :
    List JournaledProcessSnapshot :=
  d.queryExpiredStatus request .running ++ d.queryExpiredStatus request .cancelRequested

end MaterializedRows

/-- What the claims of a batch that drive the same query may take together. Claims for one
named process are not counted. -/
def batchedDemand (claims : List (ClaimProcessesRequest × ProcessConcurrencyLimits))
    (request : ClaimProcessesRequest) : ℕ :=
  ((claims.filter fun claim => claim.1.processIdFilter = none ∧
    claim.1.scopeFilter = request.scopeFilter ∧
    claim.1.processKindFilter = request.processKindFilter).map (·.1.maxProcesses)).sum

/-! ### Loading -/

namespace MaterializedRows

variable (d : MaterializedRows)

/-- The rows one claim brings in: its candidates and the Running rows that decide their caps.
A claim for one named process brings in nothing beyond the row it names. -/
def claimRows (claims : List (ClaimProcessesRequest × ProcessConcurrencyLimits))
    (claim : ClaimProcessesRequest × ProcessConcurrencyLimits) : List JournaledProcessSnapshot :=
  if claim.1.processIdFilter.isSome then []
  else
    let candidates := d.queryClaimCandidates claim.1 (batchedDemand claims claim.1)
    candidates ++ candidates.flatMap fun candidate => d.queryRunningQuotaRows candidate claim.2

/-- The process rows the queries of a batch return. -/
def queriedRows (references : LoadReferences) : List JournaledProcessSnapshot :=
  references.activeConflicts.flatMap (fun conflict => d.queryActiveConflict conflict.1 conflict.2) ++
    references.claims.flatMap (d.claimRows references.claims) ++
    references.recoverExpired.flatMap d.queryExpiredProcesses

/-- Identifiers of the process rows loaded for a batch. -/
def loadedProcessIds (references : LoadReferences) : List ProcessId :=
  references.processIds ++ (d.queriedRows references).map (·.processId)

/-- The dependency rows a batch names. -/
def loadedDependencies (references : LoadReferences) : Table ProcessDependencyRecord.edge :=
  d.dependencies.filter fun record => record.edge ∈ references.dependencies

/-- The tree rows loaded for a batch: those named and those of the loaded dependencies. -/
def loadedTreeRoots (references : LoadReferences) : List ProcessId :=
  references.treeRoots ++ (d.loadedDependencies references).rows.map (·.rootProcessId)

/-- The replay keys of controls loaded for a batch: those named, and as many of the oldest as
the batch may displace. -/
def loadedControlKeys (references : LoadReferences) : List ControlReplayKey :=
  references.controlIdempotencyKeys ++
    d.order.controlOrder.take references.controlIdempotencyKeys.length

def loadedSubmissionKeys (references : LoadReferences) : List SubmissionReplayKey :=
  references.submissionIdempotencyKeys ++
    d.order.submissionOrder.take references.submissionIdempotencyKeys.length

/-- The part of the state a batch is executed on. -/
def load (references : LoadReferences) : ProcessJournalMaterializedState :=
  let processIds := d.loadedProcessIds references
  let treeRoots := d.loadedTreeRoots references
  let controlKeys := d.loadedControlKeys references
  let submissionKeys := d.loadedSubmissionKeys references
  { nextCursor := (d.metadata.map (·.nextCursor)).getD 1
    processes := d.processes.filter fun row => row.processId ∈ processIds
    journal := []
    controlIdempotency :=
      ⟨d.controlIdempotency.filter fun row => row.1 ∈ controlKeys, d.order.controlOrder⟩
    submissionIdempotency :=
      ⟨d.submissionIdempotency.filter fun row => row.1 ∈ submissionKeys, d.order.submissionOrder⟩
    edgeSubmissionBindings := .empty
    treeReservations := d.treeReservations.filter fun row => row.rootProcessId ∈ treeRoots
    dependencies := d.loadedDependencies references
    checkpoints := d.checkpoints.filter fun row => row.checkpointId ∈ references.checkpoints
    inputs := Table.empty
    legacyImported := (d.metadata.map (·.legacyImported)).getD false }

/-! ### Persisting -/

/-- A row of the executed state meets a stored row that was not loaded, so that its write fails
the check that the row is absent. -/
def writesConflict {κ ν : Type} {key : ν → κ} [DecidableEq κ] (stored loaded next : Table key) :
    Bool :=
  next.rows.any fun row => (loaded.get (key row)).isNone && (stored.get (key row)).isSome

/-- An event meets an event already put under its cursor, by an earlier batch or by this one. -/
def journalConflict (stored : List ProcessJournalEntry) : List ProcessJournalEntry → Bool
  | [] => false
  | entry :: rest =>
    stored.any (·.cursor = entry.cursor) || journalConflict (stored ++ [entry]) rest

/-- Why a transaction stores nothing: a write found a row where none was expected. -/
inductive TransactionFailure where
  | versionMismatch

/-- Write the rows that differ between the loaded and the executed state, and the events. -/
def persist (loaded state : ProcessJournalMaterializedState)
    (entries : List ProcessJournalEntry) (sequence : ProcessJournalCursor) :
    Except TransactionFailure MaterializedRows :=
  if writesConflict d.processes loaded.processes state.processes ||
      writesConflict d.inputs loaded.inputs state.inputs ||
      writesConflict d.treeReservations loaded.treeReservations state.treeReservations ||
      writesConflict d.dependencies loaded.dependencies state.dependencies ||
      writesConflict d.checkpoints loaded.checkpoints state.checkpoints ||
      writesConflict d.controlIdempotency loaded.controlIdempotency.records
        state.controlIdempotency.records ||
      writesConflict d.submissionIdempotency loaded.submissionIdempotency.records
        state.submissionIdempotency.records ||
      journalConflict d.journal entries then .error .versionMismatch
  else .ok
    { metadata := some (d.metadata.getD ⟨state.nextCursor, state.controlIdempotency.order,
        state.submissionIdempotency.order, state.legacyImported⟩)
      idempotencyOrder :=
        some ⟨state.controlIdempotency.order, state.submissionIdempotency.order⟩
      processes := d.processes.overlay loaded.processes state.processes
      inputs := d.inputs.overlay loaded.inputs state.inputs
      treeReservations := d.treeReservations.overlay loaded.treeReservations state.treeReservations
      dependencies := d.dependencies.overlay loaded.dependencies state.dependencies
      checkpoints := d.checkpoints.overlay loaded.checkpoints state.checkpoints
      controlIdempotency := d.controlIdempotency.overlay loaded.controlIdempotency.records
        state.controlIdempotency.records
      submissionIdempotency := d.submissionIdempotency.overlay loaded.submissionIdempotency.records
        state.submissionIdempotency.records
      journal := d.journal ++ entries
      sequence }

end MaterializedRows

/-! ### Group commit -/

abbrev CommandAnswer := Except ProcessJournalStoreError StoredCommandOutcome

/-- A command with the error its preview ended in, if any. -/
abbrev PendingCommand := StoredProcessCommand × Option ProcessJournalStoreError

/-- The preview: which commands fail, and how many cursors the others need. -/
def previewBatch : ProcessJournalMaterializedState → List StoredProcessCommand →
    List PendingCommand × ℕ
  | _, [] => ([], 0)
  | s, command :: rest =>
    match s.applyCommand command with
    | .ok (_, next) =>
      let preview := previewBatch { next with journal := [] } rest
      ((command, none) :: preview.1,
        command.cursorReservationCount next.journal.length + preview.2)
    | .error error =>
      let preview := previewBatch s rest
      ((command, some error) :: preview.1, preview.2)

/-- Apply the commands that survived the preview; each leaves its events to the batch. -/
def executeBatch : ProcessJournalMaterializedState → List PendingCommand →
    List CommandAnswer × ProcessJournalMaterializedState × List ProcessJournalEntry
  | s, [] => ([], s, [])
  | s, (_, some error) :: rest =>
    let result := executeBatch s rest
    (.error error :: result.1, result.2)
  | s, (command, none) :: rest =>
    match s.applyCommand command with
    | .ok (outcome, next) =>
      let result := executeBatch { next with journal := [] } rest
      (.ok outcome :: result.1, result.2.1, next.journal ++ result.2.2)
    | .error error =>
      let result := executeBatch s rest
      (.error error :: result.1, result.2)

namespace MaterializedRows

/-- The state a batch is executed on, once its cursors are reserved. -/
def reserveCursors (d : MaterializedRows) (loaded : ProcessJournalMaterializedState)
    (reservations : ℕ) : ProcessJournalMaterializedState :=
  if 0 < reservations then { loaded with nextCursor := saturatingAdd d.sequence 1 } else loaded

/-- Commit a batch in one transaction: the answers and the rows after it. -/
def commitPending (d : MaterializedRows) (batch : List StoredProcessCommand) :
    Except TransactionFailure (List CommandAnswer × MaterializedRows) :=
  let loaded := d.load (batchReferences batch)
  let preview := previewBatch loaded batch
  let result := executeBatch (d.reserveCursors loaded preview.2) preview.1
  if preview.1.all (·.2.isSome) then .ok (result.1, d)
  else do
    let rows ← d.persist loaded result.2.1 result.2.2 (d.sequence + preview.2)
    return (result.1, rows)

end MaterializedRows

/-- One batch with the rows before and after it. -/
abbrev StoreStep := Step MaterializedRows (List StoredProcessCommand)

/-- `StoreRun history d`: the batches of `history`, oldest first, lead from the store without
rows to `d`. -/
abbrev StoreRun (history : List StoreStep) (d : MaterializedRows) : Prop :=
  Run Eq MaterializedRows.commitPending MaterializedRows.empty history d

theorem StoreRun.of_batches (batches : List (List StoredProcessCommand)) :
    StoreRun (Run.trace MaterializedRows.commitPending MaterializedRows.empty batches)
      (batches.foldl (advance MaterializedRows.commitPending) MaterializedRows.empty) :=
  Run.of_commands (fun _ => rfl) batches MaterializedRows.empty

end Ironclaw.Processes
