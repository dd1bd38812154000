import Ironclaw.Processes.Apply

/-! # Spawn trees, dependencies and checkpoints

The remaining `apply_*` functions of `journal_store/state.rs`: reservation and release of
spawn-tree slots, the dependency state machine with its two closing doors, and checkpoint
records. `releaseSlot` is the part both release doors share: a slot is given back once for
each process the row remembers, and the row is dropped with the last slot. -/

namespace Ironclaw.Processes

/-- The row after one process gave `delta` slots back; `none` when no slot is left. -/
def ProcessTreeReservation.release (reservation : ProcessTreeReservation) (processId : ProcessId)
    (delta : ℕ) : Option ProcessTreeReservation :=
  if reservation.descendantCount - delta = 0 then none
  else some
    { reservation with
      descendantCount := reservation.descendantCount - delta
      releasedProcesses := insert processId reservation.releasedProcesses }

namespace ProcessJournalMaterializedState

/-! ### Spawn trees -/

variable (s : ProcessJournalMaterializedState)

def applyReserveTree (request : ReserveProcessTreeRequest) :
    Except ProcessJournalStoreError (StoredCommandOutcome × ProcessJournalMaterializedState) := do
  rejectIf (request.delta = 0) (.invalidRequest "reservation delta must be greater than zero")
  s.validateTreeRoot request.scope request.rootProcessId
  let next ← okOr (checkedAdd (s.descendantCount request.rootProcessId) request.delta.toNat)
    (.processTreeCapacityExceeded request.cap)
  rejectIf (request.cap.toNat < next) (.processTreeCapacityExceeded request.cap)
  return (.treeReserved ⟨request.rootProcessId, next, s.releasedProcesses request.rootProcessId⟩,
    { s with treeReservations := s.reserve request.rootProcessId next })

/-- Give the slots of a process back unless the row is gone or remembers that it already did;
`exceeds` is the error of a row with too few slots. -/
def releaseSlot (rootProcessId processId : ProcessId)
    (delta : ℕ) (exceeds : ProcessJournalStoreError) :
    Except ProcessJournalStoreError (Table ProcessTreeReservation.rootProcessId) :=
  match s.treeReservations.get rootProcessId with
  | none => .ok s.treeReservations
  | some reservation =>
    if processId ∈ reservation.releasedProcesses then .ok s.treeReservations
    else do
      rejectIf (reservation.descendantCount < delta) exceeds
      match reservation.release processId delta with
      | none => return s.treeReservations.remove rootProcessId
      | some released => return s.treeReservations.put released

def applyReleaseTree (request : ReleaseProcessTreeRequest) :
    Except ProcessJournalStoreError (StoredCommandOutcome × ProcessJournalMaterializedState) := do
  s.validateTreeRoot request.scope request.rootProcessId
  let treeReservations ← s.releaseSlot request.rootProcessId request.idempotencyProcessId
    request.delta.toNat (.invalidRequest "release delta exceeds current reservation count")
  return (.treeReleased, { s with treeReservations })

/-- Forget that a process gave its slot back. -/
def applyPruneTree (request : PruneReleasedProcessRequest) :
    Except ProcessJournalStoreError (StoredCommandOutcome × ProcessJournalMaterializedState) :=
  match s.processes.get request.rootProcessId with
  | none => .ok (.treePruned, s)
  | some _ => do
    s.validateTreeRoot request.scope request.rootProcessId
    let treeReservations :=
      match s.treeReservations.get request.rootProcessId with
      | none => s.treeReservations
      | some reservation => s.treeReservations.put
          { reservation with
            releasedProcesses := reservation.releasedProcesses.erase request.processId }
    return (.treePruned, { s with treeReservations })

/-- The release that closing a dependency performs (`release_dependency_reservation`). -/
def releaseDependencyReservation (rootProcessId dependencyProcessId : ProcessId) :
    Except ProcessJournalStoreError (Table ProcessTreeReservation.rootProcessId) :=
  s.releaseSlot rootProcessId dependencyProcessId 1
    (.invalidRequest "dependency release exceeds current reservation count")

/-! ### Dependencies -/

def applyOpenDependency (request : OpenProcessDependencyRequest) :
    Except ProcessJournalStoreError (StoredCommandOutcome × ProcessJournalMaterializedState) :=
  match s.dependencies.get (request.dependentProcessId, request.dependencyProcessId) with
  | some existing => .ok (.dependency (some existing), s)
  | none => do
    let dependent ← s.process request.dependentProcessId
    rejectIf (sameLineageScope dependent.scope request.scope = false) .unauthorizedScope
    rejectIf (request.rootProcessId ≠ dependent.rootProcessId.getD dependent.processId)
      (.invalidRequest "dependency root process does not match dependent lineage")
    let record : ProcessDependencyRecord :=
      { dependentProcessId := request.dependentProcessId
        dependencyProcessId := request.dependencyProcessId
        rootProcessId := request.rootProcessId
        scope := request.scope
        groupRef := request.groupRef
        state := .open
        terminal := none
        createdAt := request.createdAt
        settledAt := none
        consumedAt := none
        transitionedAt := none
        metadata := request.metadata }
    return (.dependency (some record), { s with dependencies := s.dependencies.put record })

def applySettleDependency (request : SettleProcessDependencyRequest) :
    Except ProcessJournalStoreError (StoredCommandOutcome × ProcessJournalMaterializedState) := do
  rejectIf (request.terminal.status.isTerminal = false)
    (.invalidRequest "dependency terminal evidence must carry a terminal process status")
  match s.dependencies.get (request.dependentProcessId, request.dependencyProcessId) with
  | none => return (.dependency none, s)
  | some record =>
    rejectIf (sameLineageScope record.scope request.scope = false) .unauthorizedScope
    if record.state ≠ .open then return (.dependency (some record), s)
    else
      let settled :=
        { record with
          state := .settled
          terminal := some request.terminal
          settledAt := some request.settledAt }
      return (.dependency (some settled), { s with dependencies := s.dependencies.put settled })

end ProcessJournalMaterializedState

/-- The state's name in messages (`Debug`). -/
def ProcessDependencyState.debugText : ProcessDependencyState → String
  | .open => "Open"
  | .settled => "Settled"
  | .resultAppended => "ResultAppended"
  | .attentionScheduled => "AttentionScheduled"
  | .attentionDeferred => "AttentionDeferred"
  | .consumed => "Consumed"
  | .abandoned => "Abandoned"

def debugList (states : List ProcessDependencyState) : String :=
  "[" ++ String.intercalate ", " (states.map (·.debugText)) ++ "]"

/-- The port that closes a dependency into a state, for the two states that close it. -/
def ProcessDependencyState.terminalDoor : ProcessDependencyState → Option String
  | .consumed => some "consume_process_dependency"
  | .abandoned => some "abandon_process_dependency"
  | .open | .settled | .resultAppended | .attentionScheduled | .attentionDeferred => none

/-- The fields of a transition's metadata, which must be an object when present. -/
def transitionMetadata (metadata : Option Json) :
    Except ProcessJournalStoreError (Option (List (String × String))) :=
  match metadata with
  | none => .ok none
  | some (.object fields) => .ok (some fields)
  | some (.other _) =>
    .error (.invalidRequest "process dependency transition metadata must be a JSON object")

/-- Shallow merge of fields into a value; a value that is no object is replaced. -/
def Json.extend (existing : Json) (fields : List (String × String)) : Json :=
  match existing with
  | .object stored =>
    .object (stored.filter (fun f => (fields.lookup f.1).isNone) ++ fields)
  | .other _ => .object fields

/-- The state a closing door leads to. -/
def closeTarget (abandon : Bool) : ProcessDependencyState :=
  if abandon then .abandoned else .consumed

namespace ProcessJournalMaterializedState

def applyTransitionDependency (s : ProcessJournalMaterializedState)
    (request : TransitionProcessDependencyRequest) :
    Except ProcessJournalStoreError (StoredCommandOutcome × ProcessJournalMaterializedState) := do
  rejectIf request.next.terminalDoor.isSome
    (.invalidRequest ("process dependency transition cannot close an edge: use " ++
      request.next.terminalDoor.getD "" ++
      ", which releases the descendant reservation in the same journal command"))
  let mergedMetadata ← transitionMetadata request.metadata
  match s.dependencies.get (request.dependentProcessId, request.dependencyProcessId) with
  | none => return (.dependency none, s)
  | some record =>
    rejectIf (sameLineageScope record.scope request.scope = false) .unauthorizedScope
    if record.state = request.next then return (.dependency (some record), s)
    else
      rejectIf (record.state ∉ request.next.legalPredecessors)
        (.invalidRequest ("process dependency transition to " ++ request.next.debugText ++
          " is legal only from " ++ debugList request.next.legalPredecessors ++
          ", but the dependency is " ++ record.state.debugText))
      let moved :=
        { record with
          state := request.next
          transitionedAt := some request.transitionedAt
          metadata := mergedMetadata.elim record.metadata record.metadata.extend }
      return (.dependency (some moved), { s with dependencies := s.dependencies.put moved })

def applyCloseDependency (s : ProcessJournalMaterializedState)
    (request : CloseProcessDependencyRequest) (abandon : Bool) :
    Except ProcessJournalStoreError (StoredCommandOutcome × ProcessJournalMaterializedState) :=
  match s.dependencies.get (request.dependentProcessId, request.dependencyProcessId) with
  | none => .ok (.dependency none, s)
  | some existing => do
    rejectIf (sameLineageScope existing.scope request.scope = false) .unauthorizedScope
    let target := closeTarget abandon
    if existing.state.isClosed then return (.dependency (some existing), s)
    else
      rejectIf (existing.state ∉ target.legalPredecessors)
        (.invalidRequest ("a process dependency can only enter " ++ target.debugText ++
          " from " ++ debugList target.legalPredecessors ++ ", but it is " ++
          existing.state.debugText))
      let treeReservations ←
        s.releaseDependencyReservation existing.rootProcessId request.dependencyProcessId
      let closed := { existing with state := target, consumedAt := some request.closedAt }
      return (.dependency (some closed),
        { s with treeReservations, dependencies := s.dependencies.put closed })

end ProcessJournalMaterializedState

/-! ### Checkpoints -/

def checkpointRecord (request : RecordProcessCheckpointRequest) : ProcessCheckpointRecord where
  checkpointId := request.checkpointId
  processId := request.processId
  scope := request.scope
  stateRef := request.stateRef
  payload := request.payload
  createdAt := request.createdAt
  metadata := request.metadata

/-- The process once the checkpoint is the one it resumes from. -/
def linkedSnapshot (snapshot : JournaledProcessSnapshot)
    (request : RecordProcessCheckpointRequest) : JournaledProcessSnapshot :=
  { snapshot with
    checkpointRef := some ⟨request.checkpointId.asStr⟩
    checkpointKind := request.kind }

namespace ProcessJournalMaterializedState

def applyCheckpoint (s : ProcessJournalMaterializedState)
    (request : RecordProcessCheckpointRequest) :
    Except ProcessJournalStoreError (StoredCommandOutcome × ProcessJournalMaterializedState) := do
  let stored ← s.process request.processId
  rejectIf (processScopeVisible stored.scope request.scope = false)
    (.unknownProcess request.processId)
  let record := checkpointRecord request
  match s.checkpoints.get request.checkpointId with
  | some existing =>
    rejectIf (existing ≠ record) (.invalidRequest
      ("process checkpoint " ++ request.checkpointId.asStr ++ " already exists"))
    return (.checkpointed existing, s)
  | none =>
    return (.checkpointed record,
      { s with
        checkpoints := s.checkpoints.put record
        processes := if request.linkToProcess then
          s.processes.put (linkedSnapshot stored request) else s.processes })

end ProcessJournalMaterializedState

end Ironclaw.Processes
