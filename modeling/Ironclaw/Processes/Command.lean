import Ironclaw.Lib.Run
import Ironclaw.Processes.Lineage

/-! # Stored commands

The command type of `journal_store/command.rs`, the dispatch of `apply_command`, and the runs
of the journal: sequences of commands from the empty state, where a rejected command changes
nothing and the hash maps may be enumerated in any order at every command. -/

namespace Ironclaw.Processes

inductive StoredProcessCommand where
  | importLegacyState (state : ProcessJournalMaterializedState)
  | submit (request : SubmitProcessRequest)
  | submitAtEdge (request : SubmitProcessAtEdgeRequest)
  | submitWithCheckpoint (request : SubmitProcessRequest)
      (checkpoint : RecordProcessCheckpointRequest)
  | claim (request : ClaimProcessesRequest) (now : Timestamp) (leaseDurationMillis : UInt64)
      (leaseNonce : ProcessId) (limits : ProcessConcurrencyLimits)
  | heartbeat (request : ProcessLeaseRequest) (now : Timestamp) (leaseDurationMillis : UInt64)
  | recoverExpired (request : RecoverExpiredProcessLeasesRequest) (leaseDurationMillis : UInt64)
  | leasedTransition (request : ProcessLeaseRequest) (mutation : ProcessTransitionMutation)
  | control (mutation : ProcessControlMutation)
  | reserveTree (request : ReserveProcessTreeRequest)
  | releaseTree (request : ReleaseProcessTreeRequest)
  | pruneTree (request : PruneReleasedProcessRequest)
  | openDependency (request : OpenProcessDependencyRequest)
  | settleDependency (request : SettleProcessDependencyRequest)
  | transitionDependency (request : TransitionProcessDependencyRequest)
  | consumeDependency (request : CloseProcessDependencyRequest)
  | abandonDependency (request : CloseProcessDependencyRequest)
  | recordCheckpoint (request : RecordProcessCheckpointRequest)

/-- Whether the command is the migration of a legacy state. -/
def StoredProcessCommand.isImport : StoredProcessCommand → Bool
  | .importLegacyState _ => true
  | _ => false

namespace ProcessJournalMaterializedState

/-- A legacy state is adopted by a store that has neither a process nor an event yet. -/
def importLegacyState (s imported : ProcessJournalMaterializedState) :
    ProcessJournalMaterializedState :=
  if s.legacyImported = false ∧ s.processes.rows = [] ∧ s.journal = [] then
    let maxCursor := (imported.journal.getLast?.map (·.cursor)).getD (imported.nextCursor - 1)
    { imported with nextCursor := saturatingAdd maxCursor 1, legacyImported := true }
  else s

/-- Submit a process together with the checkpoint it starts from. -/
def applySubmitWithCheckpoint (s : ProcessJournalMaterializedState)
    (request : SubmitProcessRequest) (checkpoint : RecordProcessCheckpointRequest) :
    Except ProcessJournalStoreError (StoredCommandOutcome × ProcessJournalMaterializedState) := do
  rejectIf (checkpoint.processId ≠ request.processId ∨ checkpoint.scope ≠ request.scope ∨
      request.checkpointRef.map (·.asStr) ≠ some checkpoint.checkpointId.asStr)
    (.invalidRequest "initial checkpoint must be owned and referenced by the submitted process")
  let (outcome, submitted) ← s.applySubmit request
  match outcome with
  | .submitted _ true => do
    let (_, recorded) ← submitted.applyCheckpoint checkpoint
    return (outcome, recorded)
  | _ => return (outcome, submitted)

def applyCommand (s : ProcessJournalMaterializedState) (command : StoredProcessCommand) :
    Except ProcessJournalStoreError (StoredCommandOutcome × ProcessJournalMaterializedState) :=
  match command with
  | .importLegacyState state => .ok (.imported, s.importLegacyState state)
  | .submit request => s.applySubmit request
  | .submitAtEdge request => s.applySubmitAtEdge request
  | .submitWithCheckpoint request checkpoint => s.applySubmitWithCheckpoint request checkpoint
  | .claim request now leaseDurationMillis leaseNonce limits =>
    s.applyClaim request now leaseDurationMillis leaseNonce limits
  | .heartbeat request now leaseDurationMillis => s.applyHeartbeat request now leaseDurationMillis
  | .recoverExpired request leaseDurationMillis => s.applyRecoverExpired request leaseDurationMillis
  | .leasedTransition request mutation => s.applyLeasedTransition request mutation
  | .control mutation => s.applyControl mutation
  | .reserveTree request => s.applyReserveTree request
  | .releaseTree request => s.applyReleaseTree request
  | .pruneTree request => s.applyPruneTree request
  | .openDependency request => s.applyOpenDependency request
  | .settleDependency request => s.applySettleDependency request
  | .transitionDependency request => s.applyTransitionDependency request
  | .consumeDependency request => s.applyCloseDependency request false
  | .abandonDependency request => s.applyCloseDependency request true
  | .recordCheckpoint request => s.applyCheckpoint request

end ProcessJournalMaterializedState

open ProcessJournalMaterializedState

/-- One command with the states around it. -/
abbrev JournalStep := Step ProcessJournalMaterializedState StoredProcessCommand

/-- `JournalRun history s`: the steps of `history`, oldest first, lead from the empty state
to `s`. -/
abbrev JournalRun (history : List JournalStep) (s : ProcessJournalMaterializedState) : Prop :=
  Run SameRows applyCommand empty history s

theorem JournalRun.of_commands (commands : List StoredProcessCommand) :
    JournalRun (Run.trace applyCommand empty commands)
      (commands.foldl (advance applyCommand) empty) :=
  Run.of_commands SameRows.refl commands empty

/-! ### Sample commands

Inputs on which the theorems about runs are instantiated. -/

namespace Sample

def scope : ResourceScope :=
  ⟨⟨"tenant"⟩, ⟨"user"⟩, none, none, none, some ⟨"thread"⟩, ⟨1⟩⟩

def processId (n : ℕ) : ProcessId := ⟨BitVec.ofNat 128 n⟩

def workerId : ProcessWorkerId := ⟨"worker"⟩

/-- A process without parent, checkpoint or input. -/
def submission (n : ℕ) : SubmitProcessRequest where
  processId := processId n
  processKind := .agentTurn
  scope := scope
  exclusiveWithinScope := false
  operationId := none
  ownerUserId := some ⟨"user"⟩
  concurrencyClass := none
  parentProcessId := none
  rootProcessId := none
  spawnTreeDescendantCap := none
  dependency := none
  checkpointRef := none
  input := none
  createdAt := n
  metadata := .null

/-- Claim one process at instant `now` for one second. -/
def claim (nonce : ℕ) (now : Timestamp) : StoredProcessCommand :=
  .claim ⟨workerId, none, none, none, 1⟩ now 1000 (processId nonce) ⟨none, []⟩

/-- The lease the worker holds on a process claimed under a nonce. -/
def lease (n nonce : ℕ) : ProcessLeaseRequest :=
  ⟨processId n, workerId, ⟨(processId nonce).toText⟩⟩

/-- The import of the state that a list of commands has led to in another store. -/
def migration (commands : List StoredProcessCommand) : StoredProcessCommand :=
  .importLegacyState (commands.foldl (advance applyCommand) empty)

/-- A control of a process without replay key, expected cursor or payload. -/
def control (n : ℕ) (action : ProcessControlAction) : StoredProcessCommand :=
  .control ⟨scope, processId n, action, none, none, none, none, none⟩

end Sample

end Ironclaw.Processes
