import Mathlib.Algebra.BigOperators.Fin
import Ironclaw.Lib.Table
import Ironclaw.HostApi.Scope

/-! # The process journal's vocabulary

The data of `ironclaw_processes/src/journal.rs` and of the host identifiers it uses.

* Identifiers that wrap a string or a UUID are one-field structures, so they cannot be mixed.
  `ProcessId.toText` is the hyphenated lower-case form; it is injective
  (`ProcessId.toText_injective`), which is what makes a lease token minted from a nonce
  identify the nonce.
* Instants are nanoseconds since the epoch and durations nanoseconds, as integers.
* A JSON value is inspected only at its top level; what an object maps its fields to and what
  a value that is no object contains is kept as serialised text (`Json`). -/

namespace Ironclaw.Processes

/-! ### Identifiers and scopes -/

/-- A process identifier: a UUID. -/
structure ProcessId where
  asUuid : BitVec 128
deriving DecidableEq

/-- Lower-case hexadecimal digit of a number below sixteen. -/
def hexDigit (n : ℕ) : Char := if n < 10 then Char.ofNat (48 + n) else Char.ofNat (87 + n)

/-- Digits `i, …, i + n - 1` of the 32 hexadecimal digits of a UUID, most significant first. -/
def ProcessId.hexGroup (id : ProcessId) (i n : ℕ) : List Char :=
  (List.range n).map (fun j => hexDigit (id.asUuid.toNat / 16 ^ (31 - (i + j)) % 16))

/-- The hyphenated form `xxxxxxxx-xxxx-xxxx-xxxx-xxxxxxxxxxxx`. -/
def ProcessId.toText (id : ProcessId) : String :=
  String.ofList (id.hexGroup 0 8 ++ '-' :: (id.hexGroup 8 4 ++ '-' :: (id.hexGroup 12 4 ++
    '-' :: (id.hexGroup 16 4 ++ '-' :: id.hexGroup 20 12))))

theorem hexDigit_injective : ∀ a < 16, ∀ b < 16, hexDigit a = hexDigit b → a = b := by decide

theorem mod_pow_eq_of_digits (n m : ℕ) : ∀ k, (∀ i < k, n / 16 ^ i % 16 = m / 16 ^ i % 16) →
    n % 16 ^ k = m % 16 ^ k
  | 0, _ => by simp [Nat.mod_one]
  | k + 1, h => by
    rw [Nat.mod_pow_succ, Nat.mod_pow_succ, mod_pow_eq_of_digits n m k fun i hi => h i (by omega),
      h k (by omega)]

theorem ProcessId.hexGroup_inj {a b : ProcessId} {i n : ℕ} (h : a.hexGroup i n = b.hexGroup i n) :
    ∀ j < n, a.asUuid.toNat / 16 ^ (31 - (i + j)) % 16 = b.asUuid.toNat / 16 ^ (31 - (i + j)) % 16 := by
  intro j hj
  have := List.map_inj_left.mp h j (List.mem_range.mpr hj)
  exact hexDigit_injective _ (Nat.mod_lt _ (by decide)) _ (Nat.mod_lt _ (by decide)) this

/-- The text form of a process identifier determines it. -/
theorem ProcessId.toText_injective : Function.Injective ProcessId.toText := by
  intro a b h
  have hl : ∀ (x : ProcessId) i n, (x.hexGroup i n).length = n := by simp [hexGroup]
  obtain ⟨h0, h⟩ := List.append_inj (String.ofList_injective h) (by rw [hl, hl])
  obtain ⟨h8, h⟩ := List.append_inj (List.cons.inj h).2 (by rw [hl, hl])
  obtain ⟨h12, h⟩ := List.append_inj (List.cons.inj h).2 (by rw [hl, hl])
  obtain ⟨h16, h⟩ := List.append_inj (List.cons.inj h).2 (by rw [hl, hl])
  have h20 := (List.cons.inj h).2
  have digits : ∀ i < 32, a.asUuid.toNat / 16 ^ i % 16 = b.asUuid.toNat / 16 ^ i % 16 := by
    intro i hi
    have e : ∀ {k n}, a.hexGroup k n = b.hexGroup k n → k ≤ 31 - i → 31 - i < k + n →
        a.asUuid.toNat / 16 ^ i % 16 = b.asUuid.toNat / 16 ^ i % 16 := by
      intro k n hk h1 h2
      have := hexGroup_inj hk (31 - i - k) (by omega)
      rwa [show 31 - (k + (31 - i - k)) = i by omega] at this
    rcases Nat.lt_or_ge (31 - i) 8 with hlt | hge
    · exact e h0 (by omega) (by omega)
    rcases Nat.lt_or_ge (31 - i) 12 with hlt | hge
    · exact e h8 (by omega) (by omega)
    rcases Nat.lt_or_ge (31 - i) 16 with hlt | hge
    · exact e h12 (by omega) (by omega)
    rcases Nat.lt_or_ge (31 - i) 20 with hlt | hge
    · exact e h16 (by omega) (by omega)
    · exact e h20 (by omega) (by omega)
  have hmod := mod_pow_eq_of_digits _ _ 32 digits
  have hlt : ∀ x : ProcessId, x.asUuid.toNat < 16 ^ 32 := fun x => x.asUuid.isLt
  rw [Nat.mod_eq_of_lt (hlt a), Nat.mod_eq_of_lt (hlt b)] at hmod
  cases a
  cases b
  congr 1
  exact BitVec.eq_of_toNat_eq hmod

example : ProcessId.toText ⟨0x550e8400e29b41d4a716446655440000⟩ =
    "550e8400-e29b-41d4-a716-446655440000" := by decide

structure ProcessCheckpointRef where
  asStr : String
deriving DecidableEq

structure ProcessCheckpointId where
  asStr : String
deriving DecidableEq

structure ProcessInputRef where
  asStr : String
deriving DecidableEq

structure ProcessWorkerId where
  asStr : String
deriving DecidableEq

structure ProcessLeaseToken where
  asStr : String
deriving DecidableEq

structure ProcessOperationId where
  asStr : String
deriving DecidableEq

structure ProcessConcurrencyClass where
  asStr : String
deriving DecidableEq

/-- A position in the journal (`u64`). -/
abbrev ProcessJournalCursor := ℕ

/-- Greatest 64-bit unsigned value. -/
def u64Max : ℕ := 2 ^ 64 - 1

/-- `u64::saturating_add`. -/
def saturatingAdd (a b : ℕ) : ℕ := min (a + b) u64Max

/-- `u64::checked_add`. -/
def checkedAdd (a b : ℕ) : Option ℕ := if a + b ≤ u64Max then some (a + b) else none

/-- `chrono::Duration::from_std(Duration::from_millis(millis)).ok()`: the duration, unless it
exceeds the `i64::MAX` milliseconds a signed duration can hold. -/
def chronoDuration (millis : UInt64) : Option ℤ :=
  if millis.toNat ≤ 2 ^ 63 - 1 then some (millis.toNat * 1000000) else none

/-- A JSON value, opaque below the fields of a top-level object. -/
inductive Json where
  | object (fields : List (String × String))
  | other (text : String)
deriving DecidableEq

/-- `serde_json::Value::Null`. -/
def Json.null : Json := .other "null"

/-! ### Lifecycle -/

inductive ProcessKind where
  | agentTurn
  | capabilityInvocation
  | capabilityInvocationState
  | internal
  | external
  | extensionDefined (name : String)
deriving DecidableEq

inductive ProcessLifecycleStatus where
  | queued
  | running
  | suspended
  | stopRequested
  | cancelRequested
  | stopped
  | cancelled
  | completed
  | failed
  | killed
  | recoveryRequired
deriving DecidableEq

namespace ProcessLifecycleStatus

def isTerminal : ProcessLifecycleStatus → Bool
  | stopped | cancelled | completed | failed | killed | recoveryRequired => true
  | queued | running | suspended | stopRequested | cancelRequested => false

def keepsActiveLock (status : ProcessLifecycleStatus) : Bool := !status.isTerminal

end ProcessLifecycleStatus

inductive ProcessJournalKind where
  | spawned
  | submitted
  | resumed
  | claimed
  | heartbeat
  | recoveryRequired
  | suspended
  | stopRequested
  | cancelRequested
  | stopped
  | cancelled
  | completed
  | failed
  | killed
deriving DecidableEq

/-- Where a process stood when it recorded a checkpoint. -/
inductive ProcessCheckpointKind where
  | beforeModel
  | beforeSideEffect
  | beforeBlock
deriving DecidableEq

/-- Whether resuming from the checkpoint would execute an external side effect again. -/
def ProcessCheckpointKind.replaysSideEffect : ProcessCheckpointKind → Bool
  | beforeModel | beforeBlock => false
  | beforeSideEffect => true

inductive ProcessSuspensionKind where
  | approval
  | authorization
  | resource
  | awaitingChildProcess
  | externalTool
  | externalProcess
  | extensionDefined
deriving DecidableEq

/-- Why a process waits. Credential requirements are compared as wholes only and are kept as
their serialised text. -/
structure ProcessSuspension where
  kind : ProcessSuspensionKind
  gateRef : Option String
  activityId : Option (BitVec 128)
  credentialRequirements : List String
  detail : Option String
deriving DecidableEq

structure SanitizedFailure where
  category : String
  detail : Option String
deriving DecidableEq

def SanitizedFailure.fromTrustedStatic (category : String) : SanitizedFailure :=
  ⟨category, none⟩

/-- A worker's claim on a process. -/
structure ProcessLeaseSnapshot where
  workerId : ProcessWorkerId
  leaseToken : ProcessLeaseToken
  leaseExpiresAt : Option Timestamp
  lastHeartbeatAt : Option Timestamp
  claimCount : ℕ
deriving DecidableEq

/-- The stored state of one process. -/
structure JournaledProcessSnapshot where
  processId : ProcessId
  processKind : ProcessKind
  scope : ResourceScope
  status : ProcessLifecycleStatus
  suspension : Option ProcessSuspension
  checkpointRef : Option ProcessCheckpointRef
  checkpointKind : Option ProcessCheckpointKind
  inputRef : Option ProcessInputRef
  failure : Option SanitizedFailure
  journalCursor : ProcessJournalCursor
  lease : Option ProcessLeaseSnapshot
  crashReclaimCount : ℕ
  createdAt : Timestamp
  ownerUserId : Option UserId
  concurrencyClass : Option ProcessConcurrencyClass
  parentProcessId : Option ProcessId
  rootProcessId : Option ProcessId
  metadata : Json
deriving DecidableEq

/-- One lifecycle event. The wall-clock `occurred_at` is not a function of the command and is
left out. -/
structure ProcessJournalEntry where
  cursor : ProcessJournalCursor
  processId : ProcessId
  processKind : ProcessKind
  scope : ResourceScope
  ownerUserId : Option UserId
  status : ProcessLifecycleStatus
  kind : ProcessJournalKind
  suspension : Option ProcessSuspension
  sanitizedReason : Option String
  retryable : Option Bool
  detail : Option String
  metadata : Json
  committedState : Option JournaledProcessSnapshot
deriving DecidableEq

/-- The event that records the state a process has just reached. -/
def ProcessJournalEntry.fromSnapshot (snapshot : JournaledProcessSnapshot)
    (cursor : ProcessJournalCursor) (kind : ProcessJournalKind) : ProcessJournalEntry :=
  let failure := if kind = .failed then snapshot.failure else none
  { cursor
    processId := snapshot.processId
    processKind := snapshot.processKind
    scope := snapshot.scope
    ownerUserId := snapshot.ownerUserId
    status := snapshot.status
    kind
    suspension := snapshot.suspension
    sanitizedReason := failure.map (·.category)
    retryable := failure.map (fun _ => snapshot.checkpointRef.isSome)
    detail := failure.bind (·.detail)
    metadata := snapshot.metadata
    committedState := some snapshot }

/-- Concurrency caps applied by a claim; a class without an entry is not capped. -/
structure ProcessConcurrencyLimits where
  maxRunningPerOwner : Option UInt32
  maxRunningByClass : List (ProcessConcurrencyClass × UInt32)

/-! ### Dependencies, trees, checkpoints, inputs -/

inductive ProcessDependencyState where
  | open
  | settled
  | resultAppended
  | attentionScheduled
  | attentionDeferred
  | consumed
  | abandoned
deriving DecidableEq

namespace ProcessDependencyState

/-- The states a dependency may hold immediately before entering a state. -/
def legalPredecessors : ProcessDependencyState → List ProcessDependencyState
  | .open => []
  | .settled => [.open]
  | .resultAppended => [.settled]
  | .attentionScheduled => [.resultAppended, .attentionDeferred]
  | .attentionDeferred => [.resultAppended]
  | .consumed => [.settled, .attentionScheduled]
  | .abandoned => [.open, .settled, .resultAppended, .attentionScheduled, .attentionDeferred]

def isClosed : ProcessDependencyState → Bool
  | .consumed | .abandoned => true
  | .open | .settled | .resultAppended | .attentionScheduled | .attentionDeferred => false

end ProcessDependencyState

structure ProcessTerminalEvidence where
  status : ProcessLifecycleStatus
  outputBytes : Option ℕ
  sanitizedReason : Option String

structure ProcessDependencyRecord where
  dependentProcessId : ProcessId
  dependencyProcessId : ProcessId
  rootProcessId : ProcessId
  scope : ResourceScope
  groupRef : Option String
  state : ProcessDependencyState
  terminal : Option ProcessTerminalEvidence
  createdAt : Timestamp
  settledAt : Option Timestamp
  consumedAt : Option Timestamp
  transitionedAt : Option Timestamp
  metadata : Json

/-- The key a dependency is stored under. -/
def ProcessDependencyRecord.edge (record : ProcessDependencyRecord) : ProcessId × ProcessId :=
  (record.dependentProcessId, record.dependencyProcessId)

/-- Capacity taken by the descendants of a root, with the processes whose share has been given
back. -/
structure ProcessTreeReservation where
  rootProcessId : ProcessId
  descendantCount : ℕ
  releasedProcesses : Finset ProcessId

structure ProcessCheckpointRecord where
  checkpointId : ProcessCheckpointId
  processId : ProcessId
  scope : ResourceScope
  stateRef : ProcessCheckpointRef
  payload : List UInt8
  createdAt : Timestamp
  metadata : Json
deriving DecidableEq

structure ProcessInputRecord where
  processId : ProcessId
  scope : ResourceScope
  inputRef : ProcessInputRef
  payload : List UInt8
  createdAt : Timestamp
deriving DecidableEq

/-! ### Requests -/

structure ProcessInputSubmission where
  inputRef : ProcessInputRef
  payload : List UInt8

structure ProcessDependencySubmission where
  dependentProcessId : ProcessId
  rootProcessId : ProcessId
  groupRef : Option String
  metadata : Json

structure SubmitProcessRequest where
  processId : ProcessId
  processKind : ProcessKind
  scope : ResourceScope
  exclusiveWithinScope : Bool
  operationId : Option ProcessOperationId
  ownerUserId : Option UserId
  concurrencyClass : Option ProcessConcurrencyClass
  parentProcessId : Option ProcessId
  rootProcessId : Option ProcessId
  spawnTreeDescendantCap : Option UInt32
  dependency : Option ProcessDependencySubmission
  checkpointRef : Option ProcessCheckpointRef
  input : Option ProcessInputSubmission
  createdAt : Timestamp
  metadata : Json

inductive ProcessSubmissionEdge where
  | suspended (suspension : ProcessSuspension)
  | completed
  | failed (failure : SanitizedFailure)

structure SubmitProcessAtEdgeRequest where
  submission : SubmitProcessRequest
  edge : ProcessSubmissionEdge

structure RecordProcessCheckpointRequest where
  checkpointId : ProcessCheckpointId
  processId : ProcessId
  scope : ResourceScope
  stateRef : ProcessCheckpointRef
  payload : List UInt8
  createdAt : Timestamp
  linkToProcess : Bool
  kind : Option ProcessCheckpointKind
  metadata : Json

structure ClaimProcessesRequest where
  workerId : ProcessWorkerId
  scopeFilter : Option ResourceScope
  processIdFilter : Option ProcessId
  processKindFilter : Option ProcessKind
  maxProcesses : ℕ

structure ProcessLeaseRequest where
  processId : ProcessId
  workerId : ProcessWorkerId
  leaseToken : ProcessLeaseToken

structure RecoverExpiredProcessLeasesRequest where
  now : Timestamp
  scopeFilter : Option ResourceScope
  processKindFilter : Option ProcessKind

inductive ProcessFailureRecovery where
  | terminal
  | redriveIfCheckpointless
deriving DecidableEq

/-- What a leased transition writes. -/
structure ProcessTransitionMutation where
  status : ProcessLifecycleStatus
  kind : ProcessJournalKind
  suspension : Option ProcessSuspension
  checkpointRef : Option ProcessCheckpointRef
  failure : Option SanitizedFailure
  failureRecovery : ProcessFailureRecovery
  metadata : Option Json

inductive ProcessControlAction where
  | resume
  | stop
  | cancel
  | kill
deriving DecidableEq

structure ProcessControlMutation where
  scope : ResourceScope
  processId : ProcessId
  action : ProcessControlAction
  operationId : Option ProcessOperationId
  expectedCursor : Option ProcessJournalCursor
  reason : Option String
  checkpointRef : Option ProcessCheckpointRef
  metadata : Option Json

structure ProcessControlResult where
  state : JournaledProcessSnapshot
  changed : Bool
  alreadyTerminal : Bool

structure ReserveProcessTreeRequest where
  scope : ResourceScope
  rootProcessId : ProcessId
  delta : UInt32
  cap : UInt32

structure ReleaseProcessTreeRequest where
  scope : ResourceScope
  rootProcessId : ProcessId
  delta : UInt32
  idempotencyProcessId : ProcessId

structure PruneReleasedProcessRequest where
  scope : ResourceScope
  rootProcessId : ProcessId
  processId : ProcessId

structure OpenProcessDependencyRequest where
  dependentProcessId : ProcessId
  dependencyProcessId : ProcessId
  rootProcessId : ProcessId
  scope : ResourceScope
  groupRef : Option String
  createdAt : Timestamp
  metadata : Json

structure SettleProcessDependencyRequest where
  dependentProcessId : ProcessId
  dependencyProcessId : ProcessId
  scope : ResourceScope
  terminal : ProcessTerminalEvidence
  settledAt : Timestamp

structure TransitionProcessDependencyRequest where
  dependentProcessId : ProcessId
  dependencyProcessId : ProcessId
  scope : ResourceScope
  next : ProcessDependencyState
  metadata : Option Json
  transitionedAt : Timestamp

structure CloseProcessDependencyRequest where
  dependentProcessId : ProcessId
  dependencyProcessId : ProcessId
  scope : ResourceScope
  closedAt : Timestamp

structure ClaimedProcess where
  state : JournaledProcessSnapshot
  workerId : ProcessWorkerId
  leaseToken : ProcessLeaseToken

end Ironclaw.Processes
