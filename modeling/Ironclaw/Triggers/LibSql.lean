import Ironclaw.Triggers.Store

/-! # The libSQL repository

`ironclaw_triggers/src/libsql.rs`. Every operation is one immediate transaction, so a call is a
function of the tables; an error inside the transaction rolls it back. A row is validated
whenever it is read, also in the `RETURNING` of an update (`rowToRecord`). -/

namespace Ironclaw.Triggers.LibSql

section Rows

variable (crates : CronCrates) (wall : Timestamp)

/-- `row_to_record`: the schedule is checked when it is decoded and again with the record. -/
def rowToRecord (row : TriggerRecord) : Except TriggerError TriggerRecord := do
  row.schedule.validate crates wall
  row.validate crates wall
  return row

def fetchRecord (s : Store) (trigger : TriggerKey) : Except TriggerError (Option TriggerRecord) :=
  match s.records.get trigger with
  | some row => (rowToRecord crates wall row).map some
  | none => .ok none

/-- `UPDATE … SET … WHERE tenant_id = ? AND trigger_id = ? AND … RETURNING …`. -/
def updateReturning (s : Store) (trigger : TriggerKey) (selects : TriggerRecord → Prop)
    [DecidablePred selects] (set : TriggerRecord → TriggerRecord) :
    Except TriggerError (Option (TriggerRecord × Store)) :=
  match s.records.get trigger with
  | some row =>
    if selects row then
      (rowToRecord crates wall (set row)).map fun record => some (record, s.putRecord (set row))
    else .ok none
  | none => .ok none

end Rows

/-! ### Run history -/

variable (s : Store)

def fetchRunSource (trigger : TriggerKey) (fireSlot : Timestamp) : Option TriggerSourceKind :=
  ((orderBy newestFirst (s.runs.rows.filter fun run =>
    run.trigger = trigger ∧ run.fireSlot = fireSlot ∧ run.status = .running)).head?).map (·.source)

/-- A running row of the other source at the slot is retired. -/
def retireRow (run row : TriggerRunRecord) : TriggerRunRecord :=
  if row.trigger = run.trigger ∧ row.fireSlot = run.fireSlot ∧ row.source ≠ run.source ∧
      row.status = .running then
    { row with
      status := .error
      completedAt := row.completedAt.or (some run.submittedAt) }
  else row

theorem key_retireRow (run row : TriggerRunRecord) : (retireRow run row).key = row.key := by
  unfold retireRow
  split <;> rfl

/-- `ON CONFLICT … DO UPDATE`: a row that is there keeps its thread where the new one has none. -/
def mergedRow (run : TriggerRunRecord) (stored : Option TriggerRunRecord) : TriggerRunRecord :=
  match stored with
  | some stored =>
    { run with
      threadId := run.threadId.or stored.threadId }
  | none => run

def upsertRunHistory (run : TriggerRunRecord) : Store :=
  let retired := if run.status = .running then s.runs.mapRows (retireRow run) (key_retireRow run)
    else s.runs
  { s with
    runs := retired.put (mergedRow run (retired.get run.key)) }

def pruneRunHistory (trigger : TriggerKey) : Store :=
  let kept := ((orderBy retentionOrder (s.runsOf trigger)).take maxTriggerRunHistoryRetained).map
    TriggerRunRecord.key
  { s with
    runs := s.runs.filter fun run => run.trigger ≠ trigger ∨ run.key ∈ kept }

/-- The row of a fire that is over; a run that it names is kept. -/
def completedRow (trigger : TriggerKey) (fireSlot : Timestamp) (source : TriggerSourceKind)
    (runId : Option TurnRunId) (status : TriggerRunHistoryStatus) (completedAt : Timestamp)
    (stored : Option TriggerRunRecord) : TriggerRunRecord :=
  match stored with
  | some stored =>
    { stored with
      runId := stored.runId.or runId
      status := status
      completedAt := some completedAt }
  | none =>
    { TriggerRunRecord.running trigger fireSlot source runId completedAt with
      status := status
      completedAt := some completedAt }

def completeRunHistory (trigger : TriggerKey) (fireSlot : Timestamp)
    (source : TriggerSourceKind) (runId : Option TurnRunId) (status : TriggerRunHistoryStatus)
    (completedAt : Timestamp) : Store :=
  pruneRunHistory { s with
    runs := s.runs.put (completedRow trigger fireSlot source runId status completedAt
      (s.runs.get ⟨trigger, fireSlot, source⟩)) } trigger

/-! ### Records and states -/

section Operations

variable (crates : CronCrates) (wall : Timestamp)

variable (s : Store)

/-- The insert of `write_record`: an existing row keeps its `created_at`. -/
def writeRecord (record : TriggerRecord) : Store :=
  let row := match s.records.get record.key with
    | some stored =>
      { record with
        createdAt := stored.createdAt }
    | none => record
  s.putRecord row

def upsertTrigger (record : TriggerRecord) : Except TriggerError (Unit × Store) := do
  record.validate crates wall
  return ((), writeRecord s record)

def setScopedTriggerState (request : SetScopedTriggerStateRequest) :
    Except TriggerError (Option TriggerRecord × Store) := do
  validateUserSettableTriggerState request.state
  match ← fetchRecord crates wall s request.trigger with
  | none => return (none, s)
  | some current =>
    if current.creatorUserId ≠ request.creatorUserId ∨ current.agentId ≠ request.agentId ∨
        current.projectId ≠ request.projectId ∨ current.state = .completed then
      return (none, s)
    else
      let nextRunAt ← nextRunAtForStateTransition crates wall current request.state wall
      match ← updateReturning crates wall s request.trigger (fun _ => True) (fun row =>
          { row with
            state := request.state
            nextRunAt := nextRunAt }) with
      | some (record, s') => return (some record, s')
      | none => return (none, s)

/-! ### Claims -/

def claimDueFire (request : ClaimDueFireRequest) :
    Except TriggerError (ClaimDueFireOutcome × Store) := do
  match ← updateReturning crates wall s request.trigger (fun row =>
      row.state = .scheduled ∧ row.nextRunAt = request.fireSlot ∧ request.fireSlot ≤ request.now ∧
        row.activeFireSlot = none ∧ row.activeRunRef = none) (fun row =>
      { row with
        activeFireSlot := some request.fireSlot
        activeRunRef := none }) with
  | some (record, s') =>
    let s'' := upsertRunHistory s'
      (.running request.trigger request.fireSlot .schedule none request.now)
    return (.claimed record request.fireSlot, pruneRunHistory s'' request.trigger)
  | none =>
    match ← fetchRecord crates wall s request.trigger with
    | none => return (.notFound, s)
    | some record =>
      if record.state ≠ .scheduled ∨ record.nextRunAt ≠ request.fireSlot ∨
          request.now < request.fireSlot then return (.notDue record, s)
      else if record.hasActiveFire = true then
        return (.alreadyActive record.activeFireSlot record.activeRunRef, s)
      else return (.notDue record, s)

def claimManualFire (request : ClaimManualFireRequest) :
    Except TriggerError (ClaimDueFireOutcome × Store) := do
  match ← updateReturning crates wall s request.trigger (fun row =>
      row.state = .scheduled ∧ row.activeFireSlot = none ∧ row.activeRunRef = none) (fun row =>
      { row with
        activeFireSlot := some request.now
        activeRunRef := none }) with
  | some (record, s') =>
    let s'' := upsertRunHistory s'
      (.running request.trigger request.now .manual none request.now)
    return (.claimed record request.now, pruneRunHistory s'' request.trigger)
  | none =>
    match ← fetchRecord crates wall s request.trigger with
    | none => return (.notFound, s)
    | some record =>
      if record.state = .paused then return (.paused record, s)
      else if record.state ≠ .scheduled then return (.notDue record, s)
      else if record.hasActiveFire = true then
        return (.alreadyActive record.activeFireSlot record.activeRunRef, s)
      else
        .error (.backend
          "manual trigger claim lost without an observable competing state")

/-! ### Results -/

/-- What a result whose update selected no row reports. -/
def resolveMissedFireResultUpdate (trigger : TriggerKey) (fireSlot : Timestamp)
    (expectedRunRef : Option TurnRunId) : Except TriggerError (Option TriggerRecord) := do
  match ← fetchRecord crates wall s trigger with
  | none => return none
  | some record =>
    if record.activeFireSlot ≠ some fireSlot then return none
    else
      match record.activeRunRef, expectedRunRef with
      | some activeRunRef, some expected =>
        rejectRunRefRewrite activeRunRef expected
        return some record
      | some activeRunRef, none =>
        rejectFailedResultAfterActiveRun (some activeRunRef)
        .error missedUpdate
      | none, _ => .error missedUpdate
where
  missedUpdate : TriggerError := .backend <|
    "reconcile missed trigger fire result update: " ++
      "update predicate failed while claimed fire remained active without a run ref"

structure SuccessfulFireResultUpdate where
  trigger : TriggerKey
  fireSlot : Timestamp
  runId : TurnRunId
  threadId : Option ThreadId
  resultAt : Timestamp

namespace SuccessfulFireResultUpdate

def ofAccepted (request : FireAcceptedRequest) : SuccessfulFireResultUpdate where
  trigger := request.trigger
  fireSlot := request.fireSlot
  runId := request.runId
  threadId := some request.threadId
  resultAt := request.submittedAt

def ofReplayed (request : FireReplayedRequest) : SuccessfulFireResultUpdate where
  trigger := request.trigger
  fireSlot := request.fireSlot
  runId := request.originalRunId
  threadId := request.threadId
  resultAt := request.replayedAt

end SuccessfulFireResultUpdate

/-- The row of an accepted fire; the position is left alone where there is no next slot. -/
def acceptedRecord (update : SuccessfulFireResultUpdate) (nextRunAt : Option Timestamp)
    (row : TriggerRecord) : TriggerRecord :=
  { row with
    lastRunAt := some update.resultAt
    lastFiredSlot := some update.fireSlot
    lastStatus := some .ok
    nextRunAt := nextRunAt.getD row.nextRunAt
    activeFireSlot := some update.fireSlot
    activeRunRef := some update.runId }

/-- The history row of an accepted fire. -/
def acceptedRun (update : SuccessfulFireResultUpdate) (source : TriggerSourceKind)
    (submittedAt : Timestamp) : TriggerRunRecord :=
  { TriggerRunRecord.running update.trigger update.fireSlot source (some update.runId)
      submittedAt with
    threadId := update.threadId }

/-- The transaction of `mark_successful_fire_result`. -/
def recordSuccessfulFire (update : SuccessfulFireResultUpdate) :
    Except TriggerError (Option (TriggerRecord × Store)) := do
  match ← fetchRecord crates wall s update.trigger with
  | none => return none
  | some current =>
    if current.activeFireSlot ≠ some update.fireSlot then return none
    else
      match current.activeRunRef with
      | some activeRunRef =>
        rejectRunRefRewrite activeRunRef update.runId
        return some (current, s)
      | none =>
        let source := (fetchRunSource s update.trigger update.fireSlot).getD .schedule
        let nextRunAt ← nextRunAtAfterFire crates wall source current.schedule update.fireSlot
        match ← updateReturning crates wall s update.trigger (fun _ => True)
            (acceptedRecord update nextRunAt) with
        | none => return none
        | some (record, s') =>
          return some (record, upsertRunHistory s'
            (acceptedRun update source (record.lastRunAt.getD update.resultAt)))

def markSuccessfulFireResult (update : SuccessfulFireResultUpdate) :
    Except TriggerError (Option TriggerRecord × Store) := do
  match ← recordSuccessfulFire crates wall s update with
  | some (record, s') => return (some record, s')
  | none =>
    let record ← resolveMissedFireResultUpdate crates wall s update.trigger update.fireSlot
      (some update.runId)
    return (record, s)

def markFireAccepted (request : FireAcceptedRequest) :
    Except TriggerError (Option TriggerRecord × Store) :=
  markSuccessfulFireResult crates wall s (.ofAccepted request)

def markFireReplayed (request : FireReplayedRequest) :
    Except TriggerError (Option TriggerRecord × Store) :=
  markSuccessfulFireResult crates wall s (.ofReplayed request)

/-- The update that the three failure results share: it selects the claimed fire while it has no
run, and completes its history row as an error. -/
def failClaimedFire (trigger : TriggerKey) (fireSlot : Timestamp)
    (source : TriggerSourceKind) (selects : TriggerRecord → Prop) [DecidablePred selects]
    (set : TriggerRecord → TriggerRecord) :
    Except TriggerError (Option TriggerRecord × Store) := do
  match ← updateReturning crates wall s trigger (fun row =>
      row.activeFireSlot = some fireSlot ∧ row.activeRunRef = none ∧ selects row) (fun row =>
      { set row with
        lastStatus := some .error
        activeFireSlot := none
        activeRunRef := none }) with
  | some (record, s') =>
    return (some record, completeRunHistory s' trigger fireSlot source none .error wall)
  | none =>
    let record ← resolveMissedFireResultUpdate crates wall s trigger fireSlot none
    return (record, s)

def markFireRetryableFailed (request : FireRetryableFailedRequest) :
    Except TriggerError (Option TriggerRecord × Store) := do
  match ← fetchRecord crates wall s request.trigger with
  | none => return (none, s)
  | some record =>
    if record.activeFireSlot ≠ some request.fireSlot then return (none, s)
    else
      rejectFailedResultAfterActiveRun record.activeRunRef
      let source := (fetchRunSource s request.trigger request.fireSlot).getD .schedule
      rejectIf (source = .schedule ∧ record.schedule.isRecurring = true ∧
        request.fireSlot < record.nextRunAt) retryableCadenceError
      failClaimedFire crates wall s request.trigger request.fireSlot source
        (fun row => source = .manual ∨ row.nextRunAt ≤ request.fireSlot) (fun row => row)

def markFirePermanentlyFailed (request : FirePermanentFailedRequest) :
    Except TriggerError (Option TriggerRecord × Store) := do
  match ← fetchRecord crates wall s request.trigger with
  | none => return (none, s)
  | some record =>
    if record.activeFireSlot ≠ some request.fireSlot then return (none, s)
    else
      rejectFailedResultAfterActiveRun record.activeRunRef
      let source := (fetchRunSource s request.trigger request.fireSlot).getD .schedule
      rejectFailedCadence source request.fireSlot request.nextRunAt
      failClaimedFire crates wall s request.trigger request.fireSlot source (fun _ => True)
        (fun row =>
          { row with
            nextRunAt := if source = .manual then row.nextRunAt else request.nextRunAt })

def markFireTerminallyFailed (request : FireTerminalFailedRequest) :
    Except TriggerError (Option TriggerRecord × Store) :=
  let source := (fetchRunSource s request.trigger request.fireSlot).getD .schedule
  failClaimedFire crates wall s request.trigger request.fireSlot source (fun _ => True)
    (fun row =>
      { row with
        state := if source = .manual then row.state else .completed })

def clearActiveFire (request : ClearActiveFireRequest) :
    Except TriggerError (Option TriggerRecord × Store) := do
  match ← fetchRecord crates wall s request.trigger with
  | none => return (none, s)
  | some current =>
    if current.activeFireSlot ≠ some request.fireSlot ∨
        current.activeRunRef ≠ some request.runId then return (none, s)
    else
      let source := (fetchRunSource s request.trigger request.fireSlot).getD .schedule
      let nextSlot ← nextSlotAfterRun crates wall source current request.fireSlot
      let newState := if nextSlot = none then .completed else current.state
      match ← updateReturning crates wall s request.trigger (fun row =>
          row.activeFireSlot = some request.fireSlot ∧ row.activeRunRef = some request.runId)
          (fun row =>
            { row with
              activeFireSlot := none
              activeRunRef := none
              state := newState }) with
      | some (record, s') =>
        return (some record, completeRunHistory s' request.trigger request.fireSlot source
          (some request.runId) request.status wall)
      | none => return (none, s)

/-! ### Reads -/

def getTrigger (trigger : TriggerKey) : Except TriggerError (Option TriggerRecord) :=
  fetchRecord crates wall s trigger

/-- `SELECT … WHERE … ORDER BY … LIMIT …`, decoded row by row. -/
def selectRecords {κ : Type} [LinearOrder κ] (selects : TriggerRecord → Bool)
    (order : TriggerRecord → κ) (limit : Option ℕ) : Except TriggerError (List TriggerRecord) :=
  let rows := orderBy order (s.records.rows.filter selects)
  ((limit.map rows.take).getD rows).mapM (rowToRecord crates wall)

def listTriggers (tenantId : TenantId) : Except TriggerError (List TriggerRecord) :=
  selectRecords crates wall s (fun row => row.tenantId = tenantId) createdOrder none

def listScopedTriggers (tenantId : TenantId) (creatorUserId : UserId)
    (agentId : Option AgentId) (projectId : Option ProjectId) (limit : ℕ)
    (excludedStates : List TriggerState) : Except TriggerError (List TriggerRecord) :=
  if limit = 0 then .ok []
  else
    selectRecords crates wall s (fun row => row.tenantId = tenantId ∧
      row.creatorUserId = creatorUserId ∧ row.agentId = agentId ∧ row.projectId = projectId ∧
      row.state ∉ excludedStates) createdOrder (some (min limit maxTriggerListLimit))

def listDueTriggers (now : Timestamp) (limit : ℕ) : Except TriggerError (List TriggerRecord) :=
  if limit = 0 then .ok []
  else
    selectRecords crates wall s (fun row => row.state = .scheduled ∧ row.nextRunAt ≤ now ∧
      row.activeFireSlot = none ∧ row.activeRunRef = none)
      (fun row => scanOrder row.nextRunAt row.tenantId row.triggerId)
      (some (min limit maxDueTriggerPollLimit))

/-- The position of an active row in the scan. -/
def activeOrder (row : TriggerRecord) : Timestamp ×ₗ String ×ₗ ℕ :=
  scanOrder (row.activeFireSlot.getD 0) row.tenantId row.triggerId

def listActiveTriggersAfter (after : Option ActiveTriggerScanCursor) (limit : ℕ) :
    Except TriggerError (List TriggerRecord) :=
  if limit = 0 then .ok []
  else
    selectRecords crates wall s (fun row => row.activeFireSlot.isSome = true ∧
      ∀ cursor ∈ after,
        scanOrder cursor.activeFireSlot cursor.tenantId cursor.triggerId < activeOrder row)
      activeOrder (some (min limit maxDueTriggerPollLimit))

end Operations

def listTriggerRunHistory (trigger : TriggerKey) (limit : ℕ) : List TriggerRunRecord :=
  if limit = 0 then []
  else (orderBy historyOrder (s.runsOf trigger)).take (min limit maxTriggerRunHistoryLimit)

/-- A trigger without rows gets no entry. -/
def listTriggerRunHistoryBatch (tenantId : TenantId) (triggerIds : List TriggerId)
    (limit : ℕ) (triggerId : TriggerId) : Option (List TriggerRunRecord) :=
  if limit = 0 ∨ triggerIds = [] then none
  else
    let runs := (orderBy historyOrder (s.runsOf ⟨tenantId, triggerId⟩)).take
      (min limit maxTriggerRunHistoryLimit)
    if triggerId ∈ triggerIds ∧ runs ≠ [] then some runs else none

/-! ### Calls -/

/-- One call on the repository. -/
def call (crates : CronCrates) (s : Store) (c : Call) : Except TriggerError (Reply × Store) :=
  match c.request with
  | .upsertTrigger record =>
    (upsertTrigger crates c.wall s record).map (Prod.map (fun _ => .done) id)
  | .getTrigger trigger => (getTrigger crates c.wall s trigger).map fun reply => (.record reply, s)
  | .listTriggers tenantId =>
    (listTriggers crates c.wall s tenantId).map fun reply => (.records reply, s)
  | .listScopedTriggers tenantId creatorUserId agentId projectId limit excludedStates =>
    (listScopedTriggers crates c.wall s tenantId creatorUserId agentId projectId limit
      excludedStates).map fun reply => (.records reply, s)
  | .setScopedTriggerState request =>
    (setScopedTriggerState crates c.wall s request).map (Prod.map .record id)
  | .listDueTriggers now limit =>
    (listDueTriggers crates c.wall s now limit).map fun reply => (.records reply, s)
  | .listActiveTriggersAfter after limit =>
    (listActiveTriggersAfter crates c.wall s after limit).map fun reply => (.records reply, s)
  | .claimDueFire request => (claimDueFire crates c.wall s request).map (Prod.map .claim id)
  | .claimManualFire request => (claimManualFire crates c.wall s request).map (Prod.map .claim id)
  | .markFireAccepted request =>
    (markFireAccepted crates c.wall s request).map (Prod.map .record id)
  | .markFireReplayed request =>
    (markFireReplayed crates c.wall s request).map (Prod.map .record id)
  | .markFireRetryableFailed request =>
    (markFireRetryableFailed crates c.wall s request).map (Prod.map .record id)
  | .markFirePermanentlyFailed request =>
    (markFirePermanentlyFailed crates c.wall s request).map (Prod.map .record id)
  | .markFireTerminallyFailed request =>
    (markFireTerminallyFailed crates c.wall s request).map (Prod.map .record id)
  | .clearActiveFire request =>
    (clearActiveFire crates c.wall s request).map (Prod.map .record id)
  | .listTriggerRunHistory trigger limit =>
    .ok (.runs (listTriggerRunHistory s trigger limit), s)
  | .listTriggerRunHistoryBatch tenantId triggerIds limit =>
    .ok (.runsByTrigger (listTriggerRunHistoryBatch s tenantId triggerIds limit), s)

end Ironclaw.Triggers.LibSql
