import Ironclaw.Lib.Table
import Ironclaw.Triggers.Record
import Mathlib.Data.Prod.Lex
import Mathlib.Data.String.Basic

/-! # The two tables of a trigger repository, and the calls on it

Both repositories hold trigger records by `(tenant, trigger)` and run-history rows by
`(tenant, trigger, fire slot, source)`. A call carries its request and the reading of the wall
clock while it is executed (`Utc::now()`); the reading that a poller took earlier is part of the
request. -/

namespace Ironclaw.Triggers

structure Store where
  records : Table TriggerRecord.key
  runs : Table TriggerRunRecord.key

namespace Store

def empty : Store := ⟨.empty, .empty⟩

def putRecord (s : Store) (row : TriggerRecord) : Store :=
  { s with
    records := s.records.put row }

/-- The history rows of one trigger. -/
def runsOf (s : Store) (trigger : TriggerKey) : List TriggerRunRecord :=
  s.runs.rows.filter fun run => run.trigger = trigger

end Store

/-! ### Orders of the listings -/

/-- `created_at, trigger_id`. The text of a trigger id orders as its number does. -/
def createdOrder (record : TriggerRecord) : Timestamp ×ₗ ℕ :=
  toLex (record.createdAt, record.triggerId.asUlid.toNat)

/-- An instant, then `tenant_id, trigger_id`. -/
def scanOrder (instant : Timestamp) (tenantId : TenantId) (triggerId : TriggerId) :
    Timestamp ×ₗ String ×ₗ ℕ :=
  toLex (instant, toLex (tenantId.asStr, triggerId.asUlid.toNat))

/-- `fire_slot DESC, source`. -/
def historyOrder (run : TriggerRunRecord) : Timestampᵒᵈ ×ₗ String :=
  toLex (OrderDual.toDual run.fireSlot, sourceKindText run.source)

/-- Running rows first, then `fire_slot DESC, source`. -/
def retentionOrder (run : TriggerRunRecord) : ℕ ×ₗ Timestampᵒᵈ ×ₗ String :=
  toLex (if run.status = .running then 0 else 1, historyOrder run)

/-- `submitted_at DESC, source DESC`. -/
def newestFirst (run : TriggerRunRecord) : Timestampᵒᵈ ×ₗ Stringᵒᵈ :=
  toLex (OrderDual.toDual run.submittedAt, OrderDual.toDual (sourceKindText run.source))

/-! ### Calls -/

inductive Request where
  | upsertTrigger (record : TriggerRecord)
  | getTrigger (trigger : TriggerKey)
  | listTriggers (tenantId : TenantId)
  | listScopedTriggers (tenantId : TenantId) (creatorUserId : UserId) (agentId : Option AgentId)
      (projectId : Option ProjectId) (limit : ℕ) (excludedStates : List TriggerState)
  | setScopedTriggerState (request : SetScopedTriggerStateRequest)
  | listDueTriggers (now : Timestamp) (limit : ℕ)
  | listActiveTriggersAfter (after : Option ActiveTriggerScanCursor) (limit : ℕ)
  | claimDueFire (request : ClaimDueFireRequest)
  | claimManualFire (request : ClaimManualFireRequest)
  | markFireAccepted (request : FireAcceptedRequest)
  | markFireReplayed (request : FireReplayedRequest)
  | markFireRetryableFailed (request : FireRetryableFailedRequest)
  | markFirePermanentlyFailed (request : FirePermanentFailedRequest)
  | markFireTerminallyFailed (request : FireTerminalFailedRequest)
  | clearActiveFire (request : ClearActiveFireRequest)
  | listTriggerRunHistory (trigger : TriggerKey) (limit : ℕ)
  | listTriggerRunHistoryBatch (tenantId : TenantId) (triggerIds : List TriggerId) (limit : ℕ)

structure Call where
  wall : Timestamp
  request : Request

inductive Reply where
  | done
  | record (record : Option TriggerRecord)
  | records (records : List TriggerRecord)
  | claim (outcome : ClaimDueFireOutcome)
  | runs (runs : List TriggerRunRecord)
  /-- The hash map of the batch read. -/
  | runsByTrigger (runs : TriggerId → Option (List TriggerRunRecord))

end Ironclaw.Triggers
