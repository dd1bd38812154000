import Ironclaw.Lib.Scan
import Ironclaw.Filesystem.Types
import Ironclaw.Events.Redaction

/-! # Streams, cursors and replays

The vocabulary of `ironclaw_event_log/src/cursor.rs` and `error.rs`. -/

namespace Ironclaw.Events

open Ironclaw.Filesystem (FilesystemError)

/-- A position in one stream; the origin, 0, precedes every record. -/
abbrev EventCursor := ℕ

/-- The partition of the durable log a record belongs to. -/
structure EventStreamKey where
  tenantId : TenantId
  userId : UserId
  agentId : Option AgentId
deriving DecidableEq

namespace EventStreamKey

def fromScope (scope : ResourceScope) : EventStreamKey where
  tenantId := scope.tenantId
  userId := scope.userId
  agentId := scope.agentId

/-- Every id of the key is one its constructor accepts. -/
structure Valid (key : EventStreamKey) : Prop where
  tenant : ValidScopeId key.tenantId.asStr
  user : ValidScopeId key.userId.asStr
  agent : ∀ agent ∈ key.agentId, ValidScopeId agent.asStr

end EventStreamKey

/-- The filter a reader is confined to within its stream. -/
structure ReadScope where
  projectId : Option ProjectId
  missionId : Option MissionId
  threadId : Option ThreadId
  processId : Option Processes.ProcessId

def matchesOptional {α : Type} [DecidableEq α] (want have_ : Option α) : Bool :=
  match want with
  | none => true
  | some want => have_ == some want

namespace ReadScope

def any : ReadScope := ⟨none, none, none, none⟩

def matchesEvent (filter : ReadScope) (event : RuntimeEvent) : Bool :=
  matchesOptional filter.projectId event.scope.projectId &&
    matchesOptional filter.missionId event.scope.missionId &&
    matchesOptional filter.threadId event.scope.threadId &&
    matchesOptional filter.processId event.processId

end ReadScope

structure EventLogEntry (ρ : Type) where
  cursor : EventCursor
  record : ρ
deriving DecidableEq

structure EventReplay (ρ : Type) where
  entries : List (EventLogEntry ρ)
  nextCursor : EventCursor
deriving DecidableEq

/-- The failures of the sinks and logs. Where the source renders the error of another layer into
its text, the error itself is kept. -/
inductive EventError
  | serialize (error : HostApiError)
  | sink (reason : String)
  | durableLog (reason : String)
  | filesystem (reason : String) (error : FilesystemError)
  | replayGap (requested earliest : EventCursor)
  | invalidReplayRequest (reason : String)
deriving DecidableEq

theorem EventStreamKey.valid_fromScope {event : RuntimeEvent} (h : event.Valid) :
    (fromScope event.scope).Valid := by
  obtain ⟨_, hscope, -⟩ := bind_eq_ok.1 h
  obtain ⟨htenant, huser, hagent⟩ := ResourceScope.revalidate_ids hscope
  exact ⟨htenant, huser, hagent⟩

end Ironclaw.Events
