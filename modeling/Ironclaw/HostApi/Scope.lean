import Mathlib.Data.BitVec

/-! # Ids and scopes of the host API

The id types of `ids.rs` and the scope of `resource.rs` that every subsystem attaches its
records to. An id is its text, or its UUID; the texts a validator accepts are described where
a result depends on them. -/

namespace Ironclaw

/-- A tenant. -/
structure TenantId where
  asStr : String
deriving DecidableEq

/-- A user of a tenant. -/
structure UserId where
  asStr : String
deriving DecidableEq

/-- An agent. -/
structure AgentId where
  asStr : String
deriving DecidableEq

/-- A project. -/
structure ProjectId where
  asStr : String
deriving DecidableEq

/-- A mission. -/
structure MissionId where
  asStr : String
deriving DecidableEq

/-- A thread. -/
structure ThreadId where
  asStr : String
deriving DecidableEq

/-- One invocation. -/
structure InvocationId where
  asUuid : BitVec 128
deriving DecidableEq

/-- The owner axes of a piece of work, with the invocation that carries it. -/
structure ResourceScope where
  tenantId : TenantId
  userId : UserId
  agentId : Option AgentId
  projectId : Option ProjectId
  missionId : Option MissionId
  threadId : Option ThreadId
  invocationId : InvocationId
deriving DecidableEq

/-- An instant, in nanoseconds. -/
abbrev Timestamp := ℤ

end Ironclaw
