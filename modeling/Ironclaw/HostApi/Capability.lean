import Ironclaw.HostApi.Ceiling
import Ironclaw.HostApi.Mount
import Ironclaw.HostApi.Trust

/-! # Capabilities, grants and contexts

The declarations of `capability.rs`, `action.rs` and `scope.rs` that authorization reads: what a
capability needs, what a grant allows, and who asks. -/

namespace Ironclaw

open Resources (U64)

/-- An extension. -/
structure ExtensionId where
  asStr : String
deriving DecidableEq

/-- Parse an extension's name. -/
def ExtensionId.new (value : String) : Except HostApiError ExtensionId := do
  validateNameSegment "extension" value
  return ⟨value⟩

/-- The segments of a capability's name, one after the other. -/
def validateCapabilitySegments : List String → Except HostApiError Unit
  | [] => .ok ()
  | segment :: rest => do
    validateNameSegment "capability" segment
    validateCapabilitySegments rest

def CapabilityId.new (value : String) : Except HostApiError CapabilityId := do
  rejectIf (value = "" ∨ '.' ∉ value.toList)
    (.invalidId "capability" value "must be '<extension>.<capability>[.<sub>...]'")
  rejectIf ((Text.split value '.').length < 2 ∨ "" ∈ Text.split value '.')
    (.invalidId "capability" value "empty dot segments are not allowed")
  validateCapabilitySegments (Text.split value '.')
  return ⟨value⟩

/-- The name under which a secret is stored. -/
structure SecretHandle where
  asStr : String
deriving DecidableEq

/-- The vendor of an account. -/
structure VendorId where
  asStr : String

/-- A service of the host. -/
structure SystemServiceId where
  asStr : String

/-- A grant. -/
structure CapabilityGrantId where
  asUuid : BitVec 128

/-- What a capability runs in. -/
inductive RuntimeKind where
  | wasm | mcp | script | sandbox | firstParty | system
deriving DecidableEq

/-- Who grants, and who is granted to. -/
inductive Principal where
  | tenant (id : TenantId)
  | user (id : UserId)
  | agent (id : AgentId)
  | project (id : ProjectId)
  | mission (id : MissionId)
  | thread (id : ThreadId)
  | extension (id : ExtensionId)
  | hostRuntime
  | system (id : SystemServiceId)

/-- The schemes of requests. -/
inductive NetworkScheme where
  | http | https
deriving DecidableEq

/-- The targets that a policy speaks of. -/
structure NetworkTargetPattern where
  scheme : Option NetworkScheme
  hostPattern : String
  port : Option (BitVec 16)

/-- Where requests may go, and how much they may send. -/
structure NetworkPolicy where
  allowedTargets : List NetworkTargetPattern
  denyPrivateIpRanges : Bool
  maxEgressBytes : Option U64
  privateNetworkTargets : List NetworkTargetPattern

/-! ### What a capability needs -/

/-- How the account of a credential is set up. -/
inductive RuntimeCredentialAccountSetup where
  | manualToken
  | oauth (scopes : List String)
  | pairing
  | deviceLink
  | retired

/-- Where a credential comes from. -/
inductive RuntimeCredentialRequirementSource where
  | secretHandle
  | productAuthAccount (provider : VendorId) (setup : RuntimeCredentialAccountSetup)

/-- A credential that a capability needs. -/
structure RuntimeCredentialRequirement where
  handle : SecretHandle
  source : RuntimeCredentialRequirementSource
  providerScopes : List String
  required : Bool

/-- What a capability is and does. -/
structure CapabilityDescriptor where
  id : CapabilityId
  provider : ExtensionId
  runtime : RuntimeKind
  effects : List EffectKind
  runtimeCredentials : List RuntimeCredentialRequirement

/-! ### What a grant allows -/

/-- The bounds of a grant. -/
structure GrantConstraints where
  allowedEffects : List EffectKind
  mounts : MountView
  network : NetworkPolicy
  secrets : List SecretHandle
  resourceCeiling : Option ResourceCeiling
  expiresAt : Option Timestamp
  maxInvocations : Option U64

/-- A capability that is granted to a principal. -/
structure CapabilityGrant where
  id : CapabilityGrantId
  capability : CapabilityId
  grantee : Principal
  issuedBy : Principal
  constraints : GrantConstraints

/-! ### Who asks -/

/-- On whose behalf an invocation runs. -/
structure ExecutionContext where
  invocationId : InvocationId
  tenantId : TenantId
  userId : UserId
  agentId : Option AgentId
  projectId : Option ProjectId
  missionId : Option MissionId
  threadId : Option ThreadId
  extensionId : ExtensionId
  trust : TrustClass
  mounts : MountView
  resourceScope : ResourceScope

def ExecutionContext.validate (context : ExecutionContext) : Except HostApiError Unit := do
  rejectIf (context.resourceScope.invocationId ≠ context.invocationId) (.invariant
    "resource_scope.invocation_id must match execution context invocation_id")
  rejectIf (context.resourceScope.tenantId ≠ context.tenantId) (.invariant
    "resource_scope.tenant_id must match execution context tenant_id")
  rejectIf (context.resourceScope.userId ≠ context.userId) (.invariant
    "resource_scope.user_id must match execution context user_id")
  rejectIf (context.resourceScope.agentId ≠ context.agentId) (.invariant
    "resource_scope.agent_id must match execution context agent_id")
  rejectIf (context.resourceScope.projectId ≠ context.projectId) (.invariant
    "resource_scope.project_id must match execution context project_id")
  rejectIf (context.resourceScope.missionId ≠ context.missionId) (.invariant
    "resource_scope.mission_id must match execution context mission_id")
  rejectIf (context.resourceScope.threadId ≠ context.threadId) (.invariant
    "resource_scope.thread_id must match execution context thread_id")
  context.mounts.validate

end Ironclaw
