import Ironclaw.HostApi.Scope

/-! # Requested trust and package identities

The vocabulary of `trust.rs`, `capability.rs` and `runtime.rs` that the trust policy and the
authorizer share: what a package says about itself, the class the host assigns to it, and the
effects a capability may have. -/

namespace Ironclaw

/-- A package. -/
structure PackageId where
  asStr : String
deriving DecidableEq

/-- A capability. -/
structure CapabilityId where
  asStr : String
deriving DecidableEq

/-- What a capability may do to the world. -/
inductive EffectKind where
  | readFilesystem | writeFilesystem | deleteFilesystem | network | useSecret | executeCode
  | spawnProcess | dispatchCapability | modifyExtension | modifyApproval | modifyBudget
  | externalWrite | financial
deriving DecidableEq

/-- The classes of trust, by their rank. -/
inductive TrustClass where
  | sandbox | userTrusted | firstParty | system
deriving DecidableEq

/-- The class a manifest asks for. It is never authority. -/
inductive RequestedTrustClass where
  | untrusted | thirdParty | firstPartyRequested | systemRequested

/-- Where the definition of a package came from. -/
inductive PackageSource where
  | bundled
  | localManifest (path : String)
  | registry (url : String)
  | directRemote (endpoint : String)
  | admin
deriving DecidableEq

/-- A package, where it comes from and who signed it. -/
structure PackageIdentity where
  packageId : PackageId
  source : PackageSource
  digest : Option String
  signer : Option String
deriving DecidableEq

/-- What a trust decision is asked for. -/
structure TrustPolicyInput where
  identity : PackageIdentity
  requestedTrust : RequestedTrustClass
  requestedAuthority : Finset CapabilityId

end Ironclaw
