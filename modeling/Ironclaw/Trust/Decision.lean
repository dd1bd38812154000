import Ironclaw.HostApi.Ceiling
import Ironclaw.HostApi.Trust

/-! # Trust decisions and trust changes

`decision.rs` and `invalidation.rs`: what a policy evaluation returns, when one authority ceiling
is a reduction of another, and the change that is published for it.

* `AuthorityCeiling.isReductionFrom_eq_false` says what the comparison of nested optional limits
  amounts to: no effect is lost, and the resource ceiling is no smaller in the order of
  `HostApi.Ceiling`.
* `TrustChange.new_isSome` is the condition for a change. -/

namespace Ironclaw.Trust

/-- The class a policy assigned, as opposed to one that was asked for. -/
structure EffectiveTrustClass where
  inner : TrustClass
deriving DecidableEq

namespace EffectiveTrustClass

def sandbox : EffectiveTrustClass := ⟨.sandbox⟩

end EffectiveTrustClass

/-- Where an effective class came from. -/
inductive TrustProvenance where
  | default
  | bundled
  | adminConfig
  | signedRegistry (signer : String)
  | localManifest

/-! ### Authority ceilings -/

/-- The most authority a grant may carry. -/
structure AuthorityCeiling where
  allowedEffects : List EffectKind
  maxResourceCeiling : Option ResourceCeiling

section

variable {α : Type} [LinearOrder α]

def limitReduced (previous current : Option α) : Bool :=
  match previous, current with
  | none, some _ => true
  | some previous, some current => current < previous
  | none, none => false
  | some _, none => false

theorem limitReduced_eq_false {previous current : Option α} :
    limitReduced previous current = false ↔ asLimit previous ≤ asLimit current := by
  cases previous with
  | none =>
    cases current with
    | none => simp only [limitReduced, le_refl]
    | some current => simp only [limitReduced, Bool.true_eq_false, asLimit_none_le_some]
  | some previous =>
    cases current with
    | none => simp only [limitReduced, asLimit_le_none]
    | some current =>
      simp only [limitReduced, decide_eq_false_iff_not, not_lt, asLimit_some_le_some]

end

def sandboxQuotaReduced (previous current : Option SandboxQuota) : Bool :=
  match previous, current with
  | none, some _ => true
  | none, none => false
  | some _, none => false
  | some previous, some current =>
    limitReduced previous.cpuTimeMs current.cpuTimeMs ||
      limitReduced previous.memoryBytes current.memoryBytes ||
      limitReduced previous.diskBytes current.diskBytes ||
      limitReduced previous.networkEgressBytes current.networkEgressBytes ||
      limitReduced previous.processCount current.processCount

def resourceCeilingReduced (previous current : Option ResourceCeiling) : Bool :=
  match previous, current with
  | none, some _ => true
  | none, none => false
  | some _, none => false
  | some previous, some current =>
    limitReduced previous.maxUsd current.maxUsd ||
      limitReduced previous.maxInputTokens current.maxInputTokens ||
      limitReduced previous.maxOutputTokens current.maxOutputTokens ||
      limitReduced previous.maxWallClockMs current.maxWallClockMs ||
      limitReduced previous.maxOutputBytes current.maxOutputBytes ||
      sandboxQuotaReduced previous.sandbox current.sandbox

theorem sandboxQuotaReduced_eq_false {previous current : Option SandboxQuota} :
    sandboxQuotaReduced previous current = false ↔ asLimit previous ≤ asLimit current := by
  cases previous with
  | none =>
    cases current with
    | none => simp only [sandboxQuotaReduced, le_refl]
    | some current => simp only [sandboxQuotaReduced, Bool.true_eq_false, asLimit_none_le_some]
  | some previous =>
    cases current with
    | none => simp only [sandboxQuotaReduced, asLimit_le_none]
    | some current =>
      simp only [sandboxQuotaReduced, Bool.or_eq_false_iff, limitReduced_eq_false, and_assoc,
        asLimit_some_le_some, SandboxQuota.le_iff]

theorem resourceCeilingReduced_eq_false {previous current : Option ResourceCeiling} :
    resourceCeilingReduced previous current = false ↔ asLimit previous ≤ asLimit current := by
  cases previous with
  | none =>
    cases current with
    | none => simp only [resourceCeilingReduced, le_refl]
    | some current =>
      simp only [resourceCeilingReduced, Bool.true_eq_false, asLimit_none_le_some]
  | some previous =>
    cases current with
    | none => simp only [resourceCeilingReduced, asLimit_le_none]
    | some current =>
      simp only [resourceCeilingReduced, Bool.or_eq_false_iff, limitReduced_eq_false,
        sandboxQuotaReduced_eq_false, and_assoc, asLimit_some_le_some, ResourceCeiling.le_iff]

namespace AuthorityCeiling

def empty : AuthorityCeiling := ⟨[], none⟩

/-- The ceiling is stricter than the previous one. -/
def isReductionFrom (ceiling previous : AuthorityCeiling) : Bool :=
  previous.allowedEffects.any (fun effect => !ceiling.allowedEffects.contains effect) ||
    resourceCeilingReduced previous.maxResourceCeiling ceiling.maxResourceCeiling

theorem isReductionFrom_eq_false {ceiling previous : AuthorityCeiling} :
    ceiling.isReductionFrom previous = false ↔
      (∀ effect ∈ previous.allowedEffects, effect ∈ ceiling.allowedEffects) ∧
        asLimit previous.maxResourceCeiling ≤ asLimit ceiling.maxResourceCeiling := by
  rw [isReductionFrom, Bool.or_eq_false_iff, resourceCeilingReduced_eq_false, List.any_eq_false]
  simp only [Bool.not_eq_true, Bool.not_eq_false', List.contains_iff_mem]

end AuthorityCeiling

/-! ### Decisions and changes -/

structure TrustDecision where
  effectiveTrust : EffectiveTrustClass
  authorityCeiling : AuthorityCeiling
  provenance : TrustProvenance
  evaluatedAt : Timestamp

/-- One change of trust or authority that invalidates grants. -/
structure TrustChange where
  identity : PackageIdentity
  previous : EffectiveTrustClass
  current : EffectiveTrustClass
  previousAuthorityCeiling : AuthorityCeiling
  currentAuthorityCeiling : AuthorityCeiling
  effectiveAt : Timestamp

namespace TrustChange

def new (identity : PackageIdentity) (previousDecision currentDecision : TrustDecision) :
    Option TrustChange :=
  let authorityCeilingReduced :=
    currentDecision.authorityCeiling.isReductionFrom previousDecision.authorityCeiling
  if previousDecision.effectiveTrust = currentDecision.effectiveTrust ∧
      authorityCeilingReduced = false then none
  else some
    { identity
      previous := previousDecision.effectiveTrust
      current := currentDecision.effectiveTrust
      previousAuthorityCeiling := previousDecision.authorityCeiling
      currentAuthorityCeiling := currentDecision.authorityCeiling
      effectiveAt := currentDecision.evaluatedAt }

def authorityCeilingReduced (change : TrustChange) : Bool :=
  change.currentAuthorityCeiling.isReductionFrom change.previousAuthorityCeiling

theorem new_isSome {identity : PackageIdentity} {previousDecision currentDecision : TrustDecision} :
    (new identity previousDecision currentDecision).isSome = true ↔
      previousDecision.effectiveTrust ≠ currentDecision.effectiveTrust ∨
        currentDecision.authorityCeiling.isReductionFrom previousDecision.authorityCeiling = true := by
  rw [new]
  split
  · rename_i h
    simp only [Option.isSome_none, h.1, h.2, ne_eq, not_true_eq_false, Bool.false_eq_true, or_self]
  · rename_i h
    rw [not_and_or, Bool.not_eq_false] at h
    simp only [Option.isSome_some, true_iff]
    exact h

theorem of_new {identity : PackageIdentity} {previousDecision currentDecision : TrustDecision}
    {change : TrustChange} (h : new identity previousDecision currentDecision = some change) :
    change.identity = identity ∧
      ¬ (change.previous = change.current ∧ change.authorityCeilingReduced = false) := by
  rw [new] at h
  split at h
  · exact nomatch h
  · rename_i hchanged
    cases h
    exact ⟨rfl, hchanged⟩

end TrustChange

end Ironclaw.Trust
