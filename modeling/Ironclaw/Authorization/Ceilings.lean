import Ironclaw.HostApi.Decision
import Ironclaw.Trust.Decision

/-! # Ceilings in authorization

The comparisons of `ironclaw_authorization/src/lib.rs` on nested optional limits: whether a grant
exceeds an authority ceiling, the intersection of two ceilings, and whether an estimate fits one.
They are written apart from those of the trust policy, and they are about the same order:

* `grantExceedsAuthorityCeiling_eq_false`, `resourceEstimateIsCovered_iff`: both are `≤`;
* `le_intersectResourceCeilings`: the intersection is the greatest lower bound. -/

namespace Ironclaw.Authorization

open Resources (U64 ResourceEstimate)
open Trust (AuthorityCeiling limitReduced sandboxQuotaReduced resourceCeilingReduced
  resourceCeilingReduced_eq_false)

/-! ### Exceeding a ceiling -/

/-- Every required effect is allowed. -/
def effectsAreCovered (required allowed : List EffectKind) : Bool :=
  required.all fun effect => allowed.contains effect

theorem effectsAreCovered_iff {required allowed : List EffectKind} :
    effectsAreCovered required allowed = true ↔ ∀ effect ∈ required, effect ∈ allowed := by
  simp only [effectsAreCovered, List.all_eq_true, List.contains_iff_mem]

section

variable {α : Type} [LinearOrder α]

/-- The limit of a grant goes beyond that of the authority. -/
def limitExceeds (grant authority : Option α) : Bool :=
  match grant, authority with
  | some grant, some authority => authority < grant
  | none, some _ => true
  | none, none => false
  | some _, none => false

theorem limitExceeds_eq (grant authority : Option α) :
    limitExceeds grant authority = limitReduced grant authority := by
  cases grant <;> cases authority <;> rfl

end

variable (grantQuota authorityQuota : Option SandboxQuota)

def sandboxQuotaExceedsAuthority : Bool :=
  match grantQuota, authorityQuota with
  | none, some _ => true
  | none, none => false
  | some _, none => false
  | some grant, some authority =>
    limitExceeds grant.cpuTimeMs authority.cpuTimeMs ||
      limitExceeds grant.memoryBytes authority.memoryBytes ||
      limitExceeds grant.diskBytes authority.diskBytes ||
      limitExceeds grant.networkEgressBytes authority.networkEgressBytes ||
      limitExceeds grant.processCount authority.processCount

variable (grantCeiling authorityCeiling : Option ResourceCeiling)

def resourceCeilingExceedsAuthority : Bool :=
  match grantCeiling, authorityCeiling with
  | none, some _ => true
  | none, none => false
  | some _, none => false
  | some grant, some authority =>
    limitExceeds grant.maxUsd authority.maxUsd ||
      limitExceeds grant.maxInputTokens authority.maxInputTokens ||
      limitExceeds grant.maxOutputTokens authority.maxOutputTokens ||
      limitExceeds grant.maxWallClockMs authority.maxWallClockMs ||
      limitExceeds grant.maxOutputBytes authority.maxOutputBytes ||
      sandboxQuotaExceedsAuthority grant.sandbox authority.sandbox

/-- The grant should be reissued or revoked under the ceiling. -/
def grantExceedsAuthorityCeiling (grant : CapabilityGrant) (authorityCeiling : AuthorityCeiling) :
    Bool :=
  !effectsAreCovered grant.constraints.allowedEffects authorityCeiling.allowedEffects ||
    resourceCeilingExceedsAuthority grant.constraints.resourceCeiling
      authorityCeiling.maxResourceCeiling

theorem sandboxQuotaExceedsAuthority_eq :
    sandboxQuotaExceedsAuthority grantQuota authorityQuota =
      sandboxQuotaReduced grantQuota authorityQuota := by
  cases grantQuota <;> cases authorityQuota <;>
    simp only [sandboxQuotaExceedsAuthority, sandboxQuotaReduced, limitExceeds_eq]

theorem resourceCeilingExceedsAuthority_eq :
    resourceCeilingExceedsAuthority grantCeiling authorityCeiling =
      resourceCeilingReduced grantCeiling authorityCeiling := by
  cases grantCeiling <;> cases authorityCeiling <;>
    simp only [resourceCeilingExceedsAuthority, resourceCeilingReduced, limitExceeds_eq,
      sandboxQuotaExceedsAuthority_eq]

theorem grantExceedsAuthorityCeiling_eq_false {grant : CapabilityGrant}
    {authorityCeiling : AuthorityCeiling} :
    grantExceedsAuthorityCeiling grant authorityCeiling = false ↔
      (∀ effect ∈ grant.constraints.allowedEffects, effect ∈ authorityCeiling.allowedEffects) ∧
        asLimit grant.constraints.resourceCeiling ≤ asLimit authorityCeiling.maxResourceCeiling := by
  rw [grantExceedsAuthorityCeiling, Bool.or_eq_false_iff, Bool.not_eq_false',
    effectsAreCovered_iff, resourceCeilingExceedsAuthority_eq, resourceCeilingReduced_eq_false]

/-! ### Intersection -/

/-- The greatest lower bound of two optional values, from that of two values. -/
theorem le_inter_iff {α : Type} [Preorder α] {inter : Option α → Option α → Option α}
    (hnone : inter none none = none) (hleft : ∀ a, inter (some a) none = some a)
    (hright : ∀ a, inter none (some a) = some a)
    (hboth : ∀ c a b, asLimit (some c) ≤ asLimit (inter (some a) (some b)) ↔ c ≤ a ∧ c ≤ b)
    (hsome : ∀ a b, (inter (some a) (some b)).isSome = true) {limit left right : Option α} :
    asLimit limit ≤ asLimit (inter left right) ↔
      asLimit limit ≤ asLimit left ∧ asLimit limit ≤ asLimit right := by
  cases left with
  | none =>
    cases right with
    | none =>
      rw [hnone]
      exact (and_self_iff).symm
    | some right =>
      rw [hright]
      exact (and_iff_right asLimit_le_none).symm
  | some left =>
    cases right with
    | none =>
      rw [hleft]
      exact (and_iff_left asLimit_le_none).symm
    | some right =>
      cases limit with
      | none =>
        obtain ⟨value, hvalue⟩ := Option.isSome_iff_exists.1 (hsome left right)
        rw [hvalue]
        exact ⟨fun h => absurd h asLimit_none_le_some,
          fun h => absurd h.1 asLimit_none_le_some⟩
      | some limit => rw [hboth, asLimit_some_le_some, asLimit_some_le_some]

section

variable {α : Type} [LinearOrder α]

/-- The smaller of two limits, where no limit is the largest. -/
def stricterLimit (left right : Option α) : Option α :=
  match left, right with
  | some left, some right => if right < left then some right else some left
  | some left, none => some left
  | none, some right => some right
  | none, none => none

theorem le_stricterLimit {limit left right : Option α} :
    asLimit limit ≤ asLimit (stricterLimit left right) ↔
      asLimit limit ≤ asLimit left ∧ asLimit limit ≤ asLimit right := by
  refine le_inter_iff rfl (fun _ => rfl) (fun _ => rfl) (fun c a b => ?_) (fun a b => ?_)
  · rw [stricterLimit]
    split
    · rename_i hlt
      rw [asLimit_some_le_some]
      exact ⟨fun h => ⟨h.trans hlt.le, h⟩, fun h => h.2⟩
    · rename_i hle
      rw [asLimit_some_le_some]
      exact ⟨fun h => ⟨h, h.trans (not_lt.1 hle)⟩, fun h => h.1⟩
  · rw [stricterLimit]
    split <;> rfl

end

/-- The stricter limits, axis by axis. -/
def intersectSandboxQuotas : Option SandboxQuota :=
  match grantQuota, authorityQuota with
  | none, none => none
  | some quota, none => some quota
  | none, some quota => some quota
  | some grant, some authority => some
      { cpuTimeMs := stricterLimit grant.cpuTimeMs authority.cpuTimeMs
        memoryBytes := stricterLimit grant.memoryBytes authority.memoryBytes
        diskBytes := stricterLimit grant.diskBytes authority.diskBytes
        networkEgressBytes := stricterLimit grant.networkEgressBytes authority.networkEgressBytes
        processCount := stricterLimit grant.processCount authority.processCount }

/-- The stricter limits, dimension by dimension. -/
def intersectResourceCeilings : Option ResourceCeiling :=
  match grantCeiling, authorityCeiling with
  | none, none => none
  | some ceiling, none => some ceiling
  | none, some ceiling => some ceiling
  | some grant, some authority => some
      { maxUsd := stricterLimit grant.maxUsd authority.maxUsd
        maxInputTokens := stricterLimit grant.maxInputTokens authority.maxInputTokens
        maxOutputTokens := stricterLimit grant.maxOutputTokens authority.maxOutputTokens
        maxWallClockMs := stricterLimit grant.maxWallClockMs authority.maxWallClockMs
        maxOutputBytes := stricterLimit grant.maxOutputBytes authority.maxOutputBytes
        sandbox := intersectSandboxQuotas grant.sandbox authority.sandbox }

theorem le_intersectSandboxQuotas {limit left right : Option SandboxQuota} :
    asLimit limit ≤ asLimit (intersectSandboxQuotas left right) ↔
      asLimit limit ≤ asLimit left ∧ asLimit limit ≤ asLimit right := by
  refine le_inter_iff rfl (fun _ => rfl) (fun _ => rfl) (fun c a b => ?_) (fun _ _ => rfl)
  rw [intersectSandboxQuotas, asLimit_some_le_some, SandboxQuota.le_iff, SandboxQuota.le_iff,
    SandboxQuota.le_iff]
  simp only [le_stricterLimit]
  tauto

theorem le_intersectResourceCeilings {limit left right : Option ResourceCeiling} :
    asLimit limit ≤ asLimit (intersectResourceCeilings left right) ↔
      asLimit limit ≤ asLimit left ∧ asLimit limit ≤ asLimit right := by
  refine le_inter_iff rfl (fun _ => rfl) (fun _ => rfl) (fun c a b => ?_) (fun _ _ => rfl)
  rw [intersectResourceCeilings, asLimit_some_le_some, ResourceCeiling.le_iff,
    ResourceCeiling.le_iff, ResourceCeiling.le_iff]
  simp only [le_stricterLimit, le_intersectSandboxQuotas]
  tauto

theorem intersectResourceCeilings_of_le {grantCeiling authorityCeiling : Option ResourceCeiling}
    (h : asLimit grantCeiling ≤ asLimit authorityCeiling) :
    intersectResourceCeilings grantCeiling authorityCeiling = grantCeiling := by
  have hle := (le_intersectResourceCeilings.1 (le_refl (asLimit
    (intersectResourceCeilings grantCeiling authorityCeiling)))).1
  have heq : asLimit (intersectResourceCeilings grantCeiling authorityCeiling) =
      asLimit grantCeiling := le_antisymm hle (le_intersectResourceCeilings.2 ⟨le_refl _, h⟩)
  exact heq

/-! ### Estimates -/

def optionsWithinCeiling {α : Type} [LinearOrder α] (estimate maximum : Option α) : Bool :=
  match estimate, maximum with
  | some estimate, some maximum => estimate ≤ maximum
  | none, some _ => false
  | _, _ => true

variable (estimate : ResourceEstimate)

/-- The estimate stays within the ceiling. -/
def resourceEstimateIsCovered (ceiling : Option ResourceCeiling) : Bool :=
  match ceiling with
  | none => true
  | some ceiling =>
    optionsWithinCeiling estimate.usd ceiling.maxUsd &&
      optionsWithinCeiling estimate.inputTokens ceiling.maxInputTokens &&
      optionsWithinCeiling estimate.outputTokens ceiling.maxOutputTokens &&
      optionsWithinCeiling estimate.wallClockMs ceiling.maxWallClockMs &&
      optionsWithinCeiling estimate.outputBytes ceiling.maxOutputBytes &&
      match ceiling.sandbox with
      | some sandbox =>
        optionsWithinCeiling estimate.networkEgressBytes sandbox.networkEgressBytes &&
          optionsWithinCeiling estimate.processCount sandbox.processCount
      | none => true

theorem optionsWithinCeiling_iff {α : Type} [LinearOrder α] {estimate maximum : Option α} :
    optionsWithinCeiling estimate maximum = true ↔ asLimit estimate ≤ asLimit maximum := by
  cases estimate with
  | none =>
    cases maximum with
    | none => simp only [optionsWithinCeiling, le_refl]
    | some maximum => simp only [optionsWithinCeiling, Bool.false_eq_true, asLimit_none_le_some]
  | some estimate =>
    cases maximum with
    | none => simp only [optionsWithinCeiling, asLimit_le_none]
    | some maximum => simp only [optionsWithinCeiling, decide_eq_true_eq, asLimit_some_le_some]

/-- The smallest ceiling that an estimate fits. What is not estimated may be anything; there is
no estimate of processor time, memory and disk. -/
def demand : ResourceCeiling where
  maxUsd := estimate.usd
  maxInputTokens := estimate.inputTokens
  maxOutputTokens := estimate.outputTokens
  maxWallClockMs := estimate.wallClockMs
  maxOutputBytes := estimate.outputBytes
  sandbox := some
    { cpuTimeMs := some .zero
      memoryBytes := some .zero
      diskBytes := some .zero
      networkEgressBytes := estimate.networkEgressBytes
      processCount := estimate.processCount }

theorem asLimit_zero_le {cap : ℕ} {limit : Option (Saturating cap)} :
    asLimit (some (Saturating.zero : Saturating cap)) ≤ asLimit limit := by
  cases limit with
  | none => exact asLimit_le_none
  | some limit => exact asLimit_some_le_some.2 (Nat.zero_le limit.val)

theorem resourceEstimateIsCovered_iff {estimate : ResourceEstimate}
    {ceiling : Option ResourceCeiling} :
    resourceEstimateIsCovered estimate ceiling = true ↔
      asLimit (some (demand estimate)) ≤ asLimit ceiling := by
  cases ceiling with
  | none => simp only [resourceEstimateIsCovered, asLimit_le_none]
  | some ceiling =>
    rw [resourceEstimateIsCovered, asLimit_some_le_some, ResourceCeiling.le_iff]
    cases hsandbox : ceiling.sandbox with
    | none =>
      simp only [Bool.and_eq_true, optionsWithinCeiling_iff, and_assoc, and_true, demand,
        asLimit_le_none]
    | some sandbox =>
      simp only [Bool.and_eq_true, optionsWithinCeiling_iff, and_assoc, demand,
        asLimit_some_le_some, SandboxQuota.le_iff, asLimit_zero_le, true_and]

/-- What an estimate says of a dimension; of some it says nothing. -/
def estimateOf : CeilingDimension → Option (Option ℤ)
  | .usd => some (estimate.usd.map Resources.Decimal.units)
  | .inputTokens => some (estimate.inputTokens.map fun amount => amount.val)
  | .outputTokens => some (estimate.outputTokens.map fun amount => amount.val)
  | .wallClockMs => some (estimate.wallClockMs.map fun amount => amount.val)
  | .outputBytes => some (estimate.outputBytes.map fun amount => amount.val)
  | .cpuTimeMs => none
  | .memoryBytes => none
  | .diskBytes => none
  | .networkEgressBytes => some (estimate.networkEgressBytes.map fun amount => amount.val)
  | .processCount => some (estimate.processCount.map fun amount => amount.val)

theorem limitOf_demand {estimate : ResourceEstimate} {dimension : CeilingDimension}
    {amount : Option ℤ} (h : estimateOf estimate dimension = some amount) :
    limitOf (some (demand estimate)) dimension = amount := by
  cases dimension <;> cases h <;> rfl

end Ironclaw.Authorization
