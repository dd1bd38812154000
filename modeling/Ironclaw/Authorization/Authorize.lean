import Ironclaw.Authorization.Ceilings

/-! # Authorization from grants

`authorize_from_grants_with_trust` and what it calls. The loop takes the first grant whose checks
all pass and whose obligations have a canonical form; a grant that fails a check is passed over,
and so is one whose obligations conflict.

The loop reads the clock for each grant it examines: a grant is paired with that reading.

* `authorize_eq_allow`: an allowed call has a grant that passes, and the obligations are its own.
* `exists_authorize_allow`: a call for which some grant passes is allowed. -/

namespace Ironclaw.Authorization

open Resources (U64 ResourceEstimate)
open Trust (AuthorityCeiling TrustDecision TrustChange)

/-! ### One grant -/

def descriptorRequiresMountPolicy (descriptor : CapabilityDescriptor) : Bool :=
  descriptor.effects.any fun effect =>
    effect = .readFilesystem || effect = .writeFilesystem || effect = .deleteFilesystem ||
      effect = .executeCode

def networkPolicyIsConstrained (policy : NetworkPolicy) : Bool :=
  !policy.allowedTargets.isEmpty || policy.denyPrivateIpRanges || policy.maxEgressBytes.isSome

/-- The grantee is on one of the axes of the context. -/
def principalMatchesContext (principal : Principal) (context : ExecutionContext) : Bool :=
  match principal with
  | .tenant id => id = context.tenantId
  | .user id => id = context.userId
  | .agent id => context.agentId = some id
  | .project id => context.projectId = some id
  | .mission id => context.missionId = some id
  | .thread id => context.threadId = some id
  | .extension id => id = context.extensionId
  | .hostRuntime => false
  | .system _ => false

/-- The grant has not expired and has an invocation left. -/
def grantIsActive (grant : CapabilityGrant) (now : Timestamp) : Bool :=
  let grantNotExpired :=
    match grant.constraints.expiresAt with
    | some expiresAt => now < expiresAt
    | none => true
  grantNotExpired && grant.constraints.maxInvocations ≠ some .zero

/-! ### Obligations -/

/-- The credentials of the descriptor that the grant lets be injected. -/
def credentialObligations (descriptor : CapabilityDescriptor) (grant : CapabilityGrant)
    (credential : RuntimeCredentialRequirement) : Option (List Obligation) :=
  match credential.source with
  | .secretHandle =>
    if credential.handle ∈ grant.constraints.secrets then
      some [.injectSecretOnce credential.handle]
    else if credential.required then none
    else some []
  | .productAuthAccount provider setup =>
    if credential.required then
      some [.injectCredentialAccountOnce credential.handle provider setup
        credential.providerScopes descriptor.provider]
    else some []

/-- The injections that a capability needs. -/
def secretObligations (descriptor : CapabilityDescriptor) (grant : CapabilityGrant) :
    Option (List Obligation) :=
  if descriptor.runtimeCredentials ≠ [] then
    if .useSecret ∈ descriptor.effects then do
      return (← descriptor.runtimeCredentials.mapM (credentialObligations descriptor grant)).flatten
    else none
  else if .useSecret ∈ descriptor.effects then
    if descriptor.runtime = .firstParty ∧ grant.constraints.secrets = [] then
      some [.firstPartyCredentialStagedViaHostPort descriptor.id]
    else match grant.constraints.secrets with
      | [handle] => some [.injectSecretOnce handle]
      | _ => none
  else some []

/-- What is enforced of the mounts and the network. -/
def accessObligations (descriptor : CapabilityDescriptor) (grant : CapabilityGrant) :
    List Obligation :=
  (if descriptorRequiresMountPolicy descriptor then [.useScopedMounts grant.constraints.mounts]
    else []) ++
  if .network ∈ descriptor.effects ∨ networkPolicyIsConstrained grant.constraints.network then
    [.applyNetworkPolicy grant.constraints.network]
  else []

/-- What an effective ceiling asks of the host. -/
def ceilingObligations (effectiveResourceCeiling : Option ResourceCeiling) : List Obligation :=
  match effectiveResourceCeiling with
  | none => []
  | some ceiling =>
    .enforceResourceCeiling ceiling ::
      (ceiling.maxOutputBytes.map Obligation.enforceOutputLimit).toList

/-- What the host has to do for a grant, if the grant allows it. -/
def obligationsForGrant (descriptor : CapabilityDescriptor) (grant : CapabilityGrant)
    (effectiveResourceCeiling : Option ResourceCeiling) : Option Obligations := do
  let secrets ← secretObligations descriptor grant
  (Obligations.new (accessObligations descriptor grant ++ secrets ++
    ceilingObligations effectiveResourceCeiling)).toOption

/-! ### The loop -/

/-- The checks of one grant that matches and is active. -/
def tryGrant (descriptor : CapabilityDescriptor) (estimate : ResourceEstimate)
    (authorityCeiling : Option AuthorityCeiling) (grant : CapabilityGrant) : Option Obligations :=
  let effectiveResourceCeiling := intersectResourceCeilings grant.constraints.resourceCeiling
    (authorityCeiling.bind AuthorityCeiling.maxResourceCeiling)
  let authorityEffectsAllowDescriptor :=
    match authorityCeiling with
    | some ceiling => effectsAreCovered descriptor.effects ceiling.allowedEffects
    | none => true
  if effectsAreCovered descriptor.effects grant.constraints.allowedEffects &&
      authorityEffectsAllowDescriptor &&
      resourceEstimateIsCovered estimate effectiveResourceCeiling then
    obligationsForGrant descriptor grant effectiveResourceCeiling
  else none

/-- The grants that the loop does not filter out. -/
def applies (context : ExecutionContext) (descriptor : CapabilityDescriptor)
    (examined : CapabilityGrant × Timestamp) : Bool :=
  examined.1.capability = descriptor.id && principalMatchesContext examined.1.grantee context &&
    grantIsActive examined.1 examined.2

/-- The first grant that applies and passes decides. -/
def authorizeFromGrantsWithAuthorityCeiling (context : ExecutionContext)
    (descriptor : CapabilityDescriptor) (estimate : ResourceEstimate)
    (grants : List (CapabilityGrant × Timestamp)) (authorityCeiling : Option AuthorityCeiling) :
    Decision :=
  match context.validate with
  | .error _ => .deny .internalInvariantViolation
  | .ok () =>
    let matching := grants.filter (applies context descriptor)
    match matching.findSome? fun examined =>
        tryGrant descriptor estimate authorityCeiling examined.1 with
    | some obligations => .allow obligations
    | none => if matching ≠ [] then .deny .policyDenied else .deny .missingGrant

/-- The decision without a ceiling. -/
def authorizeFromGrants (context : ExecutionContext) (descriptor : CapabilityDescriptor)
    (estimate : ResourceEstimate) (grants : List (CapabilityGrant × Timestamp)) : Decision :=
  authorizeFromGrantsWithAuthorityCeiling context descriptor estimate grants none

/-- The decision under the ceiling of a trust decision. -/
def authorizeFromGrantsWithTrust (context : ExecutionContext) (descriptor : CapabilityDescriptor)
    (estimate : ResourceEstimate) (grants : List (CapabilityGrant × Timestamp))
    (trustDecision : TrustDecision) : Decision :=
  match context.validate with
  | .error _ => .deny .internalInvariantViolation
  | .ok () =>
    if context.trust ≠ trustDecision.effectiveTrust.inner then .deny .policyDenied
    else authorizeFromGrantsWithAuthorityCeiling context descriptor estimate grants
      (some trustDecision.authorityCeiling)

/-! ### What one grant yields -/

def Injects (descriptor : CapabilityDescriptor) (credential : RuntimeCredentialRequirement)
    (obligations : List Obligation) : Prop :=
  match credential.source with
  | .secretHandle => .injectSecretOnce credential.handle ∈ obligations
  | .productAuthAccount provider setup =>
    .injectCredentialAccountOnce credential.handle provider setup credential.providerScopes
      descriptor.provider ∈ obligations

variable {descriptor : CapabilityDescriptor} {grant : CapabilityGrant} {credential : RuntimeCredentialRequirement}

theorem injects_of_credentialObligations
        {obligations : List Obligation}
    (h : credentialObligations descriptor grant credential = some obligations)
    (hrequired : credential.required = true) : Injects descriptor credential obligations := by
  rw [credentialObligations] at h
  rw [Injects]
  split
  · rename_i hsource
    rw [hsource] at h
    simp only [hrequired, if_true] at h
    split at h
    · cases h
      exact List.mem_singleton_self _
    · exact nomatch h
  · rename_i provider setup hsource
    rw [hsource] at h
    simp only [hrequired, if_true] at h
    cases h
    exact List.mem_singleton_self _

theorem injects_mono {obligations obligations' : List Obligation}
    (h : Injects descriptor credential obligations)
    (hsubset : ∀ obligation ∈ obligations, obligation ∈ obligations') :
    Injects descriptor credential obligations' := by
  rw [Injects] at h ⊢
  split <;> rename_i hsource <;> rw [hsource] at h <;> exact hsubset _ h

variable {secrets : List Obligation}

theorem injects_of_secretObligations (h : secretObligations descriptor grant = some secrets)
    (hcredential : credential ∈ descriptor.runtimeCredentials)
    (hrequired : credential.required = true) : Injects descriptor credential secrets := by
  rw [secretObligations, if_pos (List.ne_nil_of_mem hcredential)] at h
  split at h
  · simp only [Option.bind_eq_bind, Option.bind_eq_some_iff, Option.pure_def,
      Option.some.injEq] at h
    obtain ⟨slots, hslots, rfl⟩ := h
    obtain ⟨slot, hmem, hslot⟩ := exists_of_forall₂ (mapM_eq_some.1 hslots) hcredential
    exact injects_mono (injects_of_credentialObligations hslot hrequired)
      fun obligation hobligation => List.mem_flatten.2 ⟨slot, hmem, hobligation⟩
  · exact nomatch h

variable {obligations : Obligations}

theorem obligationsForGrant_eq_some {ceiling : Option ResourceCeiling} :
    obligationsForGrant descriptor grant ceiling = some obligations ↔
      ∃ secrets, secretObligations descriptor grant = some secrets ∧
        Obligations.new (accessObligations descriptor grant ++ secrets ++ ceilingObligations ceiling) =
          .ok obligations := by
  simp only [obligationsForGrant, Option.bind_eq_bind, Option.bind_eq_some_iff]
  refine exists_congr fun secrets => and_congr_right fun _ => ?_
  cases Obligations.new
    (accessObligations descriptor grant ++ secrets ++ ceilingObligations ceiling) with
  | error e => exact ⟨nofun, nofun⟩
  | ok normalized => exact ⟨fun h => congrArg _ (Option.some.inj h), fun h => congrArg _ (Except.ok.inj h)⟩

def NotOfCeiling (obligation : Obligation) : Prop :=
  obligation.kind ≠ .enforceResourceCeiling ∧ obligation.kind ≠ .enforceOutputLimit

variable {obligation : Obligation}

theorem notOfCeiling_of_access (h : obligation ∈ accessObligations descriptor grant) :
    NotOfCeiling obligation := by
  rw [accessObligations, List.mem_append] at h
  rcases h with h | h
  · split at h
    · rw [List.mem_singleton] at h
      subst h
      exact ⟨nofun, nofun⟩
    · exact absurd h List.not_mem_nil
  · split at h
    · rw [List.mem_singleton] at h
      subst h
      exact ⟨nofun, nofun⟩
    · exact absurd h List.not_mem_nil

theorem notOfCeiling_of_credential {slot : List Obligation}
    (h : credentialObligations descriptor grant credential = some slot)
    (hmem : obligation ∈ slot) : NotOfCeiling obligation := by
  rw [credentialObligations] at h
  split at h
  · split at h
    · cases h
      rw [List.mem_singleton] at hmem
      subst hmem
      exact ⟨nofun, nofun⟩
    · split at h
      · exact nomatch h
      · cases h
        exact absurd hmem List.not_mem_nil
  · split at h
    · cases h
      rw [List.mem_singleton] at hmem
      subst hmem
      exact ⟨nofun, nofun⟩
    · cases h
      exact absurd hmem List.not_mem_nil

theorem notOfCeiling_of_secret (h : secretObligations descriptor grant = some secrets)
    (hmem : obligation ∈ secrets) : NotOfCeiling obligation := by
  rw [secretObligations] at h
  split at h
  · split at h
    · simp only [Option.bind_eq_bind, Option.bind_eq_some_iff, Option.pure_def,
        Option.some.injEq] at h
      obtain ⟨slots, hslots, rfl⟩ := h
      obtain ⟨slot, hslot, hobligation⟩ := List.mem_flatten.1 hmem
      obtain ⟨credential, -, hcredential⟩ :=
        exists_of_forall₂ (mapM_eq_some.1 hslots).flip hslot
      exact notOfCeiling_of_credential hcredential hobligation
    · exact nomatch h
  · split at h
    · split at h
      · cases h
        rw [List.mem_singleton] at hmem
        subst hmem
        exact ⟨nofun, nofun⟩
      · split at h
        · cases h
          rw [List.mem_singleton] at hmem
          subst hmem
          exact ⟨nofun, nofun⟩
        · exact nomatch h
    · cases h
      exact absurd hmem List.not_mem_nil

theorem ofKind_append (kind : ObligationKind) (left right : List Obligation) :
    ofKind kind (left ++ right) = ofKind kind left ++ ofKind kind right := List.filter_append ..

theorem ofKind_eq_nil {kind : ObligationKind} {obligations : List Obligation}
    (h : ∀ obligation ∈ obligations, obligation.kind ≠ kind) : ofKind kind obligations = [] := by
  rw [ofKind, List.filter_eq_nil_iff]
  intro obligation hmem
  rw [decide_eq_true_eq]
  exact h obligation hmem

theorem mem_ceilingObligations {effective : Option ResourceCeiling} :
    obligation ∈ ceilingObligations effective ↔ ∃ ceiling, effective = some ceiling ∧
      (obligation = .enforceResourceCeiling ceiling ∨
        ∃ bytes, ceiling.maxOutputBytes = some bytes ∧ obligation = .enforceOutputLimit bytes) := by
  cases effective with
  | none => simp [ceilingObligations]
  | some ceiling => simp [ceilingObligations, eq_comm]

/-- The obligations of a ceiling conflict with nothing. -/
theorem compatible_append_ceiling {base : List Obligation}
    (hbase : ∀ obligation ∈ base, NotOfCeiling obligation) (ceiling : Option ResourceCeiling) :
    (∀ kind, Compatible kind (ofKind kind (base ++ ceilingObligations ceiling))) ↔
      ∀ kind, Compatible kind (ofKind kind base) := by
  refine forall_congr' fun kind => ?_
  rw [ofKind_append]
  by_cases hceiling : kind = .enforceResourceCeiling ∨ kind = .enforceOutputLimit
  · have hnone : ofKind kind base = [] := ofKind_eq_nil fun obligation hmem heq => by
      rcases hceiling with rfl | rfl
      · exact (hbase obligation hmem).1 heq
      · exact (hbase obligation hmem).2 heq
    have hempty : Compatible kind [] := by
      rcases hceiling with rfl | rfl <;> exact Nat.zero_le 1
    rw [hnone, List.nil_append]
    refine ⟨fun _ => hempty, fun _ => ?_⟩
    cases ceiling with
    | none => exact hempty
    | some ceiling =>
      rw [ceilingObligations]
      rcases hceiling with rfl | rfl <;> cases ceiling.maxOutputBytes <;>
        simp [ofKind, Compatible, ObligationKind.isMultiInject, Obligation.kind]
  · rw [not_or] at hceiling
    have hnone : ofKind kind (ceilingObligations ceiling) = [] := by
      refine ofKind_eq_nil fun obligation hmem heq => ?_
      obtain ⟨_, -, rfl | ⟨bytes, -, rfl⟩⟩ := mem_ceilingObligations.1 hmem
      · exact hceiling.1 heq.symm
      · exact hceiling.2 heq.symm
    rw [hnone, List.append_nil]

theorem notOfCeiling_of_base (h : secretObligations descriptor grant = some secrets) :
    ∀ obligation ∈ accessObligations descriptor grant ++ secrets, NotOfCeiling obligation := by
  intro obligation hmem
  rcases List.mem_append.1 hmem with haccess | hsecret
  · exact notOfCeiling_of_access haccess
  · exact notOfCeiling_of_secret h hsecret

/-- Whether a grant has obligations does not depend on the ceiling. -/
theorem exists_obligationsForGrant {ceiling : Option ResourceCeiling}
    (h : obligationsForGrant descriptor grant ceiling = some obligations)
    (ceiling' : Option ResourceCeiling) :
    ∃ obligations', obligationsForGrant descriptor grant ceiling' = some obligations' := by
  obtain ⟨secrets, hsecrets, hnew⟩ := obligationsForGrant_eq_some.1 h
  have hbase := notOfCeiling_of_base hsecrets
  have hcompatible := (compatible_append_ceiling hbase ceiling).1
    (Obligations.exists_new.1 ⟨obligations, hnew⟩)
  obtain ⟨obligations', hnew'⟩ := Obligations.exists_new.2
    ((compatible_append_ceiling hbase ceiling').2 hcompatible)
  exact ⟨obligations', obligationsForGrant_eq_some.2 ⟨secrets, hsecrets, hnew'⟩⟩

theorem enforceResourceCeiling_mem {effective : Option ResourceCeiling}
    (h : obligationsForGrant descriptor grant effective = some obligations)
    (ceiling : ResourceCeiling) :
    .enforceResourceCeiling ceiling ∈ obligations.asSlice ↔ effective = some ceiling := by
  obtain ⟨secrets, hsecrets, hnew⟩ := obligationsForGrant_eq_some.1 h
  rw [Obligations.mem_asSlice hnew, List.mem_append]
  have hbase := notOfCeiling_of_base hsecrets
  constructor
  · rintro (hmem | hmem)
    · exact absurd rfl (hbase _ hmem).1
    · obtain ⟨effective, rfl, heq | ⟨bytes, -, heq⟩⟩ := mem_ceilingObligations.1 hmem
      · rw [Obligation.enforceResourceCeiling.inj heq]
      · exact nomatch heq
  · rintro rfl
    exact .inr (mem_ceilingObligations.2 ⟨ceiling, rfl, .inl rfl⟩)

/-! ### What the loop finds -/

variable {estimate : ResourceEstimate} {authorityCeiling : Option AuthorityCeiling}

theorem tryGrant_eq_some :
    tryGrant descriptor estimate authorityCeiling grant = some obligations ↔
      (∀ effect ∈ descriptor.effects, effect ∈ grant.constraints.allowedEffects) ∧
        (∀ ceiling, authorityCeiling = some ceiling →
          ∀ effect ∈ descriptor.effects, effect ∈ ceiling.allowedEffects) ∧
        asLimit (some (demand estimate)) ≤ asLimit (intersectResourceCeilings
          grant.constraints.resourceCeiling
          (authorityCeiling.bind AuthorityCeiling.maxResourceCeiling)) ∧
        obligationsForGrant descriptor grant (intersectResourceCeilings
          grant.constraints.resourceCeiling
          (authorityCeiling.bind AuthorityCeiling.maxResourceCeiling)) = some obligations := by
  simp only [tryGrant, Option.ite_none_right_eq_some, Bool.and_eq_true, effectsAreCovered_iff,
    resourceEstimateIsCovered_iff, and_assoc]
  refine and_congr_right fun _ => and_congr_left fun _ => ?_
  cases authorityCeiling with
  | none => simp
  | some ceiling => simp [effectsAreCovered_iff]

variable {grants : List (CapabilityGrant × Timestamp)} {context : ExecutionContext}

theorem authorize_eq_allow
    (h : authorizeFromGrantsWithAuthorityCeiling context descriptor estimate grants
      authorityCeiling = .allow obligations) :
    context.validate = .ok () ∧ ∃ examined ∈ grants, applies context descriptor examined = true ∧
      tryGrant descriptor estimate authorityCeiling examined.1 = some obligations := by
  rw [authorizeFromGrantsWithAuthorityCeiling] at h
  split at h
  · exact nomatch h
  · rename_i hvalid
    refine ⟨hvalid, ?_⟩
    dsimp only at h
    split at h
    · rename_i found hfound
      cases h
      obtain ⟨examined, hmem, htry⟩ := List.exists_of_findSome?_eq_some hfound
      obtain ⟨hgrant, happlies⟩ := List.mem_filter.1 hmem
      exact ⟨examined, hgrant, happlies, htry⟩
    · split at h <;> exact nomatch h

theorem exists_authorize_allow
        {examined : CapabilityGrant × Timestamp}
    (hvalid : context.validate = .ok ()) (hgrant : examined ∈ grants)
    (happlies : applies context descriptor examined = true)
    (htry : tryGrant descriptor estimate authorityCeiling examined.1 = some obligations) :
    ∃ obligations', authorizeFromGrantsWithAuthorityCeiling context descriptor estimate grants
      authorityCeiling = .allow obligations' := by
  rw [authorizeFromGrantsWithAuthorityCeiling, hvalid]
  dsimp only
  split
  · exact ⟨_, rfl⟩
  · rename_i hnone
    rw [List.findSome?_eq_none_iff] at hnone
    have := hnone examined (List.mem_filter.2 ⟨hgrant, happlies⟩)
    rw [htry] at this
    exact nomatch this

theorem authorizeWithTrust_eq_allow
        {trustDecision : TrustDecision} :
    authorizeFromGrantsWithTrust context descriptor estimate grants trustDecision =
        .allow obligations ↔
      context.trust = trustDecision.effectiveTrust.inner ∧
        authorizeFromGrantsWithAuthorityCeiling context descriptor estimate grants
          (some trustDecision.authorityCeiling) = .allow obligations := by
  rw [authorizeFromGrantsWithTrust]
  cases hvalid : context.validate with
  | error e =>
    refine ⟨nofun, fun h => ?_⟩
    rw [(authorize_eq_allow h.2).1] at hvalid
    exact nomatch hvalid
  | ok u =>
    dsimp only
    split
    · rename_i hne
      exact ⟨nofun, fun h => absurd h.1 hne⟩
    · rename_i heq
      exact ⟨fun h => ⟨not_not.1 heq, h⟩, fun h => h.2⟩

/-! ### Exact invalidation -/

/-- A grant within a ceiling is checked as if there were none. -/
theorem tryGrant_of_not_exceeds {ceiling : AuthorityCeiling}
    (h : grantExceedsAuthorityCeiling grant ceiling = false) :
    tryGrant descriptor estimate (some ceiling) grant = tryGrant descriptor estimate none grant := by
  obtain ⟨heffects, hlimits⟩ := grantExceedsAuthorityCeiling_eq_false.1 h
  refine Option.ext fun obligations => ?_
  rw [tryGrant_eq_some, tryGrant_eq_some]
  have hsame : intersectResourceCeilings grant.constraints.resourceCeiling
      ((some ceiling).bind AuthorityCeiling.maxResourceCeiling) =
        intersectResourceCeilings grant.constraints.resourceCeiling
          ((none : Option AuthorityCeiling).bind AuthorityCeiling.maxResourceCeiling) :=
    (intersectResourceCeilings_of_le hlimits).trans (intersectResourceCeilings_of_le asLimit_le_none).symm
  rw [hsame]
  refine and_congr_right fun hcovered => and_congr_left fun _ => ⟨fun _ other hnone => ?_, fun _ => ?_⟩
  · exact absurd hnone.symm (Option.some_ne_none other)
  · rintro _ ⟨rfl⟩ effect heffect
    exact heffects effect (hcovered effect heffect)

/-- The grant that carries all the authority of a ceiling. -/
def fullGrant (ceiling : AuthorityCeiling) : CapabilityGrant where
  id := ⟨0⟩
  capability := ⟨"demo.run"⟩
  grantee := .hostRuntime
  issuedBy := .hostRuntime
  constraints :=
    { allowedEffects := ceiling.allowedEffects
      mounts := ⟨[]⟩
      network := ⟨[], true, none, []⟩
      secrets := []
      resourceCeiling := ceiling.maxResourceCeiling
      expiresAt := none
      maxInvocations := none }

/-- A change is published exactly when some grant within the previous ceiling exceeds the current
one, and grants within a ceiling are authorized as if there were none. -/
theorem invalidation_exact_for_grants :
    (∀ (identity : PackageIdentity) (previous current : TrustDecision),
      previous.effectiveTrust = current.effectiveTrust →
      ((TrustChange.new identity previous current).isSome = true ↔
        ∃ grant, grantExceedsAuthorityCeiling grant previous.authorityCeiling = false ∧
          grantExceedsAuthorityCeiling grant current.authorityCeiling = true)) ∧
    ∀ (context : ExecutionContext) (descriptor : CapabilityDescriptor) (estimate : ResourceEstimate)
      (grants : List (CapabilityGrant × Timestamp)) (ceiling : AuthorityCeiling),
      (∀ examined ∈ grants, grantExceedsAuthorityCeiling examined.1 ceiling = false) →
      authorizeFromGrantsWithAuthorityCeiling context descriptor estimate grants (some ceiling) =
        authorizeFromGrants context descriptor estimate grants := by
  refine ⟨fun identity previous current hclass => ?_, ?_⟩
  · rw [TrustChange.new_isSome, or_iff_right (not_not.2 hclass)]
    constructor
    · intro hreduced
      refine ⟨fullGrant previous.authorityCeiling, ?_, ?_⟩
      · rw [grantExceedsAuthorityCeiling_eq_false]
        exact ⟨fun _ h => h, le_refl (asLimit previous.authorityCeiling.maxResourceCeiling)⟩
      · rw [← Bool.not_eq_false, grantExceedsAuthorityCeiling_eq_false]
        rw [← Bool.not_eq_false, AuthorityCeiling.isReductionFrom_eq_false] at hreduced
        exact hreduced
    · rintro ⟨grant, hwithin, hexceeds⟩
      rw [← Bool.not_eq_false, grantExceedsAuthorityCeiling_eq_false] at hexceeds
      rw [← Bool.not_eq_false, AuthorityCeiling.isReductionFrom_eq_false]
      obtain ⟨heffects, hlimits⟩ := grantExceedsAuthorityCeiling_eq_false.1 hwithin
      rintro ⟨hkept, hle⟩
      exact hexceeds ⟨fun effect heffect => hkept effect (heffects effect heffect),
        hlimits.trans hle⟩
  · intro context descriptor estimate grants ceiling hwithin
    rw [authorizeFromGrants, authorizeFromGrantsWithAuthorityCeiling,
      authorizeFromGrantsWithAuthorityCeiling]
    have hfind : ((grants.filter (applies context descriptor)).findSome? fun examined =>
        tryGrant descriptor estimate (some ceiling) examined.1) =
          (grants.filter (applies context descriptor)).findSome? fun examined =>
            tryGrant descriptor estimate none examined.1 := by
      rw [← List.head?_filterMap, ← List.head?_filterMap]
      congr 1
      refine List.filterMap_congr fun examined hmem => ?_
      exact tryGrant_of_not_exceeds (hwithin examined (List.mem_filter.1 hmem).1)
    simp only [hfind]

/-- Under the full ceiling a grant loses nothing; without the effect it is invalidated. -/
theorem lost_effect_invalidates :
    (TrustChange.new ⟨⟨"alpha"⟩, .bundled, none, none⟩
        ⟨⟨.userTrusted⟩, ⟨[.network], none⟩, .bundled, 0⟩
        ⟨⟨.userTrusted⟩, ⟨[], none⟩, .bundled, 1⟩).isSome = true ∧
      ∀ context descriptor estimate,
        authorizeFromGrantsWithAuthorityCeiling context descriptor estimate
            [(fullGrant ⟨[.network], none⟩, 0)] (some ⟨[.network], none⟩) =
          authorizeFromGrants context descriptor estimate
            [(fullGrant ⟨[.network], none⟩, 0)] := by
  refine ⟨(invalidation_exact_for_grants.1 _ _ _ ?_).2 ⟨fullGrant ⟨[.network], none⟩, rfl, rfl⟩,
    fun context descriptor estimate =>
      invalidation_exact_for_grants.2 context descriptor estimate _ _ fun examined hmem => ?_⟩
  · rfl
  · rw [List.mem_singleton.1 hmem]
    rfl

/-! ### Soundness and monotonicity -/

/-- Why a call is allowed: the grant and the trust ceiling cover it, and the obligations enforce
both. -/
structure Justifies (context : ExecutionContext) (descriptor : CapabilityDescriptor)
    (estimate : ResourceEstimate) (ceiling : AuthorityCeiling) (obligations : Obligations)
    (examined : CapabilityGrant × Timestamp) : Prop where
  capability : examined.1.capability = descriptor.id
  principal : principalMatchesContext examined.1.grantee context = true
  active : grantIsActive examined.1 examined.2 = true
  grant_effects : ∀ effect ∈ descriptor.effects, effect ∈ examined.1.constraints.allowedEffects
  trust_effects : ∀ effect ∈ descriptor.effects, effect ∈ ceiling.allowedEffects
  /-- The ceiling that is enforced limits what either of the two limits, and the estimate fits. -/
  enforced : ∃ enforced : Option ResourceCeiling,
    (∀ limit, .enforceResourceCeiling limit ∈ obligations.asSlice ↔ enforced = some limit) ∧
    (∀ dimension v,
      limitOf examined.1.constraints.resourceCeiling dimension = some v ∨
        limitOf ceiling.maxResourceCeiling dimension = some v →
      ∃ w, limitOf enforced dimension = some w ∧ w ≤ v) ∧
    ∀ dimension w amount, limitOf enforced dimension = some w →
      estimateOf estimate dimension = some amount → ∃ e, amount = some e ∧ e ≤ w
  credentials : ∀ credential ∈ descriptor.runtimeCredentials, credential.required = true →
    Injects descriptor credential obligations.asSlice

theorem justifies_of_tryGrant {ceiling : AuthorityCeiling} {examined : CapabilityGrant × Timestamp}
    (happlies : applies context descriptor examined = true)
    (htry : tryGrant descriptor estimate (some ceiling) examined.1 = some obligations) :
    Justifies context descriptor estimate ceiling obligations examined := by
  obtain ⟨hgrant, htrust, hfits, hobligations⟩ := tryGrant_eq_some.1 htry
  rw [applies, Bool.and_eq_true, Bool.and_eq_true, decide_eq_true_eq] at happlies
  obtain ⟨hbelowGrant, hbelowTrust⟩ := le_intersectResourceCeilings.1 (le_refl (asLimit
    (intersectResourceCeilings examined.1.constraints.resourceCeiling ceiling.maxResourceCeiling)))
  refine ⟨happlies.1.1, happlies.1.2, happlies.2, hgrant, htrust ceiling rfl,
    ⟨_, enforceResourceCeiling_mem hobligations, ?_, ?_⟩, ?_⟩
  · rintro dimension v (hlimit | hlimit)
    · exact limitOf_le hbelowGrant hlimit
    · exact limitOf_le hbelowTrust hlimit
  · intro dimension w amount hlimit hamount
    obtain ⟨e, he, hle⟩ := limitOf_le hfits hlimit
    exact ⟨e, (limitOf_demand hamount).symm.trans he, hle⟩
  · intro credential hcredential hrequired
    obtain ⟨secrets, hsecrets, hnew⟩ := obligationsForGrant_eq_some.1 hobligations
    refine injects_mono (injects_of_secretObligations hsecrets hcredential hrequired) ?_
    intro obligation hmem
    rw [Obligations.mem_asSlice hnew]
    exact List.mem_append_left _ (List.mem_append_right _ hmem)

/-- A grant that passes under a ceiling passes under every ceiling that is no reduction of it. -/
theorem exists_tryGrant_of_not_reduction {ceiling ceiling' : AuthorityCeiling}
    (htry : tryGrant descriptor estimate (some ceiling) grant = some obligations)
    (hwider : ceiling'.isReductionFrom ceiling = false) :
    ∃ obligations', tryGrant descriptor estimate (some ceiling') grant = some obligations' := by
  obtain ⟨hgrant, htrust, hfits, hobligations⟩ := tryGrant_eq_some.1 htry
  obtain ⟨heffects, hlimits⟩ := AuthorityCeiling.isReductionFrom_eq_false.1 hwider
  obtain ⟨hfitsGrant, hfitsTrust⟩ := le_intersectResourceCeilings.1 hfits
  obtain ⟨obligations', hobligations'⟩ := exists_obligationsForGrant hobligations
    (intersectResourceCeilings grant.constraints.resourceCeiling ceiling'.maxResourceCeiling)
  refine ⟨obligations', tryGrant_eq_some.2 ⟨hgrant, ?_, ?_, hobligations'⟩⟩
  · rintro _ ⟨rfl⟩ effect heffect
    exact heffects effect (htrust ceiling rfl effect heffect)
  · exact le_intersectResourceCeilings.2 ⟨hfitsGrant, hfitsTrust.trans hlimits⟩

/-- An allowed call is covered by a grant and by the trust ceiling, both of which its obligations
enforce; it stays allowed with more grants and under a ceiling that is no reduction. -/
theorem authorization_sound_and_monotone {context : ExecutionContext}
    {descriptor : CapabilityDescriptor} {estimate : ResourceEstimate}
    {grants : List (CapabilityGrant × Timestamp)} {trustDecision : TrustDecision}
    {obligations : Obligations}
    (h : authorizeFromGrantsWithTrust context descriptor estimate grants trustDecision =
      .allow obligations) :
    (∃ examined ∈ grants, Justifies context descriptor estimate trustDecision.authorityCeiling
      obligations examined) ∧
    (∀ grants', grants ⊆ grants' → ∃ obligations',
      authorizeFromGrantsWithTrust context descriptor estimate grants' trustDecision =
        .allow obligations') ∧
    ∀ ceiling, ceiling.isReductionFrom trustDecision.authorityCeiling = false → ∃ obligations',
      authorizeFromGrantsWithTrust context descriptor estimate grants
        { trustDecision with authorityCeiling := ceiling } = .allow obligations' := by
  obtain ⟨hclass, hallow⟩ := authorizeWithTrust_eq_allow.1 h
  obtain ⟨hvalid, examined, hgrant, happlies, htry⟩ := authorize_eq_allow hallow
  refine ⟨⟨examined, hgrant, justifies_of_tryGrant happlies htry⟩, ?_, ?_⟩
  · intro grants' hsubset
    obtain ⟨obligations', hallow'⟩ :=
      exists_authorize_allow hvalid (hsubset hgrant) happlies htry
    exact ⟨obligations', authorizeWithTrust_eq_allow.2 ⟨hclass, hallow'⟩⟩
  · intro ceiling hwider
    obtain ⟨obligations', htry'⟩ := exists_tryGrant_of_not_reduction htry hwider
    obtain ⟨obligations'', hallow'⟩ := exists_authorize_allow hvalid hgrant happlies htry'
    exact ⟨obligations'', authorizeWithTrust_eq_allow.2 ⟨hclass, hallow'⟩⟩

def networkCall : CapabilityDescriptor where
  id := ⟨"demo.fetch"⟩
  provider := ⟨"demo"⟩
  runtime := .wasm
  effects := [.network, .useSecret]
  runtimeCredentials := [⟨⟨"demo_token"⟩, .secretHandle, [], true⟩]

def networkGrant : CapabilityGrant where
  id := ⟨1⟩
  capability := ⟨"demo.fetch"⟩
  grantee := .extension ⟨"demo"⟩
  issuedBy := .hostRuntime
  constraints :=
    { allowedEffects := [.useSecret, .network]
      mounts := ⟨[]⟩
      network := ⟨[], true, none, []⟩
      secrets := [⟨"demo_token"⟩]
      resourceCeiling := some ⟨none, some ⟨100, by decide⟩, none, none, none, none⟩
      expiresAt := some 10
      maxInvocations := none }

def demoContext : ExecutionContext where
  invocationId := ⟨7⟩
  tenantId := ⟨"acme"⟩
  userId := ⟨"ada"⟩
  agentId := none
  projectId := none
  missionId := none
  threadId := none
  extensionId := ⟨"demo"⟩
  trust := .userTrusted
  mounts := ⟨[]⟩
  resourceScope := ⟨⟨"acme"⟩, ⟨"ada"⟩, none, none, none, none, ⟨7⟩⟩

def demoEstimate : ResourceEstimate :=
  ⟨none, some ⟨40, by decide⟩, none, none, none, none, none, none⟩

def demoTrust : TrustDecision where
  effectiveTrust := ⟨.userTrusted⟩
  authorityCeiling := ⟨[.network, .useSecret],
    some ⟨none, some ⟨60, by decide⟩, none, none, none, none⟩⟩
  provenance := .adminConfig
  evaluatedAt := 0

/-- A call with a secret, under a grant and a trust ceiling that limit the same dimension. -/
theorem network_call_allowed : ∃ obligations,
    authorizeFromGrantsWithTrust demoContext networkCall demoEstimate [(networkGrant, 0)]
        demoTrust = .allow obligations ∧
      Justifies demoContext networkCall demoEstimate demoTrust.authorityCeiling obligations
        (networkGrant, 0) := by
  obtain ⟨obligations, hallow⟩ : ∃ obligations, authorizeFromGrantsWithTrust demoContext networkCall
      demoEstimate [(networkGrant, 0)] demoTrust = .allow obligations := ⟨_, rfl⟩
  obtain ⟨⟨examined, hmem, hjustified⟩, -⟩ := authorization_sound_and_monotone hallow
  rw [List.mem_singleton.1 hmem] at hjustified
  exact ⟨obligations, hallow, hjustified⟩

end Ironclaw.Authorization
