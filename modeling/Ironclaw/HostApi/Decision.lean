import Ironclaw.HostApi.Capability

/-! # Obligations of an allowed action

`decision.rs`. An allowed action carries obligations in one canonical order, with at most one of
each kind; secrets and accounts may be injected several times, under different handles.
`Obligations.new` sorts a list into this form or rejects it.

* `Obligations.new_eq_ok`: the lists that are accepted, and that nothing is lost or added.
* `Obligations.mem_asSlice` is that for one obligation. -/

namespace Ironclaw

open Resources (U64)

/-- A reservation. -/
structure ResourceReservationId where
  asUuid : BitVec 128

/-- What the host has to do around an invocation. -/
inductive Obligation where
  | auditBefore
  | auditAfter
  | redactOutput
  | reserveResources (reservationId : ResourceReservationId)
  | useScopedMounts (mounts : MountView)
  | injectSecretOnce (handle : SecretHandle)
  | injectCredentialAccountOnce (handle : SecretHandle) (provider : VendorId)
      (setup : RuntimeCredentialAccountSetup) (providerScopes : List String)
      (requesterExtension : ExtensionId)
  | firstPartyCredentialStagedViaHostPort (capabilityId : CapabilityId)
  | applyNetworkPolicy (policy : NetworkPolicy)
  | enforceResourceCeiling (ceiling : ResourceCeiling)
  | enforceOutputLimit (bytes : U64)

/-- The kinds of obligations. -/
inductive ObligationKind where
  | reserveResources | useScopedMounts | applyNetworkPolicy | injectSecretOnce
  | injectCredentialAccountOnce | firstPartyCredentialStagedViaHostPort | auditBefore
  | redactOutput | enforceResourceCeiling | enforceOutputLimit | auditAfter
deriving DecidableEq

def Obligation.kind : Obligation → ObligationKind
  | auditBefore => .auditBefore
  | auditAfter => .auditAfter
  | redactOutput => .redactOutput
  | reserveResources _ => .reserveResources
  | useScopedMounts _ => .useScopedMounts
  | injectSecretOnce _ => .injectSecretOnce
  | injectCredentialAccountOnce _ _ _ _ _ => .injectCredentialAccountOnce
  | firstPartyCredentialStagedViaHostPort _ => .firstPartyCredentialStagedViaHostPort
  | applyNetworkPolicy _ => .applyNetworkPolicy
  | enforceResourceCeiling _ => .enforceResourceCeiling
  | enforceOutputLimit _ => .enforceOutputLimit

namespace ObligationKind

/-- The name that an error message shows. -/
def debug : ObligationKind → String
  | reserveResources => "ReserveResources"
  | useScopedMounts => "UseScopedMounts"
  | applyNetworkPolicy => "ApplyNetworkPolicy"
  | injectSecretOnce => "InjectSecretOnce"
  | injectCredentialAccountOnce => "InjectCredentialAccountOnce"
  | firstPartyCredentialStagedViaHostPort => "FirstPartyCredentialStagedViaHostPort"
  | auditBefore => "AuditBefore"
  | redactOutput => "RedactOutput"
  | enforceResourceCeiling => "EnforceResourceCeiling"
  | enforceOutputLimit => "EnforceOutputLimit"
  | auditAfter => "AuditAfter"

/-- The kinds of which there may be several. -/
def isMultiInject (kind : ObligationKind) : Bool :=
  kind = injectSecretOnce || kind = injectCredentialAccountOnce

end ObligationKind

/-- The order in which handlers satisfy obligations. -/
def obligationEvaluationOrder : List ObligationKind :=
  [.reserveResources, .useScopedMounts, .applyNetworkPolicy, .injectSecretOnce,
    .injectCredentialAccountOnce, .firstPartyCredentialStagedViaHostPort, .auditBefore,
    .redactOutput, .enforceResourceCeiling, .enforceOutputLimit, .auditAfter]

theorem mem_obligationEvaluationOrder (kind : ObligationKind) :
    kind ∈ obligationEvaluationOrder := by
  cases kind <;> decide

/-- The handle of an injection; the code calls this for no other obligation. -/
def extractInjectHandle : Obligation → Option SecretHandle
  | .injectSecretOnce handle => some handle
  | .injectCredentialAccountOnce handle _ _ _ _ => some handle
  | _ => none

/-- The rest of the injections of a kind, with the handles seen so far. -/
def normalizeMultiInject (kind : ObligationKind) (seenHandles : List (Option SecretHandle)) :
    List Obligation → Except HostApiError (List Obligation)
  | [] => .ok []
  | obligation :: rest =>
    if extractInjectHandle obligation ∈ seenHandles then .error (.invariant
      ("duplicate " ++ kind.debug ++ " obligations for the same handle are not allowed"))
    else do
      return obligation ::
        (← normalizeMultiInject kind (extractInjectHandle obligation :: seenHandles) rest)

def normalizeKind (kind : ObligationKind) (matching : List Obligation) :
    Except HostApiError (List Obligation) :=
  match matching with
  | [] => .ok []
  | first :: rest =>
    if kind.isMultiInject then do
      return first :: (← normalizeMultiInject kind [extractInjectHandle first] rest)
    else if rest = [] then .ok [first]
    else .error (.invariant
      ("duplicate or conflicting " ++ kind.debug ++ " obligations are not allowed"))

/-- The obligations of one kind that an allowed action may carry together. -/
def Compatible (kind : ObligationKind) (matching : List Obligation) : Prop :=
  if kind.isMultiInject then (matching.map extractInjectHandle).Nodup else matching.length ≤ 1

def ofKind (kind : ObligationKind) (obligations : List Obligation) : List Obligation :=
  obligations.filter fun obligation => obligation.kind = kind

/-! ### The canonical form -/

theorem normalizeMultiInject_eq_ok {kind : ObligationKind} {matching normalized : List Obligation} :
    ∀ {seenHandles : List (Option SecretHandle)},
      normalizeMultiInject kind seenHandles matching = .ok normalized ↔
        (matching.map extractInjectHandle).Nodup ∧
          (∀ obligation ∈ matching, extractInjectHandle obligation ∉ seenHandles) ∧
          matching = normalized := by
  induction matching generalizing normalized with
  | nil => simp [normalizeMultiInject]
  | cons obligation rest ih =>
    intro seenHandles
    rw [normalizeMultiInject, List.map_cons, List.nodup_cons, List.forall_mem_cons]
    split
    · rename_i hseen
      exact ⟨nofun, fun h => absurd hseen h.2.1.1⟩
    · rename_i hnew
      simp only [bind_eq_ok, pure_eq_ok, ih, List.mem_cons, not_or]
      constructor
      · rintro ⟨normalized', ⟨hnodup, hrest, rfl⟩, rfl⟩
        refine ⟨⟨fun hmem => ?_, hnodup⟩, ⟨hnew, fun other hother => (hrest other hother).2⟩, rfl⟩
        obtain ⟨other, hother, heq⟩ := List.mem_map.1 hmem
        exact (hrest other hother).1 heq
      · rintro ⟨⟨hfirst, hnodup⟩, ⟨-, hrest⟩, rfl⟩
        exact ⟨rest, ⟨hnodup, fun other hother => ⟨fun heq => hfirst (List.mem_map.2
          ⟨other, hother, heq⟩), hrest other hother⟩, rfl⟩, rfl⟩

theorem normalizeKind_eq_ok {kind : ObligationKind} {matching normalized : List Obligation} :
    normalizeKind kind matching = .ok normalized ↔
      Compatible kind matching ∧ matching = normalized := by
  cases matching with
  | nil => simp [normalizeKind, Compatible]
  | cons first rest =>
    rw [normalizeKind, Compatible]
    split
    · simp only [bind_eq_ok, pure_eq_ok, normalizeMultiInject_eq_ok, List.mem_singleton,
        List.map_cons, List.nodup_cons, List.mem_map, not_exists, not_and]
      constructor
      · rintro ⟨normalized', ⟨hnodup, hrest, rfl⟩, rfl⟩
        exact ⟨⟨fun other hother => hrest other hother, hnodup⟩, rfl⟩
      · rintro ⟨⟨hfirst, hnodup⟩, rfl⟩
        exact ⟨rest, ⟨hnodup, fun other hother => hfirst other hother, rfl⟩, rfl⟩
    · split
      · rename_i hrest
        subst hrest
        simp
      · rename_i hrest
        refine ⟨fun h => (by cases h), fun h => absurd ?_ hrest⟩
        have hlength := h.1
        rw [List.length_cons] at hlength
        exact List.length_eq_zero_iff.1 (by omega)

/-- Every kind occurs once, or with different handles, and the kinds follow the order. -/
def Canonical (obligations : List Obligation) : Prop :=
  (∀ kind, Compatible kind (ofKind kind obligations)) ∧
    obligations = obligationEvaluationOrder.flatMap fun kind => ofKind kind obligations

/-- The obligations in canonical order, if none contradict each other. -/
def normalize (obligations : List Obligation) : Except HostApiError (List Obligation) :=
  match obligations.find? fun obligation => obligation.kind ∉ obligationEvaluationOrder with
  | some obligation => .error (.invariant
      (obligation.kind.debug ++ " is missing from OBLIGATION_EVALUATION_ORDER"))
  | none => do
    return (← obligationEvaluationOrder.mapM fun kind =>
      normalizeKind kind (ofKind kind obligations)).flatten

theorem normalize_eq_ok {obligations normalized : List Obligation} :
    normalize obligations = .ok normalized ↔
      (∀ kind, Compatible kind (ofKind kind obligations)) ∧
        (obligationEvaluationOrder.flatMap fun kind => ofKind kind obligations) = normalized := by
  have hfind : (obligations.find? fun obligation =>
      decide (obligation.kind ∉ obligationEvaluationOrder)) = none := by
    rw [List.find?_eq_none]
    intro obligation _
    simp [mem_obligationEvaluationOrder]
  rw [normalize, hfind]
  simp only [bind_eq_ok, pure_eq_ok, mapM_eq_ok, normalizeKind_eq_ok, List.forall₂_and_left]
  constructor
  · rintro ⟨slots, ⟨hcompatible, hslots⟩, rfl⟩
    refine ⟨fun kind => hcompatible kind (mem_obligationEvaluationOrder kind), ?_⟩
    rw [List.flatMap_def]
    congr 1
    exact List.forall₂_eq_eq_eq ▸ (List.forall₂_map_left_iff.2 hslots)
  · rintro ⟨hcompatible, rfl⟩
    refine ⟨_, ⟨fun kind _ => hcompatible kind, List.forall₂_map_right_iff.2
      (List.forall₂_same.2 fun _ _ => rfl)⟩, List.flatMap_def.symm⟩

/-- Of the obligations in order, those of a kind are the given ones. -/
theorem ofKind_flatMap (obligations : List Obligation) (kind : ObligationKind) :
    ofKind kind (obligationEvaluationOrder.flatMap fun kind => ofKind kind obligations) =
      ofKind kind obligations := by
  have hsame : ∀ other, ofKind kind (ofKind other obligations) =
      if other = kind then ofKind kind obligations else [] := by
    intro other
    rw [ofKind, ofKind, List.filter_filter]
    split
    · rename_i heq
      subst heq
      simp only [Bool.and_self, ofKind]
    · rename_i hne
      rw [List.filter_eq_nil_iff]
      intro obligation _ hboth
      rw [Bool.and_eq_true, decide_eq_true_eq, decide_eq_true_eq] at hboth
      exact hne (hboth.2.symm.trans hboth.1)
  rw [ofKind, List.filter_flatMap]
  change (obligationEvaluationOrder.flatMap fun other => ofKind kind (ofKind other obligations)) = _
  simp only [hsame]
  cases kind <;> simp [obligationEvaluationOrder]

theorem canonical_of_normalize {obligations normalized : List Obligation}
    (h : normalize obligations = .ok normalized) : Canonical normalized := by
  obtain ⟨hcompatible, rfl⟩ := normalize_eq_ok.1 h
  refine ⟨fun kind => ?_, ?_⟩
  · rw [ofKind_flatMap]
    exact hcompatible kind
  · simp only [ofKind_flatMap]

/-- The obligations of an allowed action. -/
structure Obligations where
  asSlice : List Obligation
  canonical : Canonical asSlice

namespace Obligations

def new (obligations : List Obligation) : Except HostApiError Obligations :=
  match h : normalize obligations with
  | .ok normalized => .ok ⟨normalized, canonical_of_normalize h⟩
  | .error e => .error e

variable {obligations : List Obligation}

theorem asSlice_of_new {normalized : Obligations}
    (h : new obligations = .ok normalized) : normalize obligations = .ok normalized.asSlice := by
  rw [new] at h
  split at h
  · rename_i hok
    cases h
    exact hok
  · exact nomatch h

theorem exists_new :
    (∃ normalized, new obligations = .ok normalized) ↔
      ∀ kind, Compatible kind (ofKind kind obligations) := by
  constructor
  · rintro ⟨normalized, h⟩
    exact (normalize_eq_ok.1 (asSlice_of_new h)).1
  · intro hcompatible
    have hok := normalize_eq_ok.2 ⟨hcompatible, rfl⟩
    rw [new]
    split
    · exact ⟨_, rfl⟩
    · rename_i e herror
      rw [hok] at herror
      exact nomatch herror

theorem mem_asSlice {normalized : Obligations}
    (h : new obligations = .ok normalized) (obligation : Obligation) :
    obligation ∈ normalized.asSlice ↔ obligation ∈ obligations := by
  obtain ⟨-, hflat⟩ := normalize_eq_ok.1 (asSlice_of_new h)
  rw [← hflat, List.mem_flatMap]
  simp only [ofKind, List.mem_filter, decide_eq_true_eq]
  constructor
  · rintro ⟨_, _, hmem, _⟩
    exact hmem
  · intro hmem
    exact ⟨obligation.kind, mem_obligationEvaluationOrder _, hmem, rfl⟩

end Obligations

/-! ### Decisions -/

/-- Why an invocation is denied. -/
inductive DenyReason where
  | missingGrant | invalidPath | pathOutsideMount | unknownCapability | unknownSecret
  | networkDenied | budgetDenied | approvalDenied | policyDenied | resourceLimitExceeded
  | internalInvariantViolation

/-- The answer of an authorization. -/
inductive Decision where
  | allow (obligations : Obligations)
  | deny (reason : DenyReason)

end Ironclaw
