import Ironclaw.Lib.Reject
import Ironclaw.Lib.Table
import Ironclaw.Trust.Decision

/-! # The chain of policy sources

`sources.rs` and the sequential part of `policy.rs`. A policy is a chain of sources; the first
one that recognises a package decides (`evaluateUnlocked`). The three tables are changed through
mutations that are staged first and committed one by one.

A source that is not one of the built-in four is its evaluation function: the trait lets a caller
supply any, and mutations never reach it.

* `commit_of_staged`: a mutation that could be staged can be committed, in every state that the
  mutations before it lead to. -/

namespace Ironclaw.Trust

inductive TrustError where
  | invariantViolation (reason : String)

/-- What a source says about a package it recognises. -/
structure SourceMatch where
  effectiveTrust : EffectiveTrustClass
  provenance : TrustProvenance
  allowedEffects : List EffectKind
  maxResourceCeiling : Option ResourceCeiling

/-! ### Sources -/

structure BundledEntry where
  packageId : PackageId
  digest : Option String
  effectiveTrust : EffectiveTrustClass
  allowedEffects : List EffectKind
  maxResourceCeiling : Option ResourceCeiling

structure AdminSubject where
  packageId : PackageId
  source : PackageSource
deriving DecidableEq

structure AdminEntry where
  packageId : PackageId
  source : PackageSource
  digest : Option String
  effectiveTrust : EffectiveTrustClass
  allowedEffects : List EffectKind
  maxResourceCeiling : Option ResourceCeiling

def AdminSubject.fromEntry (entry : AdminEntry) : AdminSubject := ⟨entry.packageId, entry.source⟩

structure SignerEntry where
  signer : String
  label : Option String
  effectiveTrust : EffectiveTrustClass
  allowedEffects : List EffectKind
  maxResourceCeiling : Option ResourceCeiling

inductive PolicySource where
  | bundledRegistry (entries : Table BundledEntry.packageId)
  | adminConfig (entries : Table AdminSubject.fromEntry)
  | signedRegistry (trustedSigners : Table SignerEntry.signer)
  | devTrustOverride
  | other (evaluate : TrustPolicyInput → Except TrustError (Option SourceMatch))

/-- A pinned digest admits the packages that have it. -/
def digestMatches (pinned actual : Option String) : Bool :=
  match pinned with
  | none => true
  | some pinned =>
    match actual with
    | some actual => actual = pinned
    | none => false

namespace PolicySource

def evaluate (source : PolicySource) (input : TrustPolicyInput) :
    Except TrustError (Option SourceMatch) :=
  match source with
  | bundledRegistry entries =>
    if input.identity.source ≠ .bundled then .ok none
    else match entries.get input.identity.packageId with
      | none => .ok none
      | some entry =>
        if digestMatches entry.digest input.identity.digest then
          .ok (some ⟨entry.effectiveTrust, .bundled, entry.allowedEffects,
            entry.maxResourceCeiling⟩)
        else .ok none
  | adminConfig entries =>
    match entries.get ⟨input.identity.packageId, input.identity.source⟩ with
    | none => .ok none
    | some entry =>
      if digestMatches entry.digest input.identity.digest then
        .ok (some ⟨entry.effectiveTrust, .adminConfig, entry.allowedEffects,
          entry.maxResourceCeiling⟩)
      else .ok none
  -- no signature is verified yet
  | signedRegistry _ => .ok none
  | devTrustOverride => .ok none
  | other evaluate => evaluate input

end PolicySource

/-! ### Evaluation -/

def defaultDecision (evaluatedAt : Timestamp) : TrustDecision where
  effectiveTrust := .sandbox
  authorityCeiling := .empty
  provenance := .default
  evaluatedAt := evaluatedAt

def SourceMatch.decision (matched : SourceMatch) (evaluatedAt : Timestamp) : TrustDecision where
  effectiveTrust := matched.effectiveTrust
  authorityCeiling := ⟨matched.allowedEffects, matched.maxResourceCeiling⟩
  provenance := matched.provenance
  evaluatedAt := evaluatedAt

def evaluateUnlocked (sources : List PolicySource) (input : TrustPolicyInput)
    (evaluatedAt : Timestamp) : Except TrustError TrustDecision :=
  match sources with
  | [] => .ok (defaultDecision evaluatedAt)
  | source :: rest =>
    match source.evaluate input with
    | .error e => .error e
    | .ok (some matched) => .ok (matched.decision evaluatedAt)
    | .ok none => evaluateUnlocked rest input evaluatedAt

/-! ### Mutations -/

/-- The concrete type of a source, as a mutation looks it up. -/
inductive SourceKind where
  | bundledRegistry | adminConfig | signedRegistry | devTrustOverride | other
deriving DecidableEq

def SourceKind.typeName : SourceKind → String
  | .bundledRegistry => "ironclaw_trust::sources::BundledRegistry"
  | .adminConfig => "ironclaw_trust::sources::AdminConfig"
  | .signedRegistry => "ironclaw_trust::sources::SignedRegistry"
  | .devTrustOverride => "ironclaw_trust::sources::DevTrustOverride"
  | .other => "dyn ironclaw_trust::sources::PolicySource"

def PolicySource.kind : PolicySource → SourceKind
  | .bundledRegistry _ => .bundledRegistry
  | .adminConfig _ => .adminConfig
  | .signedRegistry _ => .signedRegistry
  | .devTrustOverride => .devTrustOverride
  | .other _ => .other

inductive SourceMutation where
  | bundledUpsert (entry : BundledEntry)
  | bundledRemove (packageId : PackageId)
  | adminUpsert (entry : AdminEntry)
  | adminRemove (packageId : PackageId) (source : PackageSource)
  | signedUpsert (entry : SignerEntry)
  | signedRemove (signer : String)

namespace SourceMutation

def target : SourceMutation → SourceKind
  | bundledUpsert _ => .bundledRegistry
  | bundledRemove _ => .bundledRegistry
  | adminUpsert _ => .adminConfig
  | adminRemove _ _ => .adminConfig
  | signedUpsert _ => .signedRegistry
  | signedRemove _ => .signedRegistry

def apply (mutation : SourceMutation) (source : PolicySource) : PolicySource :=
  match mutation, source with
  | bundledUpsert entry, .bundledRegistry entries => .bundledRegistry (entries.put entry)
  | bundledRemove packageId, .bundledRegistry entries => .bundledRegistry (entries.remove packageId)
  | adminUpsert entry, .adminConfig entries => .adminConfig (entries.put entry)
  | adminRemove packageId source, .adminConfig entries =>
    .adminConfig (entries.remove ⟨packageId, source⟩)
  | signedUpsert entry, .signedRegistry trustedSigners =>
    .signedRegistry (trustedSigners.put entry)
  | signedRemove signer, .signedRegistry trustedSigners =>
    .signedRegistry (trustedSigners.remove signer)
  | _, source => source

theorem kind_apply (mutation : SourceMutation) (source : PolicySource) :
    (mutation.apply source).kind = source.kind := by
  cases mutation <;> cases source <;> rfl

end SourceMutation

namespace SourceMutators

/-- The place of the one source of a type. -/
def find (kind : SourceKind) (kinds : List SourceKind) : Except TrustError ℕ :=
  match (List.range kinds.length).filter (fun i => kinds[i]? = some kind) with
  | [] => .error (.invariantViolation
      ("policy chain does not contain a source of type `" ++ kind.typeName ++ "`"))
  | [i] => .ok i
  | _ :: _ :: _ => .error (.invariantViolation
      ("policy chain contains duplicate source type `" ++ kind.typeName ++ "`"))

/-- One mutation of the committed chain. -/
def commitOne (sources : List PolicySource) (mutation : SourceMutation) :
    Except TrustError (List PolicySource) := do
  let i ← find mutation.target (sources.map PolicySource.kind)
  return sources.modify i mutation.apply

def commit (sources : List PolicySource) : List SourceMutation → Except TrustError (List PolicySource)
  | [] => .ok sources
  | mutation :: staged => do commit (← commitOne sources mutation) staged

/-- What a closure that asks for `requested` has staged: a handle refuses a mutation of a source
that the chain does not have. -/
def stage (sources : List PolicySource) (requested : List SourceMutation) : List SourceMutation :=
  requested.filter fun mutation =>
    (find mutation.target (sources.map PolicySource.kind)).toOption.isSome

theorem kinds_of_commitOne {sources sources' : List PolicySource} {mutation : SourceMutation}
    (h : commitOne sources mutation = .ok sources') :
    sources'.map PolicySource.kind = sources.map PolicySource.kind := by
  obtain ⟨i, -, h⟩ := bind_eq_ok.1 h
  rw [← pure_eq_ok.1 h]
  refine List.ext_getElem? fun j => ?_
  rw [List.getElem?_map, List.getElem?_map, List.getElem?_modify]
  cases sources[j]? with
  | none => rfl
  | some source =>
    simp only [Option.map_eq_map, Option.map_some]
    split
    · rw [mutation.kind_apply]
    · rfl

theorem find_of_mem_stage {sources : List PolicySource} {requested : List SourceMutation}
    {mutation : SourceMutation} (h : mutation ∈ stage sources requested) :
    ∃ i, find mutation.target (sources.map PolicySource.kind) = .ok i := by
  have hfound := (List.mem_filter.1 h).2
  cases hfind : find mutation.target (sources.map PolicySource.kind) with
  | error e =>
    rw [hfind] at hfound
    exact nomatch hfound
  | ok i => exact ⟨i, rfl⟩

/-- What can be looked up before a commit can be looked up all through it. -/
theorem commit_of_found {staged : List SourceMutation} : ∀ {sources : List PolicySource},
    (∀ mutation ∈ staged, ∃ i, find mutation.target (sources.map PolicySource.kind) = .ok i) →
    ∃ committed, commit sources staged = .ok committed := by
  induction staged with
  | nil => exact fun {sources} _ => ⟨sources, rfl⟩
  | cons mutation staged ih =>
    intro sources h
    rw [List.forall_mem_cons] at h
    obtain ⟨⟨i, hi⟩, hrest⟩ := h
    have hone : commitOne sources mutation = .ok (sources.modify i mutation.apply) :=
      bind_eq_ok.2 ⟨i, hi, rfl⟩
    obtain ⟨committed, hcommitted⟩ := @ih (sources.modify i mutation.apply) (by
      rw [kinds_of_commitOne hone]
      exact hrest)
    exact ⟨committed, bind_eq_ok.2 ⟨_, hone, hcommitted⟩⟩

theorem commit_of_staged (sources : List PolicySource) (requested : List SourceMutation) :
    ∃ committed, commit sources (stage sources requested) = .ok committed :=
  commit_of_found fun _ => find_of_mem_stage

end SourceMutators

end Ironclaw.Trust
