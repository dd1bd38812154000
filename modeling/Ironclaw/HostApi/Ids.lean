import Ironclaw.Lib.Reject
import Ironclaw.Lib.Text
import Ironclaw.HostApi.Scope

/-! # Which texts are scope ids

The validator of `ids.rs` for the ids a caller supplies, and the sentinel of `resource.rs` that
stands for no caller at all. The sentinel holds a control character, which the validator
rejects; its path segment `__system__` holds none, and the validator accepts it
(`validScopeId_systemSegment`). -/

namespace Ironclaw

/-- The contract violations that ids, paths, mounts and contexts report. -/
inductive HostApiError
  | invalidId (kind value reason : String)
  | invalidPath (value reason : String)
  | invalidMount (value reason : String)
  | invariant (reason : String)
deriving DecidableEq

/-- `char::is_control`: the characters of the general category `Cc`. -/
def isControl (c : Char) : Bool := c.val ≤ 0x1F || (0x7F ≤ c.val && c.val ≤ 0x9F)

def hasForbiddenControl (value : String) : Bool :=
  value.toList.any fun c => c == '\x00' || isControl c

/-- The id namespace of the identities the host mints itself. -/
def reservedSentinelPrefix : String := "__ironclaw_"

def validateScopeId (kind value : String) : Except HostApiError Unit := do
  rejectIf (value = "") (.invalidId kind value "must not be empty")
  rejectIf (256 < value.utf8ByteSize) (.invalidId kind value "must be at most 256 bytes")
  rejectIf (value = "." ∨ value = "..") (.invalidId kind value "dot segments are not allowed")
  rejectIf ('/' ∈ value.toList ∨ '\\' ∈ value.toList)
    (.invalidId kind value "path separators are not allowed")
  rejectIf (hasForbiddenControl value = true)
    (.invalidId kind value "NUL/control characters are not allowed")
  rejectIf (reservedSentinelPrefix.toList <+: value.toList)
    (.invalidId kind value "the `__ironclaw_` prefix is reserved for host sentinel identities")

/-- What the validator establishes of an id. -/
structure ValidScopeId (value : String) : Prop where
  nonempty : value ≠ ""
  short : value.utf8ByteSize ≤ 256
  not_dot : value ≠ "."
  not_dotdot : value ≠ ".."
  no_slash : '/' ∉ value.toList
  no_backslash : '\\' ∉ value.toList
  no_control : ∀ c ∈ value.toList, isControl c = false
  not_reserved : ¬ reservedSentinelPrefix.toList <+: value.toList

theorem hasForbiddenControl_eq_false {value : String} :
    hasForbiddenControl value = false ↔ ∀ c ∈ value.toList, isControl c = false := by
  rw [hasForbiddenControl, List.any_eq_false]
  refine forall₂_congr fun c _ => ?_
  rw [Bool.not_eq_true, Bool.or_eq_false_iff]
  refine ⟨fun h => h.2, fun h => ⟨?_, h⟩⟩
  -- NUL is itself a control character
  rw [beq_eq_false_iff_ne]
  rintro rfl
  exact Bool.noConfusion h

theorem validateScopeId_eq_ok {kind value : String} {u : Unit} :
    validateScopeId kind value = .ok u ↔ ValidScopeId value := by
  simp only [validateScopeId, bind_eq_ok, rejectIf_eq_ok, exists_const, not_or,
    Bool.not_eq_true, hasForbiddenControl_eq_false, Nat.not_lt]
  constructor
  · rintro ⟨h1, h2, ⟨h3, h4⟩, ⟨h5, h6⟩, h7, h8⟩
    exact ⟨h1, h2, h3, h4, h5, h6, h7, h8⟩
  · intro h
    exact ⟨h.1, h.2, ⟨h.3, h.4⟩, ⟨h.5, h.6⟩, h.7, h.8⟩

namespace TenantId

def new (value : String) : Except HostApiError TenantId := do
  validateScopeId "tenant" value
  return ⟨value⟩

end TenantId

namespace UserId

def new (value : String) : Except HostApiError UserId := do
  validateScopeId "user" value
  return ⟨value⟩

end UserId

namespace AgentId

def new (value : String) : Except HostApiError AgentId := do
  validateScopeId "agent" value
  return ⟨value⟩

end AgentId

namespace ProjectId

def new (value : String) : Except HostApiError ProjectId := do
  validateScopeId "project" value
  return ⟨value⟩

end ProjectId

namespace MissionId

def new (value : String) : Except HostApiError MissionId := do
  validateScopeId "mission" value
  return ⟨value⟩

end MissionId

namespace ThreadId

def new (value : String) : Except HostApiError ThreadId := do
  validateScopeId "thread" value
  return ⟨value⟩

end ThreadId

/-! ### Names -/

/-- `is_ascii_lowercase`. -/
def isAsciiLowercase (c : Char) : Bool := 'a' ≤ c && c ≤ 'z'

/-- `is_ascii_digit`. -/
def isAsciiDigit (c : Char) : Bool := '0' ≤ c && c ≤ '9'

def isNameChar (c : Char) : Bool :=
  isAsciiLowercase c || isAsciiDigit c || c == '_' || c == '-'

/-- The names of extensions and of the parts of a capability. -/
def validateNameSegment (kind value : String) : Except HostApiError Unit := do
  rejectIf (value = "") (.invalidId kind value "must not be empty")
  rejectIf (128 < value.utf8ByteSize) (.invalidId kind value "must be at most 128 bytes")
  rejectIf (value.toList.head?.any (fun c => isAsciiLowercase c || isAsciiDigit c) = false)
    (.invalidId kind value "must start with lowercase ASCII letter or digit")
  rejectIf (value = "." ∨ value = ".." ∨ Text.contains value ".." = true)
    (.invalidId kind value "dot-dot segments are not allowed")
  rejectIf (value.toList.any (fun c => !(isNameChar c || c == '.')) = true)
    (.invalidId kind value "only lowercase ASCII letters, digits, '_', '-', and '.' are allowed")
  rejectIf ("" ∈ Text.split value '.')
    (.invalidId kind value "empty dot segments are not allowed")

/-! ### The system scope -/

/-- The tenant and user of work that has no caller. -/
def systemReservedId : String := "\x1fSYSTEM\x1f"

/-- The path segment of a scope id: the id itself, with the sentinel escaped. -/
def resourceScopePathSegment (value : String) : String :=
  if value = systemReservedId then "__system__" else value

namespace ResourceScope

def system (invocationId : InvocationId) : ResourceScope where
  tenantId := ⟨systemReservedId⟩
  userId := ⟨systemReservedId⟩
  agentId := none
  projectId := none
  missionId := none
  threadId := none
  invocationId := invocationId

def isSystem (scope : ResourceScope) : Bool :=
  scope.tenantId.asStr == systemReservedId && scope.userId.asStr == systemReservedId

/-- The scope holds ids that the validators accepted, or it is the system scope. -/
def Admissible (scope : ResourceScope) : Prop :=
  (TenantId.new scope.tenantId.asStr = .ok scope.tenantId ∧
    UserId.new scope.userId.asStr = .ok scope.userId) ∨ scope.isSystem = true

theorem isSystem_iff {scope : ResourceScope} : scope.isSystem = true ↔
    scope.tenantId.asStr = systemReservedId ∧ scope.userId.asStr = systemReservedId := by
  rw [isSystem, Bool.and_eq_true, beq_iff_eq, beq_iff_eq]

theorem admissible_iff {scope : ResourceScope} : scope.Admissible ↔
    (ValidScopeId scope.tenantId.asStr ∧ ValidScopeId scope.userId.asStr) ∨
      scope.isSystem = true := by
  rw [Admissible, TenantId.new, UserId.new]
  simp only [bind_eq_ok, validateScopeId_eq_ok, pure_eq_ok, and_true, exists_const]

end ResourceScope

theorem ValidScopeId.ne_systemReservedId {value : String} (h : ValidScopeId value) :
    value ≠ systemReservedId := by
  rintro rfl
  exact Bool.noConfusion (h.no_control '\x1f' (by decide))

theorem validScopeId_systemSegment : ValidScopeId "__system__" :=
  (@validateScopeId_eq_ok "tenant" _ ()).1 (by decide +kernel)

theorem ResourceScope.Admissible.ids {scope : ResourceScope} (h : scope.Admissible) :
    (ValidScopeId scope.tenantId.asStr ∨ scope.tenantId.asStr = systemReservedId) ∧
      (ValidScopeId scope.userId.asStr ∨ scope.userId.asStr = systemReservedId) := by
  rcases ResourceScope.admissible_iff.1 h with ⟨htenant, huser⟩ | hsystem
  · exact ⟨.inl htenant, .inl huser⟩
  · obtain ⟨htenant, huser⟩ := ResourceScope.isSystem_iff.1 hsystem
    exact ⟨.inr htenant, .inr huser⟩

theorem ResourceScope.Admissible.system_of_sentinel {scope : ResourceScope} (h : scope.Admissible)
    (hsentinel : scope.tenantId.asStr = systemReservedId ∨ scope.userId.asStr = systemReservedId) :
    scope.isSystem = true := by
  rcases ResourceScope.admissible_iff.1 h with ⟨htenant, huser⟩ | hsystem
  · exact absurd hsentinel (not_or.2 ⟨htenant.ne_systemReservedId, huser.ne_systemReservedId⟩)
  · exact hsystem

theorem resourceScopePathSegment_valid {value : String}
    (h : ValidScopeId value ∨ value = systemReservedId) :
    ValidScopeId (resourceScopePathSegment value) := by
  rw [resourceScopePathSegment]
  split
  · exact validScopeId_systemSegment
  · rename_i hne
    exact h.resolve_right hne

theorem resourceScopePathSegment_inj {value other : String}
    (h : resourceScopePathSegment value = resourceScopePathSegment other) :
    value = other ∨ (value = systemReservedId ∧ other = "__system__") ∨
      (other = systemReservedId ∧ value = "__system__") := by
  rw [resourceScopePathSegment, resourceScopePathSegment] at h
  split at h <;> split at h
  · rename_i hvalue hother
    exact .inl (hvalue.trans hother.symm)
  · rename_i hvalue _
    exact .inr (.inl ⟨hvalue, h.symm⟩)
  · rename_i _ hother
    exact .inr (.inr ⟨hother, h⟩)
  · exact .inl h

end Ironclaw
