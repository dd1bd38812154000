import Ironclaw.Events.RuntimeEvent
import Ironclaw.Lib.Ordered
import Mathlib.Data.Prod.Lex

/-! # The hook registry

`registry.rs`, `ordering.rs` and `trust.rs` of `ironclaw_hooks`: the bindings of a run, what may be
bound where, and the order in which the bindings of a point are visited. A hook id has one slot,
which `Table` carries; a slot is poisoned for the rest of the run once its hook misbehaves. -/

namespace Ironclaw.Hooks

/-- A blake3 digest, read as a number: the bytes compare as the numbers do. -/
structure HookId where
  asBytes : BitVec 256
deriving DecidableEq

def HookId.toHex (hookId : HookId) : String := hookId.asBytes.toHex

inductive HookTrustClass where
  | builtin | trusted | installed | selfAuthored
deriving DecidableEq

inductive HookPhase where
  | validation | authorization | policy | telemetry
deriving DecidableEq

/-- The declaration order of the phases. -/
def HookPhase.rank : HookPhase → ℕ
  | validation => 0
  | authorization => 1
  | policy => 2
  | telemetry => 3

def HookPhase.permitsTrust (phase : HookPhase) (trust : HookTrustClass) : Bool :=
  match phase with
  | validation | authorization => trust = .builtin
  | policy | telemetry => true

inductive HookPointSpec where
  | beforeCapability | beforePrompt | afterModel | afterCapability | afterCheckpoint | afterTurn
  | eventTriggered
deriving DecidableEq

inductive HookBindingScope where
  | global | ownCapabilities | sameTenant
deriving DecidableEq

/-- Whether a hook fires against an invocation of a provider. Where one of the two is unknown, a
hook that is bound to its own capabilities does not. -/
def HookBindingScope.permits (scope : HookBindingScope) (owningExtension : Option ExtensionId)
    (invocationProvider : Option ExtensionId) : Bool :=
  match scope with
  | global | sameTenant => true
  | ownCapabilities =>
    match owningExtension, invocationProvider with
    | some owner, some provider => owner = provider
    | _, _ => false

structure HookBinding where
  hookId : HookId
  hookVersion : ℕ
  trustClass : HookTrustClass
  phase : HookPhase
  priority : ℤ
  point : HookPointSpec
  eventKindFilter : Option RuntimeEventKind
  owningExtension : Option ExtensionId
  scope : HookBindingScope
  poisoned : Bool
deriving DecidableEq

/-- `HookOrderKey`: phase, then priority, then hook id. -/
def HookBinding.orderKey (binding : HookBinding) : ℕ ×ₗ ℤ ×ₗ ℕ :=
  toLex (binding.phase.rank, toLex (binding.priority, binding.hookId.asBytes.toNat))

/-! ### The table of bindings -/

def pointHasCapabilityContext : HookPointSpec → Bool
  | .beforeCapability | .afterCapability | .eventTriggered => true
  | .beforePrompt | .afterModel | .afterCheckpoint | .afterTurn => false

def pointPermitsTrust (point : HookPointSpec) (trustClass : HookTrustClass) : Bool :=
  match point with
  | .afterTurn => trustClass = .builtin ∨ trustClass = .trusted
  | _ => true

/-! ### Texts -/

def HookTrustClass.debug : HookTrustClass → String
  | builtin => "Builtin"
  | trusted => "Trusted"
  | installed => "Installed"
  | selfAuthored => "SelfAuthored"

def HookPhase.debug : HookPhase → String
  | validation => "Validation"
  | authorization => "Authorization"
  | policy => "Policy"
  | telemetry => "Telemetry"

def HookPointSpec.debug : HookPointSpec → String
  | beforeCapability => "BeforeCapability"
  | beforePrompt => "BeforePrompt"
  | afterModel => "AfterModel"
  | afterCapability => "AfterCapability"
  | afterCheckpoint => "AfterCheckpoint"
  | afterTurn => "AfterTurn"
  | eventTriggered => "EventTriggered"

/-- `HookError::RegistryConstruction`. -/
structure RegistryConstruction where
  message : String

/-- The checks of `insert` that look at the binding alone. -/
def HookBinding.check (binding : HookBinding) : Except RegistryConstruction Unit := do
  let tier := binding.trustClass.debug
  let phase := binding.phase.debug
  let point := binding.point.debug
  let hookId := binding.hookId.toHex
  rejectIf (binding.phase.permitsTrust binding.trustClass = false)
    ⟨s!"{tier}-tier hook cannot register at phase {phase}"⟩
  rejectIf (pointPermitsTrust binding.point binding.trustClass = false)
    ⟨s!"{tier}-tier hook cannot register at point {point}: this point is " ++
      "privileged-only (Builtin / Trusted)"⟩
  rejectIf (binding.scope = .ownCapabilities ∧ pointHasCapabilityContext binding.point = false)
    ⟨s!"scope `OwnCapabilities` not supported at point {point}: " ++
      "this point has no per-capability invocation context. Use `Global` or `SameTenant` instead."⟩
  rejectIf (binding.point = .eventTriggered ∧ binding.eventKindFilter = none)
    ⟨s!"event-triggered binding `{hookId}` must declare an event_kind_filter; " ++
      "without one the dispatcher would never match"⟩
  rejectIf (binding.point ≠ .eventTriggered ∧ binding.eventKindFilter.isSome = true)
    ⟨s!"binding `{hookId}` at point {point} must not declare an event_kind_filter; " ++
      "only EventTriggered bindings use kind filters"⟩

def duplicateHookId (hookId : HookId) : RegistryConstruction :=
  ⟨s!"duplicate hook id `{hookId.toHex}` rejected: each hook id may register " ++
    "against the registry at most once"⟩

abbrev HookRegistry := Table HookBinding.hookId

namespace HookRegistry

variable (registry : HookRegistry)

def insert (binding : HookBinding) : Except RegistryConstruction HookRegistry := do
  binding.check
  rejectIf ((registry.get binding.hookId).isSome = true) (duplicateHookId binding.hookId)
  return registry.put binding

def activeAt (point : HookPointSpec) : List HookBinding :=
  registry.rows.filter fun binding => binding.point = point ∧ binding.poisoned = false

def poisonRow (hookId : HookId) (binding : HookBinding) : HookBinding :=
  if binding.hookId = hookId then { binding with poisoned := true } else binding

theorem hookId_poisonRow (hookId : HookId) (binding : HookBinding) :
    (poisonRow hookId binding).hookId = binding.hookId := by
  unfold poisonRow
  split <;> rfl

def poison (hookId : HookId) : HookRegistry :=
  registry.mapRows (poisonRow hookId) (hookId_poisonRow hookId)

def setPriority (hookId : HookId) (priority : ℤ) : HookRegistry :=
  registry.mapRows
    (fun binding => if binding.hookId = hookId then { binding with priority := priority } else binding)
    fun binding => by split <;> rfl

def poisonedIds : List HookId :=
  (registry.rows.filter fun binding => binding.poisoned).map HookBinding.hookId

def without (hookId : HookId) : HookRegistry := registry.remove hookId

/-- The bindings of a point that are not poisoned, in the order in which they are visited. -/
def orderedBindings (point : HookPointSpec) : List HookBinding :=
  orderBy HookBinding.orderKey (registry.activeAt point)

end HookRegistry

end Ironclaw.Hooks
