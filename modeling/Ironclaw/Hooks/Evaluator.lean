import Ironclaw.Hooks.PredicateState

/-! # The predicate evaluator

`ironclaw_hooks/src/evaluator.rs`: a declarative predicate is evaluated against an invocation, over a
backend that keeps its windows. The numbers of a predicate and of the arguments are read by
`rust_decimal` and `serde_json`, which are not part of the repository; an evaluation carries the event
id that it draws where the caller gives none. -/

namespace Ironclaw.Hooks

/-! ### Predicates -/

inductive CapabilityPredicate where
  | nameEquals (name : String)
  | nameStartsWith (start : String)
  | all (predicates : List CapabilityPredicate)
  | any (predicates : List CapabilityPredicate)
  | always

inductive ValueOrRateBound where
  | invocationCount (max : ℕ) (window : String)
  | numericSum (max field window : String)

inductive DenyReasonCode where
  | generic | rateLimit | valueCap | blocklist | requiresApproval | outOfPolicy
deriving DecidableEq

inductive PauseReasonCode where
  | generic | requiresApproval | overThreshold | sensitiveAction
deriving DecidableEq

inductive OnExceededAction where
  | deny (reason : String)
  | denyWithCode (code : DenyReasonCode) (reason : String)
  | pauseApproval (reason : String)
  | pauseApprovalWithCode (code : PauseReasonCode) (reason : String)

inductive HookPredicateSpec where
  | denyCapability (condition : CapabilityPredicate) (reason : String)
  | pauseApproval (condition : CapabilityPredicate) (reason : String)
  | rateOrValueCap (condition : CapabilityPredicate) (bound : ValueOrRateBound)
      (onExceeded : OnExceededAction)

inductive EvaluatorDecision where
  | allow
  | deny (code : DenyReasonCode) (reason : String)
  | pauseApproval (code : PauseReasonCode) (reason : String)
deriving DecidableEq

def restrictiveAction : OnExceededAction → EvaluatorDecision
  | .deny reason => .deny .generic reason
  | .denyWithCode code reason => .deny code reason
  | .pauseApproval reason => .pauseApproval .generic reason
  | .pauseApprovalWithCode code reason => .pauseApproval code reason

theorem restrictiveAction_ne_allow (action : OnExceededAction) :
    restrictiveAction action ≠ .allow := by
  cases action <;> exact nofun

mutual

/-- A predicate looks at the name of the capability only. -/
def predicateMatches (capabilityName : String) : CapabilityPredicate → Bool
  | .always => true
  | .nameEquals name => capabilityName = name
  | .nameStartsWith start => Text.startsWith capabilityName start
  | .all predicates => allMatch capabilityName predicates
  | .any predicates => anyMatches capabilityName predicates

def allMatch (capabilityName : String) : List CapabilityPredicate → Bool
  | [] => true
  | predicate :: rest => predicateMatches capabilityName predicate && allMatch capabilityName rest

def anyMatches (capabilityName : String) : List CapabilityPredicate → Bool
  | [] => false
  | predicate :: rest => predicateMatches capabilityName predicate || anyMatches capabilityName rest

end

/-- Seconds in a unit of a window. -/
def windowUnit : Char → Option ℕ
  | 's' => some 1
  | 'm' => some 60
  | 'h' => some 3600
  | 'd' => some 86400
  | _ => none

/-- A window such as `24h`, in nanoseconds. -/
def parseWindow (input : String) : Option ℤ := do
  let characters := (Text.trim input).toList
  let unitChar ← characters.getLast?
  let num ← Text.parseU64 (String.ofList characters.dropLast)
  let seconds ← windowUnit unitChar
  if num * seconds < 2 ^ 64 then some (num * seconds * 1000000000) else none

/-! ### Evaluation -/

/-- The view of the arguments that a predicate has. -/
structure SanitizedArguments (D : Type) where
  isResolved : Bool
  extractNumeric : String → Option D

structure BeforeCapabilityHookContext (D : Type) where
  tenantId : TenantId
  capabilityName : String
  arguments : SanitizedArguments D
  callerEventId : Option PredicateEventId

/-- The operations of a backend that the evaluator uses. -/
structure PredicateStateBackend (σ D : Type) where
  recordInvocation : σ → InvocationKey → PredicateEventId → Timestamp → ℤ →
    Except PredicateBackendError ℕ × σ
  recordValue : σ → ValueKey → PredicateEventId → Timestamp → D → ℤ →
    Except PredicateBackendError D × σ

structure Evaluation (D : Type) where
  hookId : HookId
  spec : HookPredicateSpec
  ctx : BeforeCapabilityHookContext D
  /-- What `PredicateEventId::synth` returns if it is asked. -/
  synthesized : PredicateEventId
  now : Timestamp

namespace Evaluation

variable {D σ : Type}

def eventId (e : Evaluation D) : PredicateEventId := e.ctx.callerEventId.getD e.synthesized

def invocationKey (e : Evaluation D) : InvocationKey where
  hookId := e.hookId
  tenantId := e.ctx.tenantId
  capability := e.ctx.capabilityName

def valueKey (e : Evaluation D) (field : String) : ValueKey where
  hookId := e.hookId
  tenantId := e.ctx.tenantId
  capability := e.ctx.capabilityName
  field := field

variable (backend : PredicateStateBackend σ D) (s : σ)

def evaluateInvocationCount (e : Evaluation D) (max : ℕ) (window : String)
    (onExceeded : OnExceededAction) : EvaluatorDecision × σ :=
  match parseWindow window with
  | none => (restrictiveAction onExceeded, s)
  | some duration =>
    match backend.recordInvocation s e.invocationKey e.eventId e.now duration with
    | (.error _, s') => (restrictiveAction onExceeded, s')
    | (.ok count, s') => (if max < count then restrictiveAction onExceeded else .allow, s')

/-- The checks are made in this order: the limit, the window, the arguments, the field. -/
def evaluateNumericSum (parseDecimal : String → Option D) [LT D] [DecidableLT D] (e : Evaluation D)
    (max field window : String) (onExceeded : OnExceededAction) : EvaluatorDecision × σ :=
  match parseDecimal (Text.trim max), parseWindow window, e.ctx.arguments.isResolved,
      e.ctx.arguments.extractNumeric field with
  | some maxValue, some duration, true, some value =>
    match backend.recordValue s (e.valueKey field) e.eventId e.now value duration with
    | (.error _, s') => (restrictiveAction onExceeded, s')
    | (.ok sum, s') => (if maxValue < sum then restrictiveAction onExceeded else .allow, s')
  | _, _, _, _ => (restrictiveAction onExceeded, s)

def evaluateAt (parseDecimal : String → Option D) [LT D] [DecidableLT D] (e : Evaluation D) :
    EvaluatorDecision × σ :=
  match e.spec with
  | .denyCapability condition reason =>
    (if predicateMatches e.ctx.capabilityName condition = true then .deny .generic reason
      else .allow, s)
  | .pauseApproval condition reason =>
    (if predicateMatches e.ctx.capabilityName condition = true then .pauseApproval .generic reason
      else .allow, s)
  | .rateOrValueCap condition bound onExceeded =>
    if predicateMatches e.ctx.capabilityName condition = false then (.allow, s)
    else
      match bound with
      | .invocationCount max window => e.evaluateInvocationCount backend s max window onExceeded
      | .numericSum max field window =>
        e.evaluateNumericSum backend s parseDecimal max field window onExceeded

end Evaluation

def inMemoryBackend (D : Type) [Zero D] [Add D] [Sub D] :
    PredicateStateBackend (InMemoryPredicateStateBackend D) D where
  recordInvocation := InMemoryPredicateStateBackend.recordInvocation
  recordValue := InMemoryPredicateStateBackend.recordValue

end Ironclaw.Hooks
