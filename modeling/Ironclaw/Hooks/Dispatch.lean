import Ironclaw.Hooks.Registry

/-! # The dispatch of `before_capability`

`dispatch_before_capability` of `ironclaw_hooks/src/dispatch/mod.rs`. What a hook does with an
invocation is not the dispatcher's: an invocation carries, for each hook, what an execution of it
comes to (`HookRun`). A dispatch visits the bindings in order (`visit`) and carries along what it
has composed so far (`Progress`). -/

namespace Ironclaw.Hooks

/-! ### Decisions and failures -/

/-- `BeforeCapabilityHookDecision`, with its sanitized reasons. -/
inductive GateDecision where
  | allow
  | deny (reason : String)
  | pauseApproval (reason : String)
  | pauseAuth (reason : String)
deriving DecidableEq

/-- How restrictive a decision is. -/
def GateDecision.rank : GateDecision → ℕ
  | allow => 0
  | pauseApproval _ => 1
  | pauseAuth _ => 2
  | deny _ => 3

@[simp] theorem GateDecision.rank_deny (reason : String) : (deny reason).rank = 3 := rfl

theorem GateDecision.rank_eq_zero {decision : GateDecision} :
    decision.rank = 0 ↔ decision = .allow := by
  cases decision <;> simp [rank]

def composeGateDecision (current new : GateDecision) : GateDecision :=
  match current, new with
  | .deny _, _ => current
  | _, .deny _ => new
  | .pauseAuth _, _ => current
  | _, .pauseAuth _ => new
  | .pauseApproval _, _ => current
  | _, .pauseApproval _ => new
  | .allow, .allow => current

@[simp] theorem rank_composeGateDecision (current new : GateDecision) :
    (composeGateDecision current new).rank = max current.rank new.rank := by
  cases current <;> cases new <;> rfl

inductive FailureCategory where
  | timeout | panic | malformed | attenuationViolation
deriving DecidableEq

inductive FailureDisposition where
  | failClosed | failIsolated
deriving DecidableEq

inductive DecisionKind where
  | gate | mutator | observer | effect | lifecycle

def FailureCategory.dispositionFor (_ : FailureCategory) : DecisionKind → FailureDisposition
  | .gate | .mutator => .failClosed
  | .observer | .effect | .lifecycle => .failIsolated

structure HookFailureRecord where
  hookId : HookId
  category : FailureCategory
  disposition : FailureDisposition
  reason : String
deriving DecidableEq

def decisionKindFor : HookPointSpec → DecisionKind
  | .beforeCapability => .gate
  | .beforePrompt => .mutator
  | .afterTurn => .lifecycle
  | .afterModel | .afterCapability | .afterCheckpoint | .eventTriggered => .observer

/-! ### Running a hook -/

inductive GateSinkState where
  | unset
  | passed
  | decided (decision : GateDecision)

/-- What an execution of a hook comes to: the state of its sink, a panic, an aborted blocking task, a
failure that the WASM runtime reports, or no end before the timeout. -/
inductive HookRun where
  | finished (state : GateSinkState) (auditReason : Option String)
  | panicked
  | aborted
  | trapped (category : FailureCategory) (reason : String)
  | timedOut

inductive GateHookOutcome where
  | pass
  | decision (decision : GateDecision) (auditReason : Option String)
deriving DecidableEq

/-- The record of `classify_failure`, which also poisons the slot. -/
def classifyFailure (binding : HookBinding) (category : FailureCategory) (reason : String) :
    HookFailureRecord where
  hookId := binding.hookId
  category := category
  disposition := category.dispositionFor (decisionKindFor binding.point)
  reason := reason

def runBeforeCapabilityHook (binding : HookBinding) :
    HookRun → Except HookFailureRecord GateHookOutcome
  | .finished (.decided decision) auditReason => .ok (.decision decision auditReason)
  | .finished .passed _ => .ok .pass
  | .finished .unset _ =>
    .error (classifyFailure binding .malformed "hook completed without minting a decision")
  | .panicked => .error (classifyFailure binding .panic "hook panicked")
  | .aborted => .error (classifyFailure binding .panic "hook blocking task aborted")
  | .trapped category reason => .error (classifyFailure binding category reason)
  | .timedOut => .error (classifyFailure binding .timeout "hook exceeded dispatch timeout")

theorem runBeforeCapabilityHook_eq_error {binding : HookBinding} {run : HookRun}
    {failure : HookFailureRecord} (h : runBeforeCapabilityHook binding run = .error failure) :
    ∃ category reason, failure = classifyFailure binding category reason := by
  rcases run with ⟨_ | _ | _, _⟩ | _ | _ | _ | _ <;>
    simp only [runBeforeCapabilityHook, Except.error.injEq, reduceCtorEq] at h <;>
    exact ⟨_, _, h.symm⟩

/-! ### The dispatcher -/

structure HookDispatcher where
  registry : HookRegistry
  /-- The hooks of the `before_capability` map. -/
  beforeCapability : HookId → Bool
  maxBeforeCapabilityHooksPerDispatch : ℕ

/-- An invocation that is put to the hooks, with what each of them does with it. -/
structure Invocation where
  provider : Option ExtensionId
  runs : HookId → HookRun

/-- The milestones of a dispatch: a hook that was started, with what came of it, and a failure of a
binding that was not started. -/
inductive Milestone where
  | dispatched (binding : HookBinding) (result : Except HookFailureRecord GateHookOutcome)
  | failed (record : HookFailureRecord)
deriving DecidableEq

structure Progress where
  registry : HookRegistry
  /-- The snapshot of the poisoned slots, with those of this dispatch. -/
  poisoned : List HookId
  composed : GateDecision
  failures : List HookFailureRecord
  milestones : List Milestone
  shortCircuited : Bool
  eligibleHooksEvaluated : ℕ
  explicitDeny : Bool

def fanoutExceededReason : String := "before_capability dispatch fan-out budget exceeded"

namespace Progress

/-- A slot is poisoned in the registry and in the snapshot. -/
def poison (p : Progress) (hookId : HookId) : Progress :=
  { p with
    registry := p.registry.poison hookId
    poisoned := hookId :: p.poisoned }

def fail (p : Progress) (record : HookFailureRecord) : Progress :=
  { p with
    failures := p.failures ++ [record] }

/-- A decision is composed; anything but an allow short-circuits the gates. -/
def compose (p : Progress) (decision : GateDecision) : Progress :=
  { p with
    composed := composeGateDecision p.composed decision
    shortCircuited := p.shortCircuited || decide (composeGateDecision p.composed decision ≠ .allow) }

def emit (p : Progress) (milestone : Milestone) : Progress :=
  { p with
    milestones := p.milestones ++ [milestone] }

/-- A binding without an installed implementation. -/
def missing (p : Progress) (binding : HookBinding) : Progress :=
  let record : HookFailureRecord :=
    { hookId := binding.hookId
      category := .malformed
      disposition := FailureCategory.malformed.dispositionFor .gate
      reason := "binding present without installed implementation" }
  { ((p.poison binding.hookId).emit (.failed record)).fail record with
    composed := if p.shortCircuited = true then p.composed
      else .deny "hook binding missing implementation"
    shortCircuited := true }

/-- The hook that exceeds the budget of the dispatch is not started. -/
def exceeded (p : Progress) (binding : HookBinding) : Progress :=
  let record : HookFailureRecord :=
    { hookId := binding.hookId
      category := .timeout
      disposition := FailureCategory.timeout.dispositionFor .gate
      reason := fanoutExceededReason }
  { (p.emit (.failed record)).fail record with
    composed := composeGateDecision p.composed (.deny fanoutExceededReason) }

/-- A hook that was started. -/
def ran (p : Progress) (binding : HookBinding)
    (result : Except HookFailureRecord GateHookOutcome) : Progress :=
  let started :=
    { p.emit (.dispatched binding result) with
      eligibleHooksEvaluated := p.eligibleHooksEvaluated + 1 }
  match result with
  | .ok .pass => started
  | .ok (.decision decision _) =>
    { started.compose decision with
      -- the deny that wins is the first one
      explicitDeny := p.explicitDeny || decide (p.composed.rank ≠ 3 ∧ decision.rank = 3) }
  | .error failure =>
    let failed := (started.poison failure.hookId).fail failure
    match failure.disposition with
    | .failClosed => failed.compose (.deny failure.reason)
    | .failIsolated => failed

end Progress

/-- The loop goes on, or ends early. -/
inductive Visit where
  | next (p : Progress)
  | stop (p : Progress)

section Dispatch

variable (d : HookDispatcher) (invocation : Invocation)

/-- Whether a binding fires against the invocation. -/
def inScope (binding : HookBinding) : Bool :=
  binding.scope.permits binding.owningExtension invocation.provider

/-- One round of the loop. -/
def visit (p : Progress) (binding : HookBinding) : Visit :=
  if p.shortCircuited = true ∧ binding.phase ≠ .telemetry then .next p
  else if binding.hookId ∈ p.poisoned then .next p
  else if inScope invocation binding = false then .next p
  else if d.beforeCapability binding.hookId = false then .next (p.missing binding)
  else if d.maxBeforeCapabilityHooksPerDispatch ≤ p.eligibleHooksEvaluated then
    .stop (p.exceeded binding)
  else .next (p.ran binding (runBeforeCapabilityHook binding (invocation.runs binding.hookId)))

def visitAll : Progress → List HookBinding → Progress
  | p, [] => p
  | p, binding :: rest =>
    match visit d invocation p binding with
    | .next p' => visitAll p' rest
    | .stop p' => p'

def Progress.start (registry : HookRegistry) : Progress where
  registry := registry
  poisoned := registry.poisonedIds
  composed := .allow
  failures := []
  milestones := []
  shortCircuited := false
  eligibleHooksEvaluated := 0
  explicitDeny := false

def finalProgress : Progress :=
  visitAll d invocation (.start d.registry) (d.registry.orderedBindings .beforeCapability)

structure BeforeCapabilityDispatchOutcome where
  decision : GateDecision
  failures : List HookFailureRecord
  milestones : List Milestone
  /-- Whether the block is recorded as an explicit `HookDeny` in the security audit. -/
  blockAudited : Bool

def dispatchBeforeCapability : BeforeCapabilityDispatchOutcome × HookDispatcher :=
  let p := finalProgress d invocation
  ({ decision := p.composed
     failures := p.failures
     milestones := p.milestones
     blockAudited := p.explicitDeny && decide (p.composed.rank = 3) },
    { d with
      registry := p.registry })

end Dispatch

end Ironclaw.Hooks
