import Ironclaw.Lib.Run
import Ironclaw.Trust.Policy

/-! # Threads at the mutation gate

`HostTrustPolicy::evaluate` and `HostTrustPolicy::mutate_with` as threads execute them, and
`InvalidationBus::publish`. An evaluation holds the gate shared and asks one source in a step; a
mutation holds it alone, commits one staged mutation in a step, and runs one listener in a step.
The listener that runs may evaluate again on its own thread, past the gate, and it may panic, which
gives the gate up.

`State.history` records, newest first, the commits, the deliveries and the answers; the state is
otherwise that of the program. `settled` is the chain of the last complete commit. A thread that
waits for the gate takes no step. -/

namespace Ironclaw.Trust

/-- A reader-writer lock with the threads that hold it. -/
inductive Gate (τ : Type) where
  | shared (readers : Finset τ)
  | exclusive (writer : τ)

/-- The arguments of `mutate_with`. The closure sees the chain through its handles: it asks for
mutations, and succeeds or fails. -/
structure MutateCall (β : Type) where
  bus : β
  affectedIdentity : PackageIdentity
  requestedAuthority : Finset CapabilityId
  requestedTrust : RequestedTrustClass
  closure : List PolicySource → List SourceMutation × Except TrustError Unit

def MutateCall.probe {β : Type} (call : MutateCall β) : TrustPolicyInput where
  identity := call.affectedIdentity
  requestedTrust := call.requestedTrust
  requestedAuthority := call.requestedAuthority

/-- What a thread is doing. -/
inductive Phase (β κ : Type) where
  | idle
  | evaluating (input : TrustPolicyInput) (evaluatedAt : Timestamp) (position : ℕ)
  | staging (call : MutateCall β)
  | committing (call : MutateCall β) (prev : TrustDecision) (staged : List SourceMutation)
  | publishing (bus : β) (change : TrustChange) (listeners : List κ)

inductive Event (τ κ : Type) where
  | committed (before after : List PolicySource) (listeners : List κ)
  | delivered (listener : κ) (change : TrustChange)
  | answered (thread : τ) (input : TrustPolicyInput) (result : Except TrustError TrustDecision)
  /-- An evaluation by a listener that the thread is running. -/
  | reanswered (thread : τ) (input : TrustPolicyInput) (result : Except TrustError TrustDecision)

structure State (τ β κ : Type) where
  sources : List PolicySource
  gate : Gate τ
  phase : τ → Phase β κ
  listeners : β → List κ
  settled : List PolicySource
  history : List (Event τ κ)

inductive Action (τ β κ : Type) where
  | register (bus : β) (listener : κ)
  | enter (thread : τ) (input : TrustPolicyInput) (now : Timestamp)
  | consult (thread : τ)
  | begin (thread : τ) (call : MutateCall β)
  | stage (thread : τ) (now : Timestamp)
  | commit (thread : τ)
  | settle (thread : τ) (now : Timestamp)
  | deliver (thread : τ)
  | reenter (thread : τ) (input : TrustPolicyInput) (now : Timestamp)
  | panic (thread : τ)

namespace State

variable {τ β κ : Type} [DecidableEq τ] [DecidableEq β]

def init (sources : List PolicySource) (listeners : β → List κ) : State τ β κ where
  sources := sources
  gate := .shared ∅
  phase := fun _ => .idle
  listeners := listeners
  settled := sources
  history := []

variable (s : State τ β κ)

def setPhase (thread : τ) (phase : Phase β κ) : State τ β κ :=
  { s with
    phase := Function.update s.phase thread phase }

def log (event : Event τ κ) : State τ β κ :=
  { s with
    history := event :: s.history }

def setGate (gate : Gate τ) : State τ β κ :=
  { s with
    gate := gate }

def setSources (sources : List PolicySource) : State τ β κ :=
  { s with
    sources := sources }

/-- The guard goes out of scope, and the call returns. -/
def release (thread : τ) : State τ β κ :=
  let s := s.setPhase thread .idle
  match s.gate with
  | .shared readers => s.setGate (.shared (readers.erase thread))
  | .exclusive _ => s.setGate (.shared ∅)

def answer (thread : τ) (input : TrustPolicyInput)
    (result : Except TrustError TrustDecision) : State τ β κ :=
  (s.log (.answered thread input result)).release thread

/-- The listeners that `publish` runs. -/
def publish (bus : β) (change : TrustChange) : List κ :=
  if change.previous = change.current ∧ change.authorityCeilingReduced = false then []
  else s.listeners bus

/-- The commit is complete. -/
def settleSources (bus : β) : State τ β κ :=
  { s with
    settled := s.sources
    history := .committed s.settled s.sources (s.listeners bus) :: s.history }

/-- No thread runs the listeners of a bus. -/
def quiet (bus : β) : Bool :=
  match s.gate with
  | .shared _ => true
  | .exclusive thread =>
    match s.phase thread with
    | .publishing busy _ _ => busy ≠ bus
    | _ => true

def register (bus : β) (listener : κ) : State τ β κ :=
  { s with
    listeners := Function.update s.listeners bus (s.listeners bus ++ [listener]) }

/-- One step. An action that is not possible in a state does nothing. -/
def next : Action τ β κ → State τ β κ
  | .register bus listener => if s.quiet bus then s.register bus listener else s
  | .enter thread input now =>
    match s.phase thread, s.gate with
    | .idle, .shared readers =>
      (s.setGate (.shared (insert thread readers))).setPhase thread (.evaluating input now 0)
    | _, _ => s
  | .consult thread =>
    match s.phase thread with
    | .evaluating input evaluatedAt position =>
      match s.sources[position]? with
      | none => s.answer thread input (.ok (defaultDecision evaluatedAt))
      | some source =>
        match source.evaluate input with
        | .error e => s.answer thread input (.error e)
        | .ok (some matched) => s.answer thread input (.ok (matched.decision evaluatedAt))
        | .ok none => s.setPhase thread (.evaluating input evaluatedAt (position + 1))
    | _ => s
  | .begin thread call =>
    match s.phase thread, s.gate with
    | .idle, .shared readers =>
      if readers = ∅ then (s.setGate (.exclusive thread)).setPhase thread (.staging call) else s
    | _, _ => s
  | .stage thread now =>
    match s.phase thread with
    | .staging call =>
      match evaluateUnlocked s.sources call.probe now with
      | .error _ => s.release thread
      | .ok prev =>
        match (call.closure s.sources).2 with
        | .error _ => s.release thread
        | .ok () => s.setPhase thread (.committing call prev
            (SourceMutators.stage s.sources (call.closure s.sources).1))
    | _ => s
  | .commit thread =>
    match s.phase thread with
    | .committing call prev (mutation :: staged) =>
      match SourceMutators.commitOne s.sources mutation with
      | .error _ => s.release thread
      | .ok sources => (s.setSources sources).setPhase thread (.committing call prev staged)
    | _ => s
  | .settle thread now =>
    match s.phase thread with
    | .committing call prev [] =>
      let s := s.settleSources call.bus
      match evaluateUnlocked s.sources call.probe now with
      | .error _ => s.release thread
      | .ok curr =>
        match TrustChange.new call.affectedIdentity prev curr with
        | none => s.release thread
        | some change =>
          s.setPhase thread (.publishing call.bus change (s.publish call.bus change))
    | _ => s
  | .deliver thread =>
    match s.phase thread with
    | .publishing bus change (listener :: listeners) =>
      (s.log (.delivered listener change)).setPhase thread (.publishing bus change listeners)
    | .publishing _ _ [] => s.release thread
    | _ => s
  | .reenter thread input now =>
    match s.phase thread with
    | .publishing _ _ _ => s.log (.reanswered thread input (evaluateUnlocked s.sources input now))
    | _ => s
  | .panic thread =>
    match s.phase thread with
    | .publishing _ _ (_ :: _) => s.release thread
    | _ => s

end State

end Ironclaw.Trust
