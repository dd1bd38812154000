import Ironclaw.Filesystem.InMemory

/-! # Read-modify-write with retries

`cas_update` of `cas.rs` over the in-memory backend: read the record, apply the caller's
transform, write the result back or delete the record on condition that the version has not
changed, and start over when it has. A call is a small machine (`CallState`) whose steps are the
points where it holds the lock of the backend; between two of its steps other calls run.

The backend advertises multi-key transactions and deletes, so the capability gates in front of the
loop are open. The deadline of a call may pass at any point where it waits. -/

namespace Ironclaw.Filesystem

inductive CasApplyOperation
  | write
  | forceWrite
  | noOp
  | delete
deriving DecidableEq

structure CasApply (S T : Type) where
  snapshot : S
  outcome : T
  operation : CasApplyOperation
deriving DecidableEq

inductive CasUpdateError (E : Type)
  | apply (error : E)
  | timeout
  | retriesExhausted
  | casUnsupported
  | backend (error : FilesystemError)
deriving DecidableEq

def filesystemCasRetries : ℕ := 32

/-- The arguments of a call. `resolve` is what the scoped filesystem makes of the call's scope and
path for an operation. -/
structure CasCall (S T E : Type) where
  resolve : FilesystemOperation → Except FilesystemError VirtualPath
  decode : List (Fin 256) → Except E S
  encode : S → Except E Entry
  apply : Option S → Except E (CasApply S T)

/-- A write expects the version that was read, and no record when none was. -/
def expectation : Option RecordVersion → CasExpectation
  | some version => .version version
  | none => .absent

/-- Where a call stands: about to read, about to write or delete what it decided on, or returned. -/
inductive Phase (S T E : Type)
  | reading
  | mutating (current : Option S) (version : Option RecordVersion) (applied : CasApply S T)
  | done (result : Except (CasUpdateError E) T)
deriving DecidableEq

structure CallState (S T E : Type) where
  phase : Phase S T E
  mutationAttempts : ℕ
  successfulDeleteOutcome : Option T

namespace CallState

variable {S T E : Type}

def initial : CallState S T E := ⟨.reading, 0, none⟩

variable (progress : CallState S T E)

def finish (result : Except (CasUpdateError E) T) : CallState S T E :=
  { progress with phase := .done result }

/-- Return the outcome of the delete that succeeded before, if there was one. -/
def settle (outcome : T) : CallState S T E :=
  progress.finish (.ok (progress.successfulDeleteOutcome.getD outcome))

/-- A write that failed: read again when the version was another one. -/
def afterWrite : FilesystemError → CallState S T E
  | .versionMismatch _ _ _ => { progress with phase := .reading }
  | .unsupported path operation =>
    if operation = .writeFile then progress.finish (.error .casUnsupported)
    else progress.finish (.error (.backend (.unsupported path operation)))
  | e => progress.finish (.error (.backend e))

/-- A delete that failed: read again when the record was gone or had another version. -/
def afterDelete : FilesystemError → CallState S T E
  | .notFound _ _ | .versionMismatch _ _ _ => { progress with phase := .reading }
  | .unsupported path operation =>
    if operation = .delete then progress.finish (.error .casUnsupported)
    else progress.finish (.error (.backend (.unsupported path operation)))
  | e => progress.finish (.error (.backend e))

end CallState

namespace CasCall

variable {S T E : Type} [BEq S] (call : CasCall S T E)

omit [BEq S] in
/-- The decoded record. -/
def snapshot (stored : Option Entry) : Except E (Option S) :=
  match stored with
  | none => .ok none
  | some entry => (call.decode entry.body).map some

/-- The transform asks for nothing to be changed. -/
def unchanged (current : Option S) (applied : CasApply S T) : Bool :=
  match applied.operation with
  | .noOp => true
  | .write => current.any (· == applied.snapshot)
  | .delete => current.isNone
  | .forceWrite => false

variable (progress : CallState S T E)

/-- Read the record, run the transform and decide. -/
def read (state : State) : CallState S T E :=
  match call.resolve .readFile with
  | .error e => progress.finish (.error (.backend e))
  | .ok path =>
    let versioned := state.get path
    match call.snapshot (versioned.map (·.entry)) with
    | .error e => progress.finish (.error (.apply e))
    | .ok current =>
      match call.apply current with
      | .error e => progress.finish (.error (.apply e))
      | .ok applied =>
        if unchanged current applied then progress.settle applied.outcome
        else if filesystemCasRetries ≤ progress.mutationAttempts then
          progress.finish (.error .retriesExhausted)
        else
          { progress with
            phase := .mutating current (versioned.map (·.version)) applied
            mutationAttempts := progress.mutationAttempts + 1 }

omit [BEq S] in
/-- Put the new record in the place of the version that was read. -/
def write (state : State) (version : Option RecordVersion)
    (applied : CasApply S T) : CallState S T E × State :=
  let progress := { progress with successfulDeleteOutcome := none }
  match call.encode applied.snapshot with
  | .error e => (progress.finish (.error (.apply e)), state)
  | .ok entry =>
    let written := do
      let path ← call.resolve .writeFile
      state.put path entry (expectation version)
    match written with
    | .ok (_, state') => (progress.finish (.ok applied.outcome), state')
    | .error e => (progress.afterWrite e, state)

omit [BEq S] in
/-- Delete the version that was read; the call goes on to read again. -/
def delete (state : State) (version : Option RecordVersion)
    (applied : CasApply S T) : CallState S T E × State :=
  match version with
  | none => (progress.settle applied.outcome, state)
  | some expected =>
    let deleted := do
      let path ← call.resolve .delete
      state.deleteIfVersion path expected
    match deleted with
    | .ok state' =>
      ({ progress with phase := .reading, successfulDeleteOutcome := some applied.outcome },
        state')
    | .error e => (progress.afterDelete e, state)

def step (state : State) : CallState S T E × State :=
  match progress.phase with
  | .reading => (call.read progress state, state)
  | .mutating _ version applied =>
    match applied.operation with
    | .write | .forceWrite => call.write progress state version applied
    | .delete => call.delete progress state version applied
    | .noOp => (progress.settle applied.outcome, state)
  | .done _ => (progress, state)

/-- The call on its own: one read and one mutation for each attempt, and the last read. -/
def alone (state : State) : CallState S T E × State :=
  (fun p : CallState S T E × State => call.step p.1 p.2)^[2 * filesystemCasRetries + 2]
    (.initial, state)

end CasCall

/-! ### Concurrent calls -/

/-- The calls in flight over one backend. -/
structure CasSystem (ι S T E : Type) where
  state : State
  progress : ι → CallState S T E

inductive CasAction (ι : Type)
  | step (caller : ι)
  | timeout (caller : ι)

namespace CasSystem

variable {ι S T E : Type} [DecidableEq ι] [BEq S] (calls : ι → CasCall S T E)

omit [DecidableEq ι] [BEq S] in
def start (state : State) : CasSystem ι S T E := ⟨state, fun _ => .initial⟩

def next (system : CasSystem ι S T E) : CasAction ι → CasSystem ι S T E
  | .step caller =>
    let moved := (calls caller).step (system.progress caller) system.state
    ⟨moved.2, Function.update system.progress caller moved.1⟩
  | .timeout caller =>
    match (system.progress caller).phase with
    | .done _ => system
    | _ => { system with
        progress := Function.update system.progress caller
          ((system.progress caller).finish (.error .timeout)) }

def run (system : CasSystem ι S T E) (actions : List (CasAction ι)) : CasSystem ι S T E :=
  actions.foldl (next calls) system

end CasSystem

end Ironclaw.Filesystem
