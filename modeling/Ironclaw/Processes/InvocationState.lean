import Ironclaw.Lib.Run
import Ironclaw.HostApi.Ids
import Ironclaw.HostApi.Trust
import Ironclaw.Processes.Journal

/-! # Starting an invocation once

`ProcessInvocationStore` of `ironclaw_processes/src/invocation_state.rs`, as the calls for one
invocation id see it. The journal is behind a port. A call is cut at each of its awaits and at each
lock of the pending map, and other calls take their steps in between; `get` changes nothing. -/

namespace Ironclaw.Processes

structure ApprovalRequestId where
  asUuid : BitVec 128

structure ProcessInvocationStart where
  invocationId : InvocationId
  capabilityId : CapabilityId
  scope : ResourceScope
  authenticatedActorUserId : Option UserId

/-- What `edge_submission` is made of; the metadata is that of the start with the approval and the
error set. -/
structure EdgeSubmission where
  start : ProcessInvocationStart
  approvalRequestId : Option ApprovalRequestId
  errorKind : Option String
  checkpointRef : Option ProcessCheckpointRef
  edge : ProcessSubmissionEdge

/-- What `snapshot` and `record` make of the durable record of the invocation. -/
inductive DurableRead where
  | unknown
  | run
  /-- Another record type: `get` answers that there is no invocation, whatever is pending. -/
  | foreign
  /-- The metadata of the record cannot be decoded. -/
  | failed

/-- The journal, for one process: what a scope reads, the submission at an edge, and the commands
that a transition issues for a process that is recorded. -/
structure ProcessRuntimePort where
  State : Type
  Command : Type
  read : State → ResourceScope → DurableRead
  submitProcessAtEdge : State → EdgeSubmission → Option State
  apply : State → Command → State

namespace ProcessRuntimePort

variable (port : ProcessRuntimePort)

/-- The scope finds the process recorded as a capability run. -/
def Recorded (durable : port.State) (scope : ResourceScope) : Prop :=
  port.read durable scope = .run ∨ port.read durable scope = .failed

/-- A submission is recorded for its scope, no record is lost, and only a submission makes one. -/
structure Lawful : Prop where
  submitted {durable durable' submission} :
    port.submitProcessAtEdge durable submission = some durable' →
      port.Recorded durable' submission.start.scope
  applied {durable command scope} :
    port.Recorded (port.apply durable command) scope ↔ port.Recorded durable scope

end ProcessRuntimePort

/-! ### The calls -/

/-- Where a call stands. `late` tells whether a transition had been recorded when a start began. -/
inductive InvocationCall where
  | idle
  | looking (start : ProcessInvocationStart) (late : Bool)
  | inserting (start : ProcessInvocationStart) (late : Bool)
  | submitting (submission : EdgeSubmission)
  | removing (start : ProcessInvocationStart)

structure InvocationStore (port : ProcessRuntimePort) (ι : Type) where
  durable : port.State
  pending : Option ProcessInvocationStart
  calls : ι → InvocationCall
  /-- Whether a transition has been recorded durably. -/
  recorded : Bool
  /-- The starts that succeeded, each with its `late`. -/
  started : List Bool

inductive InvocationAction (port : ProcessRuntimePort) (ι : Type) where
  | start (i : ι) (start : ProcessInvocationStart)
  | look (i : ι)
  | insert (i : ι)
  | transition (i : ι) (scope : ResourceScope) (approvalRequestId : Option ApprovalRequestId)
      (errorKind : Option String) (checkpointRef : Option ProcessCheckpointRef)
      (edge : ProcessSubmissionEdge)
  | submit (i : ι)
  | remove (i : ι)
  /-- The call ends early, with an error of the port or because it is dropped. -/
  | fail (i : ι)
  | command (command : port.Command)

namespace InvocationStore

variable {port : ProcessRuntimePort} {ι : Type} [DecidableEq ι]

def new (durable : port.State) : InvocationStore port ι :=
  ⟨durable, none, fun _ => .idle, false, []⟩

def pendingStart (s : InvocationStore port ι) (scope : ResourceScope) :
    Option ProcessInvocationStart :=
  s.pending.filter (·.scope = scope)

def goto (s : InvocationStore port ι) (i : ι) (call : InvocationCall) : InvocationStore port ι :=
  { s with calls := Function.update s.calls i call }

def next (s : InvocationStore port ι) : InvocationAction port ι → InvocationStore port ι
  | .start i start =>
    match s.calls i, port.read s.durable start.scope with
    | .idle, .unknown => s.goto i (.looking start s.recorded)
    | .idle, .foreign => s.goto i (.inserting start s.recorded)
    | _, _ => s
  | .look i =>
    match s.calls i with
    | .looking start late =>
      if (s.pendingStart start.scope).isSome then s.goto i .idle
      else s.goto i (.inserting start late)
    | _ => s
  | .insert i =>
    match s.calls i with
    | .inserting start late =>
      if s.pending.isSome then s.goto i .idle
      else { s.goto i .idle with pending := some start, started := late :: s.started }
    | _ => s
  | .transition i scope approvalRequestId errorKind checkpointRef edge =>
    match s.calls i, s.pendingStart scope with
    | .idle, some start =>
      s.goto i (.submitting ⟨start, approvalRequestId, errorKind, checkpointRef, edge⟩)
    | _, _ => s
  | .submit i =>
    match s.calls i with
    | .submitting submission =>
      match port.submitProcessAtEdge s.durable submission with
      | some durable =>
        { s.goto i (.removing submission.start) with durable := durable, recorded := true }
      | none => s.goto i .idle
    | _ => s
  | .remove i =>
    match s.calls i with
    | .removing start =>
      { s.goto i .idle with
        pending := if (s.pendingStart start.scope).isSome then none else s.pending }
    | _ => s
  | .fail i => s.goto i .idle
  | .command command => { s with durable := port.apply s.durable command }

/-- At most one start has succeeded, and none that began after a transition was recorded. -/
def StartedOnce (s : InvocationStore port ι) : Prop := s.started.length ≤ 1 ∧ true ∉ s.started

/-! ### Starts apart from submissions -/

/-- The call is a start that has read the durable record and is not yet in the pending map. -/
def between : InvocationCall → Bool
  | .looking _ _ | .inserting _ _ => true
  | _ => false

/-- Every start has the one scope, and no submission falls between the durable read of a start and
its insertion. -/
def Apart (scope : ResourceScope) (s : InvocationStore port ι) : InvocationAction port ι → Prop
  | .start _ start => start.scope = scope
  | .submit _ => ∀ i, between (s.calls i) = false
  | _ => True

/-- What is sure of a call where it stands. -/
def Sure (scope : ResourceScope) (durable : port.State) : InvocationCall → Prop
  | .idle => True
  | .looking start late | .inserting start late =>
    start.scope = scope ∧ late = false ∧ ¬ port.Recorded durable scope
  | .submitting submission => submission.start.scope = scope
  | .removing _ => port.Recorded durable scope

structure Inv (scope : ResourceScope) (s : InvocationStore port ι) : Prop where
  pending : ∀ start, s.pending = some start → start.scope = scope
  calls : ∀ i, Sure scope s.durable (s.calls i)
  recorded : s.recorded = true → port.Recorded s.durable scope
  started : s.started = [] ∨
    (s.started = [false] ∧ (s.pending.isSome = true ∨ port.Recorded s.durable scope))

variable {scope : ResourceScope} {s : InvocationStore port ι} {i : ι}

theorem Sure.update {durable : port.State} {calls : ι → InvocationCall} {call : InvocationCall}
    (h : ∀ j ≠ i, Sure scope durable (calls j)) (hcall : Sure scope durable call) (j : ι) :
    Sure scope durable (Function.update calls i call j) := by
  rcases eq_or_ne j i with rfl | hne
  · rwa [Function.update_self]
  · rw [Function.update_of_ne hne]
    exact h j hne

namespace Inv

variable (h : Inv scope s)
include h

theorem goto {call : InvocationCall} (hcall : Sure scope s.durable call) :
    Inv scope (s.goto i call) :=
  ⟨h.pending, Sure.update (fun j _ => h.calls j) hcall, h.recorded, h.started⟩

theorem idle : Inv scope (s.goto i .idle) := h.goto trivial

omit [DecidableEq ι] in
theorem start {start : ProcessInvocationStart} (hscope : start.scope = scope)
    (hread : port.read s.durable start.scope = .unknown ∨
      port.read s.durable start.scope = .foreign) :
    start.scope = scope ∧ s.recorded = false ∧ ¬ port.Recorded s.durable scope := by
  have hnot : ¬ port.Recorded s.durable scope := by
    rw [ProcessRuntimePort.Recorded, ← hscope]
    rcases hread with hread | hread <;> simp [hread]
  exact ⟨hscope, Bool.eq_false_iff.2 fun hr => hnot (h.recorded hr), hnot⟩

theorem insert {start : ProcessInvocationStart} {late : Bool}
    (hcall : s.calls i = .inserting start late) (hnone : ¬ s.pending.isSome = true) :
    Inv scope { s.goto i .idle with pending := some start, started := late :: s.started } := by
  have hsure := h.calls i
  rw [hcall] at hsure
  obtain ⟨hscope, rfl, hunrecorded⟩ := hsure
  have hempty : s.started = [] := by
    rcases h.started with hs | ⟨-, hp | hr⟩
    · exact hs
    · exact absurd hp hnone
    · exact absurd hr hunrecorded
  refine ⟨?_, h.idle.calls, h.recorded, .inr ⟨congrArg _ hempty, .inl rfl⟩⟩
  rintro _ ⟨⟩
  exact hscope

theorem remove {start : ProcessInvocationStart} (hcall : s.calls i = .removing start)
    {pending : Option ProcessInvocationStart} (hpending : pending = none ∨ pending = s.pending) :
    Inv scope { s.goto i .idle with pending := pending } := by
  have hsure := h.calls i
  rw [hcall] at hsure
  refine ⟨?_, h.idle.calls, h.recorded, h.started.imp_right fun hs => ⟨hs.1, .inr hsure⟩⟩
  rcases hpending with rfl | rfl
  · exact nofun
  · exact h.pending

variable (hport : port.Lawful)
include hport

/-- Between no start's read and its insertion, a submission changes nothing that is sure. -/
theorem submit (hapart : ∀ j, between (s.calls j) = false) {submission : EdgeSubmission}
    (hcall : s.calls i = .submitting submission) {durable : port.State}
    (hsubmit : port.submitProcessAtEdge s.durable submission = some durable) :
    Inv scope { s.goto i (.removing submission.start) with
      durable := durable, recorded := true } := by
  have hscope := h.calls i
  rw [hcall] at hscope
  have hrecorded : port.Recorded durable scope := hscope ▸ hport.submitted hsubmit
  refine ⟨h.pending, Sure.update (fun j _ => ?_) hrecorded, fun _ => hrecorded,
    h.started.imp_right fun hs => ⟨hs.1, .inr hrecorded⟩⟩
  have hbetween := hapart j
  have hsure := h.calls j
  cases hj : s.calls j with
  | idle => trivial
  | looking | inserting =>
    rw [hj] at hbetween
    cases hbetween
  | submitting => rwa [hj] at hsure
  | removing => exact hrecorded

omit [DecidableEq ι] in
theorem command (command : port.Command) :
    Inv scope { s with durable := port.apply s.durable command } := by
  have hsame : port.Recorded (port.apply s.durable command) scope ↔
      port.Recorded s.durable scope := hport.applied
  refine ⟨h.pending, fun j => ?_, fun hr => hsame.2 (h.recorded hr),
    h.started.imp_right fun hs => ⟨hs.1, hs.2.imp_right hsame.2⟩⟩
  have hsure := h.calls j
  revert hsure
  show Sure scope s.durable (s.calls j) → Sure scope _ (s.calls j)
  cases s.calls j <;> simp only [Sure, hsame] <;> exact id

theorem next {action : InvocationAction port ι} (hapart : Apart scope s action) :
    Inv scope (s.next action) := by
  unfold InvocationStore.next
  split
  · split
    · next hread => exact h.goto (h.start hapart (.inl hread))
    · next hread => exact h.goto (h.start hapart (.inr hread))
    · exact h
  · split
    · next i _ start late hcall =>
      have hsure := h.calls i
      rw [hcall] at hsure
      split
      · exact h.idle
      · exact h.goto hsure
    · exact h
  · split
    · next hcall =>
      split
      · exact h.idle
      · next hnone => exact h.insert hcall hnone
    · exact h
  · split
    · next hfound =>
      exact h.goto (h.pending _ (Option.eq_some_of_filter_eq_some hfound))
    · exact h
  · split
    · next hcall =>
      split
      · next hsubmit => exact h.submit hport hapart hcall hsubmit
      · exact h.idle
    · exact h
  · split
    · next hcall => exact h.remove hcall (by split_ifs <;> simp)
    · exact h
  · exact h.idle
  · exact h.command hport _

end Inv

/-- In every run in which the starts have one scope and no transition is submitted between the
durable read of a start and its insertion, the invocation is started once. -/
theorem invocation_started_once (hport : port.Lawful) (durable : port.State)
    (scope : ResourceScope) (actions : List (InvocationAction port ι))
    (hapart : Along next (Apart scope) (new durable) actions) :
    (actions.foldl next (new durable)).StartedOnce := by
  have hinit : Inv scope (new durable : InvocationStore port ι) :=
    ⟨nofun, fun _ => trivial, nofun, .inl rfl⟩
  have hinv := hapart.invariant (fun _ _ ha hi => hi.next hport ha) hinit
  rcases hinv.started with hs | ⟨hs, -⟩
  · simp [StartedOnce, hs]
  · simp [StartedOnce, hs]

/-! ### A start that reads too early -/

/-- A journal that has the scope of its row. -/
def rowPort : ProcessRuntimePort where
  State := Option ResourceScope
  Command := Unit
  read row scope := if row = some scope then .run else .unknown
  submitProcessAtEdge row submission :=
    if row.any (· ≠ submission.start.scope) then none else some (some submission.start.scope)
  apply row _ := row

theorem rowPort_lawful : rowPort.Lawful where
  submitted := by
    intro row row' submission hsubmit
    have hrow : row' = some submission.start.scope := by
      simp only [rowPort] at hsubmit
      split at hsubmit
      · cases hsubmit
      · exact (Option.some.inj hsubmit).symm
    exact .inl (if_pos hrow)
  applied := Iff.rfl

def systemStart : ProcessInvocationStart := ⟨⟨0⟩, ⟨"demo.echo"⟩, .system ⟨0⟩, none⟩

def startRun : List (InvocationAction rowPort ℕ) :=
  [.start 0 systemStart, .look 0, .insert 0]

def completeRun : List (InvocationAction rowPort ℕ) :=
  [.transition 0 (.system ⟨0⟩) none none none .completed, .submit 0, .remove 0]

def secondStart : List (InvocationAction rowPort ℕ) := [.start 1 systemStart]

theorem completed_invocation_started_once :
    ((startRun ++ completeRun ++ secondStart).foldl next (new none)).StartedOnce :=
  invocation_started_once rowPort_lawful none (.system ⟨0⟩) _
    ⟨rfl, trivial, trivial, trivial, fun i => by cases i <;> rfl, trivial, rfl, trivial⟩

/-- A second start that read the durable record before the first was completed, and the pending map
after it was removed. -/
theorem early_reader_starts_again :
    ¬ ∀ (port : ProcessRuntimePort), port.Lawful →
      ∀ (durable : port.State) (actions : List (InvocationAction port ℕ)),
        (actions.foldl next (new durable)).StartedOnce := by
  intro hall
  have honce := hall rowPort rowPort_lawful none
    (startRun ++ secondStart ++ completeRun ++ [.look 1, .insert 1])
  exact absurd honce.1 (by decide +kernel)

end InvocationStore

end Ironclaw.Processes
