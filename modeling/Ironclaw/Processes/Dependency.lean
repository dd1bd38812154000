import Ironclaw.Processes.ProcessStep

/-! # The life cycle of a dependency

* `DependencyStep` says everything a command can do to the record of one edge; it is derived
  from the inversion lemmas, command by command.
* `DependencyLifecycle` is the law for a whole run: records move along `legalPredecessors`, a
  closed record keeps its state, and a record past Open carries terminal evidence unless it was
  abandoned.
* `BreaksLifecycle` names the steps that leave the law: a transition that enters Settled, which
  writes the state without the evidence; a submission over an edge that has a record past Open,
  which starts it anew; and the import of records that lack their evidence. -/

namespace Ironclaw.Processes

open ProcessJournalMaterializedState

/-- The record carries evidence with a terminal status. -/
def ProcessDependencyRecord.hasEvidence (record : ProcessDependencyRecord) : Bool :=
  record.terminal.any (·.status.isTerminal)

/-- Past Open a record carries terminal evidence, unless it was abandoned. -/
def ProcessDependencyRecord.Evidenced (record : ProcessDependencyRecord) : Prop :=
  record.state ≠ .open → record.state ≠ .abandoned → record.hasEvidence = true

/-- One state follows another: it is the same, or the other is a legal predecessor. -/
def ProcessDependencyState.Follows (after before : ProcessDependencyState) : Prop :=
  after = before ∨ before ∈ after.legalPredecessors

namespace ProcessDependencyState

theorem not_closed_of_predecessor {after before : ProcessDependencyState}
    (h : before ∈ after.legalPredecessors) : before.isClosed = false := by
  cases after <;> simp only [legalPredecessors, List.mem_cons, List.not_mem_nil, or_false] at h <;>
    rcases h with rfl | rfl | rfl | rfl | rfl <;> rfl

theorem settled_or_abandoned_of_open {after : ProcessDependencyState}
    (h : .open ∈ after.legalPredecessors) : after = .settled ∨ after = .abandoned := by
  cases after <;> simp [legalPredecessors] at h ⊢

theorem Follows.of_closed {after before : ProcessDependencyState} (h : after.Follows before)
    (hclosed : before.isClosed = true) : after = before := by
  rcases h with h | h
  · exact h
  · rw [not_closed_of_predecessor h] at hclosed
    cases hclosed

theorem Follows.open_iff {before : ProcessDependencyState} :
    ProcessDependencyState.open.Follows before ↔ before = .open := by
  simp [Follows, legalPredecessors, eq_comm]

end ProcessDependencyState

/-! ### What a command does to a record -/

/-- The command stores a new process for the submission. -/
inductive TakesSubmission (s : ProcessJournalMaterializedState) :
    StoredProcessCommand → SubmitProcessRequest → Prop
  | submit {request : SubmitProcessRequest} (taken : SubmissionTaken s request) :
      TakesSubmission s (.submit request) request
  | withCheckpoint {request : SubmitProcessRequest} {checkpoint : RecordProcessCheckpointRequest}
      (taken : SubmissionTaken s request) (process : checkpoint.processId = request.processId)
      (scope : checkpoint.scope = request.scope)
      (ref : request.checkpointRef = some ⟨checkpoint.checkpointId.asStr⟩)
      (known : ∀ existing, s.checkpoints.get checkpoint.checkpointId = some existing →
        existing = checkpointRecord checkpoint) :
      TakesSubmission s (.submitWithCheckpoint request checkpoint) request

variable {s : ProcessJournalMaterializedState}

theorem TakesSubmission.taken {c : StoredProcessCommand}
    {request : SubmitProcessRequest} (h : TakesSubmission s c request) :
    SubmissionTaken s request := by
  cases h <;> assumption

/-- What a command can do to the record of one edge, before and after. -/
inductive DependencyStep (s : ProcessJournalMaterializedState) (edge : ProcessId × ProcessId) :
    StoredProcessCommand → Option ProcessDependencyRecord → Option ProcessDependencyRecord → Prop
  | unchanged {c : StoredProcessCommand} {before : Option ProcessDependencyRecord} :
      DependencyStep s edge c before before
  | opened {c : StoredProcessCommand} {record : ProcessDependencyRecord}
      (dependent : (s.processes.get edge.1).isSome) (state : record.state = .open) :
      DependencyStep s edge c none (some record)
  | replaced {c : StoredProcessCommand} {request : SubmitProcessRequest}
      {dependency : ProcessDependencySubmission} {old record : ProcessDependencyRecord}
      (takes : TakesSubmission s c request) (submitted : request.dependency = some dependency)
      (same : edge = (dependency.dependentProcessId, request.processId))
      (state : record.state = .open) : DependencyStep s edge c (some old) (some record)
  | settled {c : StoredProcessCommand} {old record : ProcessDependencyRecord}
      (was : old.state = .open) (state : record.state = .settled)
      (evidence : record.hasEvidence = true) : DependencyStep s edge c (some old) (some record)
  | moved {request : TransitionProcessDependencyRequest}
      {merged : Option (List (String × String))} {old record : ProcessDependencyRecord}
      (same : edge = (request.dependentProcessId, request.dependencyProcessId))
      (scope : sameLineageScope old.scope request.scope = true)
      (door : request.next.terminalDoor = none)
      (metadata : transitionMetadata request.metadata = .ok merged)
      (legal : old.state ∈ request.next.legalPredecessors) (state : record.state = request.next)
      (terminal : record.terminal = old.terminal) :
      DependencyStep s edge (.transitionDependency request) (some old) (some record)
  | closed {c : StoredProcessCommand} {abandon : Bool} {old record : ProcessDependencyRecord}
      (legal : old.state ∈ (closeTarget abandon).legalPredecessors)
      (state : record.state = closeTarget abandon) (terminal : record.terminal = old.terminal) :
      DependencyStep s edge c (some old) (some record)

section Commands

variable {s s' : ProcessJournalMaterializedState} {o : StoredCommandOutcome}
  (edge : ProcessId × ProcessId)

variable {c : StoredProcessCommand}

theorem put_dependencyStep {record : ProcessDependencyRecord}
    {old : Option ProcessDependencyRecord} (hold : s.dependencies.get record.edge = old)
    (hstep : edge = record.edge → DependencyStep s edge c old (some record)) :
    DependencyStep s edge c (s.dependencies.get edge) ((s.dependencies.put record).get edge) := by
  rw [Table.get_put]
  split_ifs with h
  · rw [← h, hold, h]
    exact hstep h.symm
  · exact .unchanged

variable {request : SubmitProcessRequest}

theorem submission_dependencyStep (htakes : TakesSubmission s c request)
    (tree : Option (ProcessId × ℕ)) :
    DependencyStep s edge c (s.dependencies.get edge)
      ((s.storeSubmission request tree).dependencies.get edge) := by
  show DependencyStep s edge c (s.dependencies.get edge)
    (((submittedDependency request).elim s.dependencies s.dependencies.put).get edge)
  cases hd : request.dependency with
  | none =>
    simp only [submittedDependency, hd]
    exact .unchanged
  | some dependency =>
    simp only [submittedDependency, hd, Option.map_some, Option.elim_some]
    refine put_dependencyStep edge rfl fun hedge => ?_
    rw [← hedge]
    cases s.dependencies.get edge with
    | none => exact .opened (hedge ▸ htakes.taken.dependent_stored hd) rfl
    | some old => exact .replaced htakes hd hedge rfl

theorem applySubmit_dependencyStep (h : s.applySubmit request = .ok (o, s')) :
    DependencyStep s edge (.submit request) (s.dependencies.get edge)
      (s'.dependencies.get edge) := by
  rcases applySubmit_taken h with ⟨rfl, -⟩ | ⟨tree, htaken, -, rfl, -⟩
  · exact .unchanged
  · exact submission_dependencyStep edge (.submit htaken) tree

theorem applyCheckpoint_known {request : RecordProcessCheckpointRequest}
    (h : s.applyCheckpoint request = .ok (o, s')) :
    ∀ existing, s.checkpoints.get request.checkpointId = some existing →
      existing = checkpointRecord request := by
  intro existing hexisting
  simp only [applyCheckpoint, bind_eq_ok, hexisting, rejectIf_eq_ok, not_not] at h
  obtain ⟨-, -, -, -, -, heq, -⟩ := h
  exact heq

theorem applySubmitWithCheckpoint_dependencyStep {checkpoint : RecordProcessCheckpointRequest}
    (h : s.applySubmitWithCheckpoint request checkpoint = .ok (o, s')) :
    DependencyStep s edge (.submitWithCheckpoint request checkpoint) (s.dependencies.get edge)
      (s'.dependencies.get edge) := by
  obtain ⟨hp, hscope, href, ⟨-, rfl⟩ | ⟨snapshot, submitted, o', rfl, hsub, hrec⟩⟩ :=
    applySubmitWithCheckpoint_ok h
  · exact .unchanged
  · rcases applySubmit_taken hsub with ⟨-, _, ho⟩ | ⟨tree, htaken, -, rfl, -⟩
    · cases ho
    · have hknown : ∀ existing, s.checkpoints.get checkpoint.checkpointId = some existing →
          existing = checkpointRecord checkpoint :=
        applyCheckpoint_known (s := s.storeSubmission request tree) hrec
      have hstep := submission_dependencyStep edge
        (.withCheckpoint htaken hp hscope href hknown) tree
      obtain ⟨_, -, rfl | ⟨-, rfl⟩⟩ := applyCheckpoint_ok hrec
      · exact hstep
      · exact hstep

theorem applyOpenDependency_dependencyStep {request : OpenProcessDependencyRequest}
    (h : s.applyOpenDependency request = .ok (o, s')) :
    DependencyStep s edge (.openDependency request) (s.dependencies.get edge)
      (s'.dependencies.get edge) := by
  rcases applyOpenDependency_ok h with rfl | ⟨record, hnone, hdependent, hopen, rfl⟩
  · exact .unchanged
  · exact put_dependencyStep edge hnone fun hedge => .opened (hedge ▸ hdependent) hopen

theorem applySettleDependency_dependencyStep {request : SettleProcessDependencyRequest}
    (h : s.applySettleDependency request = .ok (o, s')) :
    DependencyStep s edge (.settleDependency request) (s.dependencies.get edge)
      (s'.dependencies.get edge) := by
  rcases applySettleDependency_ok h with rfl | ⟨record, hg, hopen, hterminal, rfl⟩
  · exact .unchanged
  · have hold := Table.get_of_mem (Table.mem_of_get hg)
    refine put_dependencyStep edge hold fun _ => ?_
    exact .settled hopen rfl (by simpa [ProcessDependencyRecord.hasEvidence] using hterminal)

theorem applyTransitionDependency_dependencyStep {request : TransitionProcessDependencyRequest}
    (h : s.applyTransitionDependency request = .ok (o, s')) :
    DependencyStep s edge (.transitionDependency request) (s.dependencies.get edge)
      (s'.dependencies.get edge) := by
  rcases applyTransitionDependency_ok h with
    rfl | ⟨record, merged, hg, hscope, hdoor, hmerged, hlegal, rfl⟩
  · exact .unchanged
  · have hold := Table.get_of_mem (Table.mem_of_get hg)
    have hkey := Table.key_of_get hg
    refine put_dependencyStep edge hold fun hedge => ?_
    exact .moved (hedge.trans hkey) hscope hdoor hmerged hlegal rfl rfl

theorem applyCloseDependency_dependencyStep {request : CloseProcessDependencyRequest}
    {abandon : Bool}
    (h : s.applyCloseDependency request abandon = .ok (o, s')) :
    DependencyStep s edge c (s.dependencies.get edge) (s'.dependencies.get edge) := by
  rcases applyCloseDependency_ok h with ⟨rfl, -⟩ | ⟨existing, trees, hg, -, -, hlegal, -, rfl⟩
  · exact .unchanged
  · have hold := Table.get_of_mem (Table.mem_of_get hg)
    refine put_dependencyStep edge hold fun _ => ?_
    exact .closed hlegal rfl rfl

/-- Every accepted command other than an import acts on every edge by a `DependencyStep`. -/
theorem applyCommand_dependencyStep (hc : c.isImport = false) (h : s.applyCommand c = .ok (o, s')) :
    DependencyStep s edge c (s.dependencies.get edge) (s'.dependencies.get edge) := by
  cases c with
  | importLegacyState => cases hc
  | submit => exact applySubmit_dependencyStep edge h
  | submitAtEdge =>
    rcases applySubmitAtEdge_ok h with rfl | ⟨-, -, rfl⟩
    · exact .unchanged
    · exact .unchanged
  | submitWithCheckpoint => exact applySubmitWithCheckpoint_dependencyStep edge h
  | claim request now millis nonce limits =>
    simp only [applyCommand, applyClaim, Except.ok.injEq, Prod.mk.injEq] at h
    obtain ⟨_, _, _, hframe⟩ := claimLoop_frame request now millis nonce limits
      (s.claimableProcessIds request) s []
    rw [← h.2, hframe]
    exact .unchanged
  | heartbeat =>
    obtain ⟨_, -, -, -, rfl⟩ := applyHeartbeat_ok h
    exact .unchanged
  | recoverExpired =>
    obtain ⟨_, hr⟩ := applyRecoverExpired_ok h
    obtain ⟨_, _, _, rfl⟩ := recoverLoop_frame hr
    exact .unchanged
  | leasedTransition =>
    obtain ⟨_, -, -, -, rfl⟩ := applyLeasedTransition_ok h
    exact .unchanged
  | control =>
    rcases applyControl_ok h with ⟨_, rfl, -⟩ | ⟨_, _, _, -, -, -, -, -, -, rfl⟩
    · exact .unchanged
    · exact .unchanged
  | reserveTree =>
    obtain ⟨-, rfl⟩ := applyReserveTree_ok h
    exact .unchanged
  | releaseTree =>
    obtain ⟨_, -, rfl⟩ := applyReleaseTree_ok h
    exact .unchanged
  | pruneTree =>
    obtain ⟨_, rfl⟩ := applyPruneTree_ok h
    exact .unchanged
  | openDependency => exact applyOpenDependency_dependencyStep edge h
  | settleDependency => exact applySettleDependency_dependencyStep edge h
  | transitionDependency => exact applyTransitionDependency_dependencyStep edge h
  | consumeDependency => exact applyCloseDependency_dependencyStep edge h
  | abandonDependency => exact applyCloseDependency_dependencyStep edge h
  | recordCheckpoint =>
    obtain ⟨_, -, rfl | ⟨-, rfl⟩⟩ := applyCheckpoint_ok h
    · exact .unchanged
    · exact .unchanged

theorem advance_dependencyStep (s : ProcessJournalMaterializedState) (hc : c.isImport = false) :
    DependencyStep s edge c (s.dependencies.get edge)
      ((advance applyCommand s c).dependencies.get edge) := by
  cases h : s.applyCommand c with
  | ok result =>
    rw [advance_of_ok (show s.applyCommand c = .ok (result.1, result.2) from h)]
    exact applyCommand_dependencyStep edge hc h
  | error e =>
    rw [advance_of_error h]
    exact .unchanged

end Commands

/-! ### The law and the steps that break it -/

/-- The step leaves the life cycle: it enters Settled through the state column, starts a record
past Open anew, or imports a record without its evidence. -/
inductive BreaksLifecycle (s : ProcessJournalMaterializedState) : StoredProcessCommand → Prop
  | settlesUnevidenced {request : TransitionProcessDependencyRequest}
      {merged : Option (List (String × String))} {record : ProcessDependencyRecord}
      (next : request.next = .settled)
      (stored : s.dependencies.get (request.dependentProcessId, request.dependencyProcessId) =
        some record)
      (scope : sameLineageScope record.scope request.scope = true)
      (metadata : transitionMetadata request.metadata = .ok merged)
      (state : record.state = .open) (unevidenced : record.hasEvidence = false) :
      BreaksLifecycle s (.transitionDependency request)
  | reopens {c : StoredProcessCommand} {request : SubmitProcessRequest}
      {dependency : ProcessDependencySubmission} {record : ProcessDependencyRecord}
      (takes : TakesSubmission s c request) (submitted : request.dependency = some dependency)
      (stored : s.dependencies.get (dependency.dependentProcessId, request.processId) =
        some record)
      (state : record.state ≠ .open) : BreaksLifecycle s c
  | importsUnevidenced {state : ProcessJournalMaterializedState}
      {record : ProcessDependencyRecord} (adopts : adoptsLegacyState s)
      (brought : record ∈ state.dependencies.rows) (unevidenced : ¬ record.Evidenced) :
      BreaksLifecycle s (.importLegacyState state)

/-- The law of one step, for every edge. -/
structure LawfulStep (x : JournalStep) : Prop where
  moves : ∀ edge before, x.pre.dependencies.get edge = some before →
    ∃ after, x.post.dependencies.get edge = some after ∧ after.state.Follows before.state
  born : x.command.isImport = false → ∀ edge after, x.pre.dependencies.get edge = none →
    x.post.dependencies.get edge = some after → after.state = .open
  evidenced : ∀ edge after, x.post.dependencies.get edge = some after → after.Evidenced

/-- The law of a run: every step moves records along the relation and leaves evidence behind
them, and a closed record keeps its state from then on. -/
structure DependencyLifecycle (history : List JournalStep) : Prop where
  lawful : ∀ x ∈ history, LawfulStep x
  absorbing : ∀ earlier x later, history = earlier ++ x :: later → ∀ edge record,
    x.post.dependencies.get edge = some record → record.state.isClosed = true →
    ∀ y ∈ later, ∃ after, y.post.dependencies.get edge = some after ∧
      after.state = record.state

section Steps

variable {s : ProcessJournalMaterializedState} {c : StoredProcessCommand}
  {edge : ProcessId × ProcessId}

theorem DependencyStep.follows {before : ProcessDependencyRecord}
    {after : Option ProcessDependencyRecord} (h : DependencyStep s edge c (some before) after)
    (hold : s.dependencies.get edge = some before) (hlaw : ¬ BreaksLifecycle s c) :
    ∃ record, after = some record ∧ record.state.Follows before.state := by
  cases h with
  | unchanged => exact ⟨before, rfl, .inl rfl⟩
  | replaced takes submitted same state =>
    refine ⟨_, rfl, ?_⟩
    rw [state, ProcessDependencyState.Follows.open_iff]
    by_contra hopen
    exact hlaw (.reopens takes submitted (same ▸ hold) hopen)
  | settled was state => exact ⟨_, rfl, .inr (by simp [was, state, ProcessDependencyState.legalPredecessors])⟩
  | moved same scope door metadata legal state => exact ⟨_, rfl, .inr (state ▸ legal)⟩
  | closed legal state => exact ⟨_, rfl, .inr (state ▸ legal)⟩

variable {record : ProcessDependencyRecord}

theorem DependencyStep.born
    (h : DependencyStep s edge c none (some record)) : record.state = .open := by
  cases h with
  | opened dependent state => exact state

theorem not_abandoned {before after : ProcessDependencyState}
    (h : before ∈ after.legalPredecessors) : before ≠ .abandoned := by
  rintro rfl
  cases ProcessDependencyState.not_closed_of_predecessor h

/-- A step that does not break the life cycle leaves terminal evidence behind. -/
theorem DependencyStep.evidenced {before : Option ProcessDependencyRecord}
    (h : DependencyStep s edge c before (some record))
    (hold : s.dependencies.get edge = before) (hbefore : ∀ r, before = some r → r.Evidenced)
    (hlaw : ¬ BreaksLifecycle s c) : record.Evidenced := by
  cases h with
  | unchanged => exact hbefore _ rfl
  | opened dependent state => exact fun hopen _ => absurd state hopen
  | replaced takes submitted same state => exact fun hopen _ => absurd state hopen
  | settled was state evidence => exact fun _ _ => evidence
  | @moved request merged old _ same scope door metadata legal state terminal =>
    intro _ _
    have hev : record.hasEvidence = old.hasEvidence := by
      simp only [ProcessDependencyRecord.hasEvidence, terminal]
    rw [hev]
    by_cases hopen : old.state = .open
    · -- the only state that a transition enters from Open is Settled
      rw [hopen] at legal
      rcases ProcessDependencyState.settled_or_abandoned_of_open legal with hnext | hnext
      · by_contra hnone
        exact hlaw (.settlesUnevidenced hnext (same ▸ hold) scope metadata hopen
          (Bool.eq_false_iff.mpr hnone))
      · rw [hnext] at door
        cases door
    · exact hbefore old rfl hopen (not_abandoned legal)
  | @closed _ abandon old _ legal state terminal =>
    intro _ habandoned
    have hev : record.hasEvidence = old.hasEvidence := by
      simp only [ProcessDependencyRecord.hasEvidence, terminal]
    rw [hev]
    cases abandon with
    | true => exact absurd state habandoned
    | false =>
      refine hbefore old rfl (fun hopen => ?_) (not_abandoned legal)
      rw [hopen] at legal
      simp [closeTarget, ProcessDependencyState.legalPredecessors] at legal

/-- The law of a step that does not break it, on a state whose records have their evidence and
which has no record before it adopts a legacy state. -/
theorem lawfulStep_of_not_breaks
    (hev : ∀ edge record, s.dependencies.get edge = some record → record.Evidenced)
    (hfresh : adoptsLegacyState s → s.dependencies.rows = []) (hlaw : ¬ BreaksLifecycle s c) :
    LawfulStep ⟨s, c, advance applyCommand s c⟩ := by
  cases hc : c.isImport with
  | false =>
    have hstep := fun edge => advance_dependencyStep edge s hc
    refine ⟨fun edge before hbefore => ?_, fun _ edge after hnone hafter => ?_,
      fun edge after hafter => ?_⟩
    · have h := hstep edge
      rw [show s.dependencies.get edge = some before from hbefore] at h
      exact h.follows hbefore hlaw
    · have h := hstep edge
      rw [show s.dependencies.get edge = none from hnone,
        show (advance applyCommand s c).dependencies.get edge = some after from hafter] at h
      exact h.born
    · have h := hstep edge
      rw [show (advance applyCommand s c).dependencies.get edge = some after from hafter] at h
      exact h.evidenced rfl (hev edge) hlaw
  | true =>
    cases c with
    | importLegacyState state =>
      have hpost : advance applyCommand s (.importLegacyState state) =
          s.importLegacyState state := advance_of_ok (o := .imported) rfl
      by_cases hadopts : adoptsLegacyState s
      · obtain ⟨_, himported⟩ := importLegacyState_adopts hadopts state
        have hafter : (s.importLegacyState state).dependencies = state.dependencies := by
          rw [himported]
        refine ⟨fun edge before hbefore => ?_, fun himport => ?_, fun edge after hget => ?_⟩
        · have hmem := Table.mem_of_get hbefore
          rw [show s.dependencies.rows = [] from hfresh hadopts] at hmem
          cases hmem
        · cases himport
        · by_contra hnot
          rw [hpost, hafter] at hget
          exact hlaw (.importsUnevidenced hadopts (Table.mem_of_get hget) hnot)
      · have hsame : s.importLegacyState state = s := importLegacyState_keeps hadopts state
        rw [hpost, hsame]
        refine ⟨fun edge before hbefore => ⟨before, hbefore, .inl rfl⟩, fun himport => ?_, hev⟩
        cases himport
    | _ => cases hc

theorem applyCheckpoint_accepts {request : RecordProcessCheckpointRequest}
    {stored : JournaledProcessSnapshot} (hstored : s.processes.get request.processId = some stored)
    (hvisible : processScopeVisible stored.scope request.scope = true)
    (hknown : ∀ existing, s.checkpoints.get request.checkpointId = some existing →
      existing = checkpointRecord request) :
    ∃ o s', s.applyCheckpoint request = .ok (o, s') ∧ s'.dependencies = s.dependencies := by
  have hprocess : s.process request.processId = .ok stored := okOr_eq_ok.mpr hstored
  cases hg : s.checkpoints.get request.checkpointId with
  | none =>
    refine ⟨.checkpointed (checkpointRecord request), { s with
      checkpoints := s.checkpoints.put (checkpointRecord request)
      processes := if request.linkToProcess then
        s.processes.put (linkedSnapshot stored request) else s.processes }, ?_, rfl⟩
    simp only [applyCheckpoint, hprocess, hg, bind_eq_ok, rejectIf_eq_ok, exists_const,
      Except.ok.injEq, exists_eq_left', pure_eq_ok]
    exact ⟨by simp [hvisible], trivial⟩
  | some existing =>
    refine ⟨.checkpointed existing, s, ?_, rfl⟩
    simp only [applyCheckpoint, hprocess, hg, bind_eq_ok, rejectIf_eq_ok, exists_const,
      Except.ok.injEq, exists_eq_left', pure_eq_ok]
    exact ⟨by simp [hvisible], by simp [hknown existing hg], trivial⟩

/-- A submission that is taken is accepted, and its dependency is stored. -/
theorem TakesSubmission.stored {request : SubmitProcessRequest} (h : TakesSubmission s c request) :
    ∃ o s', s.applyCommand c = .ok (o, s') ∧ s'.dependencies =
      (submittedDependency request).elim s.dependencies s.dependencies.put := by
  cases h with
  | submit taken =>
    obtain ⟨tree, hok⟩ := taken.stored
    exact ⟨_, _, hok, rfl⟩
  | @withCheckpoint _ checkpoint taken process scope ref known =>
    obtain ⟨tree, hok⟩ := taken.stored
    have hvisible : processScopeVisible request.scope checkpoint.scope = true := by
      simp [processScopeVisible, sameScopeOwner, scope]
    have hprocess : (s.storeSubmission request tree).processes.get checkpoint.processId =
        some (queuedSnapshot request s.nextCursor) := by
      rw [process]
      exact Table.get_put_self s.processes (queuedSnapshot request s.nextCursor)
    obtain ⟨o', s', hrecord, hdependencies⟩ := applyCheckpoint_accepts hprocess hvisible known
    refine ⟨.submitted (queuedSnapshot request s.nextCursor) true, s', ?_, hdependencies⟩
    simp [applyCommand, applySubmitWithCheckpoint, hok, hrecord, process, scope, ref, bind_eq_ok]

theorem applyTransitionDependency_settles {request : TransitionProcessDependencyRequest}
    {merged : Option (List (String × String))} (hnext : request.next = .settled)
    (hstored : s.dependencies.get (request.dependentProcessId, request.dependencyProcessId) =
      some record)
    (hscope : sameLineageScope record.scope request.scope = true)
    (hmetadata : transitionMetadata request.metadata = .ok merged) (hopen : record.state = .open) :
    let moved := { record with
      state := .settled
      transitionedAt := some request.transitionedAt
      metadata := merged.elim record.metadata record.metadata.extend }
    s.applyTransitionDependency request =
      .ok (.dependency (some moved), { s with dependencies := s.dependencies.put moved }) := by
  intro moved
  have hdoor : ¬ request.next.terminalDoor.isSome := by simp [hnext, ProcessDependencyState.terminalDoor]
  have hne : ¬ record.state = request.next := by simp [hnext, hopen]
  have hlegal : ¬ record.state ∉ request.next.legalPredecessors := by
    simp [hnext, hopen, ProcessDependencyState.legalPredecessors]
  simp only [applyTransitionDependency, hstored, hmetadata, bind_eq_ok, rejectIf_eq_ok,
    exists_const, Except.ok.injEq, exists_eq_left', if_neg hne, pure_eq_ok]
  exact ⟨hdoor, by simp [hscope], hlegal, by simp [moved, hnext]⟩

/-- A lawful step does not break the life cycle. -/
theorem not_breaks_of_lawfulStep (h : LawfulStep ⟨s, c, advance applyCommand s c⟩) :
    ¬ BreaksLifecycle s c := by
  intro hbreaks
  cases hbreaks with
  | @settlesUnevidenced request merged record next stored scope metadata state unevidenced =>
    have hok := applyTransitionDependency_settles next stored scope metadata state
    have hpost : advance applyCommand s (.transitionDependency request) = _ := advance_of_ok hok
    have hev := h.evidenced record.edge _ (by
      simp only [hpost]
      exact Table.get_put_self _ _)
    have hterminal : record.hasEvidence = true := hev (by simp) (by simp)
    rw [unevidenced] at hterminal
    cases hterminal
  | @reopens _ request dependency record takes submitted stored state =>
    obtain ⟨o, s', hok, hdependencies⟩ := takes.stored
    obtain ⟨after, hafter, hfollows⟩ := h.moves _ _ stored
    simp only [advance_of_ok hok, hdependencies, submittedDependency, submitted, Option.map_some,
      Option.elim_some] at hafter
    rw [Table.get_put, if_pos (by rfl), Option.some.injEq] at hafter
    rw [← hafter, ProcessDependencyState.Follows.open_iff] at hfollows
    exact state hfollows
  | @importsUnevidenced imported record adopts brought unevidenced =>
    have hpost : advance applyCommand s (.importLegacyState imported) =
        s.importLegacyState imported := advance_of_ok (o := .imported) rfl
    obtain ⟨_, himported⟩ := importLegacyState_adopts adopts imported
    refine unevidenced (h.evidenced record.edge record ?_)
    simp only [hpost, himported]
    exact Table.get_of_mem brought

end Steps

/-! ### Whole runs -/

/-- A record belongs to a stored process, unless it came with an import. -/
def Rooted (s : ProcessJournalMaterializedState) : Prop :=
  ∀ edge record, s.dependencies.get edge = some record →
    (s.processes.get edge.1).isSome ∨ s.legacyImported = true

theorem Rooted.fresh (h : Rooted s) (hadopts : adoptsLegacyState s) : s.dependencies.rows = [] := by
  rw [List.eq_nil_iff_forall_not_mem]
  intro record hrecord
  rcases h record.edge record (Table.get_of_mem hrecord) with hp | hl
  · obtain ⟨row, hrow⟩ := Option.isSome_iff_exists.mp hp
    have hmem := Table.mem_of_get hrow
    rw [hadopts.2.1] at hmem
    cases hmem
  · rw [hadopts.1] at hl
    cases hl

theorem Rooted.step (h : Rooted s)
    (c : StoredProcessCommand) : Rooted (advance applyCommand s c) := by
  cases hc : c.isImport with
  | true =>
    cases c with
    | importLegacyState state =>
      have hpost : advance applyCommand s (.importLegacyState state) =
          s.importLegacyState state := advance_of_ok (o := .imported) rfl
      rw [hpost]
      by_cases hadopts : adoptsLegacyState s
      · obtain ⟨_, himported⟩ := importLegacyState_adopts hadopts state
        rw [himported]
        exact fun _ _ _ => .inr rfl
      · rw [importLegacyState_keeps hadopts]
        exact h
    | _ => cases hc
  | false =>
    intro edge record hrecord
    have hstored : (s.processes.get edge.1).isSome ∨ s.legacyImported = true := by
      have hstep := advance_dependencyStep edge s hc
      cases hbefore : s.dependencies.get edge with
      | some before => exact h edge before hbefore
      | none =>
        rw [hbefore, hrecord] at hstep
        cases hstep with
        | opened dependent => exact .inl dependent
    rcases hstored with hp | hl
    · obtain ⟨row, hrow⟩ := Option.isSome_iff_exists.mp hp
      have hrows := advance_processStep (p := edge.1) s
        (StoredProcessCommand.spares_of_not_import hc edge.1)
      rw [hrow] at hrows
      exact .inl hrows.isSome_after
    · right
      cases happ : s.applyCommand c with
      | ok result =>
        rw [advance_of_ok (show s.applyCommand c = .ok (result.1, result.2) from happ),
          applyCommand_legacyImported hc happ]
        exact hl
      | error e => rwa [advance_of_error happ]

theorem Rooted.same {s t : ProcessJournalMaterializedState} (hst : SameRows s t) (h : Rooted s) :
    Rooted t := by
  intro edge record hrecord
  rw [← hst.dependencies.get_eq] at hrecord
  rw [← hst.processes_get, ← hst.legacyImported]
  exact h edge record hrecord

/-- Without a step that breaks the life cycle, every step of a run is lawful. -/
theorem run_lawful {history : List JournalStep}
    (run : JournalRun history s) (hlaw : ∀ x ∈ history, ¬ BreaksLifecycle x.pre x.command) :
    ∀ x ∈ history, LawfulStep x := by
  have hinv := run.induct_history (A := fun _ => True)
    (I := fun history s => Rooted s ∧ ((∀ x ∈ history, ¬ BreaksLifecycle x.pre x.command) →
      (∀ edge record, s.dependencies.get edge = some record → record.Evidenced) ∧
        ∀ x ∈ history, LawfulStep x)) ?_ ?_ ?_ (fun _ _ => trivial)
  · exact (hinv.2 hlaw).2
  · exact ⟨fun edge record h => by simp [empty] at h, fun _ =>
      ⟨fun edge record h => by simp [empty] at h, by simp⟩⟩
  · intro history s t hst hI
    refine ⟨hI.1.same hst, fun hall => ⟨fun edge record h => ?_, (hI.2 hall).2⟩⟩
    rw [← hst.dependencies.get_eq] at h
    exact (hI.2 hall).1 edge record h
  · intro history s c _ hI
    refine ⟨hI.1.step c, fun hall => ?_⟩
    simp only [List.mem_append, List.mem_singleton] at hall
    obtain ⟨hev, hbefore⟩ := hI.2 fun x hx => hall x (.inl hx)
    have hstep := lawfulStep_of_not_breaks hev hI.1.fresh (hall _ (.inr rfl))
    refine ⟨hstep.evidenced, fun x hx => ?_⟩
    rcases List.mem_append.mp hx with hx | hx
    · exact hbefore x hx
    · rw [List.mem_singleton.mp hx]
      exact hstep

/-- Along lawful steps a closed record keeps its state. -/
theorem closed_absorbs {u v : ProcessJournalMaterializedState} {later : List JournalStep}
    (run : Run SameRows applyCommand u later v) (hlaw : ∀ y ∈ later, LawfulStep y)
    {edge : ProcessId × ProcessId} {record : ProcessDependencyRecord}
    (hrecord : u.dependencies.get edge = some record) (hclosed : record.state.isClosed = true) :
    (∃ after, v.dependencies.get edge = some after ∧ after.state = record.state) ∧
      ∀ y ∈ later, ∃ after, y.post.dependencies.get edge = some after ∧
        after.state = record.state := by
  induction run with
  | nil => exact ⟨⟨record, hrecord, rfl⟩, by simp⟩
  | snoc c hrun hs ih =>
    simp only [List.mem_append, List.mem_singleton] at hlaw
    obtain ⟨⟨before, hbefore, hstate⟩, hearlier⟩ := ih fun y hy => hlaw y (.inl hy)
    rw [hs.dependencies.get_eq] at hbefore
    obtain ⟨after, hafter, hfollows⟩ := (hlaw _ (.inr rfl)).moves edge before hbefore
    have hkept := hfollows.of_closed (by rw [hstate, hclosed])
    have hlast : ∃ after, (advance applyCommand _ c).dependencies.get edge = some after ∧
        after.state = record.state := ⟨after, hafter, hkept.trans hstate⟩
    refine ⟨hlast, fun y hy => ?_⟩
    rcases List.mem_append.mp hy with hy | hy
    · exact hearlier y hy
    · rw [List.mem_singleton.mp hy]
      exact hlast

/-- **The dependency life cycle.**  In every run, every record moves along the relation, closed
states absorb, and every record past Open and not abandoned carries terminal evidence, exactly
when no step of the run breaks the life cycle. -/
theorem dependency_lifecycle_iff {history : List JournalStep}
    {s : ProcessJournalMaterializedState} (run : JournalRun history s) :
    DependencyLifecycle history ↔ ∀ x ∈ history, ¬ BreaksLifecycle x.pre x.command := by
  constructor
  · intro h x hx
    have hx' := run.post_eq x hx
    obtain ⟨pre, command, post⟩ := x
    simp only at hx'
    subst hx'
    exact not_breaks_of_lawfulStep (h.lawful _ hx)
  · intro h
    have hlawful := run_lawful run h
    refine ⟨hlawful, ?_⟩
    rintro earlier x later rfl edge record hrecord hclosed
    obtain ⟨t, -, hrest⟩ := run.split
    rw [← List.singleton_append] at hrest
    obtain ⟨u, hstep, hlater⟩ := hrest.split
    rw [hstep.singleton.2] at hrecord
    refine (closed_absorbs hlater (fun y hy => ?_) hrecord hclosed).2
    exact hlawful y (List.mem_append_right _ (List.mem_cons_of_mem _ hy))

namespace Sample

/-- Process 1 waits for process 2, which need not exist yet. -/
def openEdge : StoredProcessCommand :=
  .openDependency ⟨processId 1, processId 2, processId 1, scope, none, 0, .null⟩

def settleEdge : StoredProcessCommand :=
  .settleDependency ⟨processId 1, processId 2, scope, ⟨.completed, none, none⟩, 1⟩

def moveEdge (next : ProcessDependencyState) : StoredProcessCommand :=
  .transitionDependency ⟨processId 1, processId 2, scope, next, none, 2⟩

end Sample

open Sample

/-- An edge that is settled, delivered and consumed runs through its life cycle. -/
theorem delivered_edge_lifecycle :
    let steps := Run.trace applyCommand empty [.submit (submission 1), openEdge, settleEdge,
      moveEdge .resultAppended, moveEdge .attentionScheduled,
      .consumeDependency ⟨processId 1, processId 2, scope, 3⟩]
    (∃ x ∈ steps, (x.post.dependencies.get (processId 1, processId 2)).map (·.state) =
      some .consumed) ∧ DependencyLifecycle steps := by
  intro steps
  refine ⟨by decide, ?_⟩
  rw [dependency_lifecycle_iff (JournalRun.of_commands _)]
  intro x hx hbreaks
  simp only [Run.trace, List.mem_cons, List.not_mem_nil, or_false] at hx
  rcases hx with rfl | rfl | rfl | rfl | rfl | rfl
  · cases hbreaks with
    | reopens takes submitted =>
      cases takes
      cases submitted
  · cases hbreaks with
    | reopens takes => cases takes
  · cases hbreaks with
    | reopens takes => cases takes
  · cases hbreaks with
    | settlesUnevidenced next => cases next
    | reopens takes => cases takes
  · cases hbreaks with
    | settlesUnevidenced next => cases next
    | reopens takes => cases takes
  · cases hbreaks with
    | reopens takes => cases takes

/-- The state column takes an Open edge to Settled without any evidence. -/
theorem edge_settled_without_evidence :
    ∃ history s, JournalRun history s ∧ ¬ DependencyLifecycle history ∧
      ∃ record, s.dependencies.get (processId 1, processId 2) = some record ∧
        record.state = .settled ∧ record.terminal = none := by
  refine ⟨_, _, JournalRun.of_commands [.submit (submission 1), openEdge, moveEdge .settled],
    fun h => ?_, _, (Option.some_get (by decide)).symm, by decide, by decide⟩
  have hstep := (h.lawful _ (List.mem_of_getLast? rfl)).evidenced (processId 1, processId 2) _
    (Option.some_get (by decide)).symm
  exact absurd (hstep (by decide) (by decide)) (by decide)

end Ironclaw.Processes
