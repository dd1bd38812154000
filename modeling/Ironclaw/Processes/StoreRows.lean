import Ironclaw.Processes.GroupCommit
import Ironclaw.Processes.Replay

/-! # Replay records and inputs of a reachable store

Two facts about stored rows that a load relies on without checking them: the replay maps agree
with their queues, and an input row belongs to a stored process. `RecordStep` says what one
command does to these rows, `MaterializedRows.WellFormed` collects the facts, and
`storeRun_wellFormed` carries them over every run of the store. -/

namespace Ironclaw.Processes

open ProcessJournalMaterializedState

/-! ### One command -/

/-- What an accepted command does to replay records and inputs: it stores a record under a key
it names, and an input under a process that it leaves Queued. -/
structure RecordStep (c : StoredProcessCommand) (s s' : ProcessJournalMaterializedState) :
    Prop where
  control : s'.controlIdempotency = s.controlIdempotency ∨
    ∃ key ∈ c.loadReferences.controlIdempotencyKeys, ∃ result,
      s'.controlIdempotency = s.controlIdempotency.remember (some key) result
  submission : s'.submissionIdempotency = s.submissionIdempotency ∨
    ∃ key ∈ c.loadReferences.submissionIdempotencyKeys, ∃ snapshot,
      s'.submissionIdempotency = s.submissionIdempotency.remember (some key) snapshot
  inputs : ∀ p, (s'.inputs.get p).isSome → (s.inputs.get p).isSome ∨
    ∃ row, s'.processes.get p = some row ∧ row.status = .queued

namespace RecordStep

variable {c : StoredProcessCommand} {s s' : ProcessJournalMaterializedState}

theorem of_frame (hc : s'.controlIdempotency = s.controlIdempotency)
    (hs : s'.submissionIdempotency = s.submissionIdempotency)
    (hi : s'.inputs = s.inputs) : RecordStep c s s' :=
  ⟨.inl hc, .inl hs, fun p hp => .inl (by rwa [hi] at hp)⟩

theorem inputsAfter_isSome {snapshot : JournaledProcessSnapshot} {p : ProcessId}
    (h : ((s.inputsAfter snapshot).get p).isSome) : (s.inputs.get p).isSome := by
  unfold inputsAfter at h
  split_ifs at h
  · rw [Table.get_remove] at h
    split_ifs at h
    · cases h
    · exact h
  · exact h

variable {request : SubmitProcessRequest}

variable (hkey : ∀ k, submissionReplayKey request = some k → k ∈ c.loadReferences.submissionIdempotencyKeys)
include hkey

theorem storeSubmission {tree : Option (ProcessId × ℕ)} :
    RecordStep c s (s.storeSubmission request tree) where
  control := .inl rfl
  submission := by
    cases hk : submissionReplayKey request with
    | none =>
      refine .inl ?_
      simp only [ProcessJournalMaterializedState.storeSubmission, hk]
      rfl
    | some key =>
      refine .inr ⟨key, hkey key hk, queuedSnapshot request s.nextCursor, ?_⟩
      simp only [ProcessJournalMaterializedState.storeSubmission, hk]
  inputs := fun p hp => by
    change (((submittedInput request).elim s.inputs s.inputs.put).get p).isSome at hp
    cases hi : submittedInput request with
    | none =>
      rw [hi] at hp
      exact .inl hp
    | some record =>
      rw [hi, Option.elim_some, Table.get_put] at hp
      split_ifs at hp with hid
      · obtain ⟨input, -, rfl⟩ := Option.map_eq_some_iff.mp hi
        refine .inr ⟨queuedSnapshot request s.nextCursor, ?_, rfl⟩
        show (s.processes.put (queuedSnapshot request s.nextCursor)).get p = _
        rw [← hid]
        exact Table.get_put_self _ _
      · exact .inl hp

variable {o : StoredCommandOutcome}

theorem applySubmit (h : s.applySubmit request = .ok (o, s')) : RecordStep c s s' := by
  rcases applySubmit_ok h with ⟨rfl, -⟩ | ⟨tree, -, -, -, rfl, -⟩
  · exact of_frame rfl rfl rfl
  · exact storeSubmission hkey

theorem applySubmitWithCheckpoint {checkpoint : RecordProcessCheckpointRequest}
    (h : s.applySubmitWithCheckpoint request checkpoint = .ok (o, s')) : RecordStep c s s' := by
  obtain ⟨-, -, -, ⟨hsub, -⟩ | ⟨_, submitted, o', -, hsub, hrec⟩⟩ := applySubmitWithCheckpoint_ok h
  · exact applySubmit hkey hsub
  · have hfirst : RecordStep c s submitted := applySubmit hkey hsub
    obtain ⟨stored, hg, rfl | ⟨-, rfl⟩⟩ := applyCheckpoint_ok hrec
    · exact hfirst
    · refine ⟨hfirst.control, hfirst.submission, fun p hp => ?_⟩
      rcases hfirst.inputs p hp with hold | ⟨row, hrow, hqueued⟩
      · exact .inl hold
      · right
        simp only
        split_ifs
        · rw [Table.get_put]
          split_ifs with hid
          · refine ⟨_, rfl, ?_⟩
            have hp : stored.processId = p := hid
            rw [Table.key_of_get hg] at hp
            rw [hp, hrow, Option.some.injEq] at hg
            rw [← hg]
            exact hqueued
          · exact ⟨row, hrow, hqueued⟩
        · exact ⟨row, hrow, hqueued⟩

omit hkey

theorem applyControl {mutation : ProcessControlMutation}
    (h : s.applyControl mutation = .ok (o, s')) : RecordStep (.control mutation) s s' := by
  have hremember : ∀ result, s.controlIdempotency.remember (controlReplayKey mutation) result =
      s.controlIdempotency ∨
      ∃ key ∈ (StoredProcessCommand.control mutation).loadReferences.controlIdempotencyKeys,
        ∃ result', s.controlIdempotency.remember (controlReplayKey mutation) result =
          s.controlIdempotency.remember (some key) result' := by
    intro result
    cases hk : controlReplayKey mutation with
    | none => exact .inl rfl
    | some key =>
      exact .inr ⟨key, by simp [StoredProcessCommand.loadReferences, hk], result, rfl⟩
  rcases applyControl_ok h with ⟨_, rfl, rfl | ⟨result, rfl⟩⟩ |
    ⟨stored, status, kind, -, -, -, -, -, -, rfl⟩
  · exact of_frame rfl rfl rfl
  · exact ⟨hremember result, .inl rfl, fun p hp => .inl hp⟩
  · exact ⟨hremember _, .inl rfl, fun p hp => .inl (inputsAfter_isSome hp)⟩

theorem applyCommand (hc : c.isImport = false)
    (h : s.applyCommand c = .ok (o, s')) : RecordStep c s s' := by
  cases c with
  | importLegacyState state => cases hc
  | submit request =>
    exact applySubmit (fun k hk => by
      simp [StoredProcessCommand.loadReferences, SubmitProcessRequest.loadReferences, hk]) h
  | submitAtEdge request =>
    rcases applySubmitAtEdge_ok h with rfl | ⟨-, -, rfl⟩
    · exact of_frame rfl rfl rfl
    · exact of_frame rfl rfl rfl
  | submitWithCheckpoint request checkpoint =>
    exact applySubmitWithCheckpoint (fun k hk => by
      simp [StoredProcessCommand.loadReferences, SubmitProcessRequest.loadReferences, hk]) h
  | claim request now millis nonce limits =>
    simp only [ProcessJournalMaterializedState.applyCommand, applyClaim, Except.ok.injEq,
      Prod.mk.injEq] at h
    obtain ⟨_, _, _, hframe⟩ := claimLoop_frame request now millis nonce limits
      (s.claimableProcessIds request) s []
    rw [← h.2, hframe]
    exact of_frame rfl rfl rfl
  | heartbeat request now millis =>
    obtain ⟨_, -, -, -, rfl⟩ := applyHeartbeat_ok h
    exact of_frame rfl rfl rfl
  | recoverExpired request millis =>
    obtain ⟨_, hr⟩ := applyRecoverExpired_ok h
    obtain ⟨_, _, _, rfl⟩ := recoverLoop_frame hr
    exact of_frame rfl rfl rfl
  | leasedTransition request mutation =>
    obtain ⟨stored, -, -, -, rfl⟩ := applyLeasedTransition_ok h
    exact ⟨.inl rfl, .inl rfl, fun p hp => .inl (inputsAfter_isSome hp)⟩
  | control mutation => exact applyControl h
  | reserveTree request =>
    obtain ⟨-, rfl⟩ := applyReserveTree_ok h
    exact of_frame rfl rfl rfl
  | releaseTree request =>
    obtain ⟨_, -, rfl⟩ := applyReleaseTree_ok h
    exact of_frame rfl rfl rfl
  | pruneTree request =>
    obtain ⟨_, rfl⟩ := applyPruneTree_ok h
    exact of_frame rfl rfl rfl
  | openDependency request =>
    rcases applyOpenDependency_ok h with rfl | ⟨_, -, -, -, rfl⟩
    · exact of_frame rfl rfl rfl
    · exact of_frame rfl rfl rfl
  | settleDependency request =>
    rcases applySettleDependency_ok h with rfl | ⟨_, -, -, -, rfl⟩
    · exact of_frame rfl rfl rfl
    · exact of_frame rfl rfl rfl
  | transitionDependency request =>
    rcases applyTransitionDependency_ok h with rfl | ⟨_, _, -, -, -, -, -, rfl⟩
    · exact of_frame rfl rfl rfl
    · exact of_frame rfl rfl rfl
  | consumeDependency request =>
    rcases applyCloseDependency_ok h with ⟨rfl, -⟩ | ⟨_, _, -, -, -, -, -, rfl⟩
    · exact of_frame rfl rfl rfl
    · exact of_frame rfl rfl rfl
  | abandonDependency request =>
    rcases applyCloseDependency_ok h with ⟨rfl, -⟩ | ⟨_, _, -, -, -, -, -, rfl⟩
    · exact of_frame rfl rfl rfl
    · exact of_frame rfl rfl rfl
  | recordCheckpoint request =>
    obtain ⟨_, -, rfl | ⟨-, rfl⟩⟩ := applyCheckpoint_ok h
    · exact of_frame rfl rfl rfl
    · exact of_frame rfl rfl rfl

end RecordStep

/-! ### Whole batches -/

namespace MaterializedRows

/-- The replay map of controls, as stored. -/
def controls (d : MaterializedRows) : IdempotencyRecords ControlReplayKey ProcessControlResult :=
  ⟨d.controlIdempotency, d.order.controlOrder⟩

/-- The replay map of submissions, as stored. -/
def submissions (d : MaterializedRows) :
    IdempotencyRecords SubmissionReplayKey JournaledProcessSnapshot :=
  ⟨d.submissionIdempotency, d.order.submissionOrder⟩

variable {d : MaterializedRows} {batch : List StoredProcessCommand}

@[simp] theorem started_controlIdempotency :
    (d.started batch).controlIdempotency = (d.loaded batch).controlIdempotency := by
  unfold started reserveCursors
  split_ifs <;> rfl

@[simp] theorem started_submissionIdempotency :
    (d.started batch).submissionIdempotency = (d.loaded batch).submissionIdempotency := by
  unfold started reserveCursors
  split_ifs <;> rfl

@[simp] theorem started_inputs : (d.started batch).inputs = Table.empty := by
  unfold started reserveCursors
  split_ifs <;> rfl

theorem loaded_controls (hd : d.controls.WellFormed) {R : ProcessControlResult →
    ProcessControlResult → Prop} (hR : ∀ v, R v v) :
    ReplayTracks R d.controlIdempotency (d.loaded batch).controlIdempotency.records
      d.order.controlOrder (batchReferences batch).controlIdempotencyKeys d.controls
      (d.loaded batch).controlIdempotency :=
  ReplayTracks.of_load hd hR _

theorem loaded_submissions (hd : d.submissions.WellFormed) {R : JournaledProcessSnapshot →
    JournaledProcessSnapshot → Prop} (hR : ∀ v, R v v) :
    ReplayTracks R d.submissionIdempotency (d.loaded batch).submissionIdempotency.records
      d.order.submissionOrder (batchReferences batch).submissionIdempotencyKeys d.submissions
      (d.loaded batch).submissionIdempotency :=
  ReplayTracks.of_load hd hR _

/-- What a batch leaves of the inputs it works on: an input of the working state belongs to a
process there, and a process that was loaded stays. -/
structure BatchInputs (d : MaterializedRows) (batch : List StoredProcessCommand)
    (t : ProcessJournalMaterializedState) : Prop where
  inputs : ∀ p, (t.inputs.get p).isSome → (t.processes.get p).isSome
  kept : ∀ p, ((d.loaded batch).processes.get p).isSome → (t.processes.get p).isSome

theorem BatchInputs.start : BatchInputs d batch (d.started batch) :=
  ⟨by simp, by simp⟩

theorem BatchInputs.of_adopts {t : ProcessJournalMaterializedState} (h : BatchInputs d batch t)
    (hadopts : adoptsLegacyState t) (p : ProcessId) :
    (d.loaded batch).processes.get p = none ∧ t.inputs.get p = none := by
  have hnone : ¬ (t.processes.get p).isSome := by
    intro hsome
    obtain ⟨row, hrow⟩ := Option.isSome_iff_exists.mp hsome
    have hmem := Table.mem_of_get hrow
    rw [hadopts.2.1] at hmem
    cases hmem
  exact ⟨Option.not_isSome_iff_eq_none.mp fun hsome => hnone (h.kept p hsome),
    Option.not_isSome_iff_eq_none.mp fun hsome => hnone (h.inputs p hsome)⟩

/-- A command keeps this if, being an import, it brings inputs along with their processes. -/
theorem BatchInputs.step {t t' : ProcessJournalMaterializedState} {c : StoredProcessCommand}
    {o : StoredCommandOutcome} (happ : t.applyCommand c = .ok (o, t'))
    (himport : ∀ state, c = .importLegacyState state → adoptsLegacyState t →
      ∀ p, (state.inputs.get p).isSome → (state.processes.get p).isSome)
    (ht : BatchInputs d batch t) : BatchInputs d batch { t' with journal := [] } := by
  cases hc : c.isImport with
  | true =>
    cases c with
    | importLegacyState state =>
      rw [applyCommand, Except.ok.injEq, Prod.mk.injEq] at happ
      rw [← happ.2]
      by_cases hadopts : adoptsLegacyState t
      · obtain ⟨_, himported⟩ := importLegacyState_adopts hadopts state
        rw [himported]
        refine ⟨himport state rfl hadopts, fun p hp => ?_⟩
        rw [(ht.of_adopts hadopts p).1] at hp
        cases hp
      · rw [importLegacyState_keeps hadopts]
        exact ⟨ht.inputs, ht.kept⟩
    | _ => cases hc
  | false =>
    have hrow : ∀ p, (t.processes.get p).isSome → (t'.processes.get p).isSome := by
      intro p hp
      have hs := advance_processStep t (StoredProcessCommand.spares_of_not_import hc p)
      rw [advance_of_ok happ] at hs
      obtain ⟨row, hrow⟩ := Option.isSome_iff_exists.mp hp
      rw [hrow] at hs
      exact hs.isSome_after
    refine ⟨fun p hp => ?_, fun p hp => hrow p (ht.kept p hp)⟩
    rcases (RecordStep.applyCommand hc happ).inputs p hp with hold | ⟨row, hnew, -⟩
    · exact hrow p (ht.inputs p hold)
    · exact Option.isSome_of_eq_some hnew

/-- If a batch keeps inputs with their processes, the store does. -/
theorem BatchInputs.persist {entries : List ProcessJournalEntry} {sequence : ProcessJournalCursor}
    {d' : MaterializedRows} (hlast : BatchInputs d batch (d.executed batch))
    (hd : ∀ p, d.processes.get p = none → d.inputs.get p = none)
    (h : d.persist (d.loaded batch) (d.executed batch) entries sequence = .ok d') (p : ProcessId)
    (hp : d'.processes.get p = none) : d'.inputs.get p = none := by
  unfold MaterializedRows.persist at h
  split_ifs at h
  rw [Except.ok.injEq] at h
  rw [← h] at hp ⊢
  simp only [Table.get_overlay, Option.or_eq_none_iff] at hp ⊢
  have hinput : (d.executed batch).inputs.get p = none := by
    cases hi : (d.executed batch).inputs.get p with
    | none => rfl
    | some input =>
      have hsome := hlast.inputs p (by simp [hi])
      rw [hp.1] at hsome
      cases hsome
  -- a row that was loaded is still there, so there was none
  have hstored : d.processes.get p = none := by
    cases hl : (d.loaded batch).processes.get p with
    | some row =>
      have hsome := hlast.kept p (by simp [hl])
      rw [hp.1] at hsome
      cases hsome
    | none =>
      have hrest := hp.2
      rw [hl] at hrest
      simpa using hrest
  refine ⟨hinput, ?_⟩
  rw [hd p hstored]
  split_ifs <;> rfl

end MaterializedRows

end Ironclaw.Processes
