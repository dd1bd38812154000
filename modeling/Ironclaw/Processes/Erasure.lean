import Ironclaw.Processes.StoreRows

/-! # Private inputs of ended processes

An input row should not outlive its process. `Ends` says when a command ends a process;
`LeavesInput` says when it does so and the input stays: the row was stored by an earlier batch,
which no load brings in, or the command is a recovery, which erases nothing. `BringsInput` says
when an import brings such an input along. -/

namespace Ironclaw.Processes

open ProcessJournalMaterializedState

/-- The command takes the process with the given row to a terminal status. -/
inductive Ends (s : ProcessJournalMaterializedState) (row : JournaledProcessSnapshot) :
    StoredProcessCommand → Prop
  | transition {request : ProcessLeaseRequest} {mutation : ProcessTransitionMutation}
      (process : request.processId = row.processId)
      (lease : holdsLease row request.workerId request.leaseToken = true)
      (valid : transitionValid row.status (effectiveMutation row mutation).status = true)
      (terminal : (effectiveMutation row mutation).status.isTerminal = true) :
      Ends s row (.leasedTransition request mutation)
  | control {mutation : ProcessControlMutation} {status : ProcessLifecycleStatus}
      {kind : ProcessJournalKind} (process : mutation.processId = row.processId)
      (fresh : (controlReplayKey mutation).bind s.controlIdempotency.get = none)
      (visible : processScopeVisible row.scope mutation.scope = true)
      (current : ∀ expected, mutation.expectedCursor = some expected →
        expected = row.journalCursor)
      (moves : controlTransition row mutation.action = .ok (some (status, kind)))
      (terminal : status.isTerminal = true) : Ends s row (.control mutation)
  | recovery {request : RecoverExpiredProcessLeasesRequest} {millis : UInt64}
      (selected : filtersSelect request.scopeFilter request.processKindFilter row = true)
      (expired : leaseExpired request.now row = true)
      (grace : requeueAwaitsGrace row request.now millis = false)
      (terminal : (recoveryDecision row).1.isTerminal = true) :
      Ends s row (.recoverExpired request millis)

/-- Whether the command is a recovery of expired leases. -/
def StoredProcessCommand.isRecovery : StoredProcessCommand → Bool
  | .recoverExpired _ _ => true
  | _ => false

/-- On the rows `d`, the command ends a process in the state `s` of its batch and leaves the
process's input behind. -/
def LeavesInput (d : MaterializedRows) (s : ProcessJournalMaterializedState)
    (c : StoredProcessCommand) : Prop :=
  ∃ row ∈ s.processes.rows, Ends s row c ∧
    ((d.inputs.get row.processId).isSome ∨
      (c.isRecovery = true ∧ (s.inputs.get row.processId).isSome))

/-- The command is an import that is adopted and brings an input of a process that it does not
bring alive. -/
def BringsInput (s : ProcessJournalMaterializedState) : StoredProcessCommand → Prop
  | .importLegacyState state => adoptsLegacyState s ∧ ∃ input ∈ state.inputs.rows,
      ∀ row, state.processes.get input.processId = some row → row.status.isTerminal = true
  | _ => False

/-! ### One command -/

section Step

variable {s s' : ProcessJournalMaterializedState} {o : StoredCommandOutcome} {p : ProcessId}

/-- How a process can have a terminal row after a command: it had one, it is new, or the
command ended it. -/
inductive TerminalStep (s s' : ProcessJournalMaterializedState) (p : ProcessId)
    (c : StoredProcessCommand) : Prop
  | kept {row : JournaledProcessSnapshot} (stored : s.processes.get p = some row)
      (terminal : row.status.isTerminal = true) : TerminalStep s s' p c
  | born (absent : s.processes.get p = none) (named : p ∈ c.loadReferences.processIds) :
      TerminalStep s s' p c
  | ended {row : JournaledProcessSnapshot} (stored : s.processes.get p = some row)
      (ends : Ends s row c) (erased : c.isRecovery = true ∨ s'.inputs.get p = none) :
      TerminalStep s s' p c

theorem inputsAfter_get {snapshot : JournaledProcessSnapshot} (hp : snapshot.processId = p)
    (h : snapshot.status.isTerminal = true) : (s.inputsAfter snapshot).get p = none := by
  rw [inputsAfter, if_pos h, Table.get_remove, if_pos hp]

theorem applyRecoverExpired_terminalStep {request : RecoverExpiredProcessLeasesRequest}
    {millis : UInt64} (h : s.applyRecoverExpired request millis = .ok (o, s'))
    {after : JournaledProcessSnapshot} (hafter : s'.processes.get p = some after)
    (hterminal : after.status.isTerminal = true) :
    TerminalStep s s' p (.recoverExpired request millis) := by
  obtain ⟨recovered, hr⟩ := applyRecoverExpired_ok h
  rcases recoverLoop_get p _ s _ _ hr (nodup_expiredProcessIds request)
    with hsame | ⟨hp, stored, _, hg, ⟨hgrace, cursor, rfl⟩, hnew⟩
  · exact .kept (hsame.symm.trans hafter) hterminal
  · obtain ⟨stored', hg', hselect, hexpired⟩ := mem_expiredProcessIds.mp hp
    rw [hg, Option.some.injEq] at hg'
    subst hg'
    rw [hafter, Option.some.injEq] at hnew
    subst hnew
    exact .ended hg (.recovery hselect hexpired hgrace hterminal) (.inl rfl)

theorem applyCommand_terminalStep {c : StoredProcessCommand} (hc : c.isImport = false)
    (h : s.applyCommand c = .ok (o, s')) {after : JournaledProcessSnapshot}
    (hafter : s'.processes.get p = some after) (hterminal : after.status.isTerminal = true) :
    TerminalStep s s' p c := by
  have hstep := applyCommand_processStep (p := p) hc h
  rw [hafter] at hstep
  generalize hbefore : s.processes.get p = before at hstep
  cases hstep with
  | unchanged => exact .kept hbefore hterminal
  | submitted => cases hterminal
  | submittedWithCheckpoint process owner lock link =>
    rcases link with rfl | ⟨-, rfl⟩
    · cases hterminal
    · cases hterminal
  | submittedAtEdge process =>
    exact .born hbefore (by simp [StoredProcessCommand.loadReferences, process])
  | claimed => cases hterminal
  | renewed => exact .kept hbefore hterminal
  | recovered => exact applyRecoverExpired_terminalStep h hafter hterminal
  | @transitioned request mutation stored cursor process lease valid =>
    have hkey : stored.processId = p := Table.key_of_get hbefore
    refine .ended hbefore (.transition (process.trans hkey.symm) lease valid hterminal) (.inr ?_)
    obtain ⟨stored', hg, -, -, rfl⟩ := applyLeasedTransition_ok h
    rw [process, hbefore, Option.some.injEq] at hg
    subst hg
    exact inputsAfter_get (by simp [hkey]) hterminal
  | @controlled mutation stored status kind cursor process fresh visible current transition moves =>
    have hkey : stored.processId = p := Table.key_of_get hbefore
    refine .ended hbefore (.control (process.trans hkey.symm) fresh visible current transition
      hterminal) (.inr ?_)
    rcases applyControl_ok h with
      ⟨_, rfl, -⟩ | ⟨stored', status', kind', -, hg, -, -, htransition, -, rfl⟩
    · -- a control that writes no row has not moved the process
      rw [show s.processes.get p = _ from hafter, Option.some.injEq] at hbefore
      exact absurd (congrArg JournaledProcessSnapshot.status hbefore) moves
    · rw [process, hbefore, Option.some.injEq] at hg
      subst hg
      rw [transition, Except.ok.injEq, Option.some.injEq, Prod.mk.injEq] at htransition
      obtain ⟨rfl, -⟩ := htransition
      exact inputsAfter_get (by simp [hkey]) hterminal
  | linked => exact .kept hbefore hterminal

end Step

/-! ### Whole batches -/

namespace MaterializedRows

variable {d : MaterializedRows} {batch : List StoredProcessCommand}

/-- No stored input belongs to a process that has ended. -/
def InputsErased (d : MaterializedRows) : Prop :=
  ∀ p row, d.processes.get p = some row → row.status.isTerminal = true → d.inputs.get p = none

/-- No command of the batch leaves the input of a process it ends, and none brings such an
input. -/
def ErasesInputs (d : MaterializedRows) (batch : List StoredProcessCommand) : Prop :=
  ∀ x ∈ d.batchSteps batch, ¬ LeavesInput d x.1 x.2 ∧ ¬ BringsInput x.1 x.2

theorem BatchInputs.absent {t : ProcessJournalMaterializedState} (h : BatchInputs d batch t)
    {c : StoredProcessCommand} (hc : c ∈ batch) {p : ProcessId}
    (hp : p ∈ c.loadReferences.processIds) (hnone : t.processes.get p = none) :
    d.processes.get p = none := by
  have hname := (batchReferences_includes hc).processIds p hp
  cases hstored : d.processes.get p with
  | none => rfl
  | some row =>
    have hkey : row.processId = p := Table.key_of_get hstored
    have hloaded : ((d.loaded batch).processes.get p).isSome := by
      rw [loaded_processes_get, hstored]
      simp [loadedProcessIds, hkey, hname]
    have hsome := h.kept p hloaded
    rw [hnone] at hsome
    cases hsome

/-- In the working state of a batch, a process that has ended has an input neither there nor in
the store, unless its row cannot be written. -/
def BatchErased (d : MaterializedRows) (batch : List StoredProcessCommand)
    (t : ProcessJournalMaterializedState) : Prop :=
  ∀ p row, t.processes.get p = some row → row.status.isTerminal = true →
    t.inputs.get p = none ∧ (d.inputs.get p = none ∨ d.Unloaded batch p)

section BatchStep

variable {t t' : ProcessJournalMaterializedState} {c : StoredProcessCommand}
  {o : StoredCommandOutcome}

/-- An import whose inputs belong to live processes keeps the working state erased. -/
theorem BatchErased.importLegacyState {state : ProcessJournalMaterializedState}
    (hd : ∀ p, d.processes.get p = none → d.inputs.get p = none)
    (hinputs : BatchInputs d batch t) (hkeeps : ¬ BringsInput t (.importLegacyState state))
    (h : BatchErased d batch t) :
    BatchErased d batch { t.importLegacyState state with journal := [] } := by
  by_cases hadopts : adoptsLegacyState t
  · obtain ⟨_, himported⟩ := importLegacyState_adopts hadopts state
    rw [himported]
    intro p row hrow hterminal
    constructor
    · by_contra hsome
      obtain ⟨input, hinput⟩ := Option.ne_none_iff_exists'.mp hsome
      refine hkeeps ⟨hadopts, input, Table.mem_of_get hinput, fun row' hrow' => ?_⟩
      have hp : input.processId = p := Table.key_of_get hinput
      rw [hp, show state.processes.get p = _ from hrow, Option.some.injEq] at hrow'
      rw [← hrow']
      exact hterminal
    · cases hstored : d.processes.get p with
      | none => exact .inl (hd p hstored)
      | some stored => exact .inr ⟨by simp [hstored], (hinputs.of_adopts hadopts p).1⟩
  · rw [importLegacyState_keeps hadopts]
    exact h

/-- A command that leaves no input keeps the working state erased. -/
theorem BatchErased.step (hd : ∀ p, d.processes.get p = none → d.inputs.get p = none)
    (hinputs : BatchInputs d batch t) (hc : c ∈ batch) (himport : c.isImport = false)
    (happ : t.applyCommand c = .ok (o, t')) (hkeeps : ¬ LeavesInput d t c)
    (h : BatchErased d batch t) : BatchErased d batch { t' with journal := [] } := by
  intro p row hrow hterminal
  have hrecord := RecordStep.applyCommand himport happ
  -- an input that is there afterwards was there before, since the process is not Queued
  have hold : t.inputs.get p = none → t'.inputs.get p = none := by
    intro hnone
    by_contra hsome
    rcases hrecord.inputs p (Option.isSome_iff_ne_none.mpr hsome) with h' | ⟨row', hrow', hqueued⟩
    · rw [hnone] at h'
      cases h'
    · rw [show t'.processes.get p = some row from hrow, Option.some.injEq] at hrow'
      rw [hrow', hqueued] at hterminal
      cases hterminal
  cases applyCommand_terminalStep himport happ hrow hterminal with
  | kept stored terminal =>
    obtain ⟨hinput, hstored⟩ := h p _ stored terminal
    exact ⟨hold hinput, hstored⟩
  | born absent named =>
    refine ⟨hold ?_, .inl (hd p (hinputs.absent hc named absent))⟩
    by_contra hsome
    have hp := hinputs.inputs p (Option.isSome_iff_ne_none.mpr hsome)
    rw [absent] at hp
    cases hp
  | @ended before stored ends erased =>
    have hkey : before.processId = p := Table.key_of_get stored
    have hnot : ¬ ((d.inputs.get p).isSome ∨ (c.isRecovery = true ∧ (t.inputs.get p).isSome)) := by
      intro hinput
      exact hkeeps ⟨before, Table.mem_of_get stored, ends, by rwa [hkey]⟩
    rw [not_or, not_and] at hnot
    refine ⟨?_, .inl (Option.not_isSome_iff_eq_none.mp hnot.1)⟩
    rcases erased with hrecovery | hnone
    · exact hold (Option.not_isSome_iff_eq_none.mp (hnot.2 hrecovery))
    · exact hnone

end BatchStep

theorem executed_batchErased (hd : ∀ p, d.processes.get p = none → d.inputs.get p = none)
    (herased : d.InputsErased) (hbatch : d.ErasesInputs batch) :
    BatchInputs d batch (d.executed batch) ∧ BatchErased d batch (d.executed batch) := by
  refine executed_invariant (I := fun t => BatchInputs d batch t ∧ BatchErased d batch t) ?_ ?_
  · refine ⟨.start, fun p row hrow hterminal => ?_⟩
    rw [started_processes] at hrow
    rcases loaded_get_cases d batch p with hl | hl
    · exact ⟨by simp, .inl (herased p row (hl ▸ hrow) hterminal)⟩
    · rw [hl] at hrow
      cases hrow
  · rintro t c o t' hm happ ⟨hinputs, ht⟩
    obtain ⟨hleaves, hbrings⟩ := hbatch _ hm
    constructor
    · refine hinputs.step happ ?_
      rintro state rfl hadopts p hp
      obtain ⟨input, hinput⟩ := Option.isSome_iff_exists.mp hp
      by_contra hnone
      refine hbrings ⟨hadopts, input, Table.mem_of_get hinput, fun row hrow => ?_⟩
      rw [show input.processId = p from Table.key_of_get hinput] at hrow
      exact absurd (Option.isSome_of_eq_some hrow) hnone
    · cases hc : c.isImport with
      | false => exact ht.step hd hinputs (command_mem_of_batchSteps hm) hc happ hleaves
      | true =>
        cases c with
        | importLegacyState state =>
          rw [applyCommand, Except.ok.injEq, Prod.mk.injEq] at happ
          rw [← happ.2]
          exact ht.importLegacyState hd hinputs hbrings
        | _ => cases hc

/-- A batch that leaves no input keeps the store erased. -/
theorem InputsErased.afterBatch (hd : ∀ p, d.processes.get p = none → d.inputs.get p = none)
    (herased : d.InputsErased) (hbatch : d.ErasesInputs batch) :
    (∀ p, (advance commitPending d batch).processes.get p = none →
      (advance commitPending d batch).inputs.get p = none) ∧
    (advance commitPending d batch).InputsErased := by
  rcases afterBatch_cases d batch with h | h
  · rw [h]
    exact ⟨hd, herased⟩
  · obtain ⟨hinputs, hlast⟩ := executed_batchErased hd herased hbatch
    refine ⟨hinputs.persist hd h, ?_⟩
    have hwritten : ∀ p row, (d.executed batch).processes.get p = some row →
        ¬ d.Unloaded batch p := fun _ _ => persist_unloaded h
    unfold persist at h
    split_ifs at h
    rw [Except.ok.injEq] at h
    rw [← h]
    intro p row hrow hterminal
    simp only [Table.get_overlay] at hrow ⊢
    cases hrow' : (d.executed batch).processes.get p with
    | some row' =>
      rw [hrow', Option.some_or, Option.some.injEq] at hrow
      obtain ⟨hinput, hstored⟩ := hlast p row' hrow' (hrow ▸ hterminal)
      rw [hinput, hstored.resolve_right (hwritten p row' hrow')]
      simp
    | none =>
      have hinput : (d.executed batch).inputs.get p = none := by
        by_contra hsome
        have hp := hinputs.inputs p (Option.isSome_iff_ne_none.mpr hsome)
        rw [hrow'] at hp
        cases hp
      have hstored : d.processes.get p = some row := by
        rw [hrow', Option.none_or] at hrow
        split_ifs at hrow
        exact hrow
      rw [hinput, herased p row hstored hterminal]
      simp

end MaterializedRows

open MaterializedRows

/-- **Inputs are erased.**  In every run of the store whose batches leave no input of a process
they end and bring none, no stored input belongs to a process that has ended. -/
theorem inputs_erased_durably {history : List StoreStep} {d : MaterializedRows}
    (run : StoreRun history d) (hsteps : ∀ x ∈ history, x.pre.ErasesInputs x.command) :
    d.InputsErased := by
  suffices h : (∀ p, d.processes.get p = none → d.inputs.get p = none) ∧ d.InputsErased from h.2
  induction run with
  | nil => exact ⟨fun _ _ => rfl, fun p row hrow => by simp [MaterializedRows.empty] at hrow⟩
  | @snoc history d d₀ batch hrun hsame ih =>
    subst hsame
    simp only [List.forall_mem_append, List.forall_mem_singleton] at hsteps
    obtain ⟨hd, herased⟩ := ih hsteps.1
    exact herased.afterBatch hd hsteps.2

namespace Sample

def submissionWithInput (n : ℕ) : SubmitProcessRequest :=
  { submission n with input := some ⟨⟨"goal"⟩, [1, 2, 3]⟩ }

end Sample

open Sample

/-- A process that is cancelled in the batch that submits it leaves no input. -/
theorem input_erased_within_batch :
    let batch := [.submit (submissionWithInput 1), Sample.control 1 .cancel]
    let d := advance commitPending MaterializedRows.empty batch
    (d.processes.get (processId 1)).map (·.status) = some .cancelled ∧ d.InputsErased := by
  intro batch d
  refine ⟨by decide, inputs_erased_durably (StoreRun.of_batches [batch]) fun x hx => ?_⟩
  rw [Run.trace, Run.trace, List.mem_singleton] at hx
  subst hx
  rintro ⟨t, c⟩ hm
  have hc := command_mem_of_batchSteps hm
  simp only [batch, List.mem_cons, List.not_mem_nil, or_false] at hc
  constructor
  · rintro ⟨row, -, -, hinput | ⟨hrecovery, -⟩⟩
    · cases hinput
    · rcases hc with rfl | rfl <;> cases hrecovery
  · rcases hc with rfl | rfl <;> exact id

/-- The input of a process that a later batch cancels stays in the store. -/
theorem input_outlives_process :
    ∃ history d, StoreRun history d ∧ (∀ x ∈ history, ∀ c ∈ x.command, c.isImport = false) ∧
      ¬ d.InputsErased := by
  refine ⟨_, _, StoreRun.of_batches
    [[.submit (submissionWithInput 1)], [Sample.control 1 .cancel]], ?_, fun h => ?_⟩
  · exact Run.trace_forall
      (A := fun batch : List StoredProcessCommand => ∀ c ∈ batch, c.isImport = false) _ _
      (by simp [Sample.control, StoredProcessCommand.isImport])
  · have hnone := h (processId 1) _ (Option.some_get (by decide)).symm (by decide)
    exact absurd hnone (by decide)

end Ironclaw.Processes
