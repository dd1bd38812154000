import Ironclaw.Processes.Ports
import Ironclaw.Processes.ProcessStep

/-! # Lifecycle laws

Status, lease and suspension of a process over whole runs.

* `LeaseImpliesOwned`: a row with a lease is Running or CancelRequested. It holds under every
  command except an import, and it is what keeps leased writes away from ended processes.
* `Coherent`: a row has a lease exactly when it is Running or CancelRequested, and a suspension
  exactly when it is Suspended. It holds under the commands the ports execute. -/

namespace Ironclaw.Processes

open ProcessJournalMaterializedState

variable {s : ProcessJournalMaterializedState} {p : ProcessId} {c : StoredProcessCommand}

/-! ### Rows with a lease -/

/-- The two statuses under which a worker holds a lease. -/
def ProcessLifecycleStatus.owned (status : ProcessLifecycleStatus) : Prop :=
  status = .running ∨ status = .cancelRequested

instance (status : ProcessLifecycleStatus) : Decidable status.owned :=
  inferInstanceAs (Decidable (_ ∨ _))

theorem ProcessLifecycleStatus.owned.not_terminal {status : ProcessLifecycleStatus}
    (h : status.owned) : status.isTerminal = false := by
  rcases h with rfl | rfl <;> rfl

/-- A stored lease belongs to a Running or CancelRequested process. -/
def LeaseImpliesOwned (row : Option JournaledProcessSnapshot) : Prop :=
  ∀ snapshot, row = some snapshot → snapshot.lease.isSome → snapshot.status.owned

theorem leaseExpired_owned {now : Timestamp} {snapshot : JournaledProcessSnapshot}
    (h : leaseExpired now snapshot = true) : snapshot.status.owned := by
  simp only [leaseExpired, Bool.and_eq_true, Bool.or_eq_true, decide_eq_true_eq] at h
  exact h.1

theorem holdsLease_isSome {snapshot : JournaledProcessSnapshot} {workerId : ProcessWorkerId}
    {token : ProcessLeaseToken} (h : holdsLease snapshot workerId token = true) :
    snapshot.lease.isSome := by
  obtain ⟨lease, hl, -⟩ := holdsLease_iff.mp h
  simp [hl]

theorem LeaseImpliesOwned.step {before after : Option JournaledProcessSnapshot}
    (h : ProcessStep s p c before after) (inv : LeaseImpliesOwned before) :
    LeaseImpliesOwned after := by
  cases h with
  | unchanged => exact inv
  | submitted =>
    rintro _ ⟨⟩ hl
    simp [queuedSnapshot] at hl
  | submittedWithCheckpoint _ _ _ link =>
    rintro _ ⟨⟩ hl
    rcases link with rfl | ⟨-, rfl⟩ <;> simp [linkedSnapshot, queuedSnapshot] at hl
  | submittedAtEdge =>
    rintro _ ⟨⟩ hl
    simp [edgeSnapshot] at hl
  | claimed =>
    rintro _ ⟨⟩ _
    exact .inl rfl
  | @renewed _ _ _ stored _ _ _ =>
    rintro _ ⟨⟩ hl
    exact inv stored rfl (by simpa [renewedSnapshot] using hl)
  | recovered =>
    rintro _ ⟨⟩ hl
    simp [recoveredSnapshot] at hl
  | transitioned =>
    rintro _ ⟨⟩ hl
    simp only [transitionedSnapshot] at hl ⊢
    split_ifs at hl with hr
    · exact .inl hr
    · simp at hl
  | controlled =>
    rintro _ ⟨⟩ hl
    simp only [controlledSnapshot] at hl ⊢
    split_ifs at hl with hr
    · exact .inr hr
    · simp at hl
  | @linked _ stored _ _ =>
    rintro _ ⟨⟩ hl
    exact inv stored rfl hl

theorem run_leaseImpliesOwned {history : List JournalStep} (run : JournalRun history s)
    (hall : ∀ x ∈ history, x.command.Spares p) : LeaseImpliesOwned (s.processes.get p) :=
  run_row_invariant (by simp [LeaseImpliesOwned]) (fun _ _ _ _ h => .step h) run hall

/-! ### Ended processes and requested cancellations -/

theorem transitionValid_terminal {source target : ProcessLifecycleStatus}
    (ht : source.isTerminal = true) : transitionValid source target = true ↔ source = target := by
  cases source <;> cases target <;> simp_all [ProcessLifecycleStatus.isTerminal, transitionValid]

structure SameEnding (a b : JournaledProcessSnapshot) : Prop where
  status : b.status = a.status
  suspension : b.suspension = a.suspension
  lease : b.lease = a.lease
  failure : b.failure = a.failure

variable {a : JournaledProcessSnapshot}

theorem ProcessStep.terminal {after : Option JournaledProcessSnapshot}
    (h : ProcessStep s p c (some a) after) (inv : LeaseImpliesOwned (some a))
    (ht : a.status.isTerminal = true) : ∃ b, after = some b ∧ SameEnding a b := by
  have hnot : ¬ a.status.owned := fun ho => by simp [ho.not_terminal] at ht
  cases h with
  | unchanged => exact ⟨a, rfl, rfl, rfl, rfl, rfl⟩
  | claimed candidate =>
    simp only [claimable, Bool.and_eq_true, decide_eq_true_eq] at candidate
    rw [candidate.1.1] at ht
    cases ht
  | renewed _ _ lease => exact absurd (inv a rfl (holdsLease_isSome lease)) hnot
  | recovered expired => exact absurd (leaseExpired_owned expired) hnot
  | transitioned _ lease => exact absurd (inv a rfl (holdsLease_isSome lease)) hnot
  | controlled _ _ _ _ transition moves =>
    rcases controlTransition_ok transition with ⟨-, rfl, hv⟩ | ⟨hn, -⟩
    · exact absurd ((transitionValid_terminal ht).mp hv).symm moves
    · rw [ht] at hn
      cases hn
  | linked => exact ⟨_, rfl, rfl, rfl, rfl, rfl⟩

/-- The statuses a process can have once its cancellation was requested. -/
def cancellationStatuses : List ProcessLifecycleStatus :=
  [.cancelRequested, .cancelled, .stopped, .killed]

theorem ProcessStep.cancelRequested {after : Option JournaledProcessSnapshot}
    (h : ProcessStep s p c (some a) after)
    (ha : a.status = .cancelRequested) : ∃ b, after = some b ∧ b.status ∈ cancellationStatuses := by
  cases h with
  | unchanged => exact ⟨a, rfl, by simp [ha, cancellationStatuses]⟩
  | claimed candidate =>
    simp [claimable, ha] at candidate
  | renewed _ valid _ =>
    simp [ha, transitionValid] at valid
  | recovered => exact ⟨_, rfl, by simp [recoveredSnapshot, recoveryDecision, ha,
      cancellationStatuses]⟩
  | @transitioned _ mutation _ _ _ _ valid =>
    refine ⟨_, rfl, ?_⟩
    rw [ha] at valid
    simp only [transitionedSnapshot]
    generalize (effectiveMutation a mutation).status = status at valid
    cases status <;> simp_all [transitionValid, cancellationStatuses]
  | controlled _ _ _ _ transition moves =>
    refine ⟨_, rfl, ?_⟩
    simp only [controlledSnapshot]
    rcases controlTransition_ok transition with ⟨-, rfl, hv⟩ | ⟨-, h⟩
    · rw [ha] at hv
      cases hv
    · rcases h with ⟨-, rfl⟩ | ⟨-, rfl⟩ | ⟨-, rfl, -⟩ | ⟨-, rfl, -⟩ <;>
        simp [cancellationStatuses]
  | linked => exact ⟨_, rfl, by simp [linkedSnapshot, ha, cancellationStatuses]⟩

/-- **Terminal absorption and cancellation priority.**  In a run without imports, a process
that has ended keeps its status, suspension, lease and failure, and a process in
CancelRequested stays there or ends as Cancelled, Stopped or Killed. -/
theorem terminal_absorbs_and_cancellation_prevails {earlier later : List JournalStep}
    {s t : ProcessJournalMaterializedState} (run : JournalRun earlier s)
    (continued : Run SameRows applyCommand s later t)
    (hall : ∀ x ∈ earlier ++ later, x.command.isImport = false)
    {p : ProcessId} {a : JournaledProcessSnapshot} (ha : s.processes.get p = some a) :
    (a.status.isTerminal = true → ∃ b, t.processes.get p = some b ∧ SameEnding a b) ∧
    (a.status = .cancelRequested →
      ∃ b, t.processes.get p = some b ∧ b.status ∈ cancellationStatuses) := by
  have inv : LeaseImpliesOwned (s.processes.get p) := run_leaseImpliesOwned run fun x hx =>
    StoredProcessCommand.spares_of_not_import (hall x (List.mem_append_left _ hx)) p
  have hlater := fun x hx => hall x (List.mem_append_right _ hx)
  constructor
  · intro ht
    -- the ending is carried together with the lease invariant that protects it
    refine (continued.invariant (I := fun t => LeaseImpliesOwned (t.processes.get p) ∧
      ∃ b, t.processes.get p = some b ∧ SameEnding a b)
      (A := fun c => c.isImport = false) ?_ ?_ ?_ hlater).2
    · exact ⟨inv, a, ha, rfl, rfl, rfl, rfl⟩
    · intro u v huv
      rw [huv.processes_get]
      exact id
    · rintro u c hc ⟨hinv, b, hb, hab⟩
      have step := advance_processStep u (StoredProcessCommand.spares_of_not_import hc p)
      refine ⟨.step step hinv, ?_⟩
      rw [hb] at step hinv
      obtain ⟨d, hd, hbd⟩ := step.terminal hinv (by rwa [hab.status])
      exact ⟨d, hd, hbd.status.trans hab.status, hbd.suspension.trans hab.suspension,
        hbd.lease.trans hab.lease, hbd.failure.trans hab.failure⟩
  · intro hc
    refine (continued.invariant (I := fun t => LeaseImpliesOwned (t.processes.get p) ∧
      ∃ b, t.processes.get p = some b ∧ b.status ∈ cancellationStatuses)
      (A := fun c => c.isImport = false) ?_ ?_ ?_ hlater).2
    · exact ⟨inv, a, ha, by simp [hc, cancellationStatuses]⟩
    · intro u v huv
      rw [huv.processes_get]
      exact id
    · rintro u c himp ⟨hinv, b, hb, hstatus⟩
      have step := advance_processStep u (StoredProcessCommand.spares_of_not_import himp p)
      refine ⟨.step step hinv, ?_⟩
      rw [hb] at step hinv
      by_cases hreq : b.status = .cancelRequested
      · exact step.cancelRequested hreq
      · have hterm : b.status.isTerminal = true := by
          cases hbs : b.status <;> simp_all [cancellationStatuses, ProcessLifecycleStatus.isTerminal]
        obtain ⟨d, hd, hbd⟩ := step.terminal hinv hterm
        exact ⟨d, hd, by rwa [hbd.status]⟩

/-- A worker's failure report after a cancellation request ends the process as Cancelled, and a
kill after that changes nothing. -/
theorem cancellation_prevails_over_failure :
    ∃ b, (([.submit (Sample.submission 1), Sample.claim 9 0, Sample.control 1 .cancel] ++
        [Sample.transition 1 9 .failed .failed, Sample.control 1 .kill] :
        List StoredProcessCommand).foldl (advance applyCommand) empty).processes.get
          (Sample.processId 1) = some b ∧ b.status ∈ cancellationStatuses := by
  rw [List.foldl_append]
  exact (terminal_absorbs_and_cancellation_prevails (JournalRun.of_commands _)
    (Run.of_commands SameRows.refl _ _) (by decide)
    (Option.some_get (by decide)).symm).2 (by decide)

/-! ### Lease and suspension follow the status -/

/-- A row whose lease and suspension are those its status calls for. -/
structure Coherent (snapshot : JournaledProcessSnapshot) : Prop where
  lease : snapshot.lease.isSome ↔ snapshot.status.owned
  suspension : snapshot.suspension.isSome ↔ snapshot.status = .suspended

theorem effectiveMutation_status (snapshot : JournaledProcessSnapshot)
    {mutation : ProcessTransitionMutation}
    (hstatus : mutation.status ∈
      [ProcessLifecycleStatus.suspended, .completed, .cancelled, .failed, .queued])
    (hsusp : mutation.suspension.isSome ↔ mutation.status = .suspended) :
    ¬ (effectiveMutation snapshot mutation).status.owned ∧
      ((effectiveMutation snapshot mutation).suspension.isSome ↔
        (effectiveMutation snapshot mutation).status = .suspended) := by
  unfold effectiveMutation
  split_ifs with hc hr
  · simp only [cancellationWins, decide_eq_true_eq] at hc
    simp [ProcessLifecycleStatus.owned, hsusp, hc.2]
  · simp only [failureRedrives, decide_eq_true_eq] at hr
    simp [ProcessLifecycleStatus.owned, hsusp, hr.2.1]
  · refine ⟨?_, hsusp⟩
    simp only [List.mem_cons, List.not_mem_nil, or_false] at hstatus
    rcases hstatus with h | h | h | h | h <;> simp [ProcessLifecycleStatus.owned, h]

theorem Coherent.step {before after : Option JournaledProcessSnapshot}
    (h : ProcessStep s p c before after) (hc : c.Public)
    (inv : ∀ a, before = some a → Coherent a) : ∀ b, after = some b → Coherent b := by
  cases h with
  | unchanged => exact inv
  | submitted =>
    rintro _ ⟨⟩
    exact ⟨by simp [queuedSnapshot, ProcessLifecycleStatus.owned], by simp [queuedSnapshot]⟩
  | submittedWithCheckpoint _ _ _ link =>
    rintro _ ⟨⟩
    rcases link with rfl | ⟨-, rfl⟩ <;>
      exact ⟨by simp [linkedSnapshot, queuedSnapshot, ProcessLifecycleStatus.owned],
        by simp [linkedSnapshot, queuedSnapshot]⟩
  | @submittedAtEdge request =>
    rintro _ ⟨⟩
    constructor
    · cases he : request.edge <;>
        simp [edgeSnapshot, he, ProcessSubmissionEdge.status, ProcessLifecycleStatus.owned]
    · cases he : request.edge <;>
        simp [edgeSnapshot, he, ProcessSubmissionEdge.status, ProcessSubmissionEdge.suspension]
  | claimed =>
    rintro _ ⟨⟩
    exact ⟨by simp [claimedSnapshot, ProcessLifecycleStatus.owned], by simp [claimedSnapshot]⟩
  | @renewed _ _ _ stored =>
    rintro _ ⟨⟩
    have hs := inv stored rfl
    exact ⟨by simpa [renewedSnapshot] using hs.lease, by simpa [renewedSnapshot] using hs.suspension⟩
  | @recovered _ _ stored _ expired =>
    rintro _ ⟨⟩
    have hs := inv stored rfl
    have hsusp : stored.suspension = none := by
      rw [← Option.not_isSome_iff_eq_none, hs.suspension]
      rcases leaseExpired_owned expired with h | h <;> simp [h]
    unfold recoveredSnapshot recoveryDecision
    constructor
    · split_ifs <;> simp [ProcessLifecycleStatus.owned]
    · split_ifs <;> simp [hsusp]
  | @transitioned _ mutation stored =>
    rintro _ ⟨⟩
    obtain ⟨hstatus, hsusp⟩ := hc.leasedTransition_status
    obtain ⟨howned, hsusp'⟩ := effectiveMutation_status stored hstatus hsusp
    have hrun : (effectiveMutation stored mutation).status ≠ .running := fun h => howned (.inl h)
    exact ⟨by simp [transitionedSnapshot, hrun, howned], by simpa [transitionedSnapshot] using hsusp'⟩
  | @controlled _ stored status _ _ _ _ _ _ transition moves =>
    rintro _ ⟨⟩
    have hs := inv stored rfl
    rcases controlTransition_ok transition with
      ⟨-, rfl, -⟩ | ⟨-, ⟨-, rfl⟩ | ⟨-, rfl⟩ | ⟨-, rfl, hrun⟩ | ⟨-, rfl, -⟩⟩
    case inr.inr.inr.inl =>
      exact ⟨by simpa [controlledSnapshot, ProcessLifecycleStatus.owned] using hs.lease.mpr hrun,
        by simp [controlledSnapshot]⟩
    all_goals
        exact ⟨by simp [controlledSnapshot, ProcessLifecycleStatus.owned],
          by simp [controlledSnapshot]⟩
  | @linked _ stored =>
    rintro _ ⟨⟩
    have hs := inv stored rfl
    exact ⟨hs.lease, hs.suspension⟩

/-- **Lease coherence.**  In every state reached by commands of the ports, a process has a lease
exactly when it is Running or CancelRequested, and a suspension exactly when it is Suspended. -/
theorem lease_and_suspension_coherent {history : List JournalStep}
    {s : ProcessJournalMaterializedState} (run : JournalRun history s)
    (hall : ∀ x ∈ history, x.command.Public) {p : ProcessId} {a : JournaledProcessSnapshot}
    (ha : s.processes.get p = some a) :
    (a.lease.isSome ↔ a.status = .running ∨ a.status = .cancelRequested) ∧
      (a.suspension.isSome ↔ a.status = .suspended) := by
  have inv : ∀ a, s.processes.get p = some a → Coherent a := by
    refine run.invariant (I := fun s => ∀ a, s.processes.get p = some a → Coherent a)
      (A := StoredProcessCommand.Public) ?_ ?_ ?_ hall
    · simp [empty]
    · intro u v huv
      rw [huv.processes_get]
      exact id
    · intro u c hc hinv
      have spares := StoredProcessCommand.spares_of_not_import hc.not_import p
      exact Coherent.step (advance_processStep u spares) hc hinv
  exact ⟨(inv a ha).lease, (inv a ha).suspension⟩

/-- A claimed process is Running, so it has a lease and no suspension. -/
theorem claimed_process_coherent :
    let requests : List PortRequest := [.submitProcess (Sample.submission 1),
      .claimNextProcesses ⟨Sample.workerId, none, none, none, 1⟩]
    let commands := requests.map (PortRequest.command ⟨0, 1000, Sample.processId 9, ⟨none, []⟩⟩)
    ∃ a, (commands.foldl (advance applyCommand) empty).processes.get (Sample.processId 1) = some a ∧
      a.lease.isSome ∧ ¬ a.suspension.isSome := by
  intro requests commands
  have hpublic : ∀ c ∈ commands, c.Public := by
    intro c hc
    obtain ⟨request, -, rfl⟩ := List.mem_map.mp hc
    exact ⟨_, request, rfl⟩
  have hcoherent := lease_and_suspension_coherent (JournalRun.of_commands commands)
    (Run.trace_forall commands empty hpublic) (p := Sample.processId 1)
    (Option.some_get (by decide)).symm
  refine ⟨_, (Option.some_get (by decide)).symm, hcoherent.1.mpr (by decide), ?_⟩
  rw [hcoherent.2]
  decide

/-! ### Who ends a Running process's claim -/

/-- The process `p` is left Running by the step, or it is moved by a leased transition of the
holder of its lease, by a stop, kill or cancel, or by a recovery that finds its lease expired. -/
def LeftByOwner (x : JournalStep) (p : ProcessId) : Prop :=
  ∀ a, x.pre.processes.get p = some a → a.status = .running →
    (∃ b, x.post.processes.get p = some b ∧ b.status = .running) ∨
    (∃ request mutation, x.command = .leasedTransition request mutation ∧ request.processId = p ∧
      holdsLease a request.workerId request.leaseToken = true) ∨
    (∃ mutation, x.command = .control mutation ∧ mutation.processId = p ∧
      mutation.action ∈ [ProcessControlAction.stop, .kill, .cancel]) ∨
    (∃ request millis, x.command = .recoverExpired request millis ∧
      leaseExpired request.now a = true)

/-- The step is a resume of the Running process `p` that is not a replay, comes from the scope
of the process and expects no other cursor. -/
def ResumesRunning (x : JournalStep) (p : ProcessId) : Prop :=
  ∃ mutation a, x.command = .control mutation ∧ mutation.action = .resume ∧
    mutation.processId = p ∧ x.pre.processes.get p = some a ∧ a.status = .running ∧
    (controlReplayKey mutation).bind x.pre.controlIdempotency.get = none ∧
    processScopeVisible a.scope mutation.scope = true ∧
    ∀ expected, mutation.expectedCursor = some expected → expected = a.journalCursor

/-- A resume of a Running process succeeds and puts the process back to Queued. -/
theorem applyControl_resume_running {mutation : ProcessControlMutation}
    (hact : mutation.action = .resume)
    (hreplay : (controlReplayKey mutation).bind s.controlIdempotency.get = none)
    (hg : s.processes.get mutation.processId = some a) (hrun : a.status = .running)
    (hv : processScopeVisible a.scope mutation.scope = true)
    (he : ∀ expected, mutation.expectedCursor = some expected → expected = a.journalCursor) :
    ∃ o, s.applyControl mutation = .ok (o, s.storeControl mutation a .queued .resumed) := by
  have hexp : ¬ mutation.expectedCursor.any (fun e => decide (e ≠ a.journalCursor)) = true := by
    cases h : mutation.expectedCursor with
    | none => simp
    | some e => simp [he e h]
  have ht : controlTransition a .resume = .ok (some (.queued, .resumed)) := by
    simp only [controlTransition, ensureTransition, hrun, bind_eq_ok, rejectIf_eq_ok, exists_const,
      Bool.not_eq_false]
    exact ⟨rfl, rfl⟩
  refine ⟨.controlled ⟨controlledSnapshot a mutation .queued s.nextCursor, true,
    a.status.isTerminal⟩, ?_⟩
  simp only [applyControl, hreplay, process, moveByControl, bind_eq_ok, okOr_eq_ok, rejectIf_eq_ok,
    exists_const, Bool.not_eq_false]
  refine ⟨a, hg, hv, hexp, _, by rw [hact, ht], ?_⟩
  rw [hrun]
  rfl

theorem leftByOwner_of_not_resumesRunning {x : JournalStep}
    (hx : x.post = advance applyCommand x.pre x.command) (hres : ¬ ResumesRunning x p) :
    LeftByOwner x p := by
  obtain ⟨s, c, t⟩ := x
  simp only at hx
  subst hx
  intro a ha hrun
  cases hc : c.isImport with
  | true =>
    cases c <;> simp [StoredProcessCommand.isImport] at hc
    refine .inl ⟨a, ?_, hrun⟩
    rwa [advance_of_ok (o := .imported) rfl, import_get ha]
  | false =>
    have step := advance_processStep s (StoredProcessCommand.spares_of_not_import hc p)
    simp only at ha ⊢
    rw [ha] at step
    generalize hafter : (advance applyCommand s c).processes.get p = after at step
    cases step with
    | unchanged => exact .inl ⟨a, rfl, hrun⟩
    | claimed candidate =>
      simp [claimable, hrun] at candidate
    | renewed => exact .inl ⟨_, rfl, hrun⟩
    | recovered expired => exact .inr (.inr (.inr ⟨_, _, rfl, expired⟩))
    | transitioned process lease => exact .inr (.inl ⟨_, _, rfl, process, lease⟩)
    | @controlled mutation _ status _ _ process fresh visible current transition moves =>
      refine .inr (.inr (.inl ⟨mutation, rfl, process, ?_⟩))
      cases hact : mutation.action with
      | resume =>
        exact absurd ⟨mutation, a, rfl, hact, process, ha, hrun, fresh, visible, current⟩ hres
      | _ => simp
    | linked => exact .inl ⟨_, rfl, hrun⟩

theorem not_resumesRunning_of_leftByOwner {x : JournalStep}
    (hx : x.post = advance applyCommand x.pre x.command) (hleft : LeftByOwner x p) :
    ¬ ResumesRunning x p := by
  obtain ⟨s, c, t⟩ := x
  simp only at hx
  subst hx
  rintro ⟨mutation, a, rfl, hact, rfl, ha, hrun, hreplay, hv, he⟩
  obtain ⟨o, hok⟩ := applyControl_resume_running hact hreplay ha hrun hv he
  have hok : s.applyCommand (.control mutation) =
      .ok (o, s.storeControl mutation a .queued .resumed) := hok
  have hpost : (advance applyCommand s (.control mutation)).processes.get mutation.processId =
      some (controlledSnapshot a mutation .queued s.nextCursor) := by
    rw [advance_of_ok hok, storeControl, commit_processes, Table.get_put, if_pos]
    rw [controlledSnapshot_processId, Table.key_of_get ha]
  rcases hleft a ha hrun with ⟨b, hb, hbrun⟩ | ⟨_, _, h, -⟩ | ⟨m, h, -, hm⟩ | ⟨_, _, h, -⟩
  · simp only [hpost, Option.some.injEq] at hb
    subst hb
    simp [controlledSnapshot] at hbrun
  · cases h
  · cases h
    simp [hact] at hm
  · cases h

/-- **Exclusive ownership of a Running process.**  In every run, every Running process is left
by its owner, by a stop, kill or cancel, or by expiry, exactly when no step of the run is a
resume that takes effect on a Running process. -/
theorem running_left_by_owner_iff {history : List JournalStep}
    {s : ProcessJournalMaterializedState} (run : JournalRun history s) :
    (∀ x ∈ history, ∀ p, LeftByOwner x p) ↔ ∀ x ∈ history, ∀ p, ¬ ResumesRunning x p := by
  constructor
  · intro h x hx p
    exact not_resumesRunning_of_leftByOwner (run.post_eq x hx) (h x hx p)
  · intro h x hx p
    exact leftByOwner_of_not_resumesRunning (run.post_eq x hx) (h x hx p)

/-- In a run where the owner completes its process, nothing but the owner ends the claim. -/
theorem running_left_by_owner_on_completion :
    let steps := Run.trace applyCommand empty [.submit (Sample.submission 1), Sample.claim 9 0,
      Sample.transition 1 9 .completed .completed]
    (∃ x ∈ steps, (x.pre.processes.get (Sample.processId 1)).map (·.status) = some .running ∧
      (x.post.processes.get (Sample.processId 1)).map (·.status) = some .completed) ∧
    ∀ x ∈ steps, ∀ p, LeftByOwner x p := by
  intro steps
  refine ⟨by decide, ?_⟩
  rw [running_left_by_owner_iff (JournalRun.of_commands _)]
  rintro x hx p ⟨mutation, a, hcontrol, -⟩
  simp only [Run.trace, List.mem_cons, List.not_mem_nil, or_false] at hx
  rcases hx with rfl | rfl | rfl <;> cases hcontrol

/-- A resume takes a Running process, its lease unexpired, away from the worker. -/
theorem resume_takes_running_process :
    ∃ history s, JournalRun history s ∧ ∃ x ∈ history, ∃ p a,
      x.pre.processes.get p = some a ∧ a.status = .running ∧ leaseExpired 0 a = false ∧
        ¬ LeftByOwner x p := by
  refine ⟨_, _, JournalRun.of_commands [.submit (Sample.submission 1), Sample.claim 9 0,
    Sample.control 1 .resume], _, List.mem_of_getLast? rfl, Sample.processId 1, _,
    (Option.some_get (by decide)).symm, by decide, by decide, ?_⟩
  intro hleft
  exact not_resumesRunning_of_leftByOwner rfl hleft ⟨_, _, rfl, rfl, rfl,
    (Option.some_get (by decide)).symm, by decide, by decide, by decide, by simp⟩

end Ironclaw.Processes
