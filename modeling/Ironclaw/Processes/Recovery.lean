import Ironclaw.Processes.Lifecycle

/-! # Automatic recovery

Two commands put a Running process back to Queued without being asked to: the sweep over
expired leases, and a failure report that asks to be driven again. `redrives p x` singles out
the steps of a run in which one of them does so for `p`. Their number is the process's
`crashReclaimCount`, which travels between the snapshot and the lease; `ClaimCounted` is the
invariant that ties the two. -/

namespace Ironclaw.Processes

open ProcessJournalMaterializedState

variable {s : ProcessJournalMaterializedState} {p : ProcessId} {c : StoredProcessCommand}

/-! ### Steps that requeue a process -/

/-- The command sweeps expired leases, or reports a failure of `p` that asks to be driven
again. -/
def StoredProcessCommand.mayRedrive (command : StoredProcessCommand) (p : ProcessId) : Bool :=
  match command with
  | .recoverExpired _ _ => true
  | .leasedTransition request mutation =>
    request.processId = p ∧ mutation.status = .failed ∧
      mutation.failureRecovery = .redriveIfCheckpointless
  | _ => false

/-- The command moves a row to Queued from another status. -/
def requeued (before after : Option JournaledProcessSnapshot) : Bool :=
  before.any (fun a => a.status ≠ .queued) && after.any (fun b => b.status = .queued)

/-- The step puts `p` back to Queued by recovery or by a redriven failure. -/
def redrives (p : ProcessId) (x : JournalStep) : Bool :=
  x.command.mayRedrive p && requeued (x.pre.processes.get p) (x.post.processes.get p)

variable (row : Option JournaledProcessSnapshot)

theorem requeued_self : requeued row row = false := by
  cases row with
  | none => rfl
  | some a => by_cases h : a.status = .queued <;> simp [requeued, h]

/-! ### The crash counter -/

/-- The lease of a row counts one claim more than the row has crashed, and the row has crashed
at most twice. -/
structure ClaimCounted (snapshot : JournaledProcessSnapshot) : Prop where
  lease : ∀ lease, snapshot.lease = some lease →
    lease.claimCount = snapshot.crashReclaimCount + 1
  bound : snapshot.crashReclaimCount ≤ maxCrashRecoveryReclaims - 1

variable {snapshot : JournaledProcessSnapshot}

theorem ClaimCounted.heldClaimCount (h : ClaimCounted snapshot) (hl : snapshot.lease.isSome) :
    heldClaimCount snapshot = snapshot.crashReclaimCount + 1 := by
  obtain ⟨lease, hl⟩ := Option.isSome_iff_exists.mp hl
  simp [Processes.heldClaimCount, hl, h.lease lease hl]

theorem leaseExpired_isSome {now : Timestamp}
    (h : leaseExpired now snapshot = true) : snapshot.lease.isSome := by
  simp only [leaseExpired, Bool.and_eq_true] at h
  cases hl : snapshot.lease with
  | none => simp [hl] at h
  | some lease => rfl

/-- The crash count of a row; a process that is not stored has not crashed. -/
def crashes : ℕ :=
  (row.map (·.crashReclaimCount)).getD 0

theorem recoveryDecision_queued :
    (recoveryDecision snapshot).1 = .queued ↔ snapshot.status ≠ .cancelRequested ∧
      (snapshot.checkpointRef = none ∨ resumableCheckpoint snapshot = true) ∧
      heldClaimCount snapshot < maxCrashRecoveryReclaims := by
  unfold recoveryDecision
  split_ifs with h1 h2
  · simp [h1]
  · simp [h1, h2]
  · simp only [false_iff]
    exact fun h => h2 h.2

variable {mutation : ProcessTransitionMutation}

/-- A redriven failure enters Queued; a failure that is not redriven does not. -/
theorem effectiveMutation_failed_queued (hf : mutation.status = .failed) :
    (effectiveMutation snapshot mutation).status = .queued ↔
      failureRedrives snapshot mutation = true := by
  unfold effectiveMutation
  split_ifs with hc hr
  · simp only [cancellationWins, decide_eq_true_eq] at hc
    simp [failureRedrives, hc.1]
  · simp [hr]
  · simp [hf, hr]

theorem failureRedrives_iff : failureRedrives snapshot mutation = true ↔
      snapshot.status = .running ∧ mutation.status = .failed ∧
      mutation.failureRecovery = .redriveIfCheckpointless ∧ snapshot.checkpointRef = none ∧
      mutation.checkpointRef = none ∧
      ∃ lease, snapshot.lease = some lease ∧ lease.claimCount < maxCrashRecoveryReclaims := by
  unfold failureRedrives
  cases hl : snapshot.lease <;> simp

theorem ClaimCounted.transitioned {stored : JournaledProcessSnapshot}
    {cursor : ProcessJournalCursor}
    (hs : ClaimCounted stored) : ClaimCounted (transitionedSnapshot stored mutation cursor) := by
  by_cases hr : failureRedrives stored mutation = true
  · obtain ⟨-, hf, -, -, -, held, hheld, hlt⟩ := failureRedrives_iff.mp hr
    have hq := (effectiveMutation_failed_queued hf).mpr hr
    refine ⟨by simp [transitionedSnapshot, hq], ?_⟩
    simp only [transitionedSnapshot, hr, if_true, Processes.heldClaimCount, hheld, Option.map_some,
      Option.getD_some]
    omega
  · refine ⟨?_, by simpa [transitionedSnapshot, hr] using hs.bound⟩
    intro held hheld
    simp only [transitionedSnapshot] at hheld ⊢
    split_ifs at hheld with hrun
    simpa [hr] using hs.lease held hheld

theorem transitioned_crashes {request : ProcessLeaseRequest} {stored : JournaledProcessSnapshot}
    {cursor : ProcessJournalCursor} (hs : ClaimCounted stored) (hp : request.processId = p)
    (hl : holdsLease stored request.workerId request.leaseToken = true) :
    crashes (some (transitionedSnapshot stored mutation cursor)) = crashes (some stored) +
      if (StoredProcessCommand.leasedTransition request mutation).mayRedrive p &&
        requeued (some stored) (some (transitionedSnapshot stored mutation cursor)) then 1 else 0 := by
  by_cases hr : failureRedrives stored mutation = true
  · have hcount := hs.heldClaimCount (holdsLease_isSome hl)
    obtain ⟨hrun, hf, hredrive, -⟩ := failureRedrives_iff.mp hr
    have hq := (effectiveMutation_failed_queued hf).mpr hr
    simp [StoredProcessCommand.mayRedrive, hp, hf, hredrive, requeued, hrun, transitionedSnapshot,
      hq, crashes, hr, hcount]
  · have hno : (StoredProcessCommand.leasedTransition request mutation).mayRedrive p = true →
        (effectiveMutation stored mutation).status ≠ .queued := by
      intro hm
      simp only [StoredProcessCommand.mayRedrive, decide_eq_true_eq] at hm
      exact mt (effectiveMutation_failed_queued hm.2.1).mp hr
    simp only [crashes, transitionedSnapshot, requeued, hr, Option.map_some, Option.getD_some]
    simpa using fun hm _ => hno hm

variable {before after : Option JournaledProcessSnapshot}

/-- One step keeps the counters tied and moves the crash count by one exactly when it
redrives. -/
theorem ProcessStep.claimCounted (h : ProcessStep s p c before after)
    (inv : ∀ a, before = some a → ClaimCounted a) :
    (∀ b, after = some b → ClaimCounted b) ∧
      crashes after =
        crashes before + if c.mayRedrive p && requeued before after then 1 else 0 := by
  cases h with
  | unchanged => exact ⟨inv, by simp [requeued_self]⟩
  | submitted =>
    refine ⟨?_, rfl⟩
    rintro _ ⟨⟩
    exact ⟨by simp [queuedSnapshot], by simp [queuedSnapshot]⟩
  | submittedWithCheckpoint _ _ _ link =>
    rcases link with rfl | ⟨-, rfl⟩
    · refine ⟨?_, rfl⟩
      rintro _ ⟨⟩
      exact ⟨by simp [queuedSnapshot], by simp [queuedSnapshot]⟩
    · refine ⟨?_, rfl⟩
      rintro _ ⟨⟩
      exact ⟨by simp [linkedSnapshot, queuedSnapshot], by simp [linkedSnapshot, queuedSnapshot]⟩
  | submittedAtEdge =>
    refine ⟨?_, rfl⟩
    rintro _ ⟨⟩
    exact ⟨by simp [edgeSnapshot], by simp [edgeSnapshot]⟩
  | @claimed _ _ _ _ _ stored =>
    have hs := inv stored rfl
    refine ⟨?_, by simp [StoredProcessCommand.mayRedrive, crashes, claimedSnapshot]⟩
    rintro _ ⟨⟩
    refine ⟨?_, hs.bound⟩
    rintro lease ⟨⟩
    have hb := hs.bound
    simp only [claimedLease, claimedSnapshot, saturatingAdd, u64Max, maxCrashRecoveryReclaims]
      at hb ⊢
    omega
  | @renewed _ _ _ stored =>
    have hs := inv stored rfl
    refine ⟨?_, by simp [StoredProcessCommand.mayRedrive, crashes, renewedSnapshot]⟩
    rintro _ ⟨⟩
    refine ⟨?_, hs.bound⟩
    intro lease hl
    obtain ⟨old, hold, rfl⟩ := Option.map_eq_some_iff.mp hl
    exact hs.lease old hold
  | @recovered _ _ stored _ expired =>
    have hs := inv stored rfl
    have hcount := hs.heldClaimCount (leaseExpired_isSome expired)
    have hne : stored.status ≠ .queued := by
      rcases leaseExpired_owned expired with h | h <;> simp [h]
    constructor
    · rintro _ ⟨⟩
      refine ⟨by simp [recoveredSnapshot], ?_⟩
      simp only [recoveredSnapshot]
      split_ifs with hq
      · have := (recoveryDecision_queued.mp hq).2.2
        omega
      · exact hs.bound
    · by_cases hq : (recoveryDecision stored).1 = .queued <;>
        simp [StoredProcessCommand.mayRedrive, requeued, crashes, recoveredSnapshot, hq, hne, hcount]
  | @transitioned request mutation stored _ process lease =>
    have hs := inv stored rfl
    refine ⟨?_, transitioned_crashes hs process lease⟩
    rintro _ ⟨⟩
    exact hs.transitioned
  | @controlled mutation stored status =>
    have hs := inv stored rfl
    refine ⟨?_, by simp [StoredProcessCommand.mayRedrive, crashes, controlledSnapshot]⟩
    rintro _ ⟨⟩
    refine ⟨?_, by simpa [controlledSnapshot] using hs.bound⟩
    intro lease hl
    simp only [controlledSnapshot] at hl ⊢
    split_ifs at hl
    simpa using hs.lease lease hl
  | @linked _ stored =>
    have hs := inv stored rfl
    refine ⟨?_, by simp [StoredProcessCommand.mayRedrive, crashes, linkedSnapshot]⟩
    rintro _ ⟨⟩
    exact ⟨hs.lease, hs.bound⟩

/-- **Crash-redrive bound.**  In a run that does not bring `p` from elsewhere, the number of
times `p` was put back to Queued by recovery or by a redriven failure is its crash count, and
the crash count stays below the claim limit. -/
theorem crash_redrive_bound {history : List JournalStep} {s : ProcessJournalMaterializedState}
    {p : ProcessId} (run : JournalRun history s) (hall : ∀ x ∈ history, x.command.Spares p)
    {a : JournaledProcessSnapshot} (ha : s.processes.get p = some a) :
    history.countP (redrives p) = a.crashReclaimCount ∧
      a.crashReclaimCount ≤ maxCrashRecoveryReclaims - 1 := by
  have inv : (∀ a, s.processes.get p = some a → ClaimCounted a) ∧
      history.countP (redrives p) = crashes (s.processes.get p) := by
    refine run.induct_history (I := fun history s =>
      (∀ a, s.processes.get p = some a → ClaimCounted a) ∧
        history.countP (redrives p) = crashes (s.processes.get p))
      (A := fun c => c.Spares p) ?_ ?_ ?_ hall
    · simp [empty, crashes]
    · intro history u v huv
      rw [huv.processes_get]
      exact id
    · rintro history u c hc ⟨hcounted, hcount⟩
      obtain ⟨hcounted', hcrashes⟩ := (advance_processStep u hc).claimCounted hcounted
      refine ⟨hcounted', ?_⟩
      rw [List.countP_append, List.countP_singleton, hcount, hcrashes]
      rfl
  refine ⟨?_, (inv.1 a ha).bound⟩
  rw [inv.2, ha]
  rfl

/-- Two crashes, each followed by a sweep that finds the lease expired. -/
theorem crash_redrive_bound_after_two_sweeps :
    let sweep (now : Timestamp) : StoredProcessCommand := .recoverExpired ⟨now, none, none⟩ 1000
    let commands := [.submit (Sample.submission 1), Sample.claim 9 0, sweep 1000000000,
      Sample.claim 10 1000000000, sweep 2000000000]
    (Run.trace applyCommand empty commands).countP (redrives (Sample.processId 1)) ≤ 2 := by
  intro sweep commands
  have hspares : ∀ c ∈ commands, c.Spares (Sample.processId 1) := by
    simp [commands, sweep, StoredProcessCommand.Spares, Sample.claim]
  obtain ⟨hcount, hbound⟩ := crash_redrive_bound (JournalRun.of_commands commands)
    (Run.trace_forall commands empty hspares) (Option.some_get (by decide)).symm
  rw [hcount]
  exact hbound

/-- A process imported after a crash keeps its count, although the run has not seen the crash. -/
theorem imported_crash_not_in_run : ∃ history s a, JournalRun history s ∧
    s.processes.get (Sample.processId 1) = some a ∧
    history.countP (redrives (Sample.processId 1)) ≠ a.crashReclaimCount := by
  let crashed := [.submit (Sample.submission 1), Sample.claim 9 0,
    .recoverExpired ⟨1000000000, none, none⟩ 1000]
  exact ⟨_, _, _, JournalRun.of_commands [Sample.migration crashed],
    (Option.some_get (by decide)).symm, by decide⟩

/-! ### The checkpoint a process resumes from -/

/-- The checkpoint reference of a row. -/
def resumeRef : Option ProcessCheckpointRef :=
  row.bind (·.checkpointRef)

/-- The step linked the checkpoint `ref` of kind `kind` to the process: it recorded a checkpoint
of that very name, alone or with the submission, and asked for the link. -/
def LinksCheckpoint (x : JournalStep) (p : ProcessId) (ref : ProcessCheckpointRef)
    (kind : ProcessCheckpointKind) : Prop :=
  ∃ request : RecordProcessCheckpointRequest,
    (x.command = .recordCheckpoint request ∨
      ∃ submission, x.command = .submitWithCheckpoint submission request) ∧
    request.processId = p ∧ request.linkToProcess = true ∧
    ref = ⟨request.checkpointId.asStr⟩ ∧ request.kind = some kind ∧
    resumeRef (x.post.processes.get p) = some ref

theorem adoptCheckpointRef_ref_none {ref : Option ProcessCheckpointRef}
    (h : (adoptCheckpointRef snapshot ref).checkpointRef = none) :
    snapshot.checkpointRef = none := by
  unfold adoptCheckpointRef at h
  split_ifs at h with hr
  · exact h
  · exact absurd (.inl h) hr

variable {kind : ProcessCheckpointKind}

theorem adoptCheckpointRef_kind {ref : Option ProcessCheckpointRef}
    (h : (adoptCheckpointRef snapshot ref).checkpointKind = some kind) :
    snapshot.checkpointKind = some kind ∧
      (adoptCheckpointRef snapshot ref).checkpointRef = snapshot.checkpointRef := by
  unfold adoptCheckpointRef at h ⊢
  split_ifs at h ⊢
  exact ⟨h, rfl⟩

theorem ProcessStep.resumeRef_none (h : ProcessStep s p c before after)
    (hn : resumeRef after = none) :
    resumeRef before = none := by
  cases h with
  | unchanged => exact hn
  | submitted | submittedWithCheckpoint | submittedAtEdge => rfl
  | claimed | renewed | recovered => exact hn
  | transitioned => exact adoptCheckpointRef_ref_none hn
  | controlled => exact adoptCheckpointRef_ref_none hn
  | linked => simp [resumeRef, linkedSnapshot] at hn

/-- A step leaves a row a checkpoint kind only together with the reference it had, or links
both. -/
theorem ProcessStep.checkpointKind {b : JournaledProcessSnapshot}
    (h : ProcessStep s p c before after) (hb : after = some b)
    (hk : b.checkpointKind = some kind) :
    (∃ a, before = some a ∧ a.checkpointKind = some kind ∧ b.checkpointRef = a.checkpointRef) ∨
    ∃ request : RecordProcessCheckpointRequest,
      (c = .recordCheckpoint request ∨ ∃ submission, c = .submitWithCheckpoint submission request) ∧
      request.processId = p ∧ request.linkToProcess = true ∧
      b.checkpointRef = some ⟨request.checkpointId.asStr⟩ ∧ request.kind = some kind := by
  cases h with
  | unchanged => exact .inl ⟨b, hb, hk, rfl⟩
  | submitted =>
    cases hb
    simp [queuedSnapshot] at hk
  | @submittedWithCheckpoint request checkpoint _ _ _ owner _ link =>
    cases hb
    rcases link with rfl | ⟨hlink, rfl⟩
    · simp [queuedSnapshot] at hk
    · exact .inr ⟨checkpoint, .inr ⟨request, rfl⟩, owner, hlink, rfl, hk⟩
  | submittedAtEdge =>
    cases hb
    simp [edgeSnapshot] at hk
  | claimed | renewed | recovered =>
    cases hb
    exact .inl ⟨_, rfl, hk, rfl⟩
  | transitioned =>
    cases hb
    exact .inl ⟨_, rfl, adoptCheckpointRef_kind hk⟩
  | controlled =>
    cases hb
    exact .inl ⟨_, rfl, adoptCheckpointRef_kind hk⟩
  | @linked request _ process link =>
    cases hb
    exact .inr ⟨request, .inl rfl, process, link, rfl, hk⟩

/-- A process without a checkpoint reference never had one. -/
theorem run_resumeRef_none {history : List JournalStep} (run : JournalRun history s)
    (hall : ∀ x ∈ history, x.command.Spares p) (hn : resumeRef (s.processes.get p) = none) :
    ∀ y ∈ history, resumeRef (y.pre.processes.get p) = none ∧
      resumeRef (y.post.processes.get p) = none := by
  revert hn
  refine run.induct_history (I := fun history s => resumeRef (s.processes.get p) = none →
    ∀ y ∈ history, resumeRef (y.pre.processes.get p) = none ∧
      resumeRef (y.post.processes.get p) = none) (A := fun c => c.Spares p) ?_ ?_ ?_ hall
  · simp
  · intro history u v huv
    rw [huv.processes_get]
    exact id
  · intro history u c hc ih hn y hy
    have hu := (advance_processStep u hc).resumeRef_none hn
    rcases List.mem_append.mp hy with hy | hy
    · exact ih hu y hy
    · rw [List.mem_singleton.mp hy]
      exact ⟨hu, hn⟩

/-- The kind stored with a process was recorded for the reference stored beside it. -/
theorem run_checkpoint_linked {history : List JournalStep} (run : JournalRun history s)
    (hall : ∀ x ∈ history, x.command.Spares p) {a : JournaledProcessSnapshot}
    (ha : s.processes.get p = some a) (hk : a.checkpointKind = some kind) :
    ∃ ref, a.checkpointRef = some ref ∧ ∃ y ∈ history, LinksCheckpoint y p ref kind := by
  refine run.induct_history (I := fun history s => ∀ a, s.processes.get p = some a →
    a.checkpointKind = some kind →
    ∃ ref, a.checkpointRef = some ref ∧ ∃ y ∈ history, LinksCheckpoint y p ref kind)
    (A := fun c => c.Spares p) ?_ ?_ ?_ hall a ha hk
  · simp [empty]
  · intro history u v huv
    rw [huv.processes_get]
    exact id
  · intro history u c hc ih b hb hk
    rcases (advance_processStep u hc).checkpointKind hb hk with
      ⟨a, ha, hak, href⟩ | ⟨request, hcmd, hp, hlink, href, hkind⟩
    · obtain ⟨ref, hr, y, hy, hlinks⟩ := ih a ha hak
      exact ⟨ref, href.trans hr, y, List.mem_append_left _ hy, hlinks⟩
    · refine ⟨_, href, _, List.mem_append_right _ (List.mem_singleton.mpr rfl), request, hcmd, hp,
        hlink, rfl, hkind, ?_⟩
      simp [resumeRef, hb, href]

/-- A sweep that requeues a checkpointed process comes a lease duration after the expiry. -/
theorem grace_elapsed {now : Timestamp} {millis : UInt64}
    (expired : leaseExpired now snapshot = true)
    (grace : requeueAwaitsGrace snapshot now millis = false)
    (hstatus : snapshot.status ≠ .cancelRequested) (href : snapshot.checkpointRef ≠ none)
    (hres : resumableCheckpoint snapshot = true) :
    ∃ expiresAt duration, snapshot.lease.bind (·.leaseExpiresAt) = some expiresAt ∧
      chronoDuration millis = some duration ∧ expiresAt + duration ≤ now := by
  simp only [leaseExpired, Bool.and_eq_true, Option.any_eq_true] at expired
  obtain ⟨-, expiresAt, hexp, -⟩ := expired
  have hkind : ¬ snapshot.checkpointKind.all (·.replaysSideEffect) = true := by
    cases hk : snapshot.checkpointKind with
    | none => simp [resumableCheckpoint, hk] at hres
    | some kind => simpa [resumableCheckpoint, hk] using hres
  unfold requeueAwaitsGrace at grace
  rw [if_neg (by simp [hstatus, href]), if_neg hkind, hexp] at grace
  cases hd : chronoDuration millis with
  | none => simp [hd] at grace
  | some duration => exact ⟨expiresAt, duration, hexp, rfl, by simpa [hd] using grace⟩

/-- What a step that redrives found: no checkpoint, or one it may resume from under a sweep
late enough. -/
theorem ProcessStep.redriven (h : ProcessStep s p c before after)
    (hr : (c.mayRedrive p && requeued before after) = true) :
    (resumeRef before = none ∧ resumeRef after = none) ∨
    ∃ a kind request millis expiresAt duration, before = some a ∧
      a.checkpointKind = some kind ∧ kind.replaysSideEffect = false ∧
      c = .recoverExpired request millis ∧
      a.lease.bind (·.leaseExpiresAt) = some expiresAt ∧ chronoDuration millis = some duration ∧
      expiresAt + duration ≤ request.now := by
  cases h with
  | unchanged => simp [requeued_self] at hr
  | submitted | submittedWithCheckpoint | submittedAtEdge => simp [requeued] at hr
  | claimed | renewed | controlled | linked => simp [StoredProcessCommand.mayRedrive] at hr
  | @recovered request millis stored _ expired grace =>
    have hq : (recoveryDecision stored).1 = .queued := by
      simp only [requeued, Bool.and_eq_true, Option.any_some, decide_eq_true_eq] at hr
      exact hr.2.2
    obtain ⟨hstatus, hcheck, -⟩ := recoveryDecision_queued.mp hq
    by_cases href : stored.checkpointRef = none
    · exact .inl ⟨href, href⟩
    · have hres : resumableCheckpoint stored = true := hcheck.resolve_left href
      obtain ⟨expiresAt, duration, hexp, hd, hle⟩ := grace_elapsed expired grace hstatus href hres
      obtain ⟨kind, hk, hside⟩ := (Option.any_eq_true _ _).mp hres
      exact .inr ⟨stored, kind, request, millis, expiresAt, duration, rfl, hk, by simpa using hside,
        rfl, hexp, hd, hle⟩
  | @transitioned request mutation stored =>
    simp only [StoredProcessCommand.mayRedrive, Bool.and_eq_true, decide_eq_true_eq, requeued,
      Option.any_some] at hr
    obtain ⟨⟨-, hf, -⟩, -, hq⟩ := hr
    have hred := (effectiveMutation_failed_queued hf).mp hq
    obtain ⟨hrun, -, -, href, hmref, -⟩ := failureRedrives_iff.mp hred
    have hwins : cancellationWins stored mutation = false := by simp [cancellationWins, hrun]
    refine .inl ⟨href, ?_⟩
    simp [resumeRef, transitionedSnapshot, effectiveMutation, hwins, hred, adoptCheckpointRef,
      hmref, href]

/-- **No automatic replay past a possible side effect.**  In a run that does not bring `p` from
elsewhere, whenever a step puts `p` back to Queued by recovery or by a redriven failure, either
`p` never had a checkpoint reference, or the reference it holds was linked by a checkpoint of
that name, recorded with a kind that replays no side effect, and the step is a sweep at least
one lease duration past the expiry of the lease. -/
theorem no_replay_past_side_effect {history : List JournalStep}
    {s : ProcessJournalMaterializedState} {p : ProcessId} (run : JournalRun history s)
    (hall : ∀ x ∈ history, x.command.Spares p) {earlier later : List JournalStep} {x : JournalStep}
    (hx : history = earlier ++ x :: later) (hr : redrives p x = true) :
    (∀ y ∈ earlier ++ [x], resumeRef (y.pre.processes.get p) = none ∧
      resumeRef (y.post.processes.get p) = none) ∨
    ∃ a ref kind request millis expiresAt duration,
      x.pre.processes.get p = some a ∧ a.checkpointRef = some ref ∧
      a.checkpointKind = some kind ∧ kind.replaysSideEffect = false ∧
      (∃ y ∈ earlier, LinksCheckpoint y p ref kind) ∧
      x.command = .recoverExpired request millis ∧
      a.lease.bind (·.leaseExpiresAt) = some expiresAt ∧ chronoDuration millis = some duration ∧
      expiresAt + duration ≤ request.now := by
  subst hx
  obtain ⟨t, run₁, run₂⟩ := run.split
  rw [← List.singleton_append] at run₂
  obtain ⟨u, hstep, -⟩ := run₂.split
  have run₁x := run₁.append hstep
  have hall₁ : ∀ y ∈ earlier, y.command.Spares p :=
    fun y hy => hall y (List.mem_append_left _ hy)
  have hspares : x.command.Spares p := hall x (List.mem_append_right _ List.mem_cons_self)
  have hpost := run.post_eq x (List.mem_append_right _ List.mem_cons_self)
  have step : ProcessStep x.pre p x.command (x.pre.processes.get p) (x.post.processes.get p) := by
    rw [hpost]
    exact advance_processStep x.pre hspares
  obtain ⟨hsame, hu⟩ := hstep.singleton
  rcases step.redriven hr with ⟨-, hn⟩ |
    ⟨a, kind, request, millis, expiresAt, duration, ha, hk, hside, hc, hexp, hd, hle⟩
  · refine .inl (run_resumeRef_none run₁x ?_ (by rwa [← hu]))
    intro y hy
    rcases List.mem_append.mp hy with hy | hy
    · exact hall₁ y hy
    · rwa [List.mem_singleton.mp hy]
  · obtain ⟨ref, href, hlinks⟩ := run_checkpoint_linked run₁ hall₁
      ((hsame.processes_get p).trans ha) hk
    exact .inr ⟨a, ref, kind, request, millis, expiresAt, duration, ha, href, hk, hside, hlinks,
      hc, hexp, hd, hle⟩

/-- A sweep two seconds after the claim requeues a process parked before a model call: the
reference it resumes from was linked by the checkpoint the process recorded. -/
theorem parked_before_model_requeued :
    let checkpoint : RecordProcessCheckpointRequest := ⟨⟨"checkpoint"⟩, Sample.processId 1,
      Sample.scope, ⟨"state"⟩, [], 0, true, some .beforeModel, .null⟩
    let earlier := Run.trace applyCommand empty
      [.submit (Sample.submission 1), Sample.claim 9 0, .recordCheckpoint checkpoint]
    ∃ ref kind, kind.replaysSideEffect = false ∧
      ∃ y ∈ earlier, LinksCheckpoint y (Sample.processId 1) ref kind := by
  intro checkpoint earlier
  let claimed := [.submit (Sample.submission 1), Sample.claim 9 0, .recordCheckpoint checkpoint].foldl
    (advance applyCommand) empty
  let sweep : StoredProcessCommand := .recoverExpired ⟨2000000000, none, none⟩ 1000
  let commands := [.submit (Sample.submission 1), Sample.claim 9 0, .recordCheckpoint checkpoint,
    sweep]
  have hspares : ∀ c ∈ commands, c.Spares (Sample.processId 1) := by
    simp [commands, sweep, StoredProcessCommand.Spares, Sample.claim]
  have hx : Run.trace applyCommand empty commands =
      earlier ++ ⟨claimed, sweep, advance applyCommand claimed sweep⟩ :: [] := rfl
  rcases no_replay_past_side_effect (JournalRun.of_commands commands)
      (Run.trace_forall commands empty hspares) hx (by decide) with h |
    ⟨_, ref, kind, _, _, _, _, -, -, -, hside, hlinks, -⟩
  · exact absurd (h _ (List.mem_append_right _ (List.mem_singleton.mpr rfl))).1 (by decide)
  · exact ⟨ref, kind, hside, hlinks⟩

/-- A process imported with a checkpoint is swept back to Queued in a run that never linked
the checkpoint. -/
theorem imported_checkpoint_not_linked_in_run : ∃ earlier x s,
    JournalRun (earlier ++ [x]) s ∧ redrives (Sample.processId 1) x = true ∧
    resumeRef (x.pre.processes.get (Sample.processId 1)) ≠ none ∧
    ¬ ∃ ref kind, ∃ y ∈ earlier, LinksCheckpoint y (Sample.processId 1) ref kind := by
  let parked := [.submit (Sample.submission 1), Sample.claim 9 0, .recordCheckpoint
    ⟨⟨"checkpoint"⟩, Sample.processId 1, Sample.scope, ⟨"state"⟩, [], 0, true, some .beforeModel,
      .null⟩]
  let sweep : StoredProcessCommand := .recoverExpired ⟨2000000000, none, none⟩ 1000
  let imported := advance applyCommand empty (Sample.migration parked)
  refine ⟨[⟨empty, Sample.migration parked, imported⟩],
    ⟨imported, sweep, advance applyCommand imported sweep⟩, _,
    JournalRun.of_commands [Sample.migration parked, sweep], by decide, by decide, ?_⟩
  rintro ⟨ref, kind, y, hy, request, hcommand, -⟩
  rw [List.mem_singleton.mp hy] at hcommand
  rcases hcommand with hcommand | ⟨submission, hcommand⟩
  · cases hcommand
  · cases hcommand

end Ironclaw.Processes
