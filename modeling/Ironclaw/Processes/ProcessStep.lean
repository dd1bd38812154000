import Ironclaw.Processes.Inversion

/-! # What one command does to one process

`ProcessStep s p c before after` lists the ways in which the command `c`, applied in the state
`s`, can take the row of the process `p` from `before` to `after`: it leaves the row alone, or
it writes one of the eight snapshots of `Apply.lean`, under the guard that allowed it.
`advance_processStep` says that every command acts on a row in one of these ways, unless it
adopts the row from a legacy state. Lifecycle properties are proved by cases on this relation. -/

namespace Ironclaw.Processes

open ProcessJournalMaterializedState

/-! ### The fields a snapshot update keeps -/

section Fields

variable (snapshot : JournaledProcessSnapshot)

variable (ref : Option ProcessCheckpointRef)
include ref

@[simp] theorem adoptCheckpointRef_processId :
    (adoptCheckpointRef snapshot ref).processId = snapshot.processId := by
  unfold adoptCheckpointRef
  split_ifs <;> rfl

@[simp] theorem adoptCheckpointRef_processKind :
    (adoptCheckpointRef snapshot ref).processKind = snapshot.processKind := by
  unfold adoptCheckpointRef
  split_ifs <;> rfl

@[simp] theorem adoptCheckpointRef_scope :
    (adoptCheckpointRef snapshot ref).scope = snapshot.scope := by
  unfold adoptCheckpointRef
  split_ifs <;> rfl

@[simp] theorem adoptCheckpointRef_crashReclaimCount :
    (adoptCheckpointRef snapshot ref).crashReclaimCount = snapshot.crashReclaimCount := by
  unfold adoptCheckpointRef
  split_ifs <;> rfl

@[simp] theorem adoptCheckpointRef_ownerUserId :
    (adoptCheckpointRef snapshot ref).ownerUserId = snapshot.ownerUserId := by
  unfold adoptCheckpointRef
  split_ifs <;> rfl

@[simp] theorem adoptCheckpointRef_concurrencyClass :
    (adoptCheckpointRef snapshot ref).concurrencyClass = snapshot.concurrencyClass := by
  unfold adoptCheckpointRef
  split_ifs <;> rfl

omit ref

@[simp] theorem queuedSnapshot_processId (request : SubmitProcessRequest)
    (cursor : ProcessJournalCursor) :
    (queuedSnapshot request cursor).processId = request.processId := rfl

@[simp] theorem edgeSnapshot_processId (request : SubmitProcessAtEdgeRequest)
    (cursor : ProcessJournalCursor) :
    (edgeSnapshot request cursor).processId = request.submission.processId := rfl

@[simp] theorem claimedSnapshot_processId (workerId : ProcessWorkerId) (nonce : ProcessId)
    (now : Timestamp) (millis : UInt64) (cursor : ProcessJournalCursor) :
    (claimedSnapshot snapshot workerId nonce now millis cursor).processId = snapshot.processId :=
  rfl

@[simp] theorem renewedSnapshot_processId (now : Timestamp) (millis : UInt64) :
    (renewedSnapshot snapshot now millis).processId = snapshot.processId := rfl

@[simp] theorem recoveredSnapshot_processId (cursor : ProcessJournalCursor) :
    (recoveredSnapshot snapshot cursor).processId = snapshot.processId := rfl

@[simp] theorem transitionedSnapshot_processId (mutation : ProcessTransitionMutation)
    (cursor : ProcessJournalCursor) :
    (transitionedSnapshot snapshot mutation cursor).processId = snapshot.processId := by
  simp [transitionedSnapshot]

@[simp] theorem controlledSnapshot_processId (mutation : ProcessControlMutation)
    (status : ProcessLifecycleStatus) (cursor : ProcessJournalCursor) :
    (controlledSnapshot snapshot mutation status cursor).processId = snapshot.processId := by
  simp [controlledSnapshot]

@[simp] theorem linkedSnapshot_processId (request : RecordProcessCheckpointRequest) :
    (linkedSnapshot snapshot request).processId = snapshot.processId := rfl

end Fields

/-! ### The step relation -/

/-- The ways a command can act on the row of a process. -/
inductive ProcessStep (s : ProcessJournalMaterializedState) (p : ProcessId) :
    StoredProcessCommand → Option JournaledProcessSnapshot → Option JournaledProcessSnapshot → Prop
  | unchanged {c : StoredProcessCommand} {row : Option JournaledProcessSnapshot} :
      ProcessStep s p c row row
  | submitted {request : SubmitProcessRequest} {cursor : ProcessJournalCursor}
      (process : request.processId = p)
      (lock : request.exclusiveWithinScope = true → ∀ row ∈ s.processes.rows,
        holdsActiveLock request.scope request.processKind row = false) :
      ProcessStep s p (.submit request) none (some (queuedSnapshot request cursor))
  | submittedWithCheckpoint {request : SubmitProcessRequest}
      {checkpoint : RecordProcessCheckpointRequest} {cursor : ProcessJournalCursor}
      {snapshot : JournaledProcessSnapshot}
      (process : request.processId = p) (owner : checkpoint.processId = p)
      (lock : request.exclusiveWithinScope = true → ∀ row ∈ s.processes.rows,
        holdsActiveLock request.scope request.processKind row = false)
      (link : snapshot = queuedSnapshot request cursor ∨ (checkpoint.linkToProcess = true ∧
        snapshot = linkedSnapshot (queuedSnapshot request cursor) checkpoint)) :
      ProcessStep s p (.submitWithCheckpoint request checkpoint) none (some snapshot)
  | submittedAtEdge {request : SubmitProcessAtEdgeRequest} {cursor : ProcessJournalCursor}
      (process : request.submission.processId = p)
      (kind : request.submission.processKind = .capabilityInvocationState) :
      ProcessStep s p (.submitAtEdge request) none (some (edgeSnapshot request cursor))
  | claimed {request : ClaimProcessesRequest} {now : Timestamp} {millis : UInt64}
      {nonce : ProcessId} {limits : ProcessConcurrencyLimits} {stored : JournaledProcessSnapshot}
      {cursor : ProcessJournalCursor} (candidate : claimable request stored = true) :
      ProcessStep s p (.claim request now millis nonce limits) (some stored)
        (some (claimedSnapshot stored request.workerId nonce now millis cursor))
  | renewed {request : ProcessLeaseRequest} {now : Timestamp} {millis : UInt64}
      {stored : JournaledProcessSnapshot} (process : request.processId = p)
      (valid : transitionValid stored.status .running = true)
      (lease : holdsLease stored request.workerId request.leaseToken = true) :
      ProcessStep s p (.heartbeat request now millis) (some stored)
        (some (renewedSnapshot stored now millis))
  | recovered {request : RecoverExpiredProcessLeasesRequest} {millis : UInt64}
      {stored : JournaledProcessSnapshot} {cursor : ProcessJournalCursor}
      (expired : leaseExpired request.now stored = true)
      (grace : requeueAwaitsGrace stored request.now millis = false)
      (selected : filtersSelect request.scopeFilter request.processKindFilter stored = true) :
      ProcessStep s p (.recoverExpired request millis) (some stored)
        (some (recoveredSnapshot stored cursor))
  | transitioned {request : ProcessLeaseRequest} {mutation : ProcessTransitionMutation}
      {stored : JournaledProcessSnapshot} {cursor : ProcessJournalCursor}
      (process : request.processId = p)
      (lease : holdsLease stored request.workerId request.leaseToken = true)
      (valid : transitionValid stored.status (effectiveMutation stored mutation).status = true) :
      ProcessStep s p (.leasedTransition request mutation) (some stored)
        (some (transitionedSnapshot stored mutation cursor))
  | controlled {mutation : ProcessControlMutation} {stored : JournaledProcessSnapshot}
      {status : ProcessLifecycleStatus} {kind : ProcessJournalKind} {cursor : ProcessJournalCursor}
      (process : mutation.processId = p)
      (fresh : (controlReplayKey mutation).bind s.controlIdempotency.get = none)
      (visible : processScopeVisible stored.scope mutation.scope = true)
      (current : ∀ expected, mutation.expectedCursor = some expected →
        expected = stored.journalCursor)
      (transition : controlTransition stored mutation.action = .ok (some (status, kind)))
      (moves : status ≠ stored.status) :
      ProcessStep s p (.control mutation) (some stored)
        (some (controlledSnapshot stored mutation status cursor))
  | linked {request : RecordProcessCheckpointRequest} {stored : JournaledProcessSnapshot}
      (process : request.processId = p) (link : request.linkToProcess = true) :
      ProcessStep s p (.recordCheckpoint request) (some stored)
        (some (linkedSnapshot stored request))

/-! ### Every command is such a step -/

variable {s s' : ProcessJournalMaterializedState}

@[simp] theorem commit_processes (snapshot : JournaledProcessSnapshot)
    (entry : ProcessJournalEntry) :
    (s.commit snapshot entry).processes = s.processes.put snapshot := rfl

theorem get_put_cases (t : Table JournaledProcessSnapshot.processId)
    (snapshot : JournaledProcessSnapshot) (p : ProcessId) :
    (snapshot.processId = p ∧ (t.put snapshot).get p = some snapshot) ∨
    (snapshot.processId ≠ p ∧ (t.put snapshot).get p = t.get p) := by
  by_cases h : snapshot.processId = p
  · exact .inl ⟨h, by rw [Table.get_put, if_pos h]⟩
  · exact .inr ⟨h, Table.get_put_of_ne _ h⟩

variable {p : ProcessId}

theorem mem_claimableProcessIds {request : ClaimProcessesRequest} :
    p ∈ s.claimableProcessIds request ↔
      ∃ stored, s.processes.get p = some stored ∧ claimable request stored = true := by
  simp only [claimableProcessIds, List.mem_map, List.mem_insertionSort, List.mem_filter,
    Table.get_eq_some_iff]
  constructor
  · rintro ⟨stored, ⟨hm, hc⟩, rfl⟩
    exact ⟨stored, ⟨hm, rfl⟩, hc⟩
  · rintro ⟨stored, ⟨hm, rfl⟩, hc⟩
    exact ⟨stored, ⟨hm, hc⟩, rfl⟩

theorem nodup_claimableProcessIds (request : ClaimProcessesRequest) :
    (s.claimableProcessIds request).Nodup := by
  unfold claimableProcessIds
  have hperm := (List.perm_insertionSort claimedBefore
    (s.processes.rows.filter (claimable request))).map JournaledProcessSnapshot.processId
  exact hperm.nodup_iff.mpr (s.processes.nodup.sublist (List.filter_sublist.map _))

theorem mem_expiredProcessIds {request : RecoverExpiredProcessLeasesRequest} :
    p ∈ s.expiredProcessIds request ↔
      ∃ stored, s.processes.get p = some stored ∧
        filtersSelect request.scopeFilter request.processKindFilter stored = true ∧
        leaseExpired request.now stored = true := by
  simp only [expiredProcessIds, List.mem_map, List.mem_filter, Bool.and_eq_true,
    Table.get_eq_some_iff]
  constructor
  · rintro ⟨stored, ⟨hm, hc⟩, rfl⟩
    exact ⟨stored, ⟨hm, rfl⟩, hc⟩
  · rintro ⟨stored, ⟨hm, rfl⟩, hc⟩
    exact ⟨stored, ⟨hm, hc⟩, rfl⟩

theorem nodup_expiredProcessIds (request : RecoverExpiredProcessLeasesRequest) :
    (s.expiredProcessIds request).Nodup :=
  s.processes.nodup.sublist (List.filter_sublist.map _)

/-- The row of the process is kept, or it is one of those asked for and changed once, as allowed. -/
def ChangedOnce (allowed : JournaledProcessSnapshot → JournaledProcessSnapshot → Prop)
    (p : ProcessId) (ids : List ProcessId) (s s' : ProcessJournalMaterializedState) : Prop :=
  s'.processes.get p = s.processes.get p ∨
    (p ∈ ids ∧ ∃ stored changed, s.processes.get p = some stored ∧ allowed stored changed ∧
      s'.processes.get p = some changed)

namespace ChangedOnce

variable {allowed : JournaledProcessSnapshot → JournaledProcessSnapshot → Prop} {q : ProcessId}
  {ids : List ProcessId} {s s' : ProcessJournalMaterializedState}

theorem skip (h : ChangedOnce allowed p ids s s') : ChangedOnce allowed p (q :: ids) s s' :=
  h.imp_right fun hp => ⟨List.mem_cons_of_mem _ hp.1, hp.2⟩

theorem commit {stored changed : JournaledProcessSnapshot} {entry : ProcessJournalEntry}
    (hg : s.processes.get q = some stored) (hkey : changed.processId = stored.processId)
    (hallowed : allowed stored changed) (hq : q ∉ ids)
    (h : ChangedOnce allowed p ids (s.commit changed entry) s') :
    ChangedOnce allowed p (q :: ids) s s' := by
  rw [ChangedOnce, commit_processes] at h
  rcases get_put_cases s.processes changed p with ⟨hk, hput⟩ | ⟨hk, hput⟩
  · rw [hkey, Table.key_of_get hg] at hk
    subst hk
    rcases h with h | ⟨hp, -⟩
    · exact .inr ⟨List.mem_cons_self, stored, changed, hg, hallowed, h.trans hput⟩
    · exact absurd hp hq
  · rw [hput] at h
    exact skip h

end ChangedOnce

/-- The claim loop changes a row at most once, and only that of a candidate. -/
theorem claimLoop_get (request : ClaimProcessesRequest) (now : Timestamp) (millis : UInt64)
    (nonce : ProcessId) (limits : ProcessConcurrencyLimits) (p : ProcessId) (ids : List ProcessId)
    (s : ProcessJournalMaterializedState) (claimed : List ClaimedProcess) (hnd : ids.Nodup) :
    ChangedOnce (fun stored changed => ∃ cursor,
        changed = claimedSnapshot stored request.workerId nonce now millis cursor)
      p ids s (claimLoop request now millis nonce limits ids s claimed).2 := by
  revert hnd
  refine claimLoop_induct (motive := fun ids s _ result =>
    ids.Nodup → ChangedOnce _ p ids s result.2) ?stop ?skip ?take ids s claimed
  case stop =>
    intro _ _ _ _
    exact .inl rfl
  case skip =>
    intro q ids s _ result ih hnd
    exact (ih (List.nodup_cons.mp hnd).2).skip
  case take =>
    intro q ids s _ stored result hg _ _ _ ih hnd
    rw [List.nodup_cons] at hnd
    exact (ih hnd.2).commit hg (claimedSnapshot_processId ..) ⟨s.nextCursor, rfl⟩ hnd.1

theorem recoverLoop_get {now : Timestamp} {millis : UInt64} (p : ProcessId) (ids : List ProcessId)
    (s : ProcessJournalMaterializedState) (recovered : List JournaledProcessSnapshot)
    (result : List JournaledProcessSnapshot × ProcessJournalMaterializedState)
    (h : recoverLoop now millis ids s recovered = .ok result) (hnd : ids.Nodup) :
    ChangedOnce (fun stored changed => requeueAwaitsGrace stored now millis = false ∧
      ∃ cursor, changed = recoveredSnapshot stored cursor) p ids s result.2 := by
  revert hnd
  refine recoverLoop_induct (motive := fun ids s result =>
    ids.Nodup → ChangedOnce _ p ids s result) ?stop ?hold ?recover ids s recovered result h
  case stop =>
    intro _ _
    exact .inl rfl
  case hold =>
    intro q ids s result ih hnd
    exact (ih (List.nodup_cons.mp hnd).2).skip
  case recover =>
    intro q ids s stored result hg hgrace ih hnd
    rw [List.nodup_cons] at hnd
    exact (ih hnd.2).commit hg (recoveredSnapshot_processId ..) ⟨hgrace, s.nextCursor, rfl⟩ hnd.1

section Commands

variable {o : StoredCommandOutcome} (p : ProcessId)

theorem applySubmit_processStep {request : SubmitProcessRequest}
    (h : s.applySubmit request = .ok (o, s')) :
    ProcessStep s p (.submit request) (s.processes.get p) (s'.processes.get p) := by
  rcases applySubmit_ok h with ⟨rfl, -⟩ | ⟨tree, hn, hlock, -, rfl, -⟩
  · exact .unchanged
  · rcases get_put_cases s.processes (queuedSnapshot request s.nextCursor) p
      with ⟨hk, hput⟩ | ⟨-, hput⟩
    · simp only [storeSubmission, commit_processes, hput]
      rw [queuedSnapshot_processId] at hk
      subst hk
      rw [hn]
      exact .submitted rfl hlock
    · simp only [storeSubmission, commit_processes, hput]
      exact .unchanged

theorem applySubmitWithCheckpoint_processStep {request : SubmitProcessRequest}
    {checkpoint : RecordProcessCheckpointRequest}
    (h : s.applySubmitWithCheckpoint request checkpoint = .ok (o, s')) :
    ProcessStep s p (.submitWithCheckpoint request checkpoint) (s.processes.get p)
      (s'.processes.get p) := by
  obtain ⟨hcp, -, -, ⟨-, rfl⟩ | ⟨snapshot, submitted, o', rfl, hsub, hcheck⟩⟩ :=
    applySubmitWithCheckpoint_ok h
  · exact .unchanged
  rcases applySubmit_ok hsub with ⟨-, snapshot', ho⟩ | ⟨tree, hn, hlock, -, rfl, -⟩
  · simp at ho
  obtain ⟨stored, hstored, hs'⟩ := applyCheckpoint_ok hcheck
  have hqueued : (s.storeSubmission request tree).processes =
      s.processes.put (queuedSnapshot request s.nextCursor) := rfl
  have hstored' : stored = queuedSnapshot request s.nextCursor := by
    rw [hqueued, hcp, ← queuedSnapshot_processId request s.nextCursor, Table.get_put_self] at hstored
    exact (Option.some.inj hstored).symm
  by_cases hp : request.processId = p
  · subst hp
    rw [hn]
    have hget : (s.storeSubmission request tree).processes.get request.processId =
        some (queuedSnapshot request s.nextCursor) := by
      rw [hqueued, ← queuedSnapshot_processId request s.nextCursor, Table.get_put_self]
    rcases hs' with rfl | ⟨-, rfl⟩
    · rw [hget]
      exact .submittedWithCheckpoint rfl hcp hlock (.inl rfl)
    · simp only
      split_ifs with hlink
      · rw [hstored', Table.get_put, if_pos (by simp)]
        exact .submittedWithCheckpoint rfl hcp hlock (.inr ⟨hlink, rfl⟩)
      · rw [hget]
        exact .submittedWithCheckpoint rfl hcp hlock (.inl rfl)
  · have hget : s'.processes.get p = s.processes.get p := by
      have hother : (s.storeSubmission request tree).processes.get p = s.processes.get p := by
        rw [hqueued, Table.get_put_of_ne _ (by simpa using hp)]
      rcases hs' with rfl | ⟨-, rfl⟩
      · exact hother
      · simp only
        split_ifs
        · rw [hstored', Table.get_put_of_ne _ (by simpa using hp), hother]
        · exact hother
    rw [hget]
    exact .unchanged

theorem applySubmitAtEdge_processStep {request : SubmitProcessAtEdgeRequest}
    (h : s.applySubmitAtEdge request = .ok (o, s')) :
    ProcessStep s p (.submitAtEdge request) (s.processes.get p) (s'.processes.get p) := by
  rcases applySubmitAtEdge_ok h with rfl | ⟨hn, hkind, rfl⟩
  · exact .unchanged
  · rcases get_put_cases s.processes (edgeSnapshot request s.nextCursor) p
      with ⟨hk, hput⟩ | ⟨-, hput⟩
    · simp only [storeEdgeSubmission, commit_processes, hput]
      rw [edgeSnapshot_processId] at hk
      subst hk
      rw [hn]
      exact .submittedAtEdge rfl hkind
    · simp only [storeEdgeSubmission, commit_processes, hput]
      exact .unchanged

theorem applyClaim_processStep {request : ClaimProcessesRequest} {now : Timestamp}
    {millis : UInt64} {nonce : ProcessId} {limits : ProcessConcurrencyLimits}
    (h : s.applyClaim request now millis nonce limits = .ok (o, s')) :
    ProcessStep s p (.claim request now millis nonce limits) (s.processes.get p)
      (s'.processes.get p) := by
  simp only [applyClaim, Except.ok.injEq, Prod.mk.injEq] at h
  obtain ⟨-, rfl⟩ := h
  rcases claimLoop_get request now millis nonce limits p _ s [] (nodup_claimableProcessIds request)
    with h | ⟨hp, stored, _, hg, ⟨cursor, rfl⟩, h⟩
  · rw [h]
    exact .unchanged
  · obtain ⟨stored', hg', hc⟩ := mem_claimableProcessIds.mp hp
    rw [hg, Option.some.injEq] at hg'
    subst hg'
    rw [h, hg]
    exact .claimed hc

theorem applyHeartbeat_processStep {request : ProcessLeaseRequest} {now : Timestamp}
    {millis : UInt64} (h : s.applyHeartbeat request now millis = .ok (o, s')) :
    ProcessStep s p (.heartbeat request now millis) (s.processes.get p) (s'.processes.get p) := by
  obtain ⟨stored, hg, ht, hl, rfl⟩ := applyHeartbeat_ok h
  rcases get_put_cases s.processes (renewedSnapshot stored now millis) p
    with ⟨hk, hput⟩ | ⟨-, hput⟩
  · rw [hput]
    rw [renewedSnapshot_processId, Table.key_of_get hg] at hk
    subst hk
    rw [hg]
    exact .renewed rfl ht hl
  · rw [hput]
    exact .unchanged

theorem applyRecoverExpired_processStep {request : RecoverExpiredProcessLeasesRequest}
    {millis : UInt64} (h : s.applyRecoverExpired request millis = .ok (o, s')) :
    ProcessStep s p (.recoverExpired request millis) (s.processes.get p)
      (s'.processes.get p) := by
  obtain ⟨recovered, hr⟩ := applyRecoverExpired_ok h
  rcases recoverLoop_get p _ s _ _ hr (nodup_expiredProcessIds request)
    with h | ⟨hp, stored, _, hg, ⟨hgrace, cursor, rfl⟩, h⟩
  · rw [h]
    exact .unchanged
  · obtain ⟨stored', hg', hselected, hx⟩ := mem_expiredProcessIds.mp hp
    rw [hg, Option.some.injEq] at hg'
    subst hg'
    rw [h, hg]
    exact .recovered hx hgrace hselected

theorem applyLeasedTransition_processStep {request : ProcessLeaseRequest}
    {mutation : ProcessTransitionMutation}
    (h : s.applyLeasedTransition request mutation = .ok (o, s')) :
    ProcessStep s p (.leasedTransition request mutation) (s.processes.get p)
      (s'.processes.get p) := by
  obtain ⟨stored, hg, hl, ht, rfl⟩ := applyLeasedTransition_ok h
  simp only [commit_processes]
  rcases get_put_cases s.processes (transitionedSnapshot stored mutation s.nextCursor) p
    with ⟨hk, hput⟩ | ⟨-, hput⟩
  · rw [hput]
    rw [transitionedSnapshot_processId, Table.key_of_get hg] at hk
    subst hk
    rw [hg]
    exact .transitioned rfl hl ht
  · rw [hput]
    exact .unchanged

theorem applyControl_processStep {mutation : ProcessControlMutation}
    (h : s.applyControl mutation = .ok (o, s')) :
    ProcessStep s p (.control mutation) (s.processes.get p) (s'.processes.get p) := by
  rcases applyControl_ok h with
    ⟨_, rfl, -⟩ | ⟨stored, status, kind, hreplay, hg, hv, he, ht, hne, rfl⟩
  · exact .unchanged
  · simp only [storeControl, commit_processes]
    rcases get_put_cases s.processes (controlledSnapshot stored mutation status s.nextCursor) p
      with ⟨hk, hput⟩ | ⟨-, hput⟩
    · rw [hput]
      rw [controlledSnapshot_processId, Table.key_of_get hg] at hk
      subst hk
      rw [hg]
      exact .controlled rfl hreplay hv he ht hne
    · rw [hput]
      exact .unchanged

theorem applyCheckpoint_processStep {request : RecordProcessCheckpointRequest}
    (h : s.applyCheckpoint request = .ok (o, s')) :
    ProcessStep s p (.recordCheckpoint request) (s.processes.get p) (s'.processes.get p) := by
  obtain ⟨stored, hg, rfl | ⟨-, rfl⟩⟩ := applyCheckpoint_ok h
  · exact .unchanged
  · simp only
    split_ifs with hlink
    · rcases get_put_cases s.processes (linkedSnapshot stored request) p
        with ⟨hk, hput⟩ | ⟨-, hput⟩
      · rw [hput]
        rw [linkedSnapshot_processId, Table.key_of_get hg] at hk
        subst hk
        rw [hg]
        exact .linked rfl hlink
      · rw [hput]
        exact .unchanged
    · exact .unchanged

/-- Every accepted command other than an import acts on every row by a `ProcessStep`. -/
theorem applyCommand_processStep {c : StoredProcessCommand} (hc : c.isImport = false)
    (h : s.applyCommand c = .ok (o, s')) :
    ProcessStep s p c (s.processes.get p) (s'.processes.get p) := by
  cases c with
  | importLegacyState => simp [StoredProcessCommand.isImport] at hc
  | submit => exact applySubmit_processStep p h
  | submitAtEdge => exact applySubmitAtEdge_processStep p h
  | submitWithCheckpoint => exact applySubmitWithCheckpoint_processStep p h
  | claim => exact applyClaim_processStep p h
  | heartbeat => exact applyHeartbeat_processStep p h
  | recoverExpired => exact applyRecoverExpired_processStep p h
  | leasedTransition => exact applyLeasedTransition_processStep p h
  | control => exact applyControl_processStep p h
  | reserveTree =>
    obtain ⟨-, rfl⟩ := applyReserveTree_ok h
    exact .unchanged
  | releaseTree =>
    obtain ⟨_, -, rfl⟩ := applyReleaseTree_ok h
    exact .unchanged
  | pruneTree =>
    obtain ⟨_, rfl⟩ := applyPruneTree_ok h
    exact .unchanged
  | openDependency =>
    obtain rfl | ⟨_, -, -, -, rfl⟩ := applyOpenDependency_ok h
    · exact .unchanged
    · exact .unchanged
  | settleDependency =>
    obtain rfl | ⟨_, -, -, -, rfl⟩ := applySettleDependency_ok h
    · exact .unchanged
    · exact .unchanged
  | transitionDependency =>
    obtain rfl | ⟨_, _, -, -, -, -, -, rfl⟩ := applyTransitionDependency_ok h
    · exact .unchanged
    · exact .unchanged
  | consumeDependency =>
    obtain ⟨rfl, -⟩ | ⟨_, _, -, -, -, -, -, rfl⟩ := applyCloseDependency_ok h
    · exact .unchanged
    · exact .unchanged
  | abandonDependency =>
    obtain ⟨rfl, -⟩ | ⟨_, _, -, -, -, -, -, rfl⟩ := applyCloseDependency_ok h
    · exact .unchanged
    · exact .unchanged
  | recordCheckpoint => exact applyCheckpoint_processStep p h

end Commands

/-! ### Imports -/

theorem import_get {imported : ProcessJournalMaterializedState}
    {a : JournaledProcessSnapshot} (ha : s.processes.get p = some a) :
    s.importLegacyState imported = s := by
  unfold importLegacyState
  rw [if_neg]
  rintro ⟨-, hrows, -⟩
  have hmem := Table.mem_of_get ha
  rw [hrows] at hmem
  exact List.not_mem_nil hmem

/-- What an import does to a row: nothing, or it brings the imported row. -/
theorem advance_import_get (s state : ProcessJournalMaterializedState) (p : ProcessId) :
    (advance applyCommand s (.importLegacyState state)).processes.get p = s.processes.get p ∨
    (s.processes.get p = none ∧
      (advance applyCommand s (.importLegacyState state)).processes.get p =
        state.processes.get p) := by
  rw [advance_of_ok (o := .imported) rfl]
  cases h : s.processes.get p with
  | some a => exact .inl (by rw [import_get h, h])
  | none =>
    unfold importLegacyState
    split_ifs
    · exact .inr ⟨rfl, rfl⟩
    · exact .inl h

/-- The command does not bring the process `p` with a history from elsewhere: it is no import,
or an import of a state without `p`. -/
def StoredProcessCommand.Spares (command : StoredProcessCommand) (p : ProcessId) : Prop :=
  ∀ state, command = .importLegacyState state → state.processes.get p = none

variable {c : StoredProcessCommand}

theorem StoredProcessCommand.spares_of_not_import (hc : c.isImport = false)
    (p : ProcessId) : c.Spares p := by
  rintro state rfl
  cases hc

/-- **One command, one process.**  Every command that does not bring `p` from elsewhere,
accepted or rejected, acts on the row of `p` by a `ProcessStep`. -/
theorem advance_processStep (s : ProcessJournalMaterializedState) (hc : c.Spares p) :
    ProcessStep s p c (s.processes.get p) ((advance applyCommand s c).processes.get p) := by
  cases himp : c.isImport with
  | true =>
    cases c <;> simp [StoredProcessCommand.isImport] at himp
    rcases advance_import_get s _ p with h | ⟨hn, h⟩
    · rw [h]
      exact .unchanged
    · rw [h, hn, hc _ rfl]
      exact .unchanged
  | false =>
    cases h : s.applyCommand c with
    | ok result =>
      rw [advance_of_ok h]
      exact applyCommand_processStep p himp h
    | error e =>
      rw [advance_of_error h]
      exact .unchanged

theorem ProcessStep.isSome_after {s : ProcessJournalMaterializedState}
    {a : JournaledProcessSnapshot}
    {after : Option JournaledProcessSnapshot} (h : ProcessStep s p c (some a) after) :
    after.isSome := by
  cases h <;> rfl

theorem run_row_invariant {I : Option JournaledProcessSnapshot → Prop} (hnone : I none)
    (hstep : ∀ s c before after, ProcessStep s p c before after → I before → I after)
    {history : List JournalStep} {s : ProcessJournalMaterializedState}
    (run : JournalRun history s) (hall : ∀ x ∈ history, x.command.Spares p) :
    I (s.processes.get p) := by
  refine run.invariant (I := fun s => I (s.processes.get p)) (A := fun c => c.Spares p) ?_ ?_ ?_ hall
  · simpa [empty] using hnone
  · intro s t hst hI
    rwa [← hst.processes_get]
  · intro s c hc hI
    exact hstep s c _ _ (advance_processStep s hc) hI

end Ironclaw.Processes
