import Ironclaw.Processes.Command

/-! # What an accepted command has done

One lemma for each `apply` function: if it returned a state, then its guards held and the
state is the stated update of the state before. Everything about runs is derived from these
lemmas; no later proof unfolds an `apply` function that has one. -/

namespace Ironclaw.Processes.ProcessJournalMaterializedState

variable {s s' : ProcessJournalMaterializedState} {o : StoredCommandOutcome}

/-! ### Submissions -/

variable {request : SubmitProcessRequest}

theorem refuseActiveConflict_ok {u : Unit}
    (h : s.refuseActiveConflict request = .ok u) (hx : request.exclusiveWithinScope = true) :
    ∀ row ∈ s.processes.rows, holdsActiveLock request.scope request.processKind row = false := by
  unfold refuseActiveConflict at h
  rw [if_pos hx] at h
  intro row hrow
  cases hf : s.processes.rows.find? (holdsActiveLock request.scope request.processKind) with
  | some active => simp [hf] at h
  | none => simpa using List.find?_eq_none.mp hf row hrow

theorem refuseActiveConflict_error {e : ProcessJournalStoreError}
    (h : s.refuseActiveConflict request = .error e) :
    request.exclusiveWithinScope = true ∧
      ∃ active ∈ s.processes.rows, holdsActiveLock request.scope request.processKind active = true ∧
        e = .activeProcessConflict active.processId active.processKind active.status
          active.suspension active.journalCursor := by
  unfold refuseActiveConflict at h
  split_ifs at h with hx
  · refine ⟨hx, ?_⟩
    cases hf : s.processes.rows.find? (holdsActiveLock request.scope request.processKind) with
    | none => simp [hf] at h
    | some active =>
      simp only [hf, Except.error.injEq] at h
      exact ⟨active, List.mem_of_find?_eq_some hf, List.find?_some hf, h.symm⟩

theorem childReservation_some {root : ProcessId} {next : ℕ}
    (h : s.childReservation request = .ok (some (root, next))) :
    ∃ parent cap, s.processes.get parent.processId = some parent ∧
      request.parentProcessId = some parent.processId ∧
      root = parent.rootProcessId.getD parent.processId ∧ request.rootProcessId = some root ∧
      request.spawnTreeDescendantCap = some cap ∧ next = s.descendantCount root + 1 ∧
      next ≤ cap.toNat := by
  unfold childReservation at h
  split at h
  · next parentProcessId hp =>
      simp only [process, bind_eq_ok, rejectIf_eq_ok, okOr_eq_ok, exists_const, pure_eq_ok,
        Option.some.injEq, Prod.mk.injEq, not_not, not_lt, checkedAdd, Option.ite_none_right_eq_some]
        at h
      obtain ⟨parent, hg, -, hr, cap, hc, n, ⟨-, hn⟩, hle, rfl, rfl⟩ := h
      have hk := Table.key_of_get hg
      subst hk
      exact ⟨parent, cap, hg, hp, rfl, hr, hc, hn.symm, hle⟩
  · simp only [bind_eq_ok, pure_eq_ok, reduceCtorEq, and_false, exists_false] at h

theorem childReservation_none
    (h : s.childReservation request = .ok none) : request.parentProcessId = none := by
  unfold childReservation at h
  split at h
  · simp only [bind_eq_ok, pure_eq_ok, reduceCtorEq, and_false, exists_false] at h
  · assumption

/-- A submission that is no replay and passes every check. -/
structure SubmissionTaken (s : ProcessJournalMaterializedState) (request : SubmitProcessRequest) :
    Prop where
  fresh : (submissionReplayKey request).bind s.submissionIdempotency.get = none
  absent : s.processes.get request.processId = none
  alone : s.refuseActiveConflict request = .ok ()
  dependency : refuseForeignDependency request = .ok ()
  room : ∃ tree, s.childReservation request = .ok tree

theorem SubmissionTaken.stored (h : SubmissionTaken s request) :
    ∃ tree, s.applySubmit request = .ok
      (.submitted (queuedSnapshot request s.nextCursor) true, s.storeSubmission request tree) := by
  obtain ⟨tree, ht⟩ := h.room
  refine ⟨tree, ?_⟩
  simp only [applySubmit, h.fresh, bind_eq_ok, rejectIf_eq_ok, exists_const, pure_eq_ok]
  exact ⟨by simp [h.absent], (), h.alone, (), h.dependency, tree, ht, rfl⟩

theorem SubmissionTaken.dependent_stored {dependency : ProcessDependencySubmission}
    (h : SubmissionTaken s request)
    (hd : request.dependency = some dependency) :
    (s.processes.get dependency.dependentProcessId).isSome := by
  have hforeign := h.dependency
  simp only [refuseForeignDependency, hd, bind_eq_ok, rejectIf_eq_ok, exists_const, not_not]
    at hforeign
  obtain ⟨tree, ht⟩ := h.room
  simp only [childReservation, hforeign.1, process, bind_eq_ok, okOr_eq_ok] at ht
  obtain ⟨parent, hparent, -⟩ := ht
  simp [hparent]

/-- An accepted submission either answers a replay or is taken and stored. -/
theorem applySubmit_taken (h : s.applySubmit request = .ok (o, s')) :
    (s' = s ∧ ∃ snapshot, o = .submitted snapshot false) ∨
    ∃ tree, SubmissionTaken s request ∧ s.childReservation request = .ok tree ∧
      s' = s.storeSubmission request tree ∧
      o = .submitted (queuedSnapshot request s.nextCursor) true := by
  unfold applySubmit at h
  split at h
  · next snapshot _ =>
      simp only [Except.ok.injEq, Prod.mk.injEq] at h
      exact .inl ⟨h.2.symm, snapshot, h.1.symm⟩
  · next hfresh =>
      simp only [bind_eq_ok, rejectIf_eq_ok, exists_const, pure_eq_ok, Prod.mk.injEq] at h
      obtain ⟨hn, u, ha, v, hd, tree, ht, ho, hs⟩ := h
      exact .inr ⟨tree, ⟨hfresh, by simpa using hn, ha, hd, tree, ht⟩, ht, hs.symm, ho.symm⟩

theorem applySubmit_ok (h : s.applySubmit request = .ok (o, s')) :
    (s' = s ∧ ∃ snapshot, o = .submitted snapshot false) ∨
    ∃ tree, s.processes.get request.processId = none ∧
      (request.exclusiveWithinScope = true → ∀ row ∈ s.processes.rows,
        holdsActiveLock request.scope request.processKind row = false) ∧
      s.childReservation request = .ok tree ∧ s' = s.storeSubmission request tree ∧
      o = .submitted (queuedSnapshot request s.nextCursor) true := by
  rcases applySubmit_taken h with hreplay | ⟨tree, htaken, ht, hs, ho⟩
  · exact .inl hreplay
  · exact .inr ⟨tree, htaken.absent, refuseActiveConflict_ok htaken.alone, ht, hs, ho⟩

theorem edgeReplay_none {request : SubmitProcessAtEdgeRequest}
    (h : s.edgeReplay request = .ok none) :
    s.processes.get request.submission.processId = none := by
  unfold edgeReplay at h
  simp only at h
  split at h
  · simp only [bind_eq_ok, pure_eq_ok, reduceCtorEq, and_false, exists_false] at h
  · split at h
    · simp only [bind_eq_ok, pure_eq_ok, reduceCtorEq, and_false, exists_false] at h
    · split at h
      · simp only [bind_eq_ok, pure_eq_ok, reduceCtorEq, and_false, exists_false] at h
      · assumption

theorem applySubmitAtEdge_ok {request : SubmitProcessAtEdgeRequest}
    (h : s.applySubmitAtEdge request = .ok (o, s')) :
    s' = s ∨
    (s.processes.get request.submission.processId = none ∧
      request.submission.processKind = .capabilityInvocationState ∧
      s' = s.storeEdgeSubmission request) := by
  simp only [applySubmitAtEdge, bind_eq_ok, rejectIf_eq_ok, exists_const, not_or, not_not] at h
  obtain ⟨⟨hk, -⟩, replay, hr, h⟩ := h
  cases replay with
  | some snapshot =>
    simp only [pure_eq_ok, Prod.mk.injEq] at h
    exact .inl h.2.symm
  | none =>
    simp only [bind_eq_ok, pure_eq_ok, Prod.mk.injEq] at h
    obtain ⟨-, -, -, hs⟩ := h
    exact .inr ⟨edgeReplay_none hr, hk, hs.symm⟩

/-! ### Claim and heartbeat -/

theorem processClaimWithinLimits_some {p : ProcessId} {limits : ProcessConcurrencyLimits}
    (h : ¬ s.processClaimWithinLimits p limits = false) :
    ∃ stored, s.processes.get p = some stored ∧ s.ownerWithinLimits stored limits = true ∧
      s.classWithinLimits stored limits = true := by
  unfold processClaimWithinLimits at h
  cases hg : s.processes.get p with
  | none => simp [hg] at h
  | some stored => exact ⟨stored, rfl, by simpa [hg] using h⟩

variable {millis : UInt64} {now : Timestamp}

/-- The claim loop, by its three moves: stop, skip a candidate, claim a candidate. -/
theorem claimLoop_induct {request : ClaimProcessesRequest}
    {nonce : ProcessId} {limits : ProcessConcurrencyLimits}
    {motive : List ProcessId → ProcessJournalMaterializedState → List ClaimedProcess →
      List ClaimedProcess × ProcessJournalMaterializedState → Prop}
    (stop : ∀ ids s claimed, motive ids s claimed (claimed, s))
    (skip : ∀ p ids s claimed result, motive ids s claimed result →
      motive (p :: ids) s claimed result)
    (take : ∀ p ids s claimed stored result, s.processes.get p = some stored →
      claimed.length < request.maxProcesses →
      s.ownerWithinLimits stored limits = true → s.classWithinLimits stored limits = true →
      (let snapshot := claimedSnapshot stored request.workerId nonce now millis s.nextCursor
       motive ids (s.commit snapshot (.fromSnapshot snapshot s.nextCursor .claimed))
        (claimed ++ [⟨snapshot, request.workerId, ⟨nonce.toText⟩⟩]) result) →
      motive (p :: ids) s claimed result) :
    ∀ ids s claimed, motive ids s claimed
      (claimLoop request now millis nonce limits ids s claimed)
  | [], s, claimed => stop [] s claimed
  | p :: ids, s, claimed => by
    have ih := claimLoop_induct stop skip take ids
    unfold claimLoop
    simp only
    split_ifs with hmax hlim
    · exact stop _ s claimed
    · exact skip p ids s claimed _ (ih s claimed)
    · obtain ⟨stored, hg, ho, hc⟩ := processClaimWithinLimits_some hlim
      rw [hg]
      exact take p ids s claimed stored _ hg (Nat.lt_of_not_le hmax) ho hc (ih _ _)

section Moves

variable {request : ClaimProcessesRequest} {now : Timestamp} {millis : UInt64} {nonce : ProcessId}
  {limits : ProcessConcurrencyLimits} {claimed : List ClaimedProcess} {p : ProcessId}

theorem claimLoop_full (h : request.maxProcesses ≤ claimed.length) (ids : List ProcessId) :
    claimLoop request now millis nonce limits ids s claimed = (claimed, s) := by
  cases ids with
  | nil => rfl
  | cons p ids => rw [claimLoop, if_pos h]

theorem claimLoop_append (ids more : List ProcessId) (s : ProcessJournalMaterializedState)
    (claimed : List ClaimedProcess) :
    claimLoop request now millis nonce limits (ids ++ more) s claimed =
      let reached := claimLoop request now millis nonce limits ids s claimed
      claimLoop request now millis nonce limits more reached.2 reached.1 := by
  induction ids generalizing s claimed with
  | nil => rfl
  | cons p ids ih =>
    simp only [List.cons_append, claimLoop]
    split_ifs with hmax hlim
    · exact (claimLoop_full hmax more).symm
    · exact ih s claimed
    · cases s.processes.get p with
      | none => exact ih _ claimed
      | some stored => exact ih _ _

end Moves

theorem claimLoop_frame (request : ClaimProcessesRequest) (now : Timestamp) (millis : UInt64)
    (nonce : ProcessId) (limits : ProcessConcurrencyLimits) (ids : List ProcessId)
    (s : ProcessJournalMaterializedState) (claimed : List ClaimedProcess) :
    ∃ nextCursor processes journal,
      (claimLoop request now millis nonce limits ids s claimed).2 =
        { s with nextCursor, processes, journal } :=
  claimLoop_induct (motive := fun _ s _ result => ∃ nextCursor processes journal,
      result.2 = { s with nextCursor, processes, journal })
    (fun _ _ _ => ⟨_, _, _, rfl⟩) (fun _ _ _ _ _ h => h) (fun _ _ _ _ _ _ _ _ _ _ h => h)
    ids s claimed

theorem applyHeartbeat_ok {request : ProcessLeaseRequest}
    (h : s.applyHeartbeat request now millis = .ok (o, s')) :
    ∃ stored, s.processes.get request.processId = some stored ∧
      transitionValid stored.status .running = true ∧
      holdsLease stored request.workerId request.leaseToken = true ∧
      s' = { s with processes := s.processes.put (renewedSnapshot stored now millis) } := by
  simp only [applyHeartbeat, process, ensureTransition, ensureLease, bind_eq_ok, rejectIf_eq_ok,
    okOr_eq_ok, exists_const, Bool.not_eq_false, pure_eq_ok, Prod.mk.injEq] at h
  obtain ⟨stored, hg, ht, hl, -, hs⟩ := h
  exact ⟨stored, hg, ht, hl, hs.symm⟩

/-! ### Recovery -/

/-- The recovery loop, by its two moves: leave a process alone, recover it. -/
theorem recoverLoop_induct
    {motive : List ProcessId → ProcessJournalMaterializedState →
      ProcessJournalMaterializedState → Prop}
    (stop : ∀ s, motive [] s s)
    (hold : ∀ p ids s result, motive ids s result → motive (p :: ids) s result)
    (recover : ∀ p ids s stored result, s.processes.get p = some stored →
      requeueAwaitsGrace stored now millis = false →
      (let snapshot := recoveredSnapshot stored s.nextCursor
       motive ids (s.commit snapshot
        (.fromSnapshot snapshot s.nextCursor (recoveryDecision stored).2.1)) result) →
      motive (p :: ids) s result) :
    ∀ ids s recovered result, recoverLoop now millis ids s recovered = .ok result →
      motive ids s result.2
  | [], s, recovered, result, h => by
    simp only [recoverLoop, Except.ok.injEq] at h
    subst h
    exact stop s
  | p :: ids, s, recovered, result, h => by
    have ih := recoverLoop_induct stop hold recover ids
    simp only [recoverLoop, process, bind_eq_ok, okOr_eq_ok] at h
    obtain ⟨stored, hg, h⟩ := h
    split_ifs at h with hgrace
    · exact hold p ids s _ (ih _ _ _ h)
    · exact recover p ids s stored _ hg (by simpa using hgrace) (ih _ _ _ h)

theorem recoverLoop_frame {ids : List ProcessId} {recovered : List JournaledProcessSnapshot}
    {result : List JournaledProcessSnapshot × ProcessJournalMaterializedState}
    (h : recoverLoop now millis ids s recovered = .ok result) :
    ∃ nextCursor processes journal, result.2 = { s with nextCursor, processes, journal } :=
  recoverLoop_induct (motive := fun _ s result => ∃ nextCursor processes journal,
      result = { s with nextCursor, processes, journal })
    (fun _ => ⟨_, _, _, rfl⟩) (fun _ _ _ _ h => h) (fun _ _ _ _ _ _ _ h => h) ids s _ _ h

theorem applyRecoverExpired_ok {request : RecoverExpiredProcessLeasesRequest}
    (h : s.applyRecoverExpired request millis = .ok (o, s')) :
    ∃ recovered, recoverLoop request.now millis (s.expiredProcessIds request) s [] =
      .ok (recovered, s') := by
  simp only [applyRecoverExpired, bind_eq_ok, pure_eq_ok, Prod.mk.injEq] at h
  obtain ⟨⟨recovered, t⟩, hr, -, rfl⟩ := h
  exact ⟨recovered, hr⟩

/-! ### Leased transitions and controls -/

theorem applyLeasedTransition_ok {request : ProcessLeaseRequest}
    {mutation : ProcessTransitionMutation}
    (h : s.applyLeasedTransition request mutation = .ok (o, s')) :
    ∃ stored, s.processes.get request.processId = some stored ∧
      holdsLease stored request.workerId request.leaseToken = true ∧
      transitionValid stored.status (effectiveMutation stored mutation).status = true ∧
      (let snapshot := transitionedSnapshot stored mutation s.nextCursor
       s' = { s.commit snapshot (.fromSnapshot snapshot s.nextCursor
                (effectiveMutation stored mutation).kind) with
              inputs := s.inputsAfter snapshot }) := by
  simp only [applyLeasedTransition, process, ensureTransition, ensureLease, bind_eq_ok,
    rejectIf_eq_ok, okOr_eq_ok, exists_const, Bool.not_eq_false, pure_eq_ok, Prod.mk.injEq] at h
  obtain ⟨stored, hg, hl, ht, -, hs⟩ := h
  exact ⟨stored, hg, hl, ht, hs.symm⟩

theorem controlTransition_ok {stored : JournaledProcessSnapshot} {action : ProcessControlAction}
    {status : ProcessLifecycleStatus} {kind : ProcessJournalKind}
    (h : controlTransition stored action = .ok (some (status, kind))) :
    (action = .resume ∧ status = .queued ∧ transitionValid stored.status .queued = true) ∨
    (stored.status.isTerminal = false ∧
      ((action = .stop ∧ status = .stopped) ∨ (action = .kill ∧ status = .killed) ∨
        (action = .cancel ∧ status = .cancelRequested ∧
          (stored.status = .running ∨ stored.status = .cancelRequested)) ∨
        (action = .cancel ∧ status = .cancelled ∧ stored.status ≠ .running ∧
          stored.status ≠ .cancelRequested))) := by
  cases action with
  | resume =>
    simp only [controlTransition, ensureTransition, bind_eq_ok, rejectIf_eq_ok, exists_const,
      Bool.not_eq_false, pure_eq_ok, Option.some.injEq, Prod.mk.injEq] at h
    exact .inl ⟨rfl, h.2.1.symm, h.1⟩
  | stop =>
    simp only [controlTransition, Except.ok.injEq, Option.ite_none_left_eq_some, Option.some.injEq,
      Prod.mk.injEq, Bool.not_eq_true] at h
    exact .inr ⟨h.1, .inl ⟨rfl, h.2.1.symm⟩⟩
  | kill =>
    simp only [controlTransition, Except.ok.injEq, Option.ite_none_left_eq_some, Option.some.injEq,
      Prod.mk.injEq, Bool.not_eq_true] at h
    exact .inr ⟨h.1, .inr (.inl ⟨rfl, h.2.1.symm⟩)⟩
  | cancel =>
    simp only [controlTransition] at h
    split_ifs at h with ht hr
    · simp only [Except.ok.injEq, reduceCtorEq] at h
    · simp only [Except.ok.injEq, Option.some.injEq, Prod.mk.injEq] at h
      exact .inr ⟨by simpa using ht, .inr (.inr (.inl ⟨rfl, h.1.symm, hr⟩))⟩
    · simp only [Except.ok.injEq, Option.some.injEq, Prod.mk.injEq] at h
      rw [not_or] at hr
      exact .inr ⟨by simpa using ht, .inr (.inr (.inr ⟨rfl, h.1.symm, hr.1, hr.2⟩))⟩

theorem applyControl_ok {mutation : ProcessControlMutation}
    (h : s.applyControl mutation = .ok (o, s')) :
    (∃ records, s' = { s with controlIdempotency := records } ∧
      (records = s.controlIdempotency ∨
        ∃ result, records = s.controlIdempotency.remember (controlReplayKey mutation) result)) ∨
    ∃ stored status kind, (controlReplayKey mutation).bind s.controlIdempotency.get = none ∧
      s.processes.get mutation.processId = some stored ∧
      processScopeVisible stored.scope mutation.scope = true ∧
      (∀ expected, mutation.expectedCursor = some expected → expected = stored.journalCursor) ∧
      controlTransition stored mutation.action = .ok (some (status, kind)) ∧
      status ≠ stored.status ∧ s' = s.storeControl mutation stored status kind := by
  unfold applyControl at h
  split at h
  · simp only [bind_eq_ok, pure_eq_ok, Prod.mk.injEq] at h
    obtain ⟨-, -, -, rfl⟩ := h
    exact .inl ⟨_, rfl, .inl rfl⟩
  · next hreplay =>
      simp only [process, moveByControl, bind_eq_ok, rejectIf_eq_ok, okOr_eq_ok, exists_const,
        Bool.not_eq_false, Option.any_eq_true, not_exists, not_and, ne_eq, decide_not,
        Bool.not_eq_eq_eq_not, Bool.not_true, decide_eq_false_iff_not, not_not] at h
      obtain ⟨stored, hg, hv, he, transition, ht, h⟩ := h
      split at h
      · simp only [pure_eq_ok, Prod.mk.injEq] at h
        exact .inl ⟨_, h.2.symm, .inr ⟨_, rfl⟩⟩
      · next status kind hf =>
          simp only [pure_eq_ok, Prod.mk.injEq] at h
          rw [Option.filter_eq_some_iff] at hf
          obtain ⟨rfl, hne⟩ := hf
          exact .inr ⟨stored, status, kind, hreplay, hg, hv, he, ht, by simpa using hne, h.2.symm⟩

/-! ### Trees, dependencies, checkpoints -/

theorem applyReserveTree_ok {request : ReserveProcessTreeRequest}
    (h : s.applyReserveTree request = .ok (o, s')) :
    let next := s.descendantCount request.rootProcessId + request.delta.toNat
    next ≤ request.cap.toNat ∧
      s' = { s with treeReservations := s.reserve request.rootProcessId next } := by
  simp only [applyReserveTree, bind_eq_ok, rejectIf_eq_ok, okOr_eq_ok, exists_const, pure_eq_ok,
    Prod.mk.injEq, checkedAdd, Option.ite_none_right_eq_some, not_lt, Option.some.injEq] at h
  obtain ⟨-, -, -, next, ⟨-, rfl⟩, hcap, -, rfl⟩ := h
  exact ⟨hcap, rfl⟩

theorem releaseSlot_ok {root p : ProcessId} {delta : ℕ} {e : ProcessJournalStoreError}
    {trees : Table ProcessTreeReservation.rootProcessId}
    (h : s.releaseSlot root p delta e = .ok trees) :
    (trees = s.treeReservations ∧
      (s.treeReservations.get root = none ∨ p ∈ s.releasedProcesses root)) ∨
    ∃ reservation, s.treeReservations.get root = some reservation ∧
      p ∉ reservation.releasedProcesses ∧ delta ≤ reservation.descendantCount ∧
      trees = (reservation.release p delta).elim (s.treeReservations.remove root)
        s.treeReservations.put := by
  unfold releaseSlot at h
  split at h
  · next hg =>
      simp only [Except.ok.injEq] at h
      exact .inl ⟨h.symm, .inl hg⟩
  · next reservation hg =>
      split_ifs at h with hp
      · simp only [Except.ok.injEq] at h
        exact .inl ⟨h.symm, .inr (by simpa [releasedProcesses, hg] using hp)⟩
      · simp only [bind_eq_ok, rejectIf_eq_ok, exists_const, not_lt] at h
        obtain ⟨hd, h⟩ := h
        refine .inr ⟨reservation, hg, hp, hd, ?_⟩
        cases hr : reservation.release p delta with
        | none =>
          rw [hr] at h
          exact (pure_eq_ok.mp h).symm
        | some released =>
          rw [hr] at h
          exact (pure_eq_ok.mp h).symm

theorem applyReleaseTree_ok {request : ReleaseProcessTreeRequest}
    (h : s.applyReleaseTree request = .ok (o, s')) :
    ∃ trees, s.releaseSlot request.rootProcessId request.idempotencyProcessId request.delta.toNat
        (.invalidRequest "release delta exceeds current reservation count") = .ok trees ∧
      s' = { s with treeReservations := trees } := by
  simp only [applyReleaseTree, bind_eq_ok, pure_eq_ok, Prod.mk.injEq] at h
  obtain ⟨-, -, trees, ht, -, rfl⟩ := h
  exact ⟨trees, ht, rfl⟩

theorem applyPruneTree_ok {request : PruneReleasedProcessRequest}
    (h : s.applyPruneTree request = .ok (o, s')) :
    ∃ trees, s' = { s with treeReservations := trees } := by
  unfold applyPruneTree at h
  split at h
  · simp only [Except.ok.injEq, Prod.mk.injEq] at h
    exact ⟨_, h.2.symm⟩
  · simp only [bind_eq_ok, pure_eq_ok, Prod.mk.injEq] at h
    obtain ⟨-, -, -, rfl⟩ := h
    exact ⟨_, rfl⟩

theorem applyOpenDependency_ok {request : OpenProcessDependencyRequest}
    (h : s.applyOpenDependency request = .ok (o, s')) :
    s' = s ∨ ∃ record, s.dependencies.get record.edge = none ∧
      (s.processes.get record.dependentProcessId).isSome ∧ record.state = .open ∧
      s' = { s with dependencies := s.dependencies.put record } := by
  unfold applyOpenDependency at h
  split at h
  · simp only [Except.ok.injEq, Prod.mk.injEq] at h
    exact .inl h.2.symm
  · next hnone =>
      simp only [process, bind_eq_ok, okOr_eq_ok, pure_eq_ok, Prod.mk.injEq] at h
      obtain ⟨dependent, hg, -, -, -, -, -, rfl⟩ := h
      refine .inr ⟨_, ?_, ?_, ?_, rfl⟩
      · exact hnone
      · simp [hg]
      · rfl

/-- Settling an Open edge stores the evidence with the state. -/
theorem applySettleDependency_ok {request : SettleProcessDependencyRequest}
    (h : s.applySettleDependency request = .ok (o, s')) :
    s' = s ∨ ∃ record,
      s.dependencies.get (request.dependentProcessId, request.dependencyProcessId) =
        some record ∧ record.state = .open ∧ request.terminal.status.isTerminal = true ∧
      s' = { s with dependencies := s.dependencies.put ({ record with
        state := .settled
        terminal := some request.terminal
        settledAt := some request.settledAt }) } := by
  simp only [applySettleDependency, bind_eq_ok, rejectIf_eq_ok, exists_const,
    Bool.not_eq_false] at h
  obtain ⟨hterminal, h⟩ := h
  split at h
  · simp only [pure_eq_ok, Prod.mk.injEq] at h
    exact .inl h.2.symm
  · next record hg =>
      simp only [bind_eq_ok] at h
      obtain ⟨-, -, h⟩ := h
      split_ifs at h with hopen
      · simp only [pure_eq_ok, Prod.mk.injEq] at h
        exact .inl h.2.symm
      · simp only [pure_eq_ok, Prod.mk.injEq] at h
        exact .inr ⟨record, hg, not_not.mp hopen, hterminal, h.2.symm⟩

theorem applyTransitionDependency_ok {request : TransitionProcessDependencyRequest}
    (h : s.applyTransitionDependency request = .ok (o, s')) :
    s' = s ∨ ∃ record merged,
      s.dependencies.get (request.dependentProcessId, request.dependencyProcessId) =
        some record ∧ sameLineageScope record.scope request.scope = true ∧
      request.next.terminalDoor = none ∧ transitionMetadata request.metadata = .ok merged ∧
      record.state ∈ request.next.legalPredecessors ∧
      s' = { s with dependencies := s.dependencies.put ({ record with
        state := request.next
        transitionedAt := some request.transitionedAt
        metadata := merged.elim record.metadata record.metadata.extend }) } := by
  simp only [applyTransitionDependency, bind_eq_ok, rejectIf_eq_ok, exists_const,
    Option.not_isSome_iff_eq_none] at h
  obtain ⟨hdoor, merged, hmerged, h⟩ := h
  split at h
  · simp only [pure_eq_ok, Prod.mk.injEq] at h
    exact .inl h.2.symm
  · next record hg =>
      simp only [bind_eq_ok, rejectIf_eq_ok, exists_const, Bool.not_eq_false] at h
      obtain ⟨hscope, h⟩ := h
      split_ifs at h
      · simp only [pure_eq_ok, Prod.mk.injEq] at h
        exact .inl h.2.symm
      · simp only [bind_eq_ok, rejectIf_eq_ok, exists_const, not_not, pure_eq_ok,
          Prod.mk.injEq] at h
        obtain ⟨hlegal, -, rfl⟩ := h
        exact .inr ⟨record, merged, hg, hscope, hdoor, hmerged, hlegal, rfl⟩

theorem applyCloseDependency_ok {request : CloseProcessDependencyRequest} {abandon : Bool}
    (h : s.applyCloseDependency request abandon = .ok (o, s')) :
    (s' = s ∧ ∀ existing,
      s.dependencies.get (request.dependentProcessId, request.dependencyProcessId) =
        some existing → existing.state.isClosed = true) ∨
    ∃ existing trees,
      s.dependencies.get (request.dependentProcessId, request.dependencyProcessId) =
        some existing ∧ sameLineageScope existing.scope request.scope = true ∧
      existing.state.isClosed = false ∧
      existing.state ∈ (closeTarget abandon).legalPredecessors ∧
      s.releaseDependencyReservation existing.rootProcessId request.dependencyProcessId =
        .ok trees ∧
      s' = { s with
        treeReservations := trees
        dependencies := s.dependencies.put ({ existing with
          state := closeTarget abandon
          consumedAt := some request.closedAt }) } := by
  unfold applyCloseDependency at h
  split at h
  · next hg =>
      simp only [Except.ok.injEq, Prod.mk.injEq] at h
      exact .inl ⟨h.2.symm, by simp [hg]⟩
  · next existing hg =>
      simp only [bind_eq_ok, rejectIf_eq_ok, exists_const, Bool.not_eq_false] at h
      obtain ⟨hscope, h⟩ := h
      split_ifs at h with hc
      · simp only [pure_eq_ok, Prod.mk.injEq] at h
        refine .inl ⟨h.2.symm, ?_⟩
        rw [hg]
        rintro _ ⟨⟩
        exact hc
      · simp only [bind_eq_ok, rejectIf_eq_ok, exists_const, not_not, pure_eq_ok,
          Prod.mk.injEq] at h
        obtain ⟨hlegal, trees, ht, -, rfl⟩ := h
        exact .inr ⟨existing, trees, hg, hscope, by simpa using hc, hlegal, ht, rfl⟩

theorem applyCheckpoint_ok {request : RecordProcessCheckpointRequest}
    (h : s.applyCheckpoint request = .ok (o, s')) :
    ∃ stored, s.processes.get request.processId = some stored ∧
      (s' = s ∨ (s.checkpoints.get request.checkpointId = none ∧
        s' = { s with
          checkpoints := s.checkpoints.put (checkpointRecord request)
          processes := if request.linkToProcess then
            s.processes.put (linkedSnapshot stored request) else s.processes })) := by
  simp only [applyCheckpoint, process, bind_eq_ok, okOr_eq_ok] at h
  obtain ⟨stored, hg, -, -, h⟩ := h
  refine ⟨stored, hg, ?_⟩
  split at h
  · simp only [bind_eq_ok, pure_eq_ok, Prod.mk.injEq] at h
    obtain ⟨-, -, -, rfl⟩ := h
    exact .inl rfl
  · next hn =>
      simp only [pure_eq_ok, Prod.mk.injEq] at h
      exact .inr ⟨hn, h.2.symm⟩

theorem applySubmitWithCheckpoint_ok {checkpoint : RecordProcessCheckpointRequest}
    (h : s.applySubmitWithCheckpoint request checkpoint = .ok (o, s')) :
    checkpoint.processId = request.processId ∧ checkpoint.scope = request.scope ∧
    request.checkpointRef = some ⟨checkpoint.checkpointId.asStr⟩ ∧
    ((s.applySubmit request = .ok (o, s') ∧ s' = s) ∨
      ∃ snapshot submitted o', o = .submitted snapshot true ∧
        s.applySubmit request = .ok (o, submitted) ∧
        submitted.applyCheckpoint checkpoint = .ok (o', s')) := by
  simp only [applySubmitWithCheckpoint, bind_eq_ok, rejectIf_eq_ok, exists_const, not_or,
    not_not] at h
  obtain ⟨⟨hp, hscope, href⟩, ⟨o₁, submitted⟩, hsub, h⟩ := h
  have href' : request.checkpointRef = some ⟨checkpoint.checkpointId.asStr⟩ := by
    obtain ⟨ref, hr, hs⟩ := Option.map_eq_some_iff.mp href
    rw [hr]
    cases ref
    cases hs
    rfl
  refine ⟨hp, hscope, href', ?_⟩
  rcases applySubmit_ok hsub with ⟨rfl, snapshot, rfl⟩ | ⟨_, _, _, _, _, rfl⟩
  · simp only [pure_eq_ok, Prod.mk.injEq] at h
    obtain ⟨rfl, rfl⟩ := h
    exact .inl ⟨hsub, rfl⟩
  · simp only [bind_eq_ok, pure_eq_ok, Prod.mk.injEq] at h
    obtain ⟨⟨o', recorded⟩, hc, rfl, rfl⟩ := h
    exact .inr ⟨_, submitted, o', rfl, hsub, hc⟩

/-- A store that has neither a process nor an event adopts a legacy state, once. -/
def adoptsLegacyState (s : ProcessJournalMaterializedState) : Prop :=
  s.legacyImported = false ∧ s.processes.rows = [] ∧ s.journal = []

theorem importLegacyState_adopts (h : adoptsLegacyState s)
    (state : ProcessJournalMaterializedState) : ∃ nextCursor,
      s.importLegacyState state = { state with nextCursor, legacyImported := true } :=
  ⟨_, if_pos h⟩

theorem importLegacyState_keeps (h : ¬ adoptsLegacyState s)
    (state : ProcessJournalMaterializedState) : s.importLegacyState state = s := if_neg h

theorem applyCommand_legacyImported {c : StoredProcessCommand} (hc : c.isImport = false)
    (h : s.applyCommand c = .ok (o, s')) : s'.legacyImported = s.legacyImported := by
  cases c with
  | importLegacyState => cases hc
  | submit =>
    rcases applySubmit_ok h with ⟨rfl, -⟩ | ⟨_, -, -, -, rfl, -⟩
    · rfl
    · rfl
  | submitAtEdge =>
    rcases applySubmitAtEdge_ok h with rfl | ⟨-, -, rfl⟩
    · rfl
    · rfl
  | submitWithCheckpoint =>
    obtain ⟨-, -, -, ⟨-, rfl⟩ | ⟨_, _, _, -, hsub, hrec⟩⟩ := applySubmitWithCheckpoint_ok h
    · rfl
    · obtain ⟨_, -, rfl | ⟨-, rfl⟩⟩ := applyCheckpoint_ok hrec <;>
        rcases applySubmit_ok hsub with ⟨rfl, -⟩ | ⟨_, -, -, -, rfl, -⟩ <;> rfl
  | claim request now millis nonce limits =>
    simp only [applyCommand, applyClaim, Except.ok.injEq, Prod.mk.injEq] at h
    obtain ⟨_, _, _, hframe⟩ := claimLoop_frame request now millis nonce limits
      (s.claimableProcessIds request) s []
    rw [← h.2, hframe]
  | heartbeat =>
    obtain ⟨_, -, -, -, rfl⟩ := applyHeartbeat_ok h
    rfl
  | recoverExpired =>
    obtain ⟨_, hr⟩ := applyRecoverExpired_ok h
    obtain ⟨_, _, _, rfl⟩ := recoverLoop_frame hr
    rfl
  | leasedTransition =>
    obtain ⟨_, -, -, -, rfl⟩ := applyLeasedTransition_ok h
    rfl
  | control =>
    rcases applyControl_ok h with ⟨_, rfl, -⟩ | ⟨_, _, _, -, -, -, -, -, -, rfl⟩
    · rfl
    · rfl
  | reserveTree =>
    obtain ⟨-, rfl⟩ := applyReserveTree_ok h
    rfl
  | releaseTree =>
    obtain ⟨_, -, rfl⟩ := applyReleaseTree_ok h
    rfl
  | pruneTree =>
    obtain ⟨_, rfl⟩ := applyPruneTree_ok h
    rfl
  | openDependency =>
    rcases applyOpenDependency_ok h with rfl | ⟨_, -, -, -, rfl⟩
    · rfl
    · rfl
  | settleDependency =>
    rcases applySettleDependency_ok h with rfl | ⟨_, -, -, -, rfl⟩
    · rfl
    · rfl
  | transitionDependency =>
    rcases applyTransitionDependency_ok h with rfl | ⟨_, _, -, -, -, -, -, rfl⟩
    · rfl
    · rfl
  | consumeDependency =>
    rcases applyCloseDependency_ok h with ⟨rfl, -⟩ | ⟨_, _, -, -, -, -, -, rfl⟩
    · rfl
    · rfl
  | abandonDependency =>
    rcases applyCloseDependency_ok h with ⟨rfl, -⟩ | ⟨_, _, -, -, -, -, -, rfl⟩
    · rfl
    · rfl
  | recordCheckpoint =>
    obtain ⟨_, -, rfl | ⟨-, rfl⟩⟩ := applyCheckpoint_ok h
    · rfl
    · rfl

end Ironclaw.Processes.ProcessJournalMaterializedState
