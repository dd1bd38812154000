import Ironclaw.Processes.StoreRows

/-! # Cursors of a committed journal

A batch draws its cursors twice: the preview counts the events it will write, and the second
pass numbers them from the range reserved for that count.

* `Recorded` says what an accepted command adds to the journal: events numbered one after
  another, the last of which describes each process it is about.
* `CursorsInOrder` is the invariant of the stored cursors. The second pass can write more events
  than the preview counted; the next batch then meets a cursor in use and fails, so that the
  cursors stay in order. -/

namespace Ironclaw.Processes

open ProcessJournalMaterializedState MaterializedRows

/-! ### Events and rows -/

/-- What a row repeats of the last event of its process. -/
def JournaledProcessSnapshot.stamp (row : JournaledProcessSnapshot) :
    ProcessJournalCursor × ProcessLifecycleStatus := (row.journalCursor, row.status)

def ProcessJournalEntry.stamp (entry : ProcessJournalEntry) :
    ProcessJournalCursor × ProcessLifecycleStatus := (entry.cursor, entry.status)

def lastEntry (events : List ProcessJournalEntry) (p : ProcessId) : Option ProcessJournalEntry :=
  (events.filter (·.processId = p)).getLast?

def lastStamp (events : List ProcessJournalEntry) (p : ProcessId) :
    Option (ProcessJournalCursor × ProcessLifecycleStatus) :=
  (lastEntry events p).map (·.stamp)

@[simp] theorem lastStamp_nil (p : ProcessId) : lastStamp [] p = none := rfl

theorem lastStamp_append (events more : List ProcessJournalEntry) (p : ProcessId) :
    lastStamp (events ++ more) p = (lastStamp more p).or (lastStamp events p) := by
  unfold lastStamp lastEntry
  rw [List.filter_append, List.getLast?_append]
  cases ((more.filter (·.processId = p)).getLast?) <;> rfl

theorem lastStamp_singleton (entry : ProcessJournalEntry) (p : ProcessId) :
    lastStamp [entry] p = if entry.processId = p then some entry.stamp else none := by
  unfold lastStamp lastEntry
  by_cases h : entry.processId = p
  · simp [h]
  · simp [h]

/-- Events numbered one after another from `n`, with `m` the next cursor. -/
def Numbered : ℕ → List ProcessJournalEntry → ℕ → Prop
  | n, [], m => n = m
  | n, entry :: events, m => entry.cursor = n ∧ Numbered (saturatingAdd n 1) events m

theorem Numbered.append : ∀ {events more : List ProcessJournalEntry} {n m k : ℕ},
    Numbered n events m → Numbered m more k → Numbered n (events ++ more) k
  | [], _, _, _, _, h, hmore => by
    rw [show _ = _ from h]
    exact hmore
  | _ :: _, _, _, _, _, h, hmore => ⟨h.1, Numbered.append h.2 hmore⟩

/-! ### One command -/

/-- From `s` to `s'` the given events were recorded: they are numbered from the cursor of `s`,
each carries the state committed with it, and a row differs in cursor and status exactly as the
last event of its process says. -/
structure Recorded (s s' : ProcessJournalMaterializedState) (events : List ProcessJournalEntry) :
    Prop where
  journal : s'.journal = s.journal ++ events
  cursors : Numbered s.nextCursor events s'.nextCursor
  states : ∀ entry ∈ events, ∃ state, entry.committedState = some state ∧
    state.journalCursor = entry.cursor
  rows : ∀ p, (s'.processes.get p).map (·.stamp) =
    (lastStamp events p).or ((s.processes.get p).map (·.stamp))

namespace Recorded

variable {s s' s'' : ProcessJournalMaterializedState} {o : StoredCommandOutcome}
  {events more : List ProcessJournalEntry}

theorem refl (s : ProcessJournalMaterializedState) : Recorded s s [] :=
  ⟨(List.append_nil _).symm, rfl, by simp, fun _ => rfl⟩

theorem trans (h : Recorded s s' events) (hmore : Recorded s' s'' more) :
    Recorded s s'' (events ++ more) where
  journal := by rw [hmore.journal, h.journal, List.append_assoc]
  cursors := h.cursors.append hmore.cursors
  states := List.forall_mem_append.mpr ⟨h.states, hmore.states⟩
  rows p := by rw [hmore.rows, h.rows, lastStamp_append, Option.or_assoc]

theorem frame (h : Recorded s s' events) (hjournal : s''.journal = s'.journal)
    (hcursor : s''.nextCursor = s'.nextCursor) (hrows : s''.processes = s'.processes) :
    Recorded s s'' events where
  journal := by rw [hjournal, h.journal]
  cursors := by rw [hcursor]; exact h.cursors
  states := h.states
  rows p := by rw [hrows]; exact h.rows p

theorem put {stored snapshot : JournaledProcessSnapshot}
    (hstored : s.processes.get snapshot.processId = some stored)
    (hstamp : snapshot.stamp = stored.stamp) :
    Recorded s { s with processes := s.processes.put snapshot } [] where
  journal := (List.append_nil _).symm
  cursors := rfl
  states := by simp
  rows p := by
    rw [lastStamp_nil, Option.none_or, Table.get_put]
    split_ifs with hp
    · rw [← hp, hstored, Option.map_some, Option.map_some, hstamp]
    · rfl

theorem commit {snapshot : JournaledProcessSnapshot} {entry : ProcessJournalEntry}
    (hcursor : entry.cursor = s.nextCursor) (hp : entry.processId = snapshot.processId)
    (hstamp : entry.stamp = snapshot.stamp) (hstate : entry.committedState = some snapshot) :
    Recorded s (s.commit snapshot entry) [entry] where
  journal := rfl
  cursors := ⟨hcursor, rfl⟩
  states := List.forall_mem_singleton.mpr ⟨snapshot, hstate, (Prod.mk.inj hstamp).1.symm⟩
  rows p := by
    show ((s.processes.put snapshot).get p).map _ = _
    rw [lastStamp_singleton, Table.get_put, hp, hstamp]
    by_cases h : snapshot.processId = p
    · simp [h]
    · simp [h]

theorem claimLoop (request : ClaimProcessesRequest) (now : Timestamp) (millis : UInt64)
    (nonce : ProcessId) (limits : ProcessConcurrencyLimits) (ids : List ProcessId)
    (s : ProcessJournalMaterializedState) (claimed : List ClaimedProcess) :
    ∃ events, Recorded s (claimLoop request now millis nonce limits ids s claimed).2 events := by
  refine claimLoop_induct (motive := fun _ s _ result => ∃ events, Recorded s result.2 events)
    ?_ ?_ ?_ ids s claimed
  · exact fun _ s _ => ⟨[], refl s⟩
  · exact fun _ _ _ _ _ h => h
  · rintro p ids s claimed stored result - - - - ⟨events, h⟩
    exact ⟨_, (commit rfl rfl rfl rfl).trans h⟩

theorem recoverLoop {now : Timestamp} {millis : UInt64} {ids : List ProcessId}
    {recovered : List JournaledProcessSnapshot}
    {result : List JournaledProcessSnapshot × ProcessJournalMaterializedState}
    (h : recoverLoop now millis ids s recovered = .ok result) :
    ∃ events, Recorded s result.2 events := by
  refine recoverLoop_induct (motive := fun _ s result => ∃ events, Recorded s result events)
    ?_ ?_ ?_ ids s _ _ h
  · exact fun s => ⟨[], refl s⟩
  · exact fun _ _ _ _ h => h
  · rintro p ids s stored result - - ⟨events, h⟩
    exact ⟨_, (commit rfl rfl rfl rfl).trans h⟩

theorem applySubmit {request : SubmitProcessRequest} (h : s.applySubmit request = .ok (o, s')) :
    ∃ events, Recorded s s' events := by
  rcases applySubmit_ok h with ⟨rfl, -⟩ | ⟨tree, -, -, -, rfl, -⟩
  · exact ⟨[], refl _⟩
  · let snapshot := queuedSnapshot request s.nextCursor
    have hcommit : Recorded s (s.commit snapshot (.fromSnapshot snapshot s.nextCursor .submitted))
        _ := commit rfl rfl rfl rfl
    exact ⟨_, hcommit.frame rfl rfl rfl⟩

theorem applyCheckpoint {request : RecordProcessCheckpointRequest}
    (h : s.applyCheckpoint request = .ok (o, s')) : Recorded s s' [] := by
  obtain ⟨stored, hg, rfl | ⟨-, rfl⟩⟩ := applyCheckpoint_ok h
  · exact refl _
  · cases request.linkToProcess with
    | false => exact (refl s).frame rfl rfl rfl
    | true =>
      have hkey : stored.processId = request.processId := Table.key_of_get hg
      have hstored : s.processes.get (linkedSnapshot stored request).processId = some stored := by
        rw [show (linkedSnapshot stored request).processId = _ from hkey]
        exact hg
      have hput : Recorded s
          { s with processes := s.processes.put (linkedSnapshot stored request) } [] :=
        put hstored rfl
      exact hput.frame rfl rfl rfl

/-- Every accepted command other than an import records the events it writes. -/
theorem applyCommand {c : StoredProcessCommand} (hc : c.isImport = false)
    (h : s.applyCommand c = .ok (o, s')) : ∃ events, Recorded s s' events := by
  cases c with
  | importLegacyState => cases hc
  | submit => exact applySubmit h
  | submitAtEdge request =>
    rcases applySubmitAtEdge_ok h with rfl | ⟨-, -, rfl⟩
    · exact ⟨[], refl _⟩
    · let snapshot := edgeSnapshot request s.nextCursor
      have hcommit : Recorded s
          (s.commit snapshot (.fromSnapshot snapshot s.nextCursor request.edge.kind)) _ :=
        commit rfl rfl rfl rfl
      exact ⟨_, hcommit.frame rfl rfl rfl⟩
  | submitWithCheckpoint =>
    obtain ⟨-, -, -, ⟨-, rfl⟩ | ⟨_, submitted, _, -, hsub, hrec⟩⟩ :=
      applySubmitWithCheckpoint_ok h
    · exact ⟨[], refl _⟩
    · obtain ⟨events, hevents⟩ := applySubmit hsub
      exact ⟨_, hevents.trans (applyCheckpoint hrec)⟩
  | claim request now millis nonce limits =>
    simp only [ProcessJournalMaterializedState.applyCommand, applyClaim, Except.ok.injEq,
      Prod.mk.injEq] at h
    rw [← h.2]
    exact claimLoop request now millis nonce limits _ s []
  | heartbeat request now millis =>
    obtain ⟨stored, hg, -, -, rfl⟩ := applyHeartbeat_ok h
    have hkey : stored.processId = request.processId := Table.key_of_get hg
    have hstored : s.processes.get (renewedSnapshot stored now millis).processId = some stored := by
      rw [show (renewedSnapshot stored now millis).processId = _ from hkey]
      exact hg
    exact ⟨[], put hstored rfl⟩
  | recoverExpired =>
    obtain ⟨_, hr⟩ := applyRecoverExpired_ok h
    exact recoverLoop hr
  | leasedTransition request mutation =>
    obtain ⟨stored, -, -, -, rfl⟩ := applyLeasedTransition_ok h
    let snapshot := transitionedSnapshot stored mutation s.nextCursor
    have hcommit : Recorded s (s.commit snapshot
        (.fromSnapshot snapshot s.nextCursor (effectiveMutation stored mutation).kind)) _ :=
      commit rfl rfl rfl rfl
    exact ⟨_, hcommit.frame rfl rfl rfl⟩
  | control mutation =>
    rcases applyControl_ok h with ⟨_, rfl, -⟩ | ⟨stored, status, kind, -, -, -, -, -, -, rfl⟩
    · exact ⟨[], (refl s).frame rfl rfl rfl⟩
    · unfold storeControl
      refine ⟨_, (commit ?_ ?_ ?_ ?_).frame rfl rfl rfl⟩ <;> rfl
  | reserveTree =>
    obtain ⟨-, rfl⟩ := applyReserveTree_ok h
    exact ⟨[], (refl s).frame rfl rfl rfl⟩
  | releaseTree =>
    obtain ⟨_, -, rfl⟩ := applyReleaseTree_ok h
    exact ⟨[], (refl s).frame rfl rfl rfl⟩
  | pruneTree =>
    obtain ⟨_, rfl⟩ := applyPruneTree_ok h
    exact ⟨[], (refl s).frame rfl rfl rfl⟩
  | openDependency =>
    rcases applyOpenDependency_ok h with rfl | ⟨_, -, -, -, rfl⟩
    · exact ⟨[], refl _⟩
    · exact ⟨[], (refl s).frame rfl rfl rfl⟩
  | settleDependency =>
    rcases applySettleDependency_ok h with rfl | ⟨_, -, -, -, rfl⟩
    · exact ⟨[], refl _⟩
    · exact ⟨[], (refl s).frame rfl rfl rfl⟩
  | transitionDependency =>
    rcases applyTransitionDependency_ok h with rfl | ⟨_, _, -, -, -, -, -, rfl⟩
    · exact ⟨[], refl _⟩
    · exact ⟨[], (refl s).frame rfl rfl rfl⟩
  | consumeDependency =>
    rcases applyCloseDependency_ok h with ⟨rfl, -⟩ | ⟨_, _, -, -, -, -, -, rfl⟩
    · exact ⟨[], refl _⟩
    · exact ⟨[], (refl s).frame rfl rfl rfl⟩
  | abandonDependency =>
    rcases applyCloseDependency_ok h with ⟨rfl, -⟩ | ⟨_, _, -, -, -, -, -, rfl⟩
    · exact ⟨[], refl _⟩
    · exact ⟨[], (refl s).frame rfl rfl rfl⟩
  | recordCheckpoint => exact ⟨[], applyCheckpoint h⟩

end Recorded

/-! ### Numbers -/

theorem saturatingAdd_cases (a b : ℕ) : saturatingAdd a b = a + b ∨ saturatingAdd a b = u64Max := by
  unfold saturatingAdd
  omega

theorem saturatingAdd_one_pos (a : ℕ) : 0 < saturatingAdd a 1 :=
  Nat.lt_min.mpr ⟨Nat.succ_pos a, by decide⟩

theorem saturatingAdd_one_le {a b : ℕ} (h : a < b) : saturatingAdd a 1 ≤ b :=
  (Nat.min_le_left _ _).trans h

namespace Numbered

theorem le_cursor : ∀ {events : List ProcessJournalEntry} {n m : ℕ},
    n ≤ u64Max → Numbered n events m → ∀ entry ∈ events, n ≤ entry.cursor ∧ entry.cursor ≤ u64Max
  | [], _, _, _, _ => by simp
  | first :: events, n, m, hn, h => by
    have hnext : saturatingAdd n 1 ≤ u64Max := Nat.min_le_right _ _
    have hstep : n ≤ saturatingAdd n 1 := by
      unfold saturatingAdd
      omega
    intro entry hentry
    rcases List.mem_cons.mp hentry with rfl | hentry
    · rw [h.1]
      exact ⟨le_rfl, hn⟩
    · obtain ⟨hle, hmax⟩ := le_cursor hnext h.2 entry hentry
      exact ⟨hstep.trans hle, hmax⟩

theorem increasing : ∀ {events : List ProcessJournalEntry} {n m : ℕ},
    n ≤ u64Max → Numbered n events m → (events.map (·.cursor)).Nodup →
      (events.map (·.cursor)).Pairwise (· < ·)
  | [], _, _, _, _, _ => .nil
  | first :: events, n, m, hn, h, hnodup => by
    have hnext : saturatingAdd n 1 ≤ u64Max := Nat.min_le_right _ _
    rw [List.map_cons, List.nodup_cons] at hnodup
    rw [List.map_cons, List.pairwise_cons]
    refine ⟨fun cursor hcursor => ?_, increasing hnext h.2 hnodup.2⟩
    obtain ⟨entry, hentry, rfl⟩ := List.mem_map.mp hcursor
    obtain ⟨hle, hmax⟩ := le_cursor hnext h.2 entry hentry
    -- past the last cursor the same number comes again
    have hne : n ≠ entry.cursor := by
      intro heq
      rw [h.1, heq] at hnodup
      exact hnodup.1 hcursor
    have hlt : n < entry.cursor := by
      unfold saturatingAdd at hle
      omega
    rwa [h.1]

theorem dense : ∀ {events : List ProcessJournalEntry} {n m : ℕ},
    Numbered n events m → ∀ entry ∈ events, ∀ cursor, n ≤ cursor → cursor ≤ entry.cursor →
      ∃ other ∈ events, other.cursor = cursor
  | [], _, _, _ => by simp
  | first :: events, n, m, h => by
    intro entry hentry cursor hle hge
    by_cases hfirst : n = cursor
    · exact ⟨first, List.mem_cons_self, h.1.trans hfirst⟩
    · have hrest : entry ∈ events := by
        rcases List.mem_cons.mp hentry with rfl | hrest
        · have hn : n = entry.cursor := h.1.symm
          omega
        · exact hrest
      have hnext : saturatingAdd n 1 ≤ cursor :=
        saturatingAdd_one_le (Nat.lt_of_le_of_ne hle hfirst)
      obtain ⟨other, hother, hc⟩ := dense h.2 entry hrest cursor hnext hge
      exact ⟨other, List.mem_cons_of_mem _ hother, hc⟩

end Numbered

/-- Events are in the order of their cursors, which are numbered from one. -/
structure InCursorOrder (journal : List ProcessJournalEntry) : Prop where
  increasing : journal.Pairwise fun a b => a.cursor < b.cursor
  numbered : ∀ entry ∈ journal, 0 < entry.cursor ∧ entry.cursor ≤ u64Max

theorem journalConflict_eq_false : ∀ {entries stored : List ProcessJournalEntry},
    journalConflict stored entries = false ↔
      (∀ entry ∈ entries, ∀ old ∈ stored, old.cursor ≠ entry.cursor) ∧
        (entries.map (·.cursor)).Nodup
  | [], stored => by simp [journalConflict]
  | entry :: rest, stored => by
    rw [journalConflict, Bool.or_eq_false_iff, journalConflict_eq_false, List.map_cons,
      List.nodup_cons]
    simp only [List.any_eq_false, decide_eq_true_eq, List.mem_append, List.mem_cons,
      List.not_mem_nil, or_false, forall_eq_or_imp, List.mem_map, not_exists, not_and]
    constructor
    · rintro ⟨hfirst, hrest, hnodup⟩
      exact ⟨⟨hfirst, fun e he old hold => hrest e he old (.inl hold)⟩,
        fun e he heq => hrest e he entry (.inr rfl) heq.symm, hnodup⟩
    · rintro ⟨⟨hfirst, hrest⟩, hnew, hnodup⟩
      refine ⟨hfirst, fun e he old hold => ?_, hnodup⟩
      rcases hold with hold | rfl
      · exact hrest e he old hold
      · exact fun heq => hnew e he heq.symm

/-! ### Batches -/

/-- What a batch executes from a state without events is recorded in full. -/
theorem executeBatch_recorded : ∀ (pending : List PendingCommand)
    (s : ProcessJournalMaterializedState), s.journal = [] →
    (∀ c ∈ pending.map Prod.fst, c.isImport = false) →
    let result := (executeBatch s pending).2
    Recorded s { result.1 with journal := result.2 } result.2
  | [], s, hs, _ => (Recorded.refl s).frame (by simp [executeBatch, hs]) rfl rfl
  | (_, some _) :: rest, s, hs, hall =>
    executeBatch_recorded rest s hs fun c hc => hall c (List.mem_cons_of_mem _ hc)
  | (command, none) :: rest, s, hs, hall => by
    have hrest := fun c hc => hall c (List.mem_cons_of_mem _ hc)
    unfold executeBatch
    cases happ : s.applyCommand command with
    | error e => exact executeBatch_recorded rest s hs hrest
    | ok result =>
      obtain ⟨o, next⟩ := result
      obtain ⟨events, hevents⟩ := Recorded.applyCommand (hall command List.mem_cons_self) happ
      have hjournal : next.journal = events := by rw [hevents.journal, hs, List.nil_append]
      have ih := executeBatch_recorded rest { next with journal := [] } rfl hrest
      have hnext : Recorded s { next with journal := events } events :=
        hevents.frame hjournal.symm rfl rfl
      simp only [hjournal]
      refine ⟨by rw [hs, List.nil_append], hnext.cursors.append ih.cursors,
        List.forall_mem_append.mpr ⟨hevents.states, ih.states⟩, fun p => ?_⟩
      have hrows := ih.rows p
      simp only at hrows ⊢
      rw [hrows, lastStamp_append, Option.or_assoc, ← hevents.rows p]

/-- Commands that need no cursor in the preview record no event. -/
theorem executeBatch_of_no_reservation : ∀ (batch : List StoredProcessCommand)
    (s : ProcessJournalMaterializedState), (∀ c ∈ batch, c.isImport = false) →
    (previewBatch s batch).2 = 0 → (executeBatch s (previewBatch s batch).1).2.2 = []
  | [], _, _, _ => rfl
  | command :: rest, s, hall, h => by
    have hrest := fun c hc => hall c (List.mem_cons_of_mem _ hc)
    unfold previewBatch at h ⊢
    cases happ : s.applyCommand command with
    | error e =>
      rw [happ] at h
      exact executeBatch_of_no_reservation rest s hrest h
    | ok result =>
      obtain ⟨o, next⟩ := result
      rw [happ] at h
      have hcount : command.cursorReservationCount next.journal.length = next.journal.length := by
        have hc := hall command List.mem_cons_self
        cases command <;> first | rfl | cases hc
      simp only [hcount, Nat.add_eq_zero_iff, List.length_eq_zero_iff] at h
      have ih := executeBatch_of_no_reservation rest { next with journal := [] } hrest h.2
      simp only [executeBatch, happ, h.1, ih, List.nil_append]

/-- The commands of a batch that were not rejected. -/
def acceptedCommands : List StoredProcessCommand → List CommandAnswer → List StoredProcessCommand
  | command :: batch, .ok _ :: answers => command :: acceptedCommands batch answers
  | _ :: batch, .error _ :: answers => acceptedCommands batch answers
  | _, _ => []

/-- The second pass on commands that none was rejected of. -/
def executeAll (s : ProcessJournalMaterializedState) (commands : List StoredProcessCommand) :
    List CommandAnswer × ProcessJournalMaterializedState × List ProcessJournalEntry :=
  executeBatch s (commands.map fun command => (command, none))

theorem executeBatch_accepted : ∀ (pending : List PendingCommand)
    (s : ProcessJournalMaterializedState),
    let result := executeBatch s pending
    let alone := executeAll s (acceptedCommands (pending.map Prod.fst) result.1)
    alone.2 = result.2 ∧ ∀ answer ∈ alone.1, ∃ outcome, answer = .ok outcome
  | [], _ => ⟨rfl, by simp [executeAll, executeBatch, acceptedCommands]⟩
  | (_, some _) :: rest, s => executeBatch_accepted rest s
  | (command, none) :: rest, s => by
    unfold executeBatch
    cases happ : s.applyCommand command with
    | error e => exact executeBatch_accepted rest s
    | ok result =>
      obtain ⟨outcome, next⟩ := result
      obtain ⟨hsame, hok⟩ := executeBatch_accepted rest { next with journal := [] }
      simp only [executeAll] at hsame hok
      simp only [List.map_cons, acceptedCommands, executeAll, executeBatch, happ, hsame,
        List.mem_cons, forall_eq_or_imp, true_and]
      exact ⟨⟨outcome, rfl⟩, hok⟩

theorem executeBatch_of_rejected : ∀ (pending : List PendingCommand)
    (s : ProcessJournalMaterializedState), pending.all (·.2.isSome) = true →
    (executeBatch s pending).2 = (s, [])
  | [], _, _ => rfl
  | (_, some _) :: rest, s, h => executeBatch_of_rejected rest s (by simpa using h)
  | (_, none) :: _, _, h => by simp at h

namespace MaterializedRows

variable {d d' : MaterializedRows} {batch : List StoredProcessCommand}

/-- The store after a batch has the given events behind its own, and the rows of the given state
in place of those loaded for the batch. -/
structure WrittenBack (d : MaterializedRows) (batch : List StoredProcessCommand)
    (state : ProcessJournalMaterializedState) (events : List ProcessJournalEntry)
    (d' : MaterializedRows) : Prop where
  journal : d'.journal = d.journal ++ events
  processes : d'.processes.SameRows (d.processes.overlay (d.loaded batch).processes state.processes)
  inputs : d'.inputs.SameRows (d.inputs.overlay (d.loaded batch).inputs state.inputs)
  treeReservations : d'.treeReservations.SameRows
    (d.treeReservations.overlay (d.loaded batch).treeReservations state.treeReservations)
  dependencies : d'.dependencies.SameRows
    (d.dependencies.overlay (d.loaded batch).dependencies state.dependencies)
  checkpoints : d'.checkpoints.SameRows
    (d.checkpoints.overlay (d.loaded batch).checkpoints state.checkpoints)
  controls : d'.controls.SameRows ⟨d.controlIdempotency.overlay
    (d.loaded batch).controlIdempotency.records state.controlIdempotency.records,
    state.controlIdempotency.order⟩
  submissions : d'.submissions.SameRows ⟨d.submissionIdempotency.overlay
    (d.loaded batch).submissionIdempotency.records state.submissionIdempotency.records,
    state.submissionIdempotency.order⟩

theorem writtenBack_of_persist {state : ProcessJournalMaterializedState}
    {entries : List ProcessJournalEntry} {sequence : ProcessJournalCursor}
    (h : d.persist (d.loaded batch) state entries sequence = .ok d') :
    d.WrittenBack batch state entries d' := by
  unfold persist at h
  split_ifs at h
  rw [Except.ok.injEq] at h
  rw [← h]
  exact ⟨rfl, .refl _, .refl _, .refl _, .refl _, .refl _, ⟨.refl _, rfl⟩, ⟨.refl _, rfl⟩⟩

theorem writtenBack_started : d.WrittenBack batch (d.started batch) [] d := by
  rw [started_eq]
  have hsame {κ ν : Type} {key : ν → κ} [DecidableEq κ] (stored : Table key) (p : ν → Bool) :
      stored.SameRows (stored.overlay (stored.filter p) (stored.filter p)) :=
    Table.sameRows_of_get_eq fun k => (stored.get_overlay_filter p k).symm
  refine ⟨(List.append_nil _).symm, hsame _ _, ?_, hsame _ _, hsame _ _, hsame _ _,
    ⟨hsame _ _, rfl⟩, ⟨hsame _ _, rfl⟩⟩
  refine Table.sameRows_of_get_eq fun p => ?_
  rw [Table.get_overlay]
  rfl

theorem commitPending_accepted {answers : List CommandAnswer}
    (h : d.commitPending batch = .ok (answers, d')) :
    let alone := executeAll (d.started batch) (acceptedCommands batch answers)
    (∀ answer ∈ alone.1, ∃ outcome, answer = .ok outcome) ∧
      d.WrittenBack batch alone.2.1 alone.2.2 d' := by
  obtain ⟨hsame, hok⟩ :=
    executeBatch_accepted (previewBatch (d.loaded batch) batch).1 (d.started batch)
  rw [previewBatch_commands] at hsame hok
  obtain ⟨rfl, ⟨hall, rfl⟩ | hpersist⟩ := commitPending_ok h
  · refine ⟨hok, ?_⟩
    rw [hsame, executeBatch_of_rejected _ _ hall]
    exact writtenBack_started
  · refine ⟨hok, ?_⟩
    rw [hsame]
    exact writtenBack_of_persist hpersist

/-! ### The stored cursors -/

/-- The stored cursors increase; and where a batch has recorded an event past the range reserved
so far, every cursor up to that event is in use. -/
structure CursorsInOrder (d : MaterializedRows) : Prop where
  order : InCursorOrder d.journal
  overrun : ∀ entry ∈ d.journal, ∀ cursor, d.sequence < cursor → cursor ≤ entry.cursor →
    ∃ other ∈ d.journal, other.cursor = cursor

theorem cursorsInOrder_empty : empty.CursorsInOrder :=
  ⟨⟨.nil, by simp [empty]⟩, by simp [empty]⟩

theorem persist_journal {state : ProcessJournalMaterializedState}
    {entries : List ProcessJournalEntry} {sequence : ProcessJournalCursor}
    (h : d.persist (d.loaded batch) state entries sequence = .ok d') :
    d'.journal = d.journal ++ entries ∧ d'.sequence = sequence ∧
      journalConflict d.journal entries = false := by
  unfold persist at h
  split_ifs at h with hconflict
  rw [Except.ok.injEq] at h
  simp only [Bool.or_eq_true, not_or, Bool.not_eq_true] at hconflict
  rw [← h]
  exact ⟨rfl, rfl, hconflict.2⟩

theorem commitPending_journal {answers : List CommandAnswer}
    (h : d.commitPending batch = .ok (answers, d')) :
    d'.journal = d.journal ++ d.recorded batch := by
  rcases (commitPending_ok h).2 with ⟨hall, rfl⟩ | hpersist
  · have hnone : d'.recorded batch = [] := congrArg Prod.snd (executeBatch_of_rejected _ _ hall)
    rw [hnone, List.append_nil]
  · exact (persist_journal hpersist).1

variable (hall : ∀ c ∈ batch, c.isImport = false)
include hall

theorem executed_recorded :
    Recorded (d.started batch) { d.executed batch with journal := d.recorded batch }
      (d.recorded batch) := by
  have hjournal : (d.started batch).journal = [] := by
    rw [started_eq]
    rfl
  exact executeBatch_recorded _ _ hjournal (by rwa [previewBatch_commands])

/-- A batch numbers its events from the first cursor it has reserved. -/
theorem recorded_numbered :
    Numbered (d.started batch).nextCursor (d.recorded batch) (d.executed batch).nextCursor :=
  (executed_recorded hall).cursors

theorem recorded_states :
    ∀ entry ∈ d.recorded batch, ∃ state, entry.committedState = some state ∧
      state.journalCursor = entry.cursor :=
  (executed_recorded hall).states

theorem started_nextCursor (hevents : d.recorded batch ≠ []) :
    0 < d.reservations batch ∧ (d.started batch).nextCursor = saturatingAdd d.sequence 1 := by
  by_cases hzero : (previewBatch (d.loaded batch) batch).2 = 0
  · have hstarted : d.started batch = d.loaded batch := by
      unfold started reserveCursors
      rw [hzero, if_neg (Nat.lt_irrefl 0)]
    have hnone : d.recorded batch = [] := by
      unfold recorded
      rw [hstarted]
      exact executeBatch_of_no_reservation batch _ hall hzero
    exact absurd hnone hevents
  · have hpos := Nat.pos_of_ne_zero hzero
    refine ⟨hpos, ?_⟩
    unfold started reserveCursors
    rw [if_pos hpos]

omit hall in
theorem CursorsInOrder.afterBatch (hd : d.CursorsInOrder) (hall : ∀ c ∈ batch, c.isImport = false) :
    (advance commitPending d batch).CursorsInOrder := by
  rcases afterBatch_cases d batch with h | h
  · rw [h]
    exact hd
  · obtain ⟨hjournal, hsequence, hconflict⟩ := persist_journal h
    obtain ⟨hfresh, hnodup⟩ := journalConflict_eq_false.mp hconflict
    by_cases hevents : d.recorded batch = []
    · rw [hevents, List.append_nil] at hjournal
      constructor
      · rw [hjournal]
        exact hd.order
      · rw [hjournal, hsequence]
        intro entry hentry cursor hlt hle
        exact hd.overrun entry hentry cursor ((Nat.le_add_right _ _).trans_lt hlt) hle
    obtain ⟨hpos, hstart⟩ := started_nextCursor hall hevents
    have hnumbered : Numbered (saturatingAdd d.sequence 1) (d.recorded batch) _ :=
      hstart ▸ recorded_numbered hall
    have hfirst : saturatingAdd d.sequence 1 ≤ u64Max := Nat.min_le_right _ _
    -- the first cursor is not in use, so the batches before it have not come that far
    obtain ⟨first, hmem, hcursor⟩ : ∃ first ∈ d.recorded batch,
        first.cursor = saturatingAdd d.sequence 1 := by
      obtain ⟨entry, hentry⟩ := List.exists_mem_of_ne_nil _ hevents
      exact hnumbered.dense entry hentry _ le_rfl (hnumbered.le_cursor hfirst entry hentry).1
    have hbelow : ∀ old ∈ d.journal, old.cursor < saturatingAdd d.sequence 1 := by
      intro old hold
      have hunused := hfresh first hmem
      rw [hcursor] at hunused
      by_contra hge
      rw [Nat.not_lt] at hge
      rcases saturatingAdd_cases d.sequence 1 with hnext | hmax
      · rw [hnext] at hge hunused
        obtain ⟨other, hother, hc⟩ := hd.overrun old hold _ (Nat.lt_succ_self _) hge
        exact hunused other hother hc
      · rw [hmax] at hge hunused
        exact hunused old hold (le_antisymm (hd.order.numbered old hold).2 hge)
    constructor
    · rw [hjournal]
      constructor
      · refine List.pairwise_append.mpr ⟨hd.order.increasing,
          List.pairwise_map.mp (hnumbered.increasing hfirst hnodup), fun old hold new hnew => ?_⟩
        exact (hbelow old hold).trans_le (hnumbered.le_cursor hfirst new hnew).1
      · intro entry hentry
        rcases List.mem_append.mp hentry with hold | hnew
        · exact hd.order.numbered entry hold
        · obtain ⟨hle, hmax⟩ := hnumbered.le_cursor hfirst entry hnew
          exact ⟨(saturatingAdd_one_pos d.sequence).trans_le hle, hmax⟩
    · rw [hjournal, hsequence]
      intro entry hentry cursor hlt hle
      have hpast : saturatingAdd d.sequence 1 ≤ cursor :=
        saturatingAdd_one_le ((Nat.le_add_right _ _).trans_lt hlt)
      rcases List.mem_append.mp hentry with hold | hnew
      · exact absurd (hbelow entry hold) (Nat.not_lt.mpr (hpast.trans hle))
      · obtain ⟨other, hother, hc⟩ := hnumbered.dense entry hnew cursor hpast hle
        exact ⟨other, List.mem_append_right _ hother, hc⟩

/-! ### Rows and journal -/

/-- Every process row repeats the last event of its process, and no other process has events. -/
def RowsFollowJournal (d : MaterializedRows) : Prop :=
  ∀ p, (d.processes.get p).map (·.stamp) = lastStamp d.journal p

theorem executed_stamp (p : ProcessId) :
    ((d.executed batch).processes.get p).map (·.stamp) = (lastStamp (d.recorded batch) p).or
      (((d.loaded batch).processes.get p).map (·.stamp)) := by
  rw [← started_processes]
  exact (executed_recorded hall).rows p

omit hall

theorem RowsFollowJournal.afterBatch (hd : d.RowsFollowJournal)
    (hall : ∀ c ∈ batch, c.isImport = false) :
    (advance commitPending d batch).RowsFollowJournal := by
  rcases afterBatch_cases d batch with h | h
  · rw [h]
    exact hd
  · intro p
    have hstamp := executed_stamp (d := d) hall p
    rw [(persist_journal h).1, persist_processes h, lastStamp_append, Table.get_overlay, ← hd p]
    cases hrow : (d.executed batch).processes.get p with
    | some row =>
      rw [hrow] at hstamp
      rcases loaded_get_cases d batch p with hloaded | hloaded
      · rw [hloaded] at hstamp
        simpa using hstamp
      · have hstored : d.processes.get p = none := by
          by_contra hsome
          exact persist_unloaded h hrow ⟨Option.isSome_iff_ne_none.mpr hsome, hloaded⟩
        rw [hloaded] at hstamp
        rw [hstored]
        simpa using hstamp
    | none =>
      -- no event of the batch is about the process, and its row was not loaded
      rw [hrow, Option.map_none, eq_comm, Option.or_eq_none_iff, Option.map_eq_none_iff] at hstamp
      rw [hstamp.1, hstamp.2]
      simp

end MaterializedRows

open MaterializedRows

/-- **Journal and rows agree.**  In every store reached by batches without imports the cursors of
the committed events increase, and every process row has the cursor and the status of the last
event of its process. For every further batch, what it leaves in the store is what the commands
it did not reject leave by themselves. -/
theorem journal_agrees_with_rows {history : List StoreStep} {d : MaterializedRows}
    (run : StoreRun history d) (hall : ∀ x ∈ history, ∀ c ∈ x.command, c.isImport = false) :
    (d.journal.map (·.cursor)).Pairwise (· < ·) ∧
    (∀ p row, d.processes.get p = some row → ∃ entry, lastEntry d.journal p = some entry ∧
      entry.cursor = row.journalCursor ∧ entry.status = row.status) ∧
    ∀ batch answers d', d.commitPending batch = .ok (answers, d') →
      let alone := executeAll (d.started batch) (acceptedCommands batch answers)
      (∀ answer ∈ alone.1, ∃ outcome, answer = .ok outcome) ∧
        d.WrittenBack batch alone.2.1 alone.2.2 d' := by
  have hinv : d.CursorsInOrder ∧ d.RowsFollowJournal := by
    refine run.invariant (I := fun d => d.CursorsInOrder ∧ d.RowsFollowJournal)
      (A := fun batch => ∀ c ∈ batch, c.isImport = false) ?_ ?_ ?_ hall
    · exact ⟨cursorsInOrder_empty, fun _ => rfl⟩
    · rintro d _ rfl h
      exact h
    · intro d batch hbatch h
      exact ⟨h.1.afterBatch hbatch, h.2.afterBatch hbatch⟩
  refine ⟨List.pairwise_map.mpr hinv.1.order.increasing, fun p row hrow => ?_, fun batch answers d' h =>
    commitPending_accepted h⟩
  have hstamp := hinv.2 p
  rw [hrow, Option.map_some, eq_comm, lastStamp, Option.map_eq_some_iff] at hstamp
  obtain ⟨entry, hentry, hsame⟩ := hstamp
  obtain ⟨hcursor, hstatus⟩ := Prod.mk.inj hsame
  exact ⟨entry, hentry, hcursor, hstatus⟩

open Sample in
/-- Of a cancelled process, the row repeats the event of its cancellation; the cancellation of a
process that does not exist left nothing. -/
theorem cancelled_row_agrees :
    let d := [[.submit (submission 1), Sample.control 2 .cancel], [Sample.control 1 .cancel]].foldl
      (advance commitPending) MaterializedRows.empty
    d.journal.length = 2 ∧ ∃ entry, lastEntry d.journal (processId 1) = some entry ∧
      entry.cursor = 2 ∧ entry.status = .cancelled := by
  intro d
  refine ⟨by decide, ?_⟩
  have hrow : ∃ row, d.processes.get (processId 1) = some row ∧ row.journalCursor = 2 ∧
      row.status = .cancelled := ⟨_, (Option.some_get (by decide)).symm, by decide, by decide⟩
  obtain ⟨row, hget, hcursor, hstatus⟩ := hrow
  obtain ⟨entry, hentry, hc, hs⟩ := (journal_agrees_with_rows (StoreRun.of_batches _)
    (Run.trace_forall
      (A := fun batch : List StoredProcessCommand => ∀ c ∈ batch, c.isImport = false) _ _
      (by simp [Sample.control, StoredProcessCommand.isImport]))).2.1 _ row hget
  exact ⟨entry, hentry, hc.trans hcursor, hs.trans hstatus⟩

end Ironclaw.Processes
