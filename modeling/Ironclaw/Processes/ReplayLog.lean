import Ironclaw.Processes.Cursors

/-! # What a replay map remembers

Every control and every submission that carries an operation id and is not itself a replay
records its result. `ReplayKind` describes either kind of operation; the ghost log
`ReplayKind.recordedIn` lists what a history of committed batches has recorded, oldest first, and
the stored replay map is the end of its log (`IdempotencyRecords.Retains`).

A batch is applied twice, in the preview that rejects commands and in the execution that is
written back, and each pass works on its own copy of the loaded records. `passRecords` is what
a pass has recorded on its copy. -/

namespace Ironclaw.Processes

open ProcessJournalMaterializedState

/-! ### The end of a log -/

namespace IdempotencyRecords

variable {κ ν : Type}

/-- The part of a log that a replay map retains. -/
def lastRecords (log : List (κ × ν)) : List (κ × ν) :=
  log.drop (log.length - maxIdempotencyRecords)

variable [DecidableEq κ]

/-- The queue holds the keys of the last records of the log, and each is found with its value. -/
structure Retains (r : IdempotencyRecords κ ν) (log : List (κ × ν)) : Prop where
  order : r.order = (lastRecords log).map Prod.fst
  values : ∀ e ∈ lastRecords log, r.get e.1 = some e.2

theorem retains_empty : (empty : IdempotencyRecords κ ν).Retains [] := by
  constructor <;> simp [lastRecords, empty]

theorem Retains.get {r : IdempotencyRecords κ ν} {log : List (κ × ν)} (h : r.Retains log) {i : ℕ}
    {e : κ × ν} (he : log[i]? = some e) (hnewer : log.length - (i + 1) < maxIdempotencyRecords) :
    r.get e.1 = some e.2 := by
  apply h.values
  have hi : i < log.length := by
    by_contra hge
    rw [List.getElem?_eq_none (by omega)] at he
    cases he
  have hafter : log.length - maxIdempotencyRecords ≤ i := by omega
  refine List.mem_of_getElem? (i := i - (log.length - maxIdempotencyRecords)) ?_
  rw [lastRecords, List.getElem?_drop, Nat.add_sub_cancel' hafter, he]

/-- A new record is added to the log; the oldest one that is left has to go if the map is full. -/
theorem Retains.pushBack {r : IdempotencyRecords κ ν} {log : List (κ × ν)} (h : r.Retains log)
    (hw : r.WellFormed) {k : κ} (v : ν) (hk : k ∉ r.order) :
    (r.pushBack k v).Retains (log ++ [(k, v)]) := by
  have hlength : r.order.length = log.length - (log.length - maxIdempotencyRecords) := by
    rw [h.order, List.length_map, lastRecords, List.length_drop]
  have hkey : ∀ e ∈ lastRecords log, e.1 ∈ r.order := by
    intro e he
    rw [h.order]
    exact List.mem_map_of_mem he
  unfold IdempotencyRecords.pushBack
  rcases evict_cases r.records hw.bounded with ⟨hlt, he⟩ | ⟨oldest, rest, ho, hfull, he⟩
  · -- the log is shorter than the map's bound, before and after
    have hall : lastRecords log = log := by
      rw [lastRecords, Nat.sub_eq_zero_of_le (by omega), List.drop_zero]
    have hall' : lastRecords (log ++ [(k, v)]) = log ++ [(k, v)] := by
      rw [lastRecords, List.length_append, List.length_singleton,
        Nat.sub_eq_zero_of_le (by omega), List.drop_zero]
    rw [he]
    refine ⟨?_, ?_⟩
    · rw [hall', List.map_append, List.map_singleton, h.order, hall]
    · rw [hall']
      intro e hmem
      unfold IdempotencyRecords.get
      rcases List.mem_append.mp hmem with hold | hnew
      · have hne : k ≠ e.1 := by
          rintro rfl
          exact hk (hkey e (hall.symm ▸ hold))
        simp only [Table.get_put, if_neg hne]
        exact h.values e (hall.symm ▸ hold)
      · rw [List.mem_singleton.mp hnew, Table.get_put, if_pos rfl]
        rfl
  · have hnodup := hw.nodup
    rw [ho, List.nodup_cons] at hnodup
    have hshift : lastRecords (log ++ [(k, v)]) = (lastRecords log).tail ++ [(k, v)] := by
      have hlong : log.length - maxIdempotencyRecords + 1 ≤ log.length := by
        rw [ho, List.length_cons] at hlength
        omega
      rw [lastRecords, List.length_append, List.length_singleton, lastRecords, List.tail_drop,
        show log.length + 1 - maxIdempotencyRecords = log.length - maxIdempotencyRecords + 1 by
          rw [ho, List.length_cons] at hlength
          omega,
        List.drop_append_of_le_length hlong]
    have hrest : rest = (lastRecords log).tail.map Prod.fst := by
      rw [List.map_tail, ← h.order, ho, List.tail_cons]
    rw [he]
    refine ⟨?_, ?_⟩
    · rw [hshift, List.map_append, List.map_singleton, hrest]
    · rw [hshift]
      intro e hmem
      unfold IdempotencyRecords.get
      rcases List.mem_append.mp hmem with hold | hnew
      · have hin : e.1 ∈ rest := hrest ▸ List.mem_map_of_mem hold
        have hne : k ≠ e.1 := fun heq => hk (by rw [ho, heq]; exact List.mem_cons_of_mem _ hin)
        have hkept : oldest ≠ e.1 := fun heq => hnodup.1 (heq ▸ hin)
        simp only [Table.get_put, Table.get_remove, if_neg hne, if_neg hkept]
        exact h.values e (List.mem_of_mem_tail hold)
      · rw [List.mem_singleton.mp hnew, Table.get_put, if_pos rfl]
        rfl

end IdempotencyRecords

/-! ### What a command records -/

/-- A command with the result that was recorded for it. -/
structure Remembered (κ ν : Type) where
  command : StoredProcessCommand
  key : κ
  value : ν

def Remembered.entry {κ ν : Type} (e : Remembered κ ν) : κ × ν := (e.key, e.value)

/-- The record of a control that carries an operation id and finds none under its key. -/
def rememberedControl (x : ProcessJournalMaterializedState × StoredProcessCommand) :
    Option (Remembered ControlReplayKey ProcessControlResult) :=
  match x.2 with
  | .control mutation =>
    match controlReplayKey mutation, x.1.applyControl mutation with
    | some key, .ok (.controlled result, _) =>
      if (x.1.controlIdempotency.get key).isSome then none else some ⟨x.2, key, result⟩
    | _, _ => none
  | _ => none

/-- The request of a submission that keeps a record; one at an edge keeps none. -/
def StoredProcessCommand.submission : StoredProcessCommand → Option SubmitProcessRequest
  | .submit request => some request
  | .submitWithCheckpoint request _ => some request
  | _ => none

/-- The record of a submission that carries an operation id and creates a process. -/
def rememberedSubmission (x : ProcessJournalMaterializedState × StoredProcessCommand) :
    Option (Remembered SubmissionReplayKey JournaledProcessSnapshot) :=
  match x.2.submission.bind submissionReplayKey, x.1.applyCommand x.2 with
  | some key, .ok (.submitted snapshot true, _) => some ⟨x.2, key, snapshot⟩
  | _, _ => none

/-- `c` asks again for what `original` asked: it is the same command, or one of the same kind
under the same replay key, a control in the same scope. -/
inductive StoredProcessCommand.Repeats (original : StoredProcessCommand) :
    StoredProcessCommand → Prop
  | same : Repeats original original
  | control {mutation mutation₀ : ProcessControlMutation} (h : original = .control mutation₀)
      (key : controlReplayKey mutation = controlReplayKey mutation₀)
      (scope : mutation.scope = mutation₀.scope) : Repeats original (.control mutation)
  | submit {request request₀ : SubmitProcessRequest} (h : original.submission = some request₀)
      (key : submissionReplayKey request = submissionReplayKey request₀) :
      Repeats original (.submit request)

section Controls

variable {s s' : ProcessJournalMaterializedState} {c : StoredProcessCommand}
  {o : StoredCommandOutcome}

theorem rememberedControl_of_error {e : ProcessJournalStoreError}
    (h : s.applyCommand c = .error e) : rememberedControl (s, c) = none := by
  unfold rememberedControl
  cases c with
  | control mutation =>
    have h' : s.applyControl mutation = .error e := h
    simp only [h']
    cases controlReplayKey mutation <;> rfl
  | _ => rfl

theorem applyControl_remembers {mutation : ProcessControlMutation}
    (hfresh : (controlReplayKey mutation).bind s.controlIdempotency.get = none)
    (h : s.applyControl mutation = .ok (o, s')) :
    ∃ result, o = .controlled result ∧
      s'.controlIdempotency =
        s.controlIdempotency.remember (controlReplayKey mutation) result ∧
      processScopeVisible result.state.scope mutation.scope = true := by
  unfold applyControl at h
  simp only [hfresh, process, moveByControl, bind_eq_ok, rejectIf_eq_ok, okOr_eq_ok, exists_const,
    Bool.not_eq_false] at h
  obtain ⟨stored, -, hvisible, -, transition, -, h⟩ := h
  split at h
  · simp only [pure_eq_ok, Prod.mk.injEq] at h
    obtain ⟨rfl, rfl⟩ := h
    exact ⟨_, rfl, rfl, hvisible⟩
  · simp only [pure_eq_ok, Prod.mk.injEq] at h
    obtain ⟨rfl, rfl⟩ := h
    exact ⟨_, rfl, rfl, by simpa [controlledSnapshot] using hvisible⟩

theorem applyControl_replays {mutation : ProcessControlMutation} {key : ControlReplayKey}
    {result : ProcessControlResult} (hkey : controlReplayKey mutation = some key)
    (hget : s.controlIdempotency.get key = some result)
    (hvisible : processScopeVisible result.state.scope mutation.scope = true) :
    s.applyControl mutation = .ok (.controlled result, s) := by
  simp [applyControl, hkey, hget, hvisible, rejectIf, bind, Except.bind, pure, Except.pure]

/-- What is known of a control that records its result. -/
theorem rememberedControl_some {e : Remembered ControlReplayKey ProcessControlResult}
    (h : rememberedControl (s, c) = some e) :
    e.command = c ∧ s.controlIdempotency.get e.key = none ∧
      ∃ mutation, c = .control mutation ∧ controlReplayKey mutation = some e.key ∧
        processScopeVisible e.value.state.scope mutation.scope = true := by
  unfold rememberedControl at h
  cases c with
  | control mutation =>
    dsimp only at h
    split at h
    · next key result s' hkey happ =>
        split_ifs at h with hnone
        cases h
        rw [Option.not_isSome_iff_eq_none] at hnone
        obtain ⟨result', hresult, -, hvisible⟩ :=
          applyControl_remembers (by rw [hkey]; exact hnone) happ
        cases hresult
        exact ⟨rfl, hnone, mutation, rfl, hkey, hvisible⟩
    · cases h
  | _ => cases h

/-- A command changes the replay map of controls by the record it makes. -/
theorem applyCommand_controls (hc : c.isImport = false) (h : s.applyCommand c = .ok (o, s')) :
    s'.controlIdempotency = (rememberedControl (s, c)).elim s.controlIdempotency fun e =>
      s.controlIdempotency.pushBack e.key e.value := by
  by_cases hcontrol : ∃ mutation, c = .control mutation
  · obtain ⟨mutation, rfl⟩ := hcontrol
    have happ : s.applyControl mutation = .ok (o, s') := h
    cases hkey : controlReplayKey mutation with
    | none =>
      obtain ⟨result, rfl, hrecords, -⟩ := applyControl_remembers (by rw [hkey]; rfl) happ
      rw [hrecords, hkey]
      simp [rememberedControl, hkey, IdempotencyRecords.remember]
    | some key =>
      cases hget : s.controlIdempotency.get key with
      | none =>
        obtain ⟨result, rfl, hrecords, -⟩ :=
          applyControl_remembers (by rw [hkey]; exact hget) happ
        rw [hrecords, hkey, IdempotencyRecords.remember_of_none hget]
        simp [rememberedControl, hkey, happ, hget]
      | some result =>
        have hnone : rememberedControl (s, .control mutation) = none := by
          rw [Option.eq_none_iff_forall_ne_some]
          intro e he
          obtain ⟨-, hfresh, _, heq, hkey', -⟩ := rememberedControl_some he
          cases heq
          rw [hkey] at hkey'
          cases hkey'
          rw [hget] at hfresh
          cases hfresh
        have hsame : s' = s := by
          simp only [applyControl, hkey, Option.bind_some, hget, bind_eq_ok, pure_eq_ok,
            Prod.mk.injEq] at happ
          obtain ⟨-, -, -, rfl⟩ := happ
          rfl
        rw [hnone, hsame]
        rfl
  · have hnone : rememberedControl (s, c) = none := by
      rw [Option.eq_none_iff_forall_ne_some]
      intro e he
      obtain ⟨-, -, mutation, heq, -⟩ := rememberedControl_some he
      exact hcontrol ⟨mutation, heq⟩
    rw [hnone]
    rcases (RecordStep.applyCommand hc h).control with hsame | ⟨key, hkey, -⟩
    · exact hsame
    · have hkeys : c.loadReferences.controlIdempotencyKeys = [] := by
        cases c with
        | control mutation => exact absurd ⟨mutation, rfl⟩ hcontrol
        | _ => rfl
      rw [hkeys] at hkey
      cases hkey

end Controls

section Submissions

variable {s s' : ProcessJournalMaterializedState} {c : StoredProcessCommand}
  {o : StoredCommandOutcome}

theorem rememberedSubmission_of_error {e : ProcessJournalStoreError}
    (h : s.applyCommand c = .error e) : rememberedSubmission (s, c) = none := by
  unfold rememberedSubmission
  simp only [h]
  cases c.submission.bind submissionReplayKey <;> rfl

variable {request : SubmitProcessRequest}

/-- A submission stores a process and its record, or it answers from the record. -/
theorem applyCommand_submission (hc : c.submission = some request)
    (h : s.applyCommand c = .ok (o, s')) :
    (s' = s ∧ ∃ snapshot, o = .submitted snapshot false) ∨
    ∃ snapshot, o = .submitted snapshot true ∧
      (submissionReplayKey request).bind s.submissionIdempotency.get = none ∧
      s'.submissionIdempotency =
        s.submissionIdempotency.remember (submissionReplayKey request) snapshot := by
  have hsubmit : ∀ {t o'}, s.applySubmit request = .ok (o', t) → (t = s ∧
      ∃ snapshot, o' = .submitted snapshot false) ∨ ∃ snapshot, o' = .submitted snapshot true ∧
        (submissionReplayKey request).bind s.submissionIdempotency.get = none ∧
        t.submissionIdempotency =
          s.submissionIdempotency.remember (submissionReplayKey request) snapshot := by
    intro t o' happ
    rcases applySubmit_taken happ with hreplay | ⟨tree, htaken, -, rfl, rfl⟩
    · exact .inl hreplay
    · exact .inr ⟨_, rfl, htaken.fresh, rfl⟩
  cases c with
  | submit request' =>
    cases hc
    exact hsubmit h
  | submitWithCheckpoint request' checkpoint =>
    cases hc
    obtain ⟨-, -, -, ⟨happ, -⟩ | ⟨_, submitted, o', hnew, happ, hrecord⟩⟩ :=
      applySubmitWithCheckpoint_ok h
    · exact hsubmit happ
    · rcases hsubmit happ with ⟨-, _, rfl⟩ | ⟨snapshot, rfl, hfresh, hrecords⟩
      · cases hnew
      · refine .inr ⟨snapshot, rfl, hfresh, ?_⟩
        rw [← hrecords]
        obtain ⟨stored, -, rfl | ⟨-, rfl⟩⟩ := applyCheckpoint_ok hrecord <;> rfl
  | _ => cases hc

theorem rememberedSubmission_some {e : Remembered SubmissionReplayKey JournaledProcessSnapshot}
    (h : rememberedSubmission (s, c) = some e) :
    e.command = c ∧ s.submissionIdempotency.get e.key = none ∧
      (∃ request, c.submission = some request ∧ submissionReplayKey request = some e.key) ∧
      ∃ s', s.applyCommand c = .ok (.submitted e.value true, s') := by
  unfold rememberedSubmission at h
  split at h
  · next key snapshot s' hkey happ =>
      cases h
      obtain ⟨request, hc, hkey⟩ := Option.bind_eq_some_iff.mp hkey
      refine ⟨rfl, ?_, ⟨request, hc, hkey⟩, s', happ⟩
      rcases applyCommand_submission hc happ with ⟨-, _, ho⟩ | ⟨_, -, hfresh, -⟩
      · cases ho
      · rwa [hkey] at hfresh
  · cases h

/-- A command changes the replay map of submissions by the record it makes. -/
theorem applyCommand_submissions (hc : c.isImport = false) (h : s.applyCommand c = .ok (o, s')) :
    s'.submissionIdempotency = (rememberedSubmission (s, c)).elim s.submissionIdempotency
      fun e => s.submissionIdempotency.pushBack e.key e.value := by
  cases hsub : c.submission with
  | some request =>
    rcases applyCommand_submission hsub h with ⟨rfl, _, rfl⟩ |
      ⟨snapshot, rfl, hfresh, hrecords⟩
    · have hnone : rememberedSubmission (s', c) = none := by
        rw [Option.eq_none_iff_forall_ne_some]
        intro e he
        obtain ⟨-, -, -, _, happ⟩ := rememberedSubmission_some he
        rw [h] at happ
        cases happ
      rw [hnone]
      rfl
    · rw [hrecords]
      cases hkey : submissionReplayKey request with
      | none => simp [rememberedSubmission, hsub, hkey, IdempotencyRecords.remember]
      | some key =>
        rw [hkey, Option.bind_some] at hfresh
        rw [IdempotencyRecords.remember_of_none hfresh]
        simp [rememberedSubmission, hsub, hkey, h]
  | none =>
    have hnone : rememberedSubmission (s, c) = none := by
      simp [rememberedSubmission, hsub]
    rw [hnone]
    cases c with
    | submit => cases hsub
    | submitWithCheckpoint => cases hsub
    | submitAtEdge request =>
      rcases applySubmitAtEdge_ok h with rfl | ⟨-, -, rfl⟩ <;> rfl
    | importLegacyState => cases hc
    | _ =>
      rcases (RecordStep.applyCommand hc h).submission with hsame | ⟨key, hkey, -⟩
      · exact hsame
      · cases hkey

theorem applySubmit_replays {key : SubmissionReplayKey}
    {snapshot : JournaledProcessSnapshot} (hkey : submissionReplayKey request = some key)
    (hget : s.submissionIdempotency.get key = some snapshot) :
    s.applySubmit request = .ok (.submitted snapshot false, s) := by
  simp [applySubmit, hkey, hget]

theorem applySubmitWithCheckpoint_replays {t : ProcessJournalMaterializedState}
    {checkpoint : RecordProcessCheckpointRequest}
    {key : SubmissionReplayKey} {snapshot : JournaledProcessSnapshot}
    (haccepted : s.applySubmitWithCheckpoint request checkpoint = .ok (o, s'))
    (hkey : submissionReplayKey request = some key)
    (hget : t.submissionIdempotency.get key = some snapshot) :
    t.applySubmitWithCheckpoint request checkpoint = .ok (.submitted snapshot false, t) := by
  obtain ⟨hprocess, hscope, href, -⟩ := applySubmitWithCheckpoint_ok haccepted
  simp [applySubmitWithCheckpoint, hprocess, hscope, href, applySubmit_replays hkey hget, rejectIf,
    bind, Except.bind, pure, Except.pure]

end Submissions

/-! ### The two kinds of replay records -/

/-- A kind of operations that record their results: where its records are held, what a command
adds to them and what a replay answers. -/
structure ReplayKind (κ ν : Type) [DecidableEq κ] where
  records : ProcessJournalMaterializedState → IdempotencyRecords κ ν
  stored : MaterializedRows → IdempotencyRecords κ ν
  keys : LoadReferences → List κ
  remembered : ProcessJournalMaterializedState × StoredProcessCommand → Option (Remembered κ ν)
  replayed : ν → StoredCommandOutcome
  records_journal : ∀ s, records { s with journal := [] } = records s
  started : ∀ (d : MaterializedRows) batch, records (d.started batch) = records (d.loaded batch)
  loaded : ∀ (d : MaterializedRows) batch, (stored d).WellFormed →
    ReplayTracks Eq (stored d).records (records (d.loaded batch)).records (stored d).order
      (keys (batchReferences batch)) (stored d) (records (d.loaded batch))
  persisted : ∀ {d d' : MaterializedRows} {batch state entries sequence},
    d.persist (d.loaded batch) state entries sequence = .ok d' →
      stored d' = ⟨(stored d).records.overlay (records (d.loaded batch)).records
        (records state).records, (records state).order⟩
  includes : ∀ {references other : LoadReferences}, references.Includes other →
    ∀ k ∈ keys other, k ∈ keys references
  of_error : ∀ {s : ProcessJournalMaterializedState} {c e}, s.applyCommand c = .error e → remembered (s, c) = none
  effect : ∀ {s s' : ProcessJournalMaterializedState} {c o}, c.isImport = false → s.applyCommand c = .ok (o, s') →
    records s' = (remembered (s, c)).elim (records s) fun e => (records s).pushBack e.key e.value
  command : ∀ {s c e}, remembered (s, c) = some e → e.command = c
  fresh : ∀ {s c e}, remembered (s, c) = some e → (records s).get e.key = none
  named : ∀ {s c e}, remembered (s, c) = some e → ∀ {c'}, c.Repeats c' →
    e.key ∈ keys c'.loadReferences
  replays : ∀ {s c e}, remembered (s, c) = some e →
    ∀ {c'} {t : ProcessJournalMaterializedState}, c.Repeats c' →
    (records t).get e.key = some e.value → t.applyCommand c' = .ok (replayed e.value, t)

/-- Controls. -/
def controlReplays : ReplayKind ControlReplayKey ProcessControlResult where
  records := ProcessJournalMaterializedState.controlIdempotency
  stored := MaterializedRows.controls
  keys := LoadReferences.controlIdempotencyKeys
  remembered := rememberedControl
  replayed := .controlled
  records_journal := fun _ => rfl
  started := fun _ _ => MaterializedRows.started_controlIdempotency
  loaded := fun _ _ hd => MaterializedRows.loaded_controls hd fun _ => rfl
  persisted := by
    intro d d' batch state entries sequence h
    unfold MaterializedRows.persist at h
    split_ifs at h
    rw [Except.ok.injEq] at h
    rw [← h]
    rfl
  includes := fun h => h.controlIdempotencyKeys
  of_error := rememberedControl_of_error
  effect := applyCommand_controls
  command := fun h => (rememberedControl_some h).1
  fresh := fun h => (rememberedControl_some h).2.1
  named := by
    intro s c e h c' hrepeat
    obtain ⟨-, -, mutation, rfl, hkey, -⟩ := rememberedControl_some h
    cases hrepeat with
    | same => simp [StoredProcessCommand.loadReferences, hkey]
    | control heq hsame hscope =>
      cases heq
      simp [StoredProcessCommand.loadReferences, hsame, hkey]
    | submit hsub => cases hsub
  replays := by
    intro s c e h c' t hrepeat hget
    obtain ⟨-, -, mutation, rfl, hkey, hvisible⟩ := rememberedControl_some h
    cases hrepeat with
    | same => exact applyControl_replays hkey hget hvisible
    | control heq hsame hscope =>
      cases heq
      exact applyControl_replays (hsame.trans hkey) hget (hscope ▸ hvisible)
    | submit hsub => cases hsub

/-- Submissions. -/
def submissionReplays : ReplayKind SubmissionReplayKey JournaledProcessSnapshot where
  records := ProcessJournalMaterializedState.submissionIdempotency
  stored := MaterializedRows.submissions
  keys := LoadReferences.submissionIdempotencyKeys
  remembered := rememberedSubmission
  replayed := fun snapshot => .submitted snapshot false
  records_journal := fun _ => rfl
  started := fun _ _ => MaterializedRows.started_submissionIdempotency
  loaded := fun _ _ hd => MaterializedRows.loaded_submissions hd fun _ => rfl
  persisted := by
    intro d d' batch state entries sequence h
    unfold MaterializedRows.persist at h
    split_ifs at h
    rw [Except.ok.injEq] at h
    rw [← h]
    rfl
  includes := fun h => h.submissionIdempotencyKeys
  of_error := rememberedSubmission_of_error
  effect := applyCommand_submissions
  command := fun h => (rememberedSubmission_some h).1
  fresh := fun h => (rememberedSubmission_some h).2.1
  named := by
    intro s c e h c' hrepeat
    obtain ⟨-, -, ⟨request, hsub, hkey⟩, -⟩ := rememberedSubmission_some h
    have hnamed : ∀ {c : StoredProcessCommand} {request : SubmitProcessRequest},
        c.submission = some request → submissionReplayKey request = some e.key →
        e.key ∈ c.loadReferences.submissionIdempotencyKeys := by
      intro c request hsub hkey
      cases c with
      | submit =>
        cases hsub
        simp [StoredProcessCommand.loadReferences, SubmitProcessRequest.loadReferences, hkey]
      | submitWithCheckpoint =>
        cases hsub
        simp [StoredProcessCommand.loadReferences, SubmitProcessRequest.loadReferences, hkey]
      | _ => cases hsub
    cases hrepeat with
    | same => exact hnamed hsub hkey
    | control heq => rw [heq] at hsub; cases hsub
    | submit hsub' hsame =>
      rw [hsub'] at hsub
      cases hsub
      exact hnamed rfl (hsame.trans hkey)
  replays := by
    intro s c e h c' t hrepeat hget
    obtain ⟨-, -, ⟨request, hsub, hkey⟩, s', happ⟩ := rememberedSubmission_some h
    cases hrepeat with
    | same =>
      cases c with
      | submit =>
        cases hsub
        exact applySubmit_replays hkey hget
      | submitWithCheckpoint =>
        cases hsub
        exact applySubmitWithCheckpoint_replays happ hkey hget
      | _ => cases hsub
    | control heq => rw [heq] at hsub; cases hsub
    | submit hsub' hsame =>
      rw [hsub'] at hsub
      cases hsub
      exact applySubmit_replays (hsame.trans hkey) hget

/-! ### One pass over a batch -/

theorem executeBatch_log {α : Type}
    {f : ProcessJournalMaterializedState × StoredProcessCommand → Option α}
    {I : List α → ProcessJournalMaterializedState → Prop}
    (herror : ∀ {t c e}, t.applyCommand c = .error e → f (t, c) = none) :
    ∀ (pending : List PendingCommand) (s : ProcessJournalMaterializedState) (log : List α),
      I log s →
      (∀ t c o t' log, c ∈ pending.map Prod.fst → t.applyCommand c = .ok (o, t') → I log t →
        I (log ++ (f (t, c)).toList) { t' with journal := [] }) →
      I (log ++ (executeSteps s pending).filterMap f) (executeBatch s pending).2.1
  | [], s, log, h0, _ => by
    simpa [executeSteps, executeBatch] using h0
  | (_, some _) :: rest, s, log, h0, hstep =>
    executeBatch_log herror rest s log h0 fun t c o t' log hm =>
      hstep t c o t' log (List.mem_cons_of_mem _ hm)
  | (command, none) :: rest, s, log, h0, hstep => by
    have hrest := fun t c o t' log hm => hstep t c o t' log (List.mem_cons_of_mem _ hm)
    have hcons : ∀ l, ((s, command) :: l).filterMap f = (f (s, command)).toList ++
        l.filterMap f := by
      intro l
      rw [List.filterMap_cons]
      cases f (s, command) <;> rfl
    unfold executeBatch executeSteps
    rw [hcons]
    cases happ : s.applyCommand command with
    | ok result =>
      obtain ⟨o, next⟩ := result
      have hnext := hstep s command o next log List.mem_cons_self happ h0
      rw [← List.append_assoc]
      exact executeBatch_log herror rest _ _ hnext hrest
    | error e =>
      rw [herror happ]
      exact executeBatch_log herror rest s log h0 hrest

theorem executeBatch_append : ∀ (first second : List PendingCommand)
    (s : ProcessJournalMaterializedState),
    (executeBatch s (first ++ second)).1 =
        (executeBatch s first).1 ++ (executeBatch (executeBatch s first).2.1 second).1 ∧
      (executeBatch s (first ++ second)).2.1 = (executeBatch (executeBatch s first).2.1 second).2.1
  | [], _, _ => ⟨rfl, rfl⟩
  | (_, some _) :: first, second, s => by
    obtain ⟨hanswers, hstate⟩ := executeBatch_append first second s
    exact ⟨congrArg _ hanswers, hstate⟩
  | (command, none) :: first, second, s => by
    simp only [List.cons_append, executeBatch]
    cases s.applyCommand command with
    | ok result =>
      obtain ⟨hanswers, hstate⟩ :=
        executeBatch_append first second { result.2 with journal := [] }
      exact ⟨congrArg _ hanswers, hstate⟩
    | error e =>
      obtain ⟨hanswers, hstate⟩ := executeBatch_append first second s
      exact ⟨congrArg _ hanswers, hstate⟩

theorem executeBatch_length : ∀ (pending : List PendingCommand)
    (s : ProcessJournalMaterializedState), (executeBatch s pending).1.length = pending.length
  | [], _ => rfl
  | (_, some _) :: pending, s => congrArg (· + 1) (executeBatch_length pending s)
  | (command, none) :: pending, s => by
    unfold executeBatch
    cases s.applyCommand command with
    | ok result => exact congrArg (· + 1) (executeBatch_length pending _)
    | error e => exact congrArg (· + 1) (executeBatch_length pending s)

theorem previewBatch_append : ∀ (first second : List StoredProcessCommand)
    (s : ProcessJournalMaterializedState),
    (previewBatch s (first ++ second)).1 = (previewBatch s first).1 ++
      (previewBatch (executeAll s first).2.1 second).1
  | [], _, _ => rfl
  | command :: first, second, s => by
    simp only [List.cons_append, previewBatch, executeAll, List.map_cons, executeBatch]
    cases s.applyCommand command with
    | ok result =>
      exact congrArg _ (previewBatch_append first second { result.2 with journal := [] })
    | error e => exact congrArg _ (previewBatch_append first second s)

namespace ReplayKind

variable {κ ν : Type} [DecidableEq κ] (kind : ReplayKind κ ν)

def passRecords (s : ProcessJournalMaterializedState) (pending : List PendingCommand) :
    List (Remembered κ ν) := (executeSteps s pending).filterMap kind.remembered

variable {d : MaterializedRows} {batch : List StoredProcessCommand} {log : List (Remembered κ ν)}

/-- A state of a pass over a batch has, as far as the batch can reach, the records of a map that
retains the log. -/
def Follows (d : MaterializedRows) (batch : List StoredProcessCommand)
    (log : List (Remembered κ ν)) (t : ProcessJournalMaterializedState) : Prop :=
  ∃ r, ReplayTracks Eq (kind.stored d).records (kind.records (d.loaded batch)).records
      (kind.stored d).order (kind.keys (batchReferences batch)) r (kind.records t) ∧
    r.Retains (log.map Remembered.entry)

variable {kind}

variable {e : Remembered κ ν}

/-- A record with few newer ones is found under a key that the batch names. -/
theorem Follows.get {t : ProcessJournalMaterializedState} (h : kind.Follows d batch log t) {i : ℕ}
    (he : log[i]? = some e) (hnewer : (log.drop (i + 1)).length < maxIdempotencyRecords)
    (hnamed : e.key ∈ kind.keys (batchReferences batch)) :
    (kind.records t).get e.key = some e.value := by
  obtain ⟨r, htracks, hretains⟩ := h
  have hr : r.get e.entry.1 = some e.entry.2 := by
    refine hretains.get (i := i) ?_ ?_
    · rw [List.getElem?_map, he, Option.map_some]
    · rwa [List.length_map, ← List.length_drop]
  rcases optionRel_cases (htracks.get hnamed) with ⟨a, b, hra, hub, hab⟩ | ⟨hra, -⟩
  · rw [hub, ← hab, ← hra]
    exact hr
  · rw [show r.get e.key = some e.value from hr] at hra
    cases hra

variable {c : StoredProcessCommand}

theorem Follows.step {t t' : ProcessJournalMaterializedState}
    {o : StoredCommandOutcome} (h : kind.Follows d batch log t) (hc : c ∈ batch)
    (himport : c.isImport = false) (happ : t.applyCommand c = .ok (o, t')) :
    kind.Follows d batch (log ++ (kind.remembered (t, c)).toList) { t' with journal := [] } := by
  obtain ⟨r, htracks, hretains⟩ := h
  unfold Follows
  rw [kind.records_journal, kind.effect himport happ]
  cases he : kind.remembered (t, c) with
  | none =>
    refine ⟨r, htracks, ?_⟩
    rw [Option.toList_none, List.append_nil]
    exact hretains
  | some e =>
    have hnamed : e.key ∈ kind.keys (batchReferences batch) :=
      kind.includes (batchReferences_includes hc) e.key (kind.named he .same)
    have hnew : e.key ∉ r.order := by
      rw [← htracks.wellFormed.queued, ← IdempotencyRecords.get_isSome_iff]
      rcases optionRel_cases (htracks.get hnamed) with ⟨_, b, -, hub, -⟩ | ⟨hnone, -⟩
      · rw [kind.fresh he] at hub
        cases hub
      · simp [hnone]
    refine ⟨r.pushBack e.key e.value, htracks.pushBack hnamed hnew rfl, ?_⟩
    rw [Option.toList_some, List.map_append, List.map_singleton]
    exact hretains.pushBack htracks.wellFormed _ hnew

/-- The records along a pass that starts on the loaded ones. -/
theorem follows_pass {s : ProcessJournalMaterializedState} (pending : List PendingCommand)
    (hw : (kind.stored d).WellFormed)
    (hretains : (kind.stored d).Retains (log.map Remembered.entry))
    (hs : kind.records s = kind.records (d.loaded batch))
    (hcommands : ∀ c ∈ pending.map Prod.fst, c ∈ batch ∧ c.isImport = false) :
    kind.Follows d batch (log ++ kind.passRecords s pending) (executeBatch s pending).2.1 := by
  have hstart : kind.Follows d batch log s := by
    refine ⟨kind.stored d, ?_, hretains⟩
    rw [hs]
    exact kind.loaded d batch hw
  refine executeBatch_log kind.of_error pending s log hstart ?_
  intro t c o t' log hc happ ht
  exact ht.step (hcommands c hc).1 (hcommands c hc).2 happ

/-! ### Histories -/

variable (kind)

/-- What a batch has recorded in the store: nothing if its transaction failed. -/
def batchLog (d : MaterializedRows) (batch : List StoredProcessCommand) : List (Remembered κ ν) :=
  match d.commitPending batch with
  | .ok _ => kind.passRecords (d.started batch) (previewBatch (d.loaded batch) batch).1
  | .error _ => []

/-- What a history of batches has recorded, oldest first. -/
def recordedIn (history : List StoreStep) : List (Remembered κ ν) :=
  history.flatMap fun x => kind.batchLog x.pre x.command

variable {kind}

variable {history : List StoreStep}

theorem remembered_of_mem
    (h : e ∈ kind.recordedIn history) : ∃ s, kind.remembered (s, e.command) = some e := by
  obtain ⟨x, -, hx⟩ := List.mem_flatMap.mp h
  unfold batchLog at hx
  split at hx
  · obtain ⟨⟨s, c⟩, -, hsc⟩ := List.mem_filterMap.mp hx
    refine ⟨s, ?_⟩
    rw [kind.command hsc]
    exact hsc
  · cases hx

theorem executeSteps_of_rejected : ∀ (pending : List PendingCommand)
    (s : ProcessJournalMaterializedState), pending.all (·.2.isSome) = true →
    executeSteps s pending = []
  | [], _, _ => rfl
  | (_, some _) :: rest, s, h => executeSteps_of_rejected rest s (by simpa using h)
  | (_, none) :: _, _, h => by simp at h

/-- One batch: the stored map goes on to be the end of the log. -/
theorem retains_afterBatch (hbatch : ∀ c ∈ batch, c.isImport = false)
    (hw : (kind.stored d).WellFormed)
    (hretains : (kind.stored d).Retains (log.map Remembered.entry)) :
    (kind.stored (advance MaterializedRows.commitPending d batch)).WellFormed ∧
      (kind.stored (advance MaterializedRows.commitPending d batch)).Retains
        ((log ++ kind.batchLog d batch).map Remembered.entry) := by
  unfold batchLog
  cases hcommit : d.commitPending batch with
  | error e =>
    rw [advance_of_error hcommit]
    simpa using And.intro hw hretains
  | ok result =>
    obtain ⟨answers, d'⟩ := result
    rw [advance_of_ok hcommit]
    rcases (MaterializedRows.commitPending_ok hcommit).2 with ⟨hall, rfl⟩ | hpersist
    · have hnone : kind.passRecords (d'.started batch)
          (previewBatch (d'.loaded batch) batch).1 = [] := by
        rw [passRecords, executeSteps_of_rejected _ _ hall]
        rfl
      rw [hnone, List.append_nil]
      exact ⟨hw, hretains⟩
    · obtain ⟨r, htracks, hr⟩ := follows_pass (previewBatch (d.loaded batch) batch).1 hw
        hretains (kind.started d batch) (by
          rw [previewBatch_commands]
          exact fun c hc => ⟨hc, hbatch c hc⟩)
      have htracks' : Table.Tracks Eq (kind.stored d).records
          (kind.records (d.loaded batch)).records r.records
          (kind.records (d.executed batch)).records :=
        htracks.tracks.mono fun _ _ hab => Prod.ext hab.1 hab.2
      rw [kind.persisted hpersist]
      refine ⟨htracks.wellFormed_overlay, htracks.order.trans hr.order, ?_⟩
      intro e he
      unfold IdempotencyRecords.get
      rw [htracks'.get_overlay]
      exact hr.values e he

/-- The stored replay map is the end of the log of every history without imports. -/
theorem retains_recordedIn (run : StoreRun history d)
    (hpublic : ∀ x ∈ history, ∀ c ∈ x.command, c.isImport = false)
    (hempty : kind.stored .empty = .empty) :
    (kind.stored d).WellFormed ∧
      (kind.stored d).Retains ((kind.recordedIn history).map Remembered.entry) := by
  refine run.induct_history (A := fun batch => ∀ c ∈ batch, c.isImport = false)
    (I := fun history d => (kind.stored d).WellFormed ∧
      (kind.stored d).Retains ((kind.recordedIn history).map Remembered.entry)) ?_ ?_ ?_ hpublic
  · rw [hempty]
    exact ⟨IdempotencyRecords.wellFormed_empty, IdempotencyRecords.retains_empty⟩
  · rintro history d _ rfl h
    exact h
  · intro history d batch hbatch h
    have hstep := retains_afterBatch hbatch h.1 h.2
    have hlog : kind.recordedIn (history ++ [⟨d, batch, advance MaterializedRows.commitPending d batch⟩]) =
        kind.recordedIn history ++ kind.batchLog d batch := by
      simp [ReplayKind.recordedIn]
    rw [hlog]
    exact hstep

/-! ### A repeated operation -/

variable (kind)

/-- Fewer newer keys than a replay map holds have been recorded since the `i`th record of a
history: by its later batches, and in a pass over the commands in front. -/
def Recent (history : List StoreStep) (i : ℕ) (s : ProcessJournalMaterializedState)
    (inFront : List PendingCommand) : Prop :=
  ((kind.recordedIn history).drop (i + 1) ++ kind.passRecords s inFront).length <
    maxIdempotencyRecords

variable {kind}

theorem length_previewBatch (s : ProcessJournalMaterializedState)
    (batch : List StoredProcessCommand) : (previewBatch s batch).1.length = batch.length := by
  rw [← List.length_map Prod.fst, previewBatch_commands]

/-- A pass in which the repeated command comes after `inFront` finds the record. -/
theorem replays_in_pass {s : ProcessJournalMaterializedState}
    {inFront : List PendingCommand} (hw : (kind.stored d).WellFormed)
    (hretains : (kind.stored d).Retains ((kind.recordedIn history).map Remembered.entry))
    {i : ℕ} (he : (kind.recordedIn history)[i]? = some e)
    (hrepeat : e.command.Repeats c) (hc : c ∈ batch)
    (hs : kind.records s = kind.records (d.loaded batch))
    (hcommands : ∀ c ∈ inFront.map Prod.fst, c ∈ batch ∧ c.isImport = false)
    (hrecent : kind.Recent history i s inFront) :
    (executeBatch s inFront).2.1.applyCommand c =
      .ok (kind.replayed e.value, (executeBatch s inFront).2.1) := by
  obtain ⟨s₀, hmade⟩ := remembered_of_mem (List.mem_of_getElem? he)
  have hi : i + 1 ≤ (kind.recordedIn history).length := by
    by_contra hge
    rw [List.getElem?_eq_none (by omega)] at he
    cases he
  have hnamed : e.key ∈ kind.keys (batchReferences batch) :=
    kind.includes (batchReferences_includes hc) e.key (kind.named hmade hrepeat)
  refine kind.replays hmade hrepeat ?_
  refine (follows_pass inFront hw hretains hs hcommands).get (i := i) ?_ ?_ hnamed
  · rw [List.getElem?_append_left hi]
    exact he
  · rw [List.drop_append_of_le_length hi]
    exact hrecent

/-- The command at its place in a batch is answered with `outcome` and changes nothing. -/
structure ReplayedAt (d : MaterializedRows) (before : List StoredProcessCommand)
    (c : StoredProcessCommand) (after : List StoredProcessCommand)
    (outcome : StoredCommandOutcome) : Prop where
  answer : ∀ answers d', d.commitPending (before ++ c :: after) = .ok (answers, d') →
    answers[before.length]? = some (.ok outcome)
  unchanged : let batch := before ++ c :: after
    let met := (executeBatch (d.started batch)
      ((previewBatch (d.loaded batch) batch).1.take before.length)).2.1
    met.applyCommand c = .ok (outcome, met)

theorem replayedAt (hw : (kind.stored d).WellFormed)
    (hretains : (kind.stored d).Retains ((kind.recordedIn history).map Remembered.entry))
    {i : ℕ} (he : (kind.recordedIn history)[i]? = some e) {before after : List StoredProcessCommand}
    (hrepeat : e.command.Repeats c) (hpublic : ∀ c' ∈ before ++ c :: after, c'.isImport = false)
    (hpreview : kind.Recent history i (d.loaded (before ++ c :: after))
      (before.map fun c' => (c', none)))
    (hexecution : kind.Recent history i (d.started (before ++ c :: after))
      ((previewBatch (d.loaded (before ++ c :: after)) (before ++ c :: after)).1.take
        before.length)) :
    ReplayedAt d before c after (kind.replayed e.value) := by
  have hc : c ∈ before ++ c :: after := by simp
  have hfront : ∀ c' ∈ before, c' ∈ before ++ c :: after ∧ c'.isImport = false :=
    fun c' hm => ⟨List.mem_append_left _ hm, hpublic c' (List.mem_append_left _ hm)⟩
  -- the preview lets the command through
  have hfirst := replays_in_pass hw hretains he hrepeat hc rfl (by
    simpa using hfront) hpreview
  have hpending : ∃ rest, (previewBatch (d.loaded (before ++ c :: after))
      (before ++ c :: after)).1 =
      (previewBatch (d.loaded (before ++ c :: after)) before).1 ++ (c, none) :: rest := by
    rw [previewBatch_append]
    unfold executeAll
    rw [previewBatch, hfirst]
    exact ⟨_, rfl⟩
  obtain ⟨rest, hpending⟩ := hpending
  have htake : (previewBatch (d.loaded (before ++ c :: after)) (before ++ c :: after)).1.take
      before.length = (previewBatch (d.loaded (before ++ c :: after)) before).1 := by
    rw [hpending, ← length_previewBatch (d.loaded (before ++ c :: after)) before, List.take_left]
  have hsecond := replays_in_pass hw hretains he hrepeat hc (kind.started _ _) (by
    rw [htake, previewBatch_commands]
    exact hfront) hexecution
  refine ⟨?_, hsecond⟩
  intro answers d' hcommit
  rw [htake] at hsecond
  rw [(MaterializedRows.commitPending_ok hcommit).1, hpending, (executeBatch_append _ _ _).1,
    List.getElem?_append_right (by rw [executeBatch_length, length_previewBatch]),
    executeBatch_length, length_previewBatch, Nat.sub_self, executeBatch, hsecond]
  rfl

end ReplayKind

/-! ### Repeated on its own -/

namespace MaterializedRows

structure SameRows (d d' : MaterializedRows) : Prop where
  journal : d'.journal = d.journal
  processes : d'.processes.SameRows d.processes
  inputs : d'.inputs.SameRows d.inputs
  treeReservations : d'.treeReservations.SameRows d.treeReservations
  dependencies : d'.dependencies.SameRows d.dependencies
  checkpoints : d'.checkpoints.SameRows d.checkpoints

theorem not_writesConflict_self {κ ν : Type} {key : ν → κ} [DecidableEq κ]
    (stored loaded : Table key) : writesConflict stored loaded loaded = false := by
  unfold writesConflict
  rw [List.any_eq_false]
  intro row hrow
  rw [Table.get_of_mem hrow]
  simp

/-- A command that leaves the rows it loads alone can be committed, and leaves every row alone. -/
theorem commitPending_unchanged {d : MaterializedRows} {c : StoredProcessCommand}
    {outcome : StoredCommandOutcome} (hc : c.isImport = false)
    (happ : (d.loaded [c]).applyCommand c = .ok (outcome, d.loaded [c])) :
    ∃ d', d.commitPending [c] = .ok ([.ok outcome], d') ∧ d.SameRows d' := by
  have hcount : c.cursorReservationCount (d.loaded [c]).journal.length = 0 := by
    cases c <;> first | rfl | cases hc
  have hpreview : previewBatch (d.loaded [c]) [c] = ([(c, none)], 0) := by
    rw [previewBatch, happ]
    simp only [hcount, previewBatch]
  have hstarted : d.started [c] = d.loaded [c] := by
    rw [started, hpreview]
    rfl
  have hexecute : executeBatch (d.loaded [c]) [(c, none)] = ([.ok outcome], d.loaded [c], []) := by
    rw [executeBatch, happ]
    rfl
  obtain ⟨d', hpersist⟩ : ∃ d', d.persist (d.loaded [c]) (d.loaded [c]) [] (d.sequence + 0) =
      .ok d' := by
    unfold persist
    simp only [not_writesConflict_self, journalConflict, Bool.or_false, Bool.false_eq_true,
      if_false]
    exact ⟨_, rfl⟩
  have hcommit : d.commitPending [c] = .ok ([.ok outcome], d') := by
    show (if (previewBatch (d.loaded [c]) [c]).1.all (·.2.isSome) = true then _ else _) = _
    rw [show d.load (batchReferences [c]) = d.loaded [c] from rfl, hpreview]
    simp only [reserveCursors, lt_irrefl, if_false, hexecute, hpersist]
    rfl
  refine ⟨d', hcommit, ?_⟩
  have h := writtenBack_of_persist hpersist
  have h₀ : d.WrittenBack [c] (d.started [c]) [] d := writtenBack_started
  rw [hstarted] at h₀
  exact ⟨by rw [h.journal, List.append_nil], h.processes.trans h₀.processes.symm,
    h.inputs.trans h₀.inputs.symm, h.treeReservations.trans h₀.treeReservations.symm,
    h.dependencies.trans h₀.dependencies.symm, h.checkpoints.trans h₀.checkpoints.symm⟩

end MaterializedRows

/-- Operations of one kind that a history has recorded can be repeated: at any place of a later
batch, while few newer keys have been recorded, and alone. -/
structure ReplayKind.CanRepeat {κ ν : Type} [DecidableEq κ] (kind : ReplayKind κ ν)
    (history : List StoreStep) (d : MaterializedRows) : Prop where
  inBatch : ∀ i e, (kind.recordedIn history)[i]? = some e → ∀ before c after,
    e.command.Repeats c → (∀ c' ∈ before ++ c :: after, c'.isImport = false) →
    kind.Recent history i (d.loaded (before ++ c :: after)) (before.map fun c' => (c', none)) →
    kind.Recent history i (d.started (before ++ c :: after))
      ((previewBatch (d.loaded (before ++ c :: after)) (before ++ c :: after)).1.take
        before.length) →
    ReplayKind.ReplayedAt d before c after (kind.replayed e.value)
  alone : ∀ i e, (kind.recordedIn history)[i]? = some e → ∀ c, e.command.Repeats c →
    ((kind.recordedIn history).drop (i + 1)).length < maxIdempotencyRecords →
    ∃ d', d.commitPending [c] = .ok ([.ok (kind.replayed e.value)], d') ∧ d.SameRows d'

theorem StoredProcessCommand.Repeats.isImport {original c : StoredProcessCommand}
    (h : original.Repeats c) (horiginal : original.isImport = false) : c.isImport = false := by
  cases h with
  | same => exact horiginal
  | control => rfl
  | submit => rfl

theorem ReplayKind.canRepeat {κ ν : Type} [DecidableEq κ] (kind : ReplayKind κ ν)
    {history : List StoreStep} {d : MaterializedRows} (run : StoreRun history d)
    (hpublic : ∀ x ∈ history, ∀ c ∈ x.command, c.isImport = false)
    (hempty : kind.stored .empty = .empty)
    (horiginal : ∀ {s c e}, kind.remembered (s, c) = some e → c.isImport = false) :
    (kind.stored d).WellFormed ∧ kind.CanRepeat history d := by
  obtain ⟨hw, hretains⟩ := retains_recordedIn run hpublic hempty
  refine ⟨hw, ⟨?_, ?_⟩⟩
  · intro i e he before c after hrepeat hall hpreview hexecution
    exact replayedAt hw hretains he hrepeat hall hpreview hexecution
  · intro i e he c hrepeat hrecent
    obtain ⟨s₀, hmade⟩ := remembered_of_mem (List.mem_of_getElem? he)
    refine MaterializedRows.commitPending_unchanged (hrepeat.isImport (horiginal hmade)) ?_
    have hfront : kind.Recent history i (d.loaded [c]) [] := by
      simpa [Recent, passRecords, executeSteps] using hrecent
    exact replays_in_pass hw hretains he hrepeat (List.mem_singleton.mpr rfl) rfl (by simp) hfront

/-- Repeating a submission or a control: in every store reached by committed batches, the replay
maps hold exactly the keys of their queues, each once and within the bound; and an operation that
was recorded and is asked for again, while fewer newer keys of its kind than a map holds have been
recorded, is answered with the recorded result and changes no row. -/
theorem repeated_operation_replays {history : List StoreStep} {d : MaterializedRows}
    (run : StoreRun history d) (hpublic : ∀ x ∈ history, ∀ c ∈ x.command, c.isImport = false) :
    (d.controls.WellFormed ∧ controlReplays.CanRepeat history d) ∧
      d.submissions.WellFormed ∧ submissionReplays.CanRepeat history d := by
  refine ⟨controlReplays.canRepeat run hpublic rfl ?_,
    submissionReplays.canRepeat run hpublic rfl ?_⟩
  · intro s c e h
    obtain ⟨-, -, mutation, rfl, -⟩ := rememberedControl_some h
    rfl
  · intro s c e h
    obtain ⟨-, -, ⟨request, hsub, -⟩, -⟩ := rememberedSubmission_some h
    cases c with
    | importLegacyState => cases hsub
    | _ => rfl

namespace Sample

/-- Submit a process and kill it, each under an operation id. -/
def submitAndKill : List (List StoredProcessCommand) :=
  [[.submit { submission 1 with operationId := some ⟨"first"⟩ }],
    [.control ⟨scope, processId 1, .kill, some ⟨"second"⟩, none, none, none, none⟩]]

end Sample

/-- The submission is repeated after the process has been killed: it is answered with the process
as it was submitted. -/
theorem killed_submission_replays :
    let d := Sample.submitAndKill.foldl (advance MaterializedRows.commitPending) .empty
    let c := StoredProcessCommand.submit
      { Sample.submission 1 with operationId := some ⟨"first"⟩ }
    ∃ snapshot d', snapshot.status = .queued ∧
      d.commitPending [c] = .ok ([.ok (.submitted snapshot false)], d') ∧ d.SameRows d' := by
  intro d c
  have h := (repeated_operation_replays (StoreRun.of_batches Sample.submitAndKill)
    (Run.trace_forall (A := fun batch : List StoredProcessCommand =>
      ∀ c ∈ batch, c.isImport = false) _ _ (by decide +kernel))).2.2
  obtain ⟨d', hcommit, hrows⟩ := h.alone 0 _ rfl c .same (by decide +kernel)
  exact ⟨_, d', rfl, hcommit, hrows⟩

end Ironclaw.Processes
