import Ironclaw.Triggers.Effects

/-! # The running rows of a trigger

What the history operations do to the rows of one trigger that are running, and that they leave
the data of every other trigger alone (`Elsewhere`). Retention keeps a running row that is the only
one, because running rows come first in its order (`runningRows_prune`). -/

namespace Ironclaw.Triggers.LibSql

variable {s s' s'' : Store} {trigger : TriggerKey} {run : TriggerRunRecord}

/-- The running rows of one trigger. -/
def runningRows (s : Store) (trigger : TriggerKey) : List TriggerRunRecord :=
  (s.runsOf trigger).filter fun run => run.status = .running

theorem mem_runningRows : run ∈ runningRows s trigger ↔
    run ∈ s.runs.rows ∧ run.trigger = trigger ∧ run.status = .running := by
  simp only [runningRows, Store.runsOf, List.mem_filter, decide_eq_true_eq, and_assoc]

theorem nodup_rows (s : Store) : s.runs.rows.Nodup := s.runs.nodup.of_map

theorem eq_singleton_of_mem_iff {α : Type} {l : List α} {a : α} (hl : l.Nodup)
    (h : ∀ x, x ∈ l ↔ x = a) : l = [a] := by
  refine List.perm_singleton.1 ((List.perm_ext_iff_of_nodup hl (List.nodup_singleton a)).2 ?_)
  simpa using h

variable {a : TriggerRunRecord}

theorem runningRows_eq_singleton
    (h : ∀ x, (x ∈ s.runs.rows ∧ x.trigger = trigger ∧ x.status = .running) ↔ x = a) :
    runningRows s trigger = [a] :=
  eq_singleton_of_mem_iff (((nodup_rows s).filter _).filter _) fun x =>
    mem_runningRows.trans (h x)

theorem runningRows_eq_nil (h : ∀ x ∈ s.runs.rows, x.trigger = trigger → x.status ≠ .running) :
    runningRows s trigger = [] := by
  rw [List.eq_nil_iff_forall_not_mem]
  intro x hx
  obtain ⟨hmem, htrigger, hstatus⟩ := mem_runningRows.1 hx
  exact h x hmem htrigger hstatus

/-! ### The source of the fire -/

theorem fetchRunSource_eq (h : runningRows s trigger = [a]) :
    fetchRunSource s trigger a.fireSlot = some a.source := by
  have hrows : (s.runs.rows.filter fun run =>
      run.trigger = trigger ∧ run.fireSlot = a.fireSlot ∧ run.status = .running) = [a] := by
    refine eq_singleton_of_mem_iff ((nodup_rows s).filter _) fun x => ?_
    have hx : x ∈ runningRows s trigger ↔ x = a := by simp [h]
    rw [mem_runningRows] at hx
    simp only [List.mem_filter, decide_eq_true_eq]
    constructor
    · rintro ⟨hmem, htrigger, -, hstatus⟩
      exact hx.1 ⟨hmem, htrigger, hstatus⟩
    · rintro rfl
      obtain ⟨hmem, htrigger, hstatus⟩ := hx.2 rfl
      exact ⟨hmem, htrigger, rfl, hstatus⟩
  rw [fetchRunSource, hrows]
  rfl

/-! ### Writing a running row -/

theorem trigger_mergedRow (run : TriggerRunRecord) (stored : Option TriggerRunRecord) :
    (mergedRow run stored).trigger = run.trigger := by
  cases stored <;> rfl

theorem key_mergedRow (run : TriggerRunRecord) (stored : Option TriggerRunRecord) :
    (mergedRow run stored).key = run.key := by
  cases stored <;> rfl

theorem status_mergedRow (run : TriggerRunRecord) (stored : Option TriggerRunRecord) :
    (mergedRow run stored).status = run.status := by
  cases stored <;> rfl

theorem runId_mergedRow (run : TriggerRunRecord) (stored : Option TriggerRunRecord) :
    (mergedRow run stored).runId = run.runId := by
  cases stored <;> rfl

theorem retireRow_eq_self {row : TriggerRunRecord} (h : (retireRow run row).status = .running) :
    retireRow run row = row := by
  unfold retireRow at h ⊢
  split
  · rename_i hretired
    rw [if_pos hretired] at h
    exact TriggerRunHistoryStatus.noConfusion h
  · rfl

theorem retireRow_of_trigger_ne {row : TriggerRunRecord} (h : row.trigger ≠ run.trigger) :
    retireRow run row = row :=
  if_neg fun hretired => h hretired.1

variable {x : TriggerRunRecord}

theorem mem_upsertRunHistory (hrun : run.status = .running) :
    x ∈ (upsertRunHistory s run).runs.rows ↔
      (∃ stored, x = mergedRow run stored ∧
        stored = (s.runs.mapRows (retireRow run) (key_retireRow run)).get run.key) ∨
      ∃ row ∈ s.runs.rows, retireRow run row = x ∧ row.key ≠ run.key := by
  simp only [upsertRunHistory, if_pos hrun, Table.mem_put, key_mergedRow, Table.mapRows,
    List.mem_map, exists_eq_right]
  refine or_congr Iff.rfl ?_
  constructor
  · rintro ⟨⟨row, hrow, rfl⟩, hkey⟩
    rw [key_retireRow] at hkey
    exact ⟨row, hrow, rfl, hkey⟩
  · rintro ⟨row, hrow, rfl, hkey⟩
    rw [key_retireRow]
    exact ⟨⟨row, hrow, rfl⟩, hkey⟩

theorem runningRows_upsertRunHistory (hrun : run.status = .running)
    (hheld : ∀ row ∈ runningRows s run.trigger, row.key = run.key) :
    ∃ stored, runningRows (upsertRunHistory s run) run.trigger = [mergedRow run stored] := by
  refine ⟨(s.runs.mapRows (retireRow run) (key_retireRow run)).get run.key,
    runningRows_eq_singleton fun x => ?_⟩
  rw [mem_upsertRunHistory hrun]
  constructor
  · rintro ⟨⟨stored, rfl, rfl⟩ | ⟨row, hrow, rfl, hkey⟩, htrigger, hstatus⟩
    · rfl
    · -- a row that is still running was running before, so it is the one that was replaced
      rw [retireRow_eq_self hstatus] at htrigger hstatus
      exact absurd (hheld row (mem_runningRows.2 ⟨hrow, htrigger, hstatus⟩)) hkey
  · rintro rfl
    exact ⟨.inl ⟨_, rfl, rfl⟩, trigger_mergedRow _ _, (status_mergedRow _ _).trans hrun⟩

/-! ### Retention -/

theorem mem_pruneRunHistory :
    x ∈ (pruneRunHistory s trigger).runs.rows ↔ x ∈ s.runs.rows ∧ (x.trigger = trigger →
      x.key ∈ ((orderBy retentionOrder (s.runsOf trigger)).take
        maxTriggerRunHistoryRetained).map TriggerRunRecord.key) := by
  simp only [pruneRunHistory, Table.filter, List.mem_filter, decide_eq_true_eq]
  refine and_congr_right fun _ => ?_
  exact (imp_iff_not_or).symm

theorem mem_of_mem_prune (h : x ∈ (pruneRunHistory s trigger).runs.rows) : x ∈ s.runs.rows :=
  (mem_pruneRunHistory.1 h).1

theorem runningRows_prune (h : runningRows s trigger = [a]) :
    runningRows (pruneRunHistory s trigger) trigger = [a] := by
  have hx : ∀ x, (x ∈ s.runs.rows ∧ x.trigger = trigger ∧ x.status = .running) ↔ x = a := by
    intro x
    rw [← mem_runningRows, h, List.mem_singleton]
  obtain ⟨hmem, htrigger, hstatus⟩ := (hx a).2 rfl
  have hfirst : a ∈ (orderBy retentionOrder (s.runsOf trigger)).take
      maxTriggerRunHistoryRetained := by
    refine mem_take_orderBy (by simp [Store.runsOf, hmem, htrigger]) ?_ (by decide)
    intro b hb hle
    simp only [Store.runsOf, List.mem_filter, decide_eq_true_eq] at hb
    refine (hx b).1 ⟨hb.1, hb.2, ?_⟩
    by_contra hidle
    rw [retentionOrder, retentionOrder, if_neg hidle, if_pos hstatus, Prod.Lex.toLex_le_toLex] at hle
    omega
  refine runningRows_eq_singleton fun x => ?_
  rw [mem_pruneRunHistory]
  constructor
  · rintro ⟨⟨hxmem, -⟩, hxtrigger, hxstatus⟩
    exact (hx x).1 ⟨hxmem, hxtrigger, hxstatus⟩
  · rintro rfl
    exact ⟨⟨hmem, fun _ => List.mem_map_of_mem hfirst⟩, htrigger, hstatus⟩

/-! ### Completing a row -/

section Completed

variable {fireSlot completedAt : Timestamp} {source : TriggerSourceKind} {runId : Option TurnRunId}
  {status : TriggerRunHistoryStatus}

theorem status_completedRow (stored : Option TriggerRunRecord) :
    (completedRow trigger fireSlot source runId status completedAt stored).status = status := by
  cases stored <;> rfl

theorem key_completedRow :
    (completedRow trigger fireSlot source runId status completedAt
      (s.runs.get ⟨trigger, fireSlot, source⟩)).key = ⟨trigger, fireSlot, source⟩ := by
  cases hget : s.runs.get ⟨trigger, fireSlot, source⟩ with
  | none => rfl
  | some stored =>
    have hkey : stored.key = ⟨trigger, fireSlot, source⟩ := Table.key_of_get hget
    exact hkey

theorem runningRows_completeRunHistory (hstatus : status ≠ .running)
    (hheld : ∀ row ∈ runningRows s trigger, row.key = ⟨trigger, fireSlot, source⟩) :
    runningRows (completeRunHistory s trigger fireSlot source runId status completedAt) trigger =
      [] := by
  apply runningRows_eq_nil
  intro x hx htrigger hrunning
  rcases (Table.mem_put _ _ _).1 (mem_of_mem_prune hx) with rfl | ⟨hmem, hkey⟩
  · rw [status_completedRow] at hrunning
    exact hstatus hrunning
  · rw [key_completedRow] at hkey
    exact hkey (hheld x (mem_runningRows.2 ⟨hmem, htrigger, hrunning⟩))

end Completed

/-! ### Other triggers -/

/-- Nothing but the data of one trigger differs. -/
structure Elsewhere (trigger : TriggerKey) (s s' : Store) : Prop where
  records : ∀ key, key ≠ trigger → s'.records.get key = s.records.get key
  runs : ∀ run : TriggerRunRecord, run.trigger ≠ trigger →
    (run ∈ s'.runs.rows ↔ run ∈ s.runs.rows)

namespace Elsewhere

theorem trans (h : Elsewhere trigger s s') (h' : Elsewhere trigger s' s'') :
    Elsewhere trigger s s'' where
  records key hkey := (h'.records key hkey).trans (h.records key hkey)
  runs run hrun := (h'.runs run hrun).trans (h.runs run hrun)

theorem putRecord (s : Store) {row : TriggerRecord} (hkey : row.key = trigger) :
    Elsewhere trigger s (s.putRecord row) where
  records key hne := by
    rw [Store.putRecord, Table.get_put_of_ne]
    rw [hkey]
    exact hne.symm
  runs _ _ := Iff.rfl

theorem upsertRunHistory (s : Store) {run : TriggerRunRecord} (hrun : run.status = .running) :
    Elsewhere run.trigger s (upsertRunHistory s run) where
  records _ _ := rfl
  runs x hx := by
    rw [mem_upsertRunHistory hrun]
    constructor
    · rintro (⟨stored, rfl, -⟩ | ⟨row, hrow, rfl, -⟩)
      · exact absurd (trigger_mergedRow run stored) hx
      · have htrigger : row.trigger ≠ run.trigger := by
          intro htrigger
          exact hx ((congrArg TriggerRunKey.trigger (key_retireRow run row)).trans htrigger)
        rwa [retireRow_of_trigger_ne htrigger]
    · intro hmem
      refine .inr ⟨x, hmem, retireRow_of_trigger_ne hx, ?_⟩
      intro hkey
      exact hx (congrArg TriggerRunKey.trigger hkey)

theorem pruneRunHistory (s : Store) (trigger : TriggerKey) :
    Elsewhere trigger s (pruneRunHistory s trigger) where
  records _ _ := rfl
  runs x hx := by
    rw [mem_pruneRunHistory]
    exact ⟨fun h => h.1, fun h => ⟨h, fun htrigger => absurd htrigger hx⟩⟩

theorem completeRunHistory (s : Store) (trigger : TriggerKey) (fireSlot : Timestamp)
    (source : TriggerSourceKind) (runId : Option TurnRunId) (status : TriggerRunHistoryStatus)
    (completedAt : Timestamp) : Elsewhere trigger s
      (completeRunHistory s trigger fireSlot source runId status completedAt) := by
  have hput : Elsewhere trigger s { s with
      runs := s.runs.put (completedRow trigger fireSlot source runId status completedAt
        (s.runs.get ⟨trigger, fireSlot, source⟩)) } := by
    refine ⟨fun _ _ => rfl, fun x hx => ?_⟩
    rw [Table.mem_put, key_completedRow]
    constructor
    · rintro (rfl | ⟨hmem, -⟩)
      · exact absurd (congrArg TriggerRunKey.trigger key_completedRow) hx
      · exact hmem
    · intro hmem
      refine .inr ⟨hmem, ?_⟩
      intro hkey
      exact hx (congrArg TriggerRunKey.trigger hkey)
  exact hput.trans (Elsewhere.pruneRunHistory _ trigger)

theorem upserted (s : Store) {row : TriggerRecord} {run : TriggerRunRecord}
    (hkey : row.key = trigger) (htrigger : run.trigger = trigger) (hrun : run.status = .running) :
    Elsewhere trigger s (LibSql.upsertRunHistory (s.putRecord row) run) := by
  subst htrigger
  exact (putRecord s hkey).trans (upsertRunHistory _ hrun)

theorem completed (s : Store) {row : TriggerRecord} (hkey : row.key = trigger)
    (fireSlot : Timestamp) (source : TriggerSourceKind) (runId : Option TurnRunId)
    (status : TriggerRunHistoryStatus) (completedAt : Timestamp) : Elsewhere trigger s
      (LibSql.completeRunHistory (s.putRecord row) trigger fireSlot source runId status
        completedAt) :=
  (putRecord s hkey).trans (completeRunHistory _ _ _ _ _ _ _)

theorem runningRows_eq (h : Elsewhere trigger s s') {key : TriggerKey} (hkey : key ≠ trigger)
    {rows : List TriggerRunRecord} (hrows : runningRows s key = rows) (hlen : rows.length ≤ 1) :
    runningRows s' key = rows := by
  have hmem : ∀ x, x ∈ runningRows s' key ↔ x ∈ runningRows s key := by
    intro x
    rw [mem_runningRows, mem_runningRows]
    constructor
    · rintro ⟨hx, rfl, hstatus⟩
      exact ⟨(h.runs x hkey).1 hx, rfl, hstatus⟩
    · rintro ⟨hx, rfl, hstatus⟩
      exact ⟨(h.runs x hkey).2 hx, rfl, hstatus⟩
  rw [hrows] at hmem
  match rows, hlen with
  | [], _ => exact List.eq_nil_iff_forall_not_mem.2 fun x hx => List.not_mem_nil ((hmem x).1 hx)
  | [a], _ =>
    refine runningRows_eq_singleton fun x => ?_
    rw [← mem_runningRows, hmem, List.mem_singleton]

end Elsewhere

end Ironclaw.Triggers.LibSql
