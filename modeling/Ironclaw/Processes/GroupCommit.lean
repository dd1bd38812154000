import Ironclaw.Processes.ProcessStep
import Ironclaw.Processes.Rows

/-! # What a group commit leaves in the store

A batch is executed on the loaded part of the rows and written back over the rest.

* `executeSteps` lists the commands a batch executes, each with the state it meets, and
  `executeBatch_invariant` is the invariant rule for them.
* `batchSteps` and `executed` are the steps and the last state of a batch on given rows;
  `afterBatch_cases` says that a batch leaves the rows alone or writes that state back.
* `store_row_invariant` carries an invariant of single process rows over every run of the
  store. -/

namespace Ironclaw.Processes

open ProcessJournalMaterializedState

/-- The commands that a batch executes, each with the state it meets. -/
def executeSteps : ProcessJournalMaterializedState → List PendingCommand →
    List (ProcessJournalMaterializedState × StoredProcessCommand)
  | _, [] => []
  | s, (_, some _) :: rest => executeSteps s rest
  | s, (command, none) :: rest =>
    (s, command) ::
      match s.applyCommand command with
      | .ok (_, next) => executeSteps { next with journal := [] } rest
      | .error _ => executeSteps s rest

theorem executeBatch_invariant {I : ProcessJournalMaterializedState → Prop} :
    ∀ (pending : List PendingCommand) (s : ProcessJournalMaterializedState), I s →
      (∀ t c o t', (t, c) ∈ executeSteps s pending → t.applyCommand c = .ok (o, t') → I t →
        I { t' with journal := [] }) →
      I (executeBatch s pending).2.1
  | [], s, h0, _ => h0
  | (_, some _) :: rest, s, h0, hstep => executeBatch_invariant rest s h0 hstep
  | (command, none) :: rest, s, h0, hstep => by
    unfold executeBatch
    cases happ : s.applyCommand command with
    | ok result =>
      obtain ⟨o, next⟩ := result
      simp only [executeSteps, happ] at hstep
      have hnext := hstep s command o next List.mem_cons_self happ h0
      exact executeBatch_invariant rest _ hnext fun t c o t' hm =>
        hstep t c o t' (List.mem_cons_of_mem _ hm)
    | error e =>
      simp only [executeSteps, happ] at hstep
      exact executeBatch_invariant rest s h0 fun t c o t' hm =>
        hstep t c o t' (List.mem_cons_of_mem _ hm)

theorem executeSteps_invariant {I : ProcessJournalMaterializedState → Prop} :
    ∀ (pending : List PendingCommand) (s : ProcessJournalMaterializedState), I s →
      (∀ t c o t', (t, c) ∈ executeSteps s pending → t.applyCommand c = .ok (o, t') → I t →
        I { t' with journal := [] }) →
      ∀ x ∈ executeSteps s pending, I x.1
  | [], _, _, _ => fun x hx => absurd hx List.not_mem_nil
  | (_, some _) :: rest, s, h0, hstep => executeSteps_invariant rest s h0 hstep
  | (command, none) :: rest, s, h0, hstep => by
    intro x hx
    rw [executeSteps, List.mem_cons] at hx
    rcases hx with rfl | hx
    · exact h0
    · cases happ : s.applyCommand command with
      | ok result =>
        obtain ⟨o, next⟩ := result
        simp only [executeSteps, happ] at hstep hx
        have hnext := hstep s command o next List.mem_cons_self happ h0
        exact executeSteps_invariant rest _ hnext (fun t c o t' hm =>
          hstep t c o t' (List.mem_cons_of_mem _ hm)) x hx
      | error e =>
        simp only [executeSteps, happ] at hstep hx
        exact executeSteps_invariant rest s h0 (fun t c o t' hm =>
          hstep t c o t' (List.mem_cons_of_mem _ hm)) x hx

theorem executeSteps_command_mem : ∀ (pending : List PendingCommand)
    (s : ProcessJournalMaterializedState) {t : ProcessJournalMaterializedState}
    {c : StoredProcessCommand}, (t, c) ∈ executeSteps s pending → c ∈ pending.map Prod.fst
  | [], _, _, _, h => absurd h List.not_mem_nil
  | (_, some _) :: rest, s, _, _, h =>
    List.mem_cons_of_mem _ (executeSteps_command_mem rest s h)
  | (command, none) :: rest, s, t, c, h => by
    rw [executeSteps, List.mem_cons] at h
    rw [List.map_cons, List.mem_cons]
    rcases h with h | h
    · rw [Prod.mk.injEq] at h
      exact .inl h.2
    · right
      cases happ : s.applyCommand command with
      | ok result =>
        rw [happ] at h
        exact executeSteps_command_mem rest _ h
      | error e =>
        rw [happ] at h
        exact executeSteps_command_mem rest s h

theorem previewBatch_commands : ∀ (batch : List StoredProcessCommand)
    (s : ProcessJournalMaterializedState), (previewBatch s batch).1.map Prod.fst = batch
  | [], _ => rfl
  | command :: rest, s => by
    unfold previewBatch
    cases s.applyCommand command with
    | ok result => simp [previewBatch_commands rest]
    | error e => simp [previewBatch_commands rest]

namespace MaterializedRows

variable (d : MaterializedRows) (batch : List StoredProcessCommand)

def loaded : ProcessJournalMaterializedState := d.load (batchReferences batch)

/-- The state a batch starts executing on. -/
def started : ProcessJournalMaterializedState :=
  d.reserveCursors (d.loaded batch) (previewBatch (d.loaded batch) batch).2

/-- The commands a batch executes, each with the state it meets. -/
def batchSteps : List (ProcessJournalMaterializedState × StoredProcessCommand) :=
  executeSteps (d.started batch) (previewBatch (d.loaded batch) batch).1

/-- The state a batch ends in. -/
def executed : ProcessJournalMaterializedState :=
  (executeBatch (d.started batch) (previewBatch (d.loaded batch) batch).1).2.1

/-- The events a batch records. -/
def recorded : List ProcessJournalEntry :=
  (executeBatch (d.started batch) (previewBatch (d.loaded batch) batch).1).2.2

/-- The number of cursors a batch reserves. -/
def reservations : ℕ := (previewBatch (d.loaded batch) batch).2

/-- The process rows of the store once those of a working state are written back. -/
def workingRows (s : ProcessJournalMaterializedState) : Table JournaledProcessSnapshot.processId :=
  d.processes.overlay (d.loaded batch).processes s.processes

theorem started_eq : d.started batch =
    { d.loaded batch with nextCursor := (d.started batch).nextCursor } := by
  unfold started reserveCursors
  split_ifs <;> rfl

@[simp] theorem started_processes : (d.started batch).processes = (d.loaded batch).processes := by
  unfold started reserveCursors
  split_ifs <;> rfl

theorem loaded_processes_get (p : ProcessId) :
    (d.loaded batch).processes.get p =
      (d.processes.get p).filter fun row => row.processId ∈ d.loadedProcessIds (batchReferences batch) := by
  unfold loaded load
  rw [Table.get_filter]

variable {d batch}

theorem command_mem_of_batchSteps {t : ProcessJournalMaterializedState} {c : StoredProcessCommand}
    (h : (t, c) ∈ d.batchSteps batch) : c ∈ batch := by
  have hm := executeSteps_command_mem _ _ h
  rwa [previewBatch_commands] at hm

/-- What the accepted commands of a batch preserve holds of the state it ends in. -/
theorem executed_invariant {I : ProcessJournalMaterializedState → Prop} (h0 : I (d.started batch))
    (hstep : ∀ t c o t', (t, c) ∈ d.batchSteps batch → t.applyCommand c = .ok (o, t') → I t →
      I { t' with journal := [] }) : I (d.executed batch) :=
  executeBatch_invariant _ _ h0 hstep

/-- What the accepted commands of a batch preserve holds whenever one of them is reached. -/
theorem batchSteps_invariant {I : ProcessJournalMaterializedState → Prop} (h0 : I (d.started batch))
    (hstep : ∀ t c o t', c ∈ batch → t.applyCommand c = .ok (o, t') → I t →
      I { t' with journal := [] }) : ∀ x ∈ d.batchSteps batch, I x.1 :=
  executeSteps_invariant _ _ h0 fun t c o t' hm => hstep t c o t' (command_mem_of_batchSteps hm)

variable {d' : MaterializedRows}

theorem commitPending_ok {answers : List CommandAnswer}
    (h : d.commitPending batch = .ok (answers, d')) :
    answers = (executeBatch (d.started batch) (previewBatch (d.loaded batch) batch).1).1 ∧
      (((previewBatch (d.loaded batch) batch).1.all (·.2.isSome) = true ∧ d' = d) ∨
        d.persist (d.loaded batch) (d.executed batch) (d.recorded batch)
          (d.sequence + d.reservations batch) = .ok d') := by
  unfold commitPending at h
  simp only at h
  split_ifs at h with hall
  · rw [Except.ok.injEq, Prod.mk.injEq] at h
    exact ⟨h.1.symm, .inl ⟨hall, h.2.symm⟩⟩
  · simp only [bind_eq_ok, pure_eq_ok, Prod.mk.injEq] at h
    obtain ⟨rows, hpersist, hanswers, rfl⟩ := h
    exact ⟨hanswers.symm, .inr hpersist⟩

theorem afterBatch_cases (d : MaterializedRows) (batch : List StoredProcessCommand) :
    advance commitPending d batch = d ∨
      d.persist (d.loaded batch) (d.executed batch) (d.recorded batch)
        (d.sequence + d.reservations batch) = .ok (advance commitPending d batch) := by
  cases h : d.commitPending batch with
  | error e => exact .inl (advance_of_error h)
  | ok result =>
    have h' : d.commitPending batch = .ok (result.1, result.2) := h
    rw [advance_of_ok h']
    rcases (commitPending_ok h').2 with ⟨-, hsame⟩ | hpersist
    · exact .inl hsame
    · exact .inr hpersist

theorem persist_processes {loaded state : ProcessJournalMaterializedState}
    {entries : List ProcessJournalEntry} {sequence : ProcessJournalCursor}
    (h : d.persist loaded state entries sequence = .ok d') :
    d'.processes = d.processes.overlay loaded.processes state.processes := by
  unfold persist at h
  split_ifs at h
  rw [Except.ok.injEq] at h
  rw [← h]

/-- A process that is stored and was not loaded: a row for it cannot be written. -/
def Unloaded (d : MaterializedRows) (batch : List StoredProcessCommand) (p : ProcessId) : Prop :=
  (d.processes.get p).isSome ∧ (d.loaded batch).processes.get p = none

theorem persist_unloaded {p : ProcessId} {row : JournaledProcessSnapshot}
    {entries : List ProcessJournalEntry} {sequence : ProcessJournalCursor}
    (h : d.persist (d.loaded batch) (d.executed batch) entries sequence = .ok d')
    (hrow : (d.executed batch).processes.get p = some row) : ¬ d.Unloaded batch p := by
  rintro ⟨hstored, hloaded⟩
  have hconflict : writesConflict d.processes (d.loaded batch).processes
      (d.executed batch).processes = true := by
    refine List.any_eq_true.mpr ⟨row, Table.mem_of_get hrow, ?_⟩
    rw [Table.key_of_get hrow, hloaded, hstored]
    rfl
  unfold persist at h
  simp [hconflict] at h

theorem afterBatch_processes (d : MaterializedRows) (batch : List StoredProcessCommand) :
    (advance commitPending d batch).processes = d.processes ∨
      (advance commitPending d batch).processes = d.workingRows batch (d.executed batch) := by
  rcases afterBatch_cases d batch with h | h
  · exact .inl (by rw [h])
  · exact .inr (persist_processes h)

theorem loaded_get_cases (d : MaterializedRows) (batch : List StoredProcessCommand)
    (p : ProcessId) : (d.loaded batch).processes.get p = d.processes.get p ∨
      (d.loaded batch).processes.get p = none := by
  rw [loaded_processes_get]
  cases h : d.processes.get p with
  | none => exact .inl rfl
  | some row =>
    by_cases hm : row.processId ∈ d.loadedProcessIds (batchReferences batch)
    · exact .inl (by simp [hm])
    · exact .inr (by simp [hm])

/-- An invariant of process rows that every command keeps holds of every stored row. -/
theorem store_row_invariant {I : Option JournaledProcessSnapshot → Prop} (hnone : I none)
    (hstep : ∀ s p c before after, ProcessStep s p c before after → I before → I after)
    {history : List StoreStep} (run : StoreRun history d)
    (hall : ∀ x ∈ history, ∀ c ∈ x.command, c.isImport = false) (p : ProcessId) :
    I (d.processes.get p) := by
  refine run.invariant (I := fun d => I (d.processes.get p))
    (A := fun batch => ∀ c ∈ batch, c.isImport = false) ?_ ?_ ?_ hall
  · simpa [empty] using hnone
  · rintro d _ rfl h
    exact h
  · intro d batch hpub h
    have hlast : I ((d.executed batch).processes.get p) := by
      refine executed_invariant (I := fun t => I (t.processes.get p)) ?_ ?_
      · rw [started_processes]
        rcases loaded_get_cases d batch p with hl | hl <;> rw [hl]
        · exact h
        · exact hnone
      · intro t c o t' hm happ ht
        have hc := StoredProcessCommand.spares_of_not_import (hpub c (command_mem_of_batchSteps hm)) p
        have hs := advance_processStep t hc
        rw [advance_of_ok happ] at hs
        exact hstep t p c _ _ hs ht
    rcases afterBatch_processes d batch with hp | hp
    · rw [hp]
      exact h
    · rw [hp, workingRows, Table.get_overlay]
      cases he : (d.executed batch).processes.get p with
      | some row =>
        rw [he] at hlast
        simpa using hlast
      | none =>
        split_ifs
        · simpa using h
        · simpa using hnone

end MaterializedRows

end Ironclaw.Processes
