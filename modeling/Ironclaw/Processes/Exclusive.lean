import Ironclaw.Processes.Lifecycle

/-! # Exclusive submissions

A submission marked exclusive is refused while a process of its scope owner and kind is active.
The check is made at the submission only; it is enough because no command brings an ended
process back to an active status (`ProcessStep.activeLock`). -/

namespace Ironclaw.Processes

open ProcessJournalMaterializedState

variable {s : ProcessJournalMaterializedState} {p : ProcessId} {c : StoredProcessCommand}
  {scope : ResourceScope} {kind : ProcessKind}

theorem holdsActiveLock_iff {snapshot : JournaledProcessSnapshot} :
    holdsActiveLock scope kind snapshot = true ↔ snapshot.processKind = kind ∧
      snapshot.status.isTerminal = false ∧ sameScopeOwner snapshot.scope scope = true := by
  simp only [holdsActiveLock, ProcessLifecycleStatus.keepsActiveLock, Bool.and_eq_true,
    decide_eq_true_eq, Bool.not_eq_true', and_assoc]

/-- The lock of a scope is that of every scope with the same owner. -/
theorem holdsActiveLock_congr {scope' : ResourceScope} (h : sameScopeOwner scope scope' = true)
    (snapshot : JournaledProcessSnapshot) :
    holdsActiveLock scope kind snapshot = holdsActiveLock scope' kind snapshot := by
  have hs : sameScopeOwner snapshot.scope scope = sameScopeOwner snapshot.scope scope' := by
    rw [Bool.eq_iff_iff]
    constructor
    · exact fun hx => sameScopeOwner_trans hx h
    · exact fun hx => sameScopeOwner_trans hx (by rwa [sameScopeOwner_comm])
  simp only [holdsActiveLock, hs]

/-- The request of a command that submits a process to the queue. -/
def StoredProcessCommand.submission? : StoredProcessCommand → Option SubmitProcessRequest
  | .submit request | .submitWithCheckpoint request _ => some request
  | _ => none

/-- The command respects exclusiveness for the scope owner and kind: it submits such a process
only exclusively, never at an edge, and imports no active one. -/
def StoredProcessCommand.ExclusiveFor (command : StoredProcessCommand) (scope : ResourceScope)
    (kind : ProcessKind) : Prop :=
  (∀ request, command.submission? = some request → request.processKind = kind →
    sameScopeOwner request.scope scope = true → request.exclusiveWithinScope = true) ∧
  (∀ request, command = .submitAtEdge request →
    ¬ (request.submission.processKind = kind ∧
      sameScopeOwner request.submission.scope scope = true)) ∧
  ∀ state, command = .importLegacyState state →
    ∀ row ∈ state.processes.rows, holdsActiveLock scope kind row = false

/-- A row that is active after a step was active before it, or the step is an exclusive
submission that found no active row. -/
theorem ProcessStep.activeLock {before after : Option JournaledProcessSnapshot}
    {b : JournaledProcessSnapshot} (h : ProcessStep s p c before after)
    (hc : c.ExclusiveFor scope kind) (hb : after = some b)
    (hlock : holdsActiveLock scope kind b = true) :
    (∃ a, before = some a ∧ holdsActiveLock scope kind a = true) ∨
    ((∀ row ∈ s.processes.rows, holdsActiveLock scope kind row = false) ∧
      c.submission?.map (·.processId) = some p) := by
  have fresh : ∀ request : SubmitProcessRequest, c.submission? = some request →
      request.processId = p → request.processKind = kind →
      sameScopeOwner request.scope scope = true →
      (request.exclusiveWithinScope = true → ∀ row ∈ s.processes.rows,
        holdsActiveLock request.scope request.processKind row = false) →
      (∀ row ∈ s.processes.rows, holdsActiveLock scope kind row = false) ∧
        c.submission?.map (·.processId) = some p := by
    rintro request hsub rfl rfl hscope hrefused
    refine ⟨fun row hrow => ?_, by rw [hsub]; rfl⟩
    rw [← holdsActiveLock_congr hscope]
    exact hrefused (hc.1 request hsub rfl hscope) row hrow
  rw [holdsActiveLock_iff] at hlock
  obtain ⟨hkind, hactive, hscope⟩ := hlock
  cases h with
  | unchanged => exact .inl ⟨b, hb, holdsActiveLock_iff.mpr ⟨hkind, hactive, hscope⟩⟩
  | submitted process lock =>
    cases hb
    exact .inr (fresh _ rfl process hkind hscope lock)
  | submittedWithCheckpoint process _ lock link =>
    cases hb
    rcases link with rfl | ⟨-, rfl⟩
    · exact .inr (fresh _ rfl process hkind hscope lock)
    · exact .inr (fresh _ rfl process hkind hscope lock)
  | submittedAtEdge =>
    cases hb
    exact absurd ⟨hkind, hscope⟩ (hc.2.1 _ rfl)
  | claimed candidate =>
    cases hb
    simp only [claimable, Bool.and_eq_true, decide_eq_true_eq] at candidate
    exact .inl ⟨_, rfl, holdsActiveLock_iff.mpr ⟨hkind, by rw [candidate.1.1]; rfl, hscope⟩⟩
  | renewed =>
    cases hb
    exact .inl ⟨_, rfl, holdsActiveLock_iff.mpr ⟨hkind, hactive, hscope⟩⟩
  | recovered expired =>
    cases hb
    exact .inl ⟨_, rfl, holdsActiveLock_iff.mpr
      ⟨hkind, (leaseExpired_owned expired).not_terminal, hscope⟩⟩
  | @transitioned _ mutation stored _ _ _ valid =>
    cases hb
    have hstored : stored.status.isTerminal = false := by
      by_contra ht
      rw [Bool.not_eq_false] at ht
      rw [transitionValid_terminal ht] at valid
      simp only [transitionedSnapshot, ← valid, ht] at hactive
      cases hactive
    exact .inl ⟨_, rfl, holdsActiveLock_iff.mpr ⟨by simpa [transitionedSnapshot] using hkind,
      hstored, by simpa [transitionedSnapshot] using hscope⟩⟩
  | @controlled _ stored _ _ _ _ _ _ _ transition =>
    cases hb
    have hstored : stored.status.isTerminal = false := by
      rcases controlTransition_ok transition with ⟨-, -, valid⟩ | ⟨hn, -⟩
      · by_contra ht
        rw [Bool.not_eq_false] at ht
        rw [transitionValid_terminal ht] at valid
        rw [valid] at ht
        cases ht
      · exact hn
    exact .inl ⟨_, rfl, holdsActiveLock_iff.mpr ⟨by simpa [controlledSnapshot] using hkind,
      hstored, by simpa [controlledSnapshot] using hscope⟩⟩
  | linked =>
    cases hb
    exact .inl ⟨_, rfl, holdsActiveLock_iff.mpr ⟨hkind, hactive, hscope⟩⟩

/-- All active rows of the scope owner and kind are one row. -/
def OneActive (scope : ResourceScope) (kind : ProcessKind) (s : ProcessJournalMaterializedState) :
    Prop :=
  ∀ p q a b, s.processes.get p = some a → s.processes.get q = some b →
    holdsActiveLock scope kind a = true → holdsActiveLock scope kind b = true → p = q

theorem OneActive.step (inv : OneActive scope kind s) (hc : c.ExclusiveFor scope kind) :
    OneActive scope kind (advance applyCommand s c) := by
  intro p q a b ha hb hla hlb
  cases himp : c.isImport with
  | true =>
    cases c <;> simp [StoredProcessCommand.isImport] at himp
    rename_i state
    have old : ∀ r d, (advance applyCommand s (.importLegacyState state)).processes.get r =
        some d → holdsActiveLock scope kind d = true → s.processes.get r = some d := by
      intro r d hd hlock
      rcases advance_import_get s state r with h | ⟨-, h⟩
      · rwa [← h]
      · rw [h] at hd
        simp [hc.2.2 state rfl d (Table.mem_of_get hd)] at hlock
    exact inv p q a b (old p a ha hla) (old q b hb hlb) hla hlb
  | false =>
    have step := fun r => advance_processStep s (StoredProcessCommand.spares_of_not_import himp r)
    have locked : ∀ r d, s.processes.get r = some d → holdsActiveLock scope kind d = true →
        ¬ ∀ row ∈ s.processes.rows, holdsActiveLock scope kind row = false := by
      intro r d hd hlock hnone
      simp [hnone d (Table.mem_of_get hd)] at hlock
    rcases (step p).activeLock hc ha hla with ⟨a', ha', hla'⟩ | ⟨hnone, hp⟩
    · rcases (step q).activeLock hc hb hlb with ⟨b', hb', hlb'⟩ | ⟨hnone, -⟩
      · exact inv p q a' b' ha' hb' hla' hlb'
      · exact absurd hnone (locked p a' ha' hla')
    · rcases (step q).activeLock hc hb hlb with ⟨b', hb', hlb'⟩ | ⟨-, hq⟩
      · exact absurd hnone (locked q b' hb' hlb')
      · exact Option.some.inj (hp.symm.trans hq)

/-! ### Refusals -/

variable {suspension : Option ProcessSuspension} {status : ProcessLifecycleStatus} {cursor : ProcessJournalCursor}

/-- A submission refused because of an active process names one. -/
theorem applySubmit_refused {request : SubmitProcessRequest} {q : ProcessId} {k : ProcessKind}
        (h : s.applySubmit request = .error (.activeProcessConflict q k status suspension cursor)) :
    ∃ a, s.processes.get q = some a ∧
      holdsActiveLock request.scope request.processKind a = true := by
  unfold applySubmit at h
  split at h
  · cases h
  · simp only [bind_eq_error, rejectIf_eq_error, reduceCtorEq, and_false, false_or] at h
    rcases h with ⟨-, -, hact | ⟨-, -, hdep | ⟨-, -, htree | ⟨_, -, hpure⟩⟩⟩⟩
    · obtain ⟨-, active, hmem, hlock, he⟩ := refuseActiveConflict_error hact
      cases he
      exact ⟨active, Table.get_of_mem hmem, hlock⟩
    · unfold refuseForeignDependency at hdep
      split at hdep
      · cases hdep
      · simp only [bind_eq_error, rejectIf_eq_error, reduceCtorEq, and_false, exists_false,
          or_self] at hdep
    · unfold childReservation at htree
      split at htree
      · simp only [process, bind_eq_error, rejectIf_eq_error, okOr_eq_error, pure_ne_error,
          reduceCtorEq, and_false, exists_false, or_self] at htree
      · simp only [bind_eq_error, rejectIf_eq_error, pure_ne_error, reduceCtorEq, and_false,
          exists_false, or_self] at htree
    · cases hpure

theorem applyCheckpoint_not_refused {request : RecordProcessCheckpointRequest} {q : ProcessId}
    {k : ProcessKind} :
    s.applyCheckpoint request ≠ .error (.activeProcessConflict q k status suspension cursor) := by
  intro h
  simp only [applyCheckpoint, process, bind_eq_error, okOr_eq_error, rejectIf_eq_error,
    reduceCtorEq, and_false, false_or] at h
  obtain ⟨stored, -, -, -, h⟩ := h
  split at h
  · simp only [bind_eq_error, rejectIf_eq_error, pure_ne_error, reduceCtorEq, and_false,
      exists_false, or_self] at h
  · cases h

/-- A command that submits and is refused because of an active process has one to show. -/
theorem submission_refused {request : SubmitProcessRequest} {q : ProcessId} {k : ProcessKind}
        (hc : c.submission? = some request)
    (h : s.applyCommand c = .error (.activeProcessConflict q k status suspension cursor)) :
    ∃ a, s.processes.get q = some a ∧
      holdsActiveLock request.scope request.processKind a = true := by
  cases c with
  | submit =>
    cases hc
    exact applySubmit_refused h
  | submitWithCheckpoint _ checkpoint =>
    cases hc
    simp only [applyCommand, applySubmitWithCheckpoint, bind_eq_error, rejectIf_eq_error,
      reduceCtorEq, and_false, false_or] at h
    obtain ⟨-, -, h | ⟨⟨o, submitted⟩, -, h⟩⟩ := h
    · exact applySubmit_refused h
    · simp only at h
      split at h
      · simp only [bind_eq_error, pure_ne_error, and_false, exists_false, or_false] at h
        exact absurd h applyCheckpoint_not_refused
      · cases h
  | _ => simp [StoredProcessCommand.submission?] at hc

/-- **Exclusive submission.**  In a run whose submissions for a scope owner and kind are all
exclusive and not at an edge, at most one process of that owner and kind is active, and a
submission is refused as conflicting only with an active process of its own owner and kind. -/
theorem exclusive_submission {history : List JournalStep} {s : ProcessJournalMaterializedState}
    {scope : ResourceScope} {kind : ProcessKind} (run : JournalRun history s)
    (hall : ∀ x ∈ history, x.command.ExclusiveFor scope kind) :
    s.processes.count (holdsActiveLock scope kind) ≤ 1 ∧
    ∀ (c : StoredProcessCommand) (request : SubmitProcessRequest) (q : ProcessId) (k : ProcessKind)
      (status : ProcessLifecycleStatus) (suspension : Option ProcessSuspension)
      (cursor : ProcessJournalCursor), c.submission? = some request →
      s.applyCommand c = .error (.activeProcessConflict q k status suspension cursor) →
      ∃ a, s.processes.get q = some a ∧
        holdsActiveLock request.scope request.processKind a = true := by
  refine ⟨?_, fun c request q k status suspension cursor => submission_refused⟩
  have one : OneActive scope kind s := by
    refine run.invariant (I := OneActive scope kind) (A := fun c => c.ExclusiveFor scope kind)
      ?_ ?_ ?_ hall
    · simp [OneActive, empty]
    · intro u v huv h p q a b ha hb
      exact h p q a b ((huv.processes_get p).trans ha) ((huv.processes_get q).trans hb)
    · intro u c hc hu
      exact hu.step hc
  refine s.processes.count_le_one fun a ha b hb hla hlb => ?_
  exact one _ _ a b (Table.get_of_mem ha) (Table.get_of_mem hb) hla hlb

/-- An exclusive submission and a second one that is refused. -/
theorem exclusive_submission_second_refused :
    let request (n : ℕ) := { Sample.submission n with exclusiveWithinScope := true }
    ([.submit (request 1), .submit (request 2)].foldl (advance applyCommand)
      empty).processes.count (holdsActiveLock Sample.scope .agentTurn) ≤ 1 := by
  intro request
  let commands : List StoredProcessCommand := [.submit (request 1), .submit (request 2)]
  have hall : ∀ c ∈ commands, c.ExclusiveFor Sample.scope .agentTurn := by
    simp [commands, StoredProcessCommand.ExclusiveFor, StoredProcessCommand.submission?, request]
  exact (exclusive_submission (JournalRun.of_commands _) (Run.trace_forall _ empty hall)).1

/-- An import brings two active processes of one owner and kind without any submission. -/
theorem import_brings_two_active : ∃ history s, JournalRun history s ∧
    (∀ x ∈ history, x.command.submission? = none ∧
      ∀ request, x.command ≠ .submitAtEdge request) ∧
    1 < s.processes.count (holdsActiveLock Sample.scope .agentTurn) := by
  let legacy := Sample.migration [.submit (Sample.submission 1), .submit (Sample.submission 2)]
  refine ⟨_, _, JournalRun.of_commands [legacy], ?_, by decide⟩
  refine Run.trace_forall [legacy] empty (A := fun c => c.submission? = none ∧
    ∀ request, c ≠ .submitAtEdge request) ?_
  intro c hc
  rw [List.mem_singleton.mp hc]
  exact ⟨rfl, fun request => by simp [legacy, Sample.migration]⟩

end Ironclaw.Processes
