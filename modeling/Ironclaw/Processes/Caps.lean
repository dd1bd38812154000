import Ironclaw.Processes.GroupCommit
import Ironclaw.Processes.Lifecycle

/-! # Concurrency caps of the store

A claim counts the Running processes of its candidate's owner and class among the rows loaded
for its batch, while the caps are about all stored rows.

* `WithinCaps` is the law, about the stored process rows.
* `AdmissionsSound` says of a batch that its claims, wherever their cap test admits a candidate
  on the working rows, would admit it on all rows.
* `WithinCaps.batch`: a batch with that property keeps the law. Which batches have it is a
  matter of what they load. -/

namespace Ironclaw.Processes

open ProcessJournalMaterializedState MaterializedRows

variable {limits : ProcessConcurrencyLimits}

/-- No owner and no class has more Running processes than its cap. -/
structure WithinCaps (limits : ProcessConcurrencyLimits)
    (rows : Table JournaledProcessSnapshot.processId) : Prop where
  owner : ∀ cap, limits.maxRunningPerOwner = some cap → ∀ tenantId ownerUserId,
    rows.count (runningForOwner tenantId ownerUserId) ≤ cap.toNat
  concurrencyClass : ∀ concurrencyClass cap, limits.classCap concurrencyClass = some cap →
    ∀ tenantId, rows.count (runningForClass tenantId concurrencyClass) ≤ cap.toNat

theorem WithinCaps.empty : WithinCaps limits Table.empty :=
  ⟨fun _ _ _ _ => Nat.zero_le _, fun _ _ _ _ => Nat.zero_le _⟩

/-- Whether a command, if it is a claim, uses the given limits. -/
def StoredProcessCommand.ClaimsUnder (limits : ProcessConcurrencyLimits) :
    StoredProcessCommand → Prop
  | .claim _ _ _ _ used => used = limits
  | _ => True

/-- Every candidate a claim reaches before it has its fill, if the caps admit it on the working
rows, is admitted by the caps on the `complete` rows. -/
def admissionSound
    (complete : ProcessJournalMaterializedState → Table JournaledProcessSnapshot.processId)
    (s : ProcessJournalMaterializedState) : StoredProcessCommand → Prop
  | .claim request now leaseDurationMillis leaseNonce limits =>
    ∀ i : Fin (s.claimableProcessIds request).length,
      let reached := claimLoop request now leaseDurationMillis leaseNonce limits
        ((s.claimableProcessIds request).take i) s []
      let candidate := (s.claimableProcessIds request).get i
      reached.1.length < request.maxProcesses →
      reached.2.processClaimWithinLimits candidate limits = true →
      { reached.2 with processes := complete reached.2 }.processClaimWithinLimits candidate
        limits = true
  | _ => True

/-- Every claim a batch executes is sound against the stored rows, with what the batch has
changed so far written back. -/
def AdmissionsSound (d : MaterializedRows) (batch : List StoredProcessCommand) : Prop :=
  ∀ step ∈ d.batchSteps batch, admissionSound (d.workingRows batch) step.1 step.2

/-! ### The claim loop, candidate by candidate -/

variable {s : ProcessJournalMaterializedState}

/-- What the admission of every reached candidate preserves is preserved by the claim. -/
theorem claimLoop_invariant {request : ClaimProcessesRequest} {now : Timestamp} {millis : UInt64}
    {nonce : ProcessId} {I : ProcessJournalMaterializedState → Prop}
    (ids : List ProcessId) (h0 : I s)
    (htaken : ∀ before p after, ids = before ++ p :: after →
      let reached := claimLoop request now millis nonce limits before s []
      reached.1.length < request.maxProcesses →
      reached.2.processClaimWithinLimits p limits = true → I reached.2 →
      ∀ stored, reached.2.processes.get p = some stored →
        let snapshot := claimedSnapshot stored request.workerId nonce now millis
          reached.2.nextCursor
        I (reached.2.commit snapshot
          (.fromSnapshot snapshot reached.2.nextCursor .claimed))) :
    I (claimLoop request now millis nonce limits ids s []).2 := by
  induction ids using List.reverseRecOn with
  | nil => exact h0
  | append_singleton ids p ih =>
    have hI := ih fun before q after h => htaken before q (after ++ [p]) (by simp [h])
    have hstep := htaken ids p [] rfl
    rw [claimLoop_append]
    simp only [claimLoop]
    simp only at hstep
    split_ifs with hmax hlim
    · exact hI
    · exact hI
    · rw [Bool.not_eq_false] at hlim
      obtain ⟨stored, hg, -, -⟩ := processClaimWithinLimits_some (by rw [hlim]; simp)
      rw [hg]
      exact hstep (Nat.lt_of_not_le hmax) hlim hI stored hg

/-! ### One command against the caps -/

theorem ProcessStep.running_before {p : ProcessId}
    {c : StoredProcessCommand} {before : Option JournaledProcessSnapshot}
    {b : JournaledProcessSnapshot} (h : ProcessStep s p c before (some b))
    (inv : LeaseImpliesOwned before) (hb : b.status = .running)
    (hc : ∀ request now millis nonce limits, c ≠ .claim request now millis nonce limits) :
    ∃ a, before = some a ∧ a.status = .running ∧ a.scope = b.scope ∧
      a.ownerUserId = b.ownerUserId ∧ a.concurrencyClass = b.concurrencyClass := by
  cases h with
  | unchanged => exact ⟨b, rfl, hb, rfl, rfl, rfl⟩
  | submitted => cases hb
  | submittedWithCheckpoint _ _ _ link =>
    rcases link with rfl | ⟨-, rfl⟩
    · cases hb
    · cases hb
  | @submittedAtEdge request =>
    cases hedge : request.edge <;>
      simp [edgeSnapshot, hedge, ProcessSubmissionEdge.status] at hb
  | claimed => exact absurd rfl (hc _ _ _ _ _)
  | @renewed _ _ _ stored _ _ lease => exact ⟨stored, rfl, hb, rfl, rfl, rfl⟩
  | @recovered _ _ stored =>
    simp only [recoveredSnapshot, recoveryDecision] at hb
    split_ifs at hb
  | @transitioned _ mutation stored _ _ lease valid =>
    have hown := inv stored rfl (holdsLease_isSome lease)
    have hs : (effectiveMutation stored mutation).status = .running := hb
    rw [hs] at valid
    refine ⟨stored, rfl, ?_, by simp [transitionedSnapshot], by simp [transitionedSnapshot],
      by simp [transitionedSnapshot]⟩
    rcases hown with hr | hr
    · exact hr
    · rw [hr] at valid
      cases valid
  | @controlled mutation stored status kind _ _ _ _ _ transition _ =>
    have hs : status = .running := hb
    subst hs
    have := controlTransition_ok transition
    simp at this
  | @linked _ stored => exact ⟨stored, rfl, hb, rfl, rfl, rfl⟩

variable {stored loaded : Table JournaledProcessSnapshot.processId}

/-- A command that is no claim brings no row above the caps. -/
theorem WithinCaps.step {s s' : ProcessJournalMaterializedState} {c : StoredProcessCommand}
    (hcaps : WithinCaps limits (stored.overlay loaded s.processes))
    (hrow : ∀ p, LeaseImpliesOwned (s.processes.get p))
    (hstep : ∀ p, ProcessStep s p c (s.processes.get p) (s'.processes.get p))
    (hc : ∀ request now millis nonce limits, c ≠ .claim request now millis nonce limits) :
    WithinCaps limits (stored.overlay loaded s'.processes) := by
  -- a row that is Running after the command was so before it, under the same owner and class
  have hback : ∀ b ∈ (stored.overlay loaded s'.processes).rows, b.status = .running →
      ∃ a ∈ (stored.overlay loaded s.processes).rows, a.processId = b.processId ∧
        a.status = .running ∧ a.scope = b.scope ∧ a.ownerUserId = b.ownerUserId ∧
        a.concurrencyClass = b.concurrencyClass := by
    intro b hb hrun
    have hget := Table.get_of_mem hb
    rw [Table.get_overlay] at hget
    have hs := hstep b.processId
    cases h' : s'.processes.get b.processId with
    | some b' =>
      rw [h', Option.some_or, Option.some.injEq] at hget
      subst hget
      rw [h'] at hs
      obtain ⟨a, ha, hfields⟩ := hs.running_before (hrow b'.processId) hrun hc
      have hmem : (stored.overlay loaded s.processes).get b'.processId = some a := by
        rw [Table.get_overlay, ha, Option.some_or]
      exact ⟨a, Table.mem_of_get hmem, Table.key_of_get hmem, hfields⟩
    | none =>
      cases h : s.processes.get b.processId with
      | some a =>
        rw [h, h'] at hs
        cases hs.isSome_after
      | none =>
        rw [h'] at hget
        have hmem : (stored.overlay loaded s.processes).get b.processId = some b := by
          rw [Table.get_overlay, h]
          exact hget
        exact ⟨b, Table.mem_of_get hmem, rfl, hrun, rfl, rfl, rfl⟩
  constructor
  · intro cap hcap tenantId owner
    refine le_trans (Table.count_le_count ?_) (hcaps.owner cap hcap tenantId owner)
    intro b hb hp
    simp only [runningForOwner, decide_eq_true_eq] at hp
    obtain ⟨a, ha, hk, hr, hsc, ho, -⟩ := hback b hb hp.1
    exact ⟨a, ha, hk, by simp [runningForOwner, hr, hsc, ho, hp.2]⟩
  · intro cls cap hcap tenantId
    refine le_trans (Table.count_le_count ?_) (hcaps.concurrencyClass cls cap hcap tenantId)
    intro b hb hp
    simp only [runningForClass, decide_eq_true_eq] at hp
    obtain ⟨a, ha, hk, hr, hsc, -, hcl⟩ := hback b hb hp.1
    exact ⟨a, ha, hk, by simp [runningForClass, hr, hsc, hcl, hp.2]⟩

theorem count_put_le (rows : Table JournaledProcessSnapshot.processId)
    (snapshot : JournaledProcessSnapshot) (property : JournaledProcessSnapshot → Bool) :
    (rows.put snapshot).count property ≤
      rows.count property + if property snapshot then 1 else 0 := by
  cases h : rows.get snapshot.processId with
  | none => exact (rows.count_put_of_none property h).le
  | some a =>
    have := rows.count_put_of_get property h
    omega

/-- Admitting a candidate that the caps admit on all rows keeps all rows within the caps. -/
theorem WithinCaps.admitted {rows : Table JournaledProcessSnapshot.processId}
    {p : ProcessId} {candidate : JournaledProcessSnapshot}
    (workerId : ProcessWorkerId) (nonce : ProcessId) (now : Timestamp) (millis : UInt64)
    (cursor : ProcessJournalCursor) (hcaps : WithinCaps limits rows)
    (hget : rows.get p = some candidate)
    (hlim : { s with processes := rows }.processClaimWithinLimits p limits = true) :
    WithinCaps limits
      (rows.put (claimedSnapshot candidate workerId nonce now millis cursor)) := by
  simp only [processClaimWithinLimits, hget, Bool.and_eq_true] at hlim
  obtain ⟨howner, hclass⟩ := hlim
  constructor
  · intro cap hcap tenantId owner
    refine le_trans (count_put_le _ _ _) ?_
    have hle := hcaps.owner cap hcap tenantId owner
    split_ifs with hp
    · -- the candidate counts against this owner, whom the cap test has just passed
      simp only [runningForOwner, claimedSnapshot, true_and, decide_eq_true_eq] at hp
      simp only [ownerWithinLimits, hcap, hp.2, decide_eq_true_eq] at howner
      rw [hp.1] at howner
      exact howner
    · exact hle
  · intro cls cap hcap tenantId
    refine le_trans (count_put_le _ _ _) ?_
    have hle := hcaps.concurrencyClass cls cap hcap tenantId
    split_ifs with hp
    · simp only [runningForClass, claimedSnapshot, true_and, decide_eq_true_eq] at hp
      simp only [classWithinLimits, hp.2, hcap, decide_eq_true_eq] at hclass
      rw [hp.1] at hclass
      exact hclass
    · exact hle

theorem WithinCaps.of_sameRows {rows rows' : Table JournaledProcessSnapshot.processId}
    (h : rows.SameRows rows') (hcaps : WithinCaps limits rows) : WithinCaps limits rows' where
  owner cap hcap tenantId owner := by
    rw [← h.count_eq]
    exact hcaps.owner cap hcap tenantId owner
  concurrencyClass cls cap hcap tenantId := by
    rw [← h.count_eq]
    exact hcaps.concurrencyClass cls cap hcap tenantId

/-- A sound claim keeps the completed rows within the caps. -/
theorem WithinCaps.claim {request : ClaimProcessesRequest}
    {now : Timestamp} {millis : UInt64} {nonce : ProcessId}
    (hcaps : WithinCaps limits (stored.overlay loaded s.processes))
    (hsound : admissionSound (fun t => stored.overlay loaded t.processes) s
      (.claim request now millis nonce limits)) :
    WithinCaps limits (stored.overlay loaded (claimLoop request now millis nonce limits
      (s.claimableProcessIds request) s []).2.processes) := by
  refine claimLoop_invariant (I := fun t => WithinCaps limits (stored.overlay loaded t.processes))
    _ hcaps ?_
  intro before p after hids reached hlt hlim hI candidate hget
  have hi : before.length < (s.claimableProcessIds request).length := by simp [hids]
  have hat := hsound ⟨before.length, hi⟩
  have htake : (s.claimableProcessIds request).take before.length = before := by simp [hids]
  have hp : (s.claimableProcessIds request).get ⟨before.length, hi⟩ = p := by simp [hids]
  rw [htake, hp] at hat
  have hcomplete : (stored.overlay loaded reached.2.processes).get p = some candidate := by
    rw [Table.get_overlay, hget, Option.some_or]
  have hnext := WithinCaps.admitted request.workerId nonce now millis reached.2.nextCursor hI hcomplete
    (hat hlt hlim)
  exact hnext.of_sameRows (Table.overlay_put _ _ _ _).symm

/-! ### The caps over whole runs -/

theorem workingRows_started (d : MaterializedRows) (batch : List StoredProcessCommand) :
    d.processes.SameRows (d.workingRows batch (d.started batch)) := by
  apply Table.sameRows_of_get_eq
  intro p
  rw [workingRows, started_processes, Table.get_overlay]
  rcases loaded_get_cases d batch p with h | h
  · rw [h]
    cases d.processes.get p <;> simp
  · rw [h]
    simp

/-- A batch of sound claims keeps the stored rows within the caps. -/
theorem WithinCaps.batch {d : MaterializedRows} {batch : List StoredProcessCommand}
    (hcaps : WithinCaps limits d.processes) (hrow : ∀ p, LeaseImpliesOwned (d.processes.get p))
    (hpublic : ∀ c ∈ batch, c.isImport = false) (hlimits : ∀ c ∈ batch, c.ClaimsUnder limits)
    (hsound : AdmissionsSound d batch) :
    WithinCaps limits (advance commitPending d batch).processes := by
  have hlast : WithinCaps limits (d.workingRows batch (d.executed batch)) ∧
      ∀ p, LeaseImpliesOwned ((d.executed batch).processes.get p) := by
    refine executed_invariant (I := fun t => WithinCaps limits (d.workingRows batch t) ∧
      ∀ p, LeaseImpliesOwned (t.processes.get p)) ⟨?_, ?_⟩ ?_
    · exact hcaps.of_sameRows (workingRows_started d batch)
    · intro p
      rw [started_processes]
      rcases loaded_get_cases d batch p with h | h
      · rw [h]
        exact hrow p
      · rw [h]
        simp [LeaseImpliesOwned]
    · rintro t c o t' hm happ ⟨hcap, hlease⟩
      have hmem := command_mem_of_batchSteps hm
      have hs : ∀ p, ProcessStep t p c (t.processes.get p) (t'.processes.get p) := by
        intro p
        have := advance_processStep t
          (StoredProcessCommand.spares_of_not_import (hpublic c hmem) p)
        rwa [advance_of_ok happ] at this
      refine ⟨?_, fun p => (hlease p).step (hs p)⟩
      by_cases hc : ∃ request now millis nonce used, c = .claim request now millis nonce used
      · obtain ⟨request, now, millis, nonce, used, rfl⟩ := hc
        have hused : used = limits := hlimits _ hmem
        subst hused
        have hresult : t' = (claimLoop request now millis nonce used
            (t.claimableProcessIds request) t []).2 := by
          simp only [applyCommand, applyClaim, Except.ok.injEq, Prod.mk.injEq] at happ
          exact happ.2.symm
        rw [hresult]
        exact WithinCaps.claim hcap (hsound _ hm)
      · exact hcap.step hlease hs fun request now millis nonce used h =>
          hc ⟨request, now, millis, nonce, used, h⟩
  rcases afterBatch_processes d batch with h | h
  · rw [h]
    exact hcaps
  · rw [h]
    exact hlast.1

end Ironclaw.Processes
