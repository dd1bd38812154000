import Ironclaw.Processes.Caps

/-! # The quota rows a claim loads

The loader's side of the concurrency caps.  A claim that names no process loads, with each
candidate of its window, the Running rows of the candidate's owner and class, as many as the
caps allow.  As long as the caps hold and fit one page, these are all there are, so that the cap
test on the loaded rows is the cap test on all rows.  A process that comes before a claim by
another way has no such rows beside it.

* `InWindow` says that a process is a candidate some claim of the batch has loaded, and
  `QuotaLoaded` what the load brings in for it.
* `QueueLeftToClaims` is the condition on the commands of a batch and the stored rows: a process
  that a claim of the batch may take and a cap counts is, while Queued, named by no command of
  the batch, and none requeues it.
* `caps_hold_durably`: the caps hold in every run whose batches meet the condition. -/

namespace Ironclaw.Processes

open ProcessJournalMaterializedState MaterializedRows

variable {limits : ProcessConcurrencyLimits} {d : MaterializedRows}
  {batch : List StoredProcessCommand}

/-! ### What a claim loads -/

/-- Caps that one page of an indexed query can fill. -/
structure ProcessConcurrencyLimits.FitPage (limits : ProcessConcurrencyLimits) : Prop where
  owner : ∀ cap, limits.maxRunningPerOwner = some cap → cap.toNat ≤ pageMaxLimit
  concurrencyClass : ∀ concurrencyClass cap, limits.classCap concurrencyClass = some cap →
    cap.toNat ≤ pageMaxLimit

theorem mem_orderedProcessQuery {select : JournaledProcessSnapshot → Bool}
    {sortKey : JournaledProcessSnapshot → ℤ} {limit : ℕ} {row : JournaledProcessSnapshot}
    (hrow : row ∈ d.processes.rows) (hselect : select row = true)
    (hcount : d.processes.count select ≤ limit) (hpage : limit ≤ pageMaxLimit) :
    row ∈ d.orderedProcessQuery select sortKey limit := by
  have hlength : ((d.processes.rows.filter select).insertionSort (indexedBefore sortKey)).length ≤
      min limit pageMaxLimit := by
    rw [List.length_insertionSort, ← List.countP_eq_length_filter]
    exact le_min hcount (hcount.trans hpage)
  unfold orderedProcessQuery
  rw [List.take_of_length_le hlength, List.mem_insertionSort, List.mem_filter]
  exact ⟨hrow, hselect⟩

theorem of_mem_orderedProcessQuery {select : JournaledProcessSnapshot → Bool}
    {sortKey : JournaledProcessSnapshot → ℤ} {limit : ℕ} {row : JournaledProcessSnapshot}
    (h : row ∈ d.orderedProcessQuery select sortKey limit) :
    row ∈ d.processes.rows ∧ select row = true := by
  have hsorted := List.mem_of_mem_take h
  rwa [List.mem_insertionSort, List.mem_filter] at hsorted

theorem of_mem_queryRunningQuotaRows {candidate row : JournaledProcessSnapshot}
    {limits : ProcessConcurrencyLimits} (h : row ∈ d.queryRunningQuotaRows candidate limits) :
    row ∈ d.processes.rows ∧ row.status = .running := by
  rcases List.mem_append.mp h with h | h
  · split at h
    · have hrow := of_mem_orderedProcessQuery h
      simp only [runningForOwner, decide_eq_true_eq] at hrow
      exact ⟨hrow.1, hrow.2.1⟩
    · cases h
  · split at h
    · cases h
    · split at h
      · cases h
      · have hrow := of_mem_orderedProcessQuery h
        simp only [runningForClass, decide_eq_true_eq] at hrow
        exact ⟨hrow.1, hrow.2.1⟩

/-- The process is among the candidates that a claim of the batch, naming no process, loads. -/
def InWindow (d : MaterializedRows) (batch : List StoredProcessCommand) (p : ProcessId) : Prop :=
  ∃ claim ∈ (batchReferences batch).claims, claim.1.processIdFilter = none ∧
    ∃ candidate ∈ d.queryClaimCandidates claim.1
      (batchedDemand (batchReferences batch).claims claim.1), candidate.processId = p

theorem loaded_of_mem_claimRows {claim : ClaimProcessesRequest × ProcessConcurrencyLimits}
    {row : JournaledProcessSnapshot} (hclaim : claim ∈ (batchReferences batch).claims)
    (hrow : row ∈ d.claimRows (batchReferences batch).claims claim) :
    row.processId ∈ d.loadedProcessIds (batchReferences batch) := by
  refine List.mem_append_right _ (List.mem_map_of_mem ?_)
  exact List.mem_append_left _ (List.mem_append_right _ (List.mem_flatMap.mpr ⟨claim, hclaim, hrow⟩))

/-- What the load brings in for a candidate in a window: its own row, and, within the caps, every
Running row of its owner and class. -/
structure QuotaLoaded (limits : ProcessConcurrencyLimits) (d : MaterializedRows)
    (batch : List StoredProcessCommand) (candidate : JournaledProcessSnapshot) : Prop where
  stored : candidate ∈ d.processes.rows
  loaded : candidate.processId ∈ d.loadedProcessIds (batchReferences batch)
  owner : ∀ cap owner, limits.maxRunningPerOwner = some cap → candidate.ownerUserId = some owner →
    ∀ row ∈ d.processes.rows, runningForOwner candidate.scope.tenantId owner row = true →
      row.processId ∈ d.loadedProcessIds (batchReferences batch)
  concurrencyClass : ∀ concurrencyClass cap, candidate.concurrencyClass = some concurrencyClass →
    limits.classCap concurrencyClass = some cap →
    ∀ row ∈ d.processes.rows,
      runningForClass candidate.scope.tenantId concurrencyClass row = true →
      row.processId ∈ d.loadedProcessIds (batchReferences batch)

theorem InWindow.quotaLoaded {p : ProcessId} (h : InWindow d batch p)
    (hcaps : WithinCaps limits d.processes) (hpage : limits.FitPage)
    (hlimits : ∀ c ∈ batch, c.ClaimsUnder limits) :
    ∃ candidate, candidate.processId = p ∧ QuotaLoaded limits d batch candidate := by
  obtain ⟨claim, hclaim, hunnamed, candidate, hcandidate, hp⟩ := h
  have hused : claim.2 = limits := by
    have hmem := (mem_batchReferences LoadReferences.claims (fun _ _ => rfl)
      (fun _ _ => Iff.rfl) rfl).mp hclaim
    obtain ⟨c, hc, hmem⟩ := hmem
    have hunder := hlimits c hc
    cases c with
    | claim request now millis nonce used =>
        rw [List.mem_singleton.mp hmem]
        exact hunder
    | _ => cases hmem
  have hrows : d.claimRows (batchReferences batch).claims claim =
      d.queryClaimCandidates claim.1 (batchedDemand (batchReferences batch).claims claim.1) ++
        (d.queryClaimCandidates claim.1
          (batchedDemand (batchReferences batch).claims claim.1)).flatMap
            fun candidate => d.queryRunningQuotaRows candidate claim.2 := by
    unfold claimRows
    rw [hunnamed]
    rfl
  have hquota : ∀ row ∈ d.queryRunningQuotaRows candidate limits,
      row.processId ∈ d.loadedProcessIds (batchReferences batch) := by
    intro row hrow
    refine loaded_of_mem_claimRows hclaim ?_
    rw [hrows, hused]
    exact List.mem_append_right _ (List.mem_flatMap.mpr ⟨candidate, hcandidate, hrow⟩)
  refine ⟨candidate, hp, ?_, ?_, ?_, ?_⟩
  · unfold queryClaimCandidates at hcandidate
    split_ifs at hcandidate
    · cases hcandidate
    · exact (of_mem_orderedProcessQuery hcandidate).1
  · refine loaded_of_mem_claimRows hclaim ?_
    rw [hrows]
    exact List.mem_append_left _ hcandidate
  · intro cap owner hcap howner row hrow hrun
    refine hquota row (List.mem_append_left _ ?_)
    simp only [hcap, howner]
    exact mem_orderedProcessQuery hrow hrun (hcaps.owner cap hcap _ owner) (hpage.owner cap hcap)
  · intro cls cap hcls hcap row hrow hrun
    refine hquota row (List.mem_append_right _ ?_)
    simp only [hcls, hcap]
    exact mem_orderedProcessQuery hrow hrun (hcaps.concurrencyClass cls cap hcap _)
      (hpage.concurrencyClass cls cap hcap)

/-! ### What a batch leaves of the loaded rows -/

/-- Two snapshots of one process, under the same kind, scope, owner and class. -/
structure SameAccount (a b : JournaledProcessSnapshot) : Prop where
  processId : b.processId = a.processId
  processKind : b.processKind = a.processKind
  scope : b.scope = a.scope
  ownerUserId : b.ownerUserId = a.ownerUserId
  concurrencyClass : b.concurrencyClass = a.concurrencyClass

namespace SameAccount

variable {a b c : JournaledProcessSnapshot}

theorem refl (a : JournaledProcessSnapshot) : SameAccount a a := ⟨rfl, rfl, rfl, rfl, rfl⟩

theorem trans (hab : SameAccount a b) (hbc : SameAccount b c) : SameAccount a c where
  processId := hbc.processId.trans hab.processId
  processKind := hbc.processKind.trans hab.processKind
  scope := hbc.scope.trans hab.scope
  ownerUserId := hbc.ownerUserId.trans hab.ownerUserId
  concurrencyClass := hbc.concurrencyClass.trans hab.concurrencyClass

theorem filtersSelect_eq (h : SameAccount a b) (scopeFilter : Option ResourceScope)
    (processKindFilter : Option ProcessKind) :
    filtersSelect scopeFilter processKindFilter b =
      filtersSelect scopeFilter processKindFilter a := by
  rw [filtersSelect, filtersSelect, h.scope, h.processKind]

end SameAccount

theorem transitionedSnapshot_sameAccount (a : JournaledProcessSnapshot)
    (mutation : ProcessTransitionMutation) (cursor : ProcessJournalCursor) :
    SameAccount a (transitionedSnapshot a mutation cursor) := by
  constructor <;> simp [transitionedSnapshot]

theorem controlledSnapshot_sameAccount (a : JournaledProcessSnapshot)
    (mutation : ProcessControlMutation) (status : ProcessLifecycleStatus)
    (cursor : ProcessJournalCursor) :
    SameAccount a (controlledSnapshot a mutation status cursor) := by
  constructor <;> simp [controlledSnapshot]

theorem ProcessStep.sameAccount {s : ProcessJournalMaterializedState} {p : ProcessId}
    {c : StoredProcessCommand} {a : JournaledProcessSnapshot}
    {after : Option JournaledProcessSnapshot} (h : ProcessStep s p c (some a) after) :
    ∃ b, after = some b ∧ SameAccount a b := by
  cases h with
  | unchanged => exact ⟨a, rfl, .refl a⟩
  | claimed => exact ⟨_, rfl, rfl, rfl, rfl, rfl, rfl⟩
  | renewed => exact ⟨_, rfl, rfl, rfl, rfl, rfl, rfl⟩
  | recovered => exact ⟨_, rfl, rfl, rfl, rfl, rfl, rfl⟩
  | transitioned => exact ⟨_, rfl, transitionedSnapshot_sameAccount a _ _⟩
  | controlled => exact ⟨_, rfl, controlledSnapshot_sameAccount a _ _ _⟩
  | linked => exact ⟨_, rfl, rfl, rfl, rfl, rfl, rfl⟩

/-- Every loaded row is still there, under the same owner and class. -/
def Carries (loaded : Table JournaledProcessSnapshot.processId)
    (t : ProcessJournalMaterializedState) : Prop :=
  ∀ p a, loaded.get p = some a → ∃ b, t.processes.get p = some b ∧ SameAccount a b

theorem Carries.claimLoop {loaded : Table JournaledProcessSnapshot.processId}
    {t : ProcessJournalMaterializedState} (h : Carries loaded t) (request : ClaimProcessesRequest)
    (now : Timestamp) (millis : UInt64) (nonce : ProcessId) (limits : ProcessConcurrencyLimits)
    (ids : List ProcessId) (claimed : List ClaimedProcess) :
    Carries loaded (claimLoop request now millis nonce limits ids t claimed).2 := by
  revert h
  refine claimLoop_induct
    (motive := fun _ t _ result => Carries loaded t → Carries loaded result.2) ?_ ?_ ?_
    ids t claimed
  · exact fun _ _ _ h => h
  · exact fun _ _ _ _ _ ih h => ih h
  · intro p ids t claimed stored result hget _ _ _ ih h
    refine ih fun q a ha => ?_
    obtain ⟨b, hb, hab⟩ := h q a ha
    rw [commit_processes, Table.get_put]
    split_ifs with hq
    · have hstored : b = stored := by
        have hp : stored.processId = p := Table.key_of_get hget
        rw [claimedSnapshot_processId, hp] at hq
        rw [← hq, hget, Option.some.injEq] at hb
        exact hb.symm
      subst hstored
      exact ⟨_, rfl, hab.trans ⟨rfl, rfl, rfl, rfl, rfl⟩⟩
    · exact ⟨b, hb, hab⟩

theorem batchSteps_carries (hpublic : ∀ c ∈ batch, c.isImport = false) :
    ∀ x ∈ d.batchSteps batch, Carries (d.loaded batch).processes x.1 := by
  refine batchSteps_invariant ?_ ?_
  · intro p a ha
    exact ⟨a, by rw [started_processes]; exact ha, .refl a⟩
  · intro t c o t' hc happ h p a ha
    obtain ⟨b, hb, hab⟩ := h p a ha
    have hstep := advance_processStep t
      (StoredProcessCommand.spares_of_not_import (hpublic c hc) p)
    rw [advance_of_ok happ, hb] at hstep
    obtain ⟨b', hb', hbb'⟩ := hstep.sameAccount
    exact ⟨b', hb', hab.trans hbb'⟩

/-! ### The cap test -/

theorem loaded_get_of_mem {row : JournaledProcessSnapshot} (hrow : row ∈ d.processes.rows)
    (hload : row.processId ∈ d.loadedProcessIds (batchReferences batch)) :
    (d.loaded batch).processes.get row.processId = some row := by
  have hget : d.processes.get row.processId = some row := Table.get_of_mem hrow
  rw [loaded_processes_get, hget]
  simp [hload]

/-- If every stored row with a property is loaded, the working rows have no more rows with the
property than the state of the batch. -/
theorem count_workingRows_le (t : ProcessJournalMaterializedState)
    {property : JournaledProcessSnapshot → Bool}
    (hload : ∀ row ∈ d.processes.rows, property row = true →
      row.processId ∈ d.loadedProcessIds (batchReferences batch)) :
    (d.workingRows batch t).count property ≤ t.processes.count property := by
  refine Table.count_le_count fun a ha hp => ?_
  have hget : (d.workingRows batch t).get a.processId = some a := Table.get_of_mem ha
  rw [workingRows, Table.get_overlay] at hget
  cases ht : t.processes.get a.processId with
  | some b =>
      rw [ht, Option.some_or, Option.some.injEq] at hget
      subst hget
      exact ⟨b, Table.mem_of_get ht, rfl, hp⟩
  | none =>
      -- the row was not loaded, although it has the property
      rw [ht, Option.none_or] at hget
      split_ifs at hget with hl
      have hrow : a ∈ d.processes.rows := Table.mem_of_get hget
      rw [loaded_get_of_mem hrow (hload a hrow hp)] at hl
      cases hl

/-- The cap test of a candidate whose quota rows are loaded passes on all rows if it passes on
the rows of the batch. -/
theorem QuotaLoaded.within {candidate : JournaledProcessSnapshot}
    (h : QuotaLoaded limits d batch candidate) {t : ProcessJournalMaterializedState}
    (hcarry : Carries (d.loaded batch).processes t)
    (hlim : t.processClaimWithinLimits candidate.processId limits = true) :
    { t with processes := d.workingRows batch t }.processClaimWithinLimits candidate.processId
      limits = true := by
  obtain ⟨b, hb, hab⟩ := hcarry _ _ (loaded_get_of_mem h.stored h.loaded)
  have hworking : (d.workingRows batch t).get candidate.processId = some b := by
    rw [workingRows, Table.get_overlay, hb, Option.some_or]
  simp only [processClaimWithinLimits, hb, hworking, Bool.and_eq_true] at hlim ⊢
  constructor
  · have howner := hlim.1
    unfold ownerWithinLimits at howner ⊢
    cases hcap : limits.maxRunningPerOwner with
    | none => rfl
    | some cap =>
        cases hown : b.ownerUserId with
        | none => rfl
        | some owner =>
            simp only [hcap, hown, decide_eq_true_eq] at howner ⊢
            refine lt_of_le_of_lt (count_workingRows_le t ?_) howner
            rw [hab.scope]
            exact h.owner cap owner hcap (by rw [← hab.ownerUserId, hown])
  · have hclass := hlim.2
    unfold classWithinLimits at hclass ⊢
    cases hcls : b.concurrencyClass with
    | none => rfl
    | some cls =>
        cases hcap : limits.classCap cls with
        | none => simp [hcap]
        | some cap =>
            simp only [hcls, hcap, decide_eq_true_eq] at hclass ⊢
            refine lt_of_le_of_lt (count_workingRows_le t ?_) hclass
            rw [hab.scope]
            exact h.concurrencyClass cls cap (by rw [← hab.concurrencyClass, hcls]) hcap

/-! ### The batches whose claims load what they count -/

/-- The request of a command that is a claim. -/
def StoredProcessCommand.claimRequest : StoredProcessCommand → Option ClaimProcessesRequest
  | .claim request _ _ _ _ => some request
  | _ => none

/-- The row a command creates; its cursor plays no part here. -/
def StoredProcessCommand.created : StoredProcessCommand → Option JournaledProcessSnapshot
  | .submit request | .submitWithCheckpoint request _ => some (queuedSnapshot request 0)
  | .submitAtEdge request => some (edgeSnapshot request 0)
  | _ => none

/-- The stored rows and those the commands of a batch create. -/
def metRows (d : MaterializedRows) (batch : List StoredProcessCommand) :
    List JournaledProcessSnapshot :=
  d.processes.rows ++ batch.filterMap StoredProcessCommand.created

/-- The filters of a claim select the process, whatever its status. -/
def ClaimProcessesRequest.selects (request : ClaimProcessesRequest)
    (row : JournaledProcessSnapshot) : Bool :=
  request.processIdFilter.all (fun id => row.processId = id) &&
    filtersSelect request.scopeFilter request.processKindFilter row

/-- The owner or the class of the process has a cap. -/
def ProcessConcurrencyLimits.counts (limits : ProcessConcurrencyLimits)
    (row : JournaledProcessSnapshot) : Bool :=
  (limits.maxRunningPerOwner.isSome && row.ownerUserId.isSome) ||
    row.concurrencyClass.any fun concurrencyClass => (limits.classCap concurrencyClass).isSome

/-- A claim of the batch may take the process, and a cap counts it. -/
def contested (limits : ProcessConcurrencyLimits) (batch : List StoredProcessCommand)
    (row : JournaledProcessSnapshot) : Bool :=
  limits.counts row && batch.any fun c => c.claimRequest.any fun request => request.selects row

/-- The command names the process, or looks for it as the holder of an exclusive scope. -/
def StoredProcessCommand.asksFor (c : StoredProcessCommand)
    (row : JournaledProcessSnapshot) : Bool :=
  decide (row.processId ∈ c.loadReferences.processIds) ||
    c.loadReferences.activeConflicts.any fun conflict => holdsActiveLock conflict.1 conflict.2 row

/-- The command is a heartbeat of the process. -/
def StoredProcessCommand.renews (p : ProcessId) : StoredProcessCommand → Bool
  | .heartbeat request _ _ => request.processId = p
  | _ => false

/-- The command can put the process back into the queue: its worker hands it back, or lets it
fail with the wish to be driven again, a control resumes it, or a recovery finds its lease
expired, be it as stored or as a heartbeat of the batch leaves it. -/
def StoredProcessCommand.requeues (batch : List StoredProcessCommand)
    (row : JournaledProcessSnapshot) : StoredProcessCommand → Bool
  | .leasedTransition request mutation =>
    request.processId = row.processId ∧ (mutation.status = .queued ∨
      (mutation.status = .failed ∧ mutation.failureRecovery = .redriveIfCheckpointless))
  | .control mutation => mutation.processId = row.processId ∧ mutation.action = .resume
  | .recoverExpired request _ =>
    filtersSelect request.scopeFilter request.processKindFilter row &&
      (leaseExpired request.now row || batch.any (·.renews row.processId))
  | _ => false

/-- A process that a claim of the batch may take and a cap counts comes before the claims in
their own window only: while Queued, no command of the batch asks for it, and none requeues it. -/
def QueueLeftToClaims (limits : ProcessConcurrencyLimits) (d : MaterializedRows)
    (batch : List StoredProcessCommand) : Prop :=
  ∀ row ∈ metRows d batch, contested limits batch row = true →
    (row.status = .queued → ∀ c ∈ batch, c.asksFor row = false) ∧
      ∀ c ∈ batch, c.requeues batch row = false

instance : Decidable (QueueLeftToClaims limits d batch) :=
  inferInstanceAs (Decidable (∀ row ∈ metRows d batch, _))

namespace SameAccount

variable {a b : JournaledProcessSnapshot}

theorem contested_eq (h : SameAccount a b) :
    contested limits batch b = contested limits batch a := by
  have hselects : ∀ request : ClaimProcessesRequest, request.selects b = request.selects a :=
    fun request => by
      rw [ClaimProcessesRequest.selects, ClaimProcessesRequest.selects, h.processId,
        h.filtersSelect_eq]
  simp only [contested, ProcessConcurrencyLimits.counts, h.ownerUserId, h.concurrencyClass,
    hselects]

end SameAccount

/-- A contested process that the batch has loaded as Queued is in the window of a claim. -/
theorem inWindow_of_queued (hleft : QueueLeftToClaims limits d batch)
    {row : JournaledProcessSnapshot}
    (hload : (d.loaded batch).processes.get row.processId = some row)
    (hqueued : row.status = .queued) (hcontested : contested limits batch row = true) :
    InWindow d batch row.processId := by
  obtain ⟨hstored, hmem⟩ : row ∈ d.processes.rows ∧
      row.processId ∈ d.loadedProcessIds (batchReferences batch) := by
    rw [loaded_processes_get, Option.filter_eq_some_iff] at hload
    exact ⟨Table.mem_of_get hload.1, by simpa using hload.2⟩
  have hasked := (hleft row (List.mem_append_left _ hstored) hcontested).1 hqueued
  have hsame : ∀ found ∈ d.processes.rows, found.processId = row.processId → found = row :=
    fun found hfound hid => d.processes.eq_of_mem_of_key_eq hfound hstored hid
  simp only [loadedProcessIds, queriedRows, List.mem_append, List.mem_map, List.mem_flatMap] at hmem
  rcases hmem with hnamed | ⟨found, (⟨conflict, hconflict, hfound⟩ | ⟨claim, hclaim, hfound⟩) |
    ⟨request, -, hfound⟩, hid⟩
  · -- a command names the process
    obtain ⟨c, hc, hnamed⟩ := (mem_batchReferences LoadReferences.processIds (fun _ _ => rfl)
      (fun _ _ => List.mem_dedup) rfl).mp hnamed
    have := hasked c hc
    simp [StoredProcessCommand.asksFor, hnamed] at this
  · -- an exclusive submission has found it
    obtain ⟨c, hc, hconflict⟩ := (mem_batchReferences LoadReferences.activeConflicts
      (fun _ _ => rfl) (fun _ _ => Iff.rfl) rfl).mp hconflict
    have hrow := of_mem_orderedProcessQuery hfound
    rw [hsame found hrow.1 hid] at hrow
    have := hasked c hc
    simp only [StoredProcessCommand.asksFor, Bool.or_eq_false_iff, List.any_eq_false] at this
    exact absurd hrow.2 (this.2 conflict hconflict)
  · -- a claim has loaded it
    unfold claimRows at hfound
    split_ifs at hfound with hnone
    · cases hfound
    · rcases List.mem_append.mp hfound with hcandidate | hquota
      · exact ⟨claim, hclaim, by simpa using hnone, found, hcandidate, hid⟩
      · obtain ⟨candidate, -, hquota⟩ := List.mem_flatMap.mp hquota
        have hrunning := of_mem_queryRunningQuotaRows hquota
        rw [hsame found hrunning.1 hid, hqueued] at hrunning
        cases hrunning.2
  · -- a recovery loads no Queued process
    have hexpired : found ∈ d.processes.rows ∧ found.status.owned := by
      simp only [queryExpiredProcesses, queryExpiredStatus, List.mem_append] at hfound
      rcases hfound with hfound | hfound
      · have hrow := of_mem_orderedProcessQuery ((List.takeWhile_subset _) hfound)
        simp only [Bool.and_eq_true, decide_eq_true_eq] at hrow
        exact ⟨hrow.1, .inl hrow.2.1.1⟩
      · have hrow := of_mem_orderedProcessQuery ((List.takeWhile_subset _) hfound)
        simp only [Bool.and_eq_true, decide_eq_true_eq] at hrow
        exact ⟨hrow.1, .inr hrow.2.1.1⟩
    rw [hsame found hexpired.1 hid, hqueued] at hexpired
    rcases hexpired.2 with h | h <;> cases h

/-! ### How a contested process comes before a claim -/

/-- What a batch leaves of a row that is in no window: it is not Queued, and it has no lease but
that of the row, unless a heartbeat has moved it. -/
structure Remains (batch : List StoredProcessCommand) (a b : JournaledProcessSnapshot) : Prop where
  account : SameAccount a b
  notQueued : b.status ≠ .queued
  lease : b.lease = none ∨ b.lease = a.lease ∨ batch.any (·.renews b.processId) = true

/-- A contested process is in the window of a claim, or out of the queue. -/
def QueuedInWindow (limits : ProcessConcurrencyLimits) (d : MaterializedRows)
    (batch : List StoredProcessCommand) (row : Option JournaledProcessSnapshot) : Prop :=
  ∀ b, row = some b → contested limits batch b = true →
    InWindow d batch b.processId ∨ ∃ a ∈ metRows d batch, Remains batch a b

/-- A leased transition queues a process if it asks for that, or for a redrive. -/
theorem effectiveMutation_queued {stored : JournaledProcessSnapshot}
    {mutation : ProcessTransitionMutation}
    (h : (effectiveMutation stored mutation).status = .queued) :
    mutation.status = .queued ∨
      (mutation.status = .failed ∧ mutation.failureRecovery = .redriveIfCheckpointless) := by
  unfold effectiveMutation at h
  split_ifs at h with hcancelled hredrive
  · right
    simp only [failureRedrives, decide_eq_true_eq] at hredrive
    exact ⟨hredrive.2.1, hredrive.2.2.1⟩
  · exact .inl h

namespace QueuedInWindow

variable {a b : JournaledProcessSnapshot}

/-- A change of a row that does not queue what was out of the queue. -/
theorem carry (inv : QueuedInWindow limits d batch (some a)) (hab : SameAccount a b)
    (hkeeps : ∀ m ∈ metRows d batch, contested limits batch m = true → Remains batch m a →
      b.status ≠ .queued ∧
        (b.lease = none ∨ b.lease = a.lease ∨ batch.any (·.renews b.processId) = true)) :
    QueuedInWindow limits d batch (some b) := by
  intro b' hb' hcontested
  rw [Option.some.injEq] at hb'
  subst hb'
  rcases inv a rfl (hab.contested_eq ▸ hcontested) with hwindow | ⟨m, hm, hremains⟩
  · exact .inl (hab.processId ▸ hwindow)
  · have hmb := hremains.account.trans hab
    obtain ⟨hstatus, hlease⟩ := hkeeps m hm (hmb.contested_eq ▸ hcontested) hremains
    refine .inr ⟨m, hm, hmb, hstatus, ?_⟩
    rcases hlease with hnone | hsame | hrenewed
    · exact .inl hnone
    · rw [hsame, hab.processId]
      exact hremains.lease
    · exact .inr (.inr hrenewed)

theorem created {c : StoredProcessCommand} (hleft : QueueLeftToClaims limits d batch)
    (hc : c ∈ batch) (hcreated : c.created = some a) (hab : SameAccount a b)
    (hqueued : a.status = .queued) (hnamed : a.processId ∈ c.loadReferences.processIds) :
    QueuedInWindow limits d batch (some b) := by
  intro b' hb' hcontested
  rw [Option.some.injEq] at hb'
  subst hb'
  have ha : a ∈ metRows d batch :=
    List.mem_append_right _ (List.mem_filterMap.mpr ⟨c, hc, hcreated⟩)
  have hasked := (hleft a ha (hab.contested_eq ▸ hcontested)).1 hqueued c hc
  simp [StoredProcessCommand.asksFor, hnamed] at hasked

/-- A lease that has run out had run out before, or a heartbeat has moved it. -/
theorem expired_of_remains {now : Timestamp} (hremains : Remains batch a b)
    (ha : LeaseImpliesOwned (some a)) (h : leaseExpired now b = true) :
    (leaseExpired now a || batch.any (·.renews a.processId)) = true := by
  rw [Bool.or_eq_true, ← hremains.account.processId]
  simp only [leaseExpired, Bool.and_eq_true] at h ⊢
  rcases hremains.lease with hnone | hsame | hrenewed
  · rw [hnone] at h
    cases h.2
  · left
    rw [hsame] at h
    have hsome : a.lease.isSome := by
      cases hl : a.lease with
      | some lease => rfl
      | none =>
        rw [hl] at h
        cases h.2
    have howned := ha a rfl hsome
    exact ⟨by simpa [ProcessLifecycleStatus.owned] using howned, h.2⟩
  · exact .inr hrenewed

/-- A command of the batch queues no contested process outside the windows. -/
theorem step {s : ProcessJournalMaterializedState} {p : ProcessId} {c : StoredProcessCommand}
    {before after : Option JournaledProcessSnapshot}
    (hleft : QueueLeftToClaims limits d batch)
    (hlease : ∀ a ∈ metRows d batch, LeaseImpliesOwned (some a)) (hc : c ∈ batch)
    (hkey : ∀ a, before = some a → a.processId = p) (h : ProcessStep s p c before after)
    (inv : QueuedInWindow limits d batch before) : QueuedInWindow limits d batch after := by
  -- what the command queues again is not contested
  have hrequeued : ∀ m ∈ metRows d batch, contested limits batch m = true →
      c.requeues batch m = false := fun m hm hcontested => (hleft m hm hcontested).2 c hc
  cases h with
  | unchanged => exact inv
  | @submitted request =>
    exact created hleft hc (a := queuedSnapshot request 0) rfl ⟨rfl, rfl, rfl, rfl, rfl⟩ rfl
      (by simp [StoredProcessCommand.loadReferences, SubmitProcessRequest.loadReferences])
  | @submittedWithCheckpoint request checkpoint cursor snapshot _ _ _ link =>
    have hab : SameAccount (queuedSnapshot request 0) snapshot := by
      rcases link with rfl | ⟨-, rfl⟩ <;> exact ⟨rfl, rfl, rfl, rfl, rfl⟩
    exact created hleft hc rfl hab rfl
      (by simp [StoredProcessCommand.loadReferences, SubmitProcessRequest.loadReferences])
  | @submittedAtEdge request =>
    intro b hb _
    rw [Option.some.injEq] at hb
    subst hb
    refine .inr ⟨edgeSnapshot request 0, ?_, ⟨rfl, rfl, rfl, rfl, rfl⟩, ?_, .inl rfl⟩
    · exact List.mem_append_right _ (List.mem_filterMap.mpr ⟨_, hc, rfl⟩)
    · cases hedge : request.edge <;> simp [edgeSnapshot, hedge, ProcessSubmissionEdge.status]
  | claimed candidate =>
    refine inv.carry ⟨rfl, rfl, rfl, rfl, rfl⟩ fun m _ _ hremains => ?_
    simp only [claimable, Bool.and_eq_true, decide_eq_true_eq] at candidate
    exact absurd candidate.1.1 hremains.notQueued
  | renewed process =>
    refine inv.carry ⟨rfl, rfl, rfl, rfl, rfl⟩ fun m _ _ hremains =>
      ⟨hremains.notQueued, .inr (.inr (List.any_eq_true.mpr ⟨_, hc, ?_⟩))⟩
    simpa [StoredProcessCommand.renews, process] using (hkey _ rfl).symm
  | @recovered request millis stored cursor expired grace selected =>
    refine inv.carry ⟨rfl, rfl, rfl, rfl, rfl⟩ fun m hm hcontested hremains => ⟨?_, .inl rfl⟩
    have hnot := hrequeued m hm hcontested
    simp only [StoredProcessCommand.requeues, expired_of_remains hremains (hlease m hm) expired,
      ← hremains.account.filtersSelect_eq, selected, Bool.and_self] at hnot
    cases hnot
  | @transitioned request mutation stored cursor process =>
    refine inv.carry (transitionedSnapshot_sameAccount stored mutation cursor)
      fun m hm hcontested hremains => ⟨fun hqueued => ?_, ?_⟩
    · have hnot := hrequeued m hm hcontested
      have hid : request.processId = m.processId := by
        rw [process, ← hkey _ rfl, hremains.account.processId]
      rcases effectiveMutation_queued hqueued with hstatus | ⟨hstatus, hrecovery⟩
      · simp [StoredProcessCommand.requeues, hid, hstatus] at hnot
      · simp [StoredProcessCommand.requeues, hid, hstatus, hrecovery] at hnot
    · simp only [transitionedSnapshot]
      split_ifs
      · exact .inr (.inl rfl)
      · exact .inl rfl
  | @controlled mutation stored status kind cursor process _ _ _ transition =>
    refine inv.carry (controlledSnapshot_sameAccount stored mutation status cursor)
      fun m hm hcontested hremains => ⟨fun hqueued => ?_, ?_⟩
    · have hnot := hrequeued m hm hcontested
      have hid : mutation.processId = m.processId := by
        rw [process, ← hkey _ rfl, hremains.account.processId]
      have hstatus : status = .queued := hqueued
      rcases controlTransition_ok transition with ⟨haction, -⟩ | ⟨-, hother⟩
      · simp [StoredProcessCommand.requeues, hid, haction] at hnot
      · rw [hstatus] at hother
        simp at hother
    · simp only [controlledSnapshot]
      split_ifs
      · exact .inr (.inl rfl)
      · exact .inl rfl
  | linked =>
    exact inv.carry ⟨rfl, rfl, rfl, rfl, rfl⟩ fun m _ _ hremains =>
      ⟨hremains.notQueued, .inr (.inl rfl)⟩

end QueuedInWindow

theorem batchSteps_queuedInWindow (hleft : QueueLeftToClaims limits d batch)
    (hpublic : ∀ c ∈ batch, c.isImport = false)
    (hlease : ∀ a ∈ metRows d batch, LeaseImpliesOwned (some a)) :
    ∀ x ∈ d.batchSteps batch, ∀ p, QueuedInWindow limits d batch (x.1.processes.get p) := by
  refine batchSteps_invariant
    (I := fun t => ∀ p, QueuedInWindow limits d batch (t.processes.get p)) ?_ ?_
  · intro p b hb hcontested
    rw [started_processes] at hb
    have hid : b.processId = p := Table.key_of_get hb
    subst hid
    by_cases hqueued : b.status = .queued
    · exact .inl (inWindow_of_queued hleft hb hqueued hcontested)
    · refine .inr ⟨b, List.mem_append_left _ ?_, .refl b, hqueued, .inr (.inl rfl)⟩
      rw [loaded_processes_get, Option.filter_eq_some_iff] at hb
      exact Table.mem_of_get hb.1
  · intro t c o t' hc happ h p
    have hstep := advance_processStep t (StoredProcessCommand.spares_of_not_import (hpublic c hc) p)
    rw [advance_of_ok happ] at hstep
    exact (h p).step hleft hlease hc (fun a ha => Table.key_of_get ha) hstep

theorem leaseImpliesOwned_of_created {c : StoredProcessCommand} {a : JournaledProcessSnapshot}
    (h : c.created = some a) : LeaseImpliesOwned (some a) := by
  intro b hb hsome
  rw [Option.some.injEq] at hb
  subst hb
  have hnone : a.lease = none := by
    cases c <;> cases h <;> rfl
  rw [hnone] at hsome
  cases hsome

/-! ### The caps over whole runs -/

/-- A candidate that no cap counts passes the cap test. -/
theorem within_of_uncounted {s : ProcessJournalMaterializedState} {p : ProcessId}
    {b : JournaledProcessSnapshot} (hget : s.processes.get p = some b)
    (hcounts : limits.counts b = false) : s.processClaimWithinLimits p limits = true := by
  simp only [ProcessConcurrencyLimits.counts, Bool.or_eq_false_iff, Bool.and_eq_false_iff,
    Option.isSome_eq_false_iff, Option.isNone_iff_eq_none] at hcounts
  simp only [processClaimWithinLimits, hget, Bool.and_eq_true]
  constructor
  · unfold ownerWithinLimits
    rcases hcounts.1 with h | h
    · rw [h]
    · rw [h]
      cases limits.maxRunningPerOwner <;> rfl
  · unfold classWithinLimits
    cases hclass : b.concurrencyClass with
    | none => rfl
    | some concurrencyClass =>
      have hcap : limits.classCap concurrencyClass = none := by simpa [hclass] using hcounts.2
      simp [hcap]

/-- A batch that leaves the queue to its claims is sound. -/
theorem admissionsSound_of_queueLeft (hcaps : WithinCaps limits d.processes)
    (hpage : limits.FitPage) (hrow : ∀ p, LeaseImpliesOwned (d.processes.get p))
    (hpublic : ∀ c ∈ batch, c.isImport = false) (hlimits : ∀ c ∈ batch, c.ClaimsUnder limits)
    (hleft : QueueLeftToClaims limits d batch) : AdmissionsSound d batch := by
  have hlease : ∀ a ∈ metRows d batch, LeaseImpliesOwned (some a) := by
    intro a ha
    rcases List.mem_append.mp ha with ha | ha
    · have hget : d.processes.get a.processId = some a := Table.get_of_mem ha
      exact hget ▸ hrow a.processId
    · obtain ⟨c, -, hcreated⟩ := List.mem_filterMap.mp ha
      exact leaseImpliesOwned_of_created hcreated
  rintro ⟨t, c⟩ hstep
  cases c with
  | claim request now millis nonce used =>
    have hmem := command_mem_of_batchSteps hstep
    have hused : used = limits := hlimits _ hmem
    subst hused
    intro i reached p _ hlim
    obtain ⟨b, hb, hclaimable⟩ := mem_claimableProcessIds.mp (List.get_mem _ i)
    obtain ⟨b', hb', hbb'⟩ : ∃ b', reached.2.processes.get p = some b' ∧ SameAccount b b' :=
      Carries.claimLoop (fun _ a ha => ⟨a, ha, .refl a⟩) request now millis nonce used _ [] _ b hb
    cases hcounts : used.counts b' with
    | false =>
      refine within_of_uncounted (b := b') ?_ hcounts
      rw [workingRows, Table.get_overlay, hb', Option.some_or]
    | true =>
      simp only [claimable, Bool.and_eq_true, decide_eq_true_eq] at hclaimable
      have hcontested : contested used batch b = true := by
        have hcounted : used.counts b = true := by
          simpa [ProcessConcurrencyLimits.counts, hbb'.ownerUserId, hbb'.concurrencyClass]
            using hcounts
        rw [contested, hcounted, Bool.true_and, List.any_eq_true]
        exact ⟨_, hmem, by simp [StoredProcessCommand.claimRequest, ClaimProcessesRequest.selects,
          hclaimable.1.2, hclaimable.2]⟩
      have hin : InWindow d batch p := by
        rcases batchSteps_queuedInWindow hleft hpublic hlease _ hstep p b hb hcontested with h | ⟨m, _, h⟩
        · rwa [Table.key_of_get hb] at h
        · exact absurd hclaimable.1.1 h.notQueued
      obtain ⟨candidate, hp, hquota⟩ := hin.quotaLoaded hcaps hpage hlimits
      have hcarry := (batchSteps_carries hpublic _ hstep).claimLoop request now millis nonce used
        ((t.claimableProcessIds request).take i) []
      rw [← hp] at hlim ⊢
      exact hquota.within hcarry hlim
  | _ => trivial

/-- **Concurrency caps.**  In every run whose claims use the same limits, with caps that fit one
page, and whose batches leave the queue to their claims, no owner and no class ever has more
Running processes than its cap. -/
theorem caps_hold_durably {history : List StoreStep} (run : StoreRun history d)
    (hpage : limits.FitPage) (hpublic : ∀ x ∈ history, ∀ c ∈ x.command, c.isImport = false)
    (hlimits : ∀ x ∈ history, ∀ c ∈ x.command, c.ClaimsUnder limits)
    (hleft : ∀ x ∈ history, QueueLeftToClaims limits x.pre x.command) :
    WithinCaps limits d.processes := by
  induction run with
  | nil => exact .empty
  | @snoc history d d₀ batch hrun hsame ih =>
    subst hsame
    simp only [List.forall_mem_append, List.forall_mem_singleton] at hpublic hlimits hleft
    have hcaps := ih hpublic.1 hlimits.1 hleft.1
    have hrow := store_row_invariant (I := LeaseImpliesOwned) (by simp [LeaseImpliesOwned])
      (fun _ _ _ _ _ h => .step h) hrun hpublic.1
    exact hcaps.batch hrow hpublic.2 hlimits.2
      (admissionsSound_of_queueLeft hcaps hpage hrow hpublic.2 hlimits.2 hleft.2)

namespace Sample

/-- One Running process for each owner. -/
def onePerOwner : ProcessConcurrencyLimits := ⟨some 1, []⟩

/-- Claim one process, of all or by name, under `onePerOwner`. -/
def cappedClaim (nonce : ℕ) (processIdFilter : Option ProcessId) : StoredProcessCommand :=
  .claim ⟨workerId, none, processIdFilter, none, 1⟩ 0 1000 (processId nonce) onePerOwner

/-- Two processes of one owner, and a claim of either. -/
def twoSubmittedOneClaimed : List (List StoredProcessCommand) :=
  [[.submit (submission 1), .submit (submission 2)], [cappedClaim 8 none]]

/-- A second claim, beside a heartbeat of the process the first one took. -/
def secondClaim : List (List StoredProcessCommand) :=
  twoSubmittedOneClaimed ++ [[.heartbeat (lease 1 8) 10 1000, cappedClaim 9 none]]

end Sample

open Sample

/-- The second claim takes nothing: the second process stays Queued. -/
theorem caps_hold_after_two_claims :
    (∀ x ∈ Run.trace commitPending .empty secondClaim,
      QueueLeftToClaims onePerOwner x.pre x.command) ∧
    (((secondClaim.foldl (advance commitPending) .empty).processes.get (processId 2)).map
      (·.status)) = some .queued ∧
    WithinCaps onePerOwner (secondClaim.foldl (advance commitPending) .empty).processes := by
  have hleft : ∀ x ∈ Run.trace commitPending .empty secondClaim,
      QueueLeftToClaims onePerOwner x.pre x.command := by
    decide +kernel
  have hpage : onePerOwner.FitPage := by
    constructor <;> simp [onePerOwner, ProcessConcurrencyLimits.classCap, pageMaxLimit]
  refine ⟨hleft, by decide +kernel,
    caps_hold_durably (StoreRun.of_batches secondClaim) hpage ?_ ?_ hleft⟩
  · exact Run.trace_forall
      (A := fun batch : List StoredProcessCommand => ∀ c ∈ batch, c.isImport = false) _ _ (by
        simp [secondClaim, twoSubmittedOneClaimed, cappedClaim, StoredProcessCommand.isImport])
  · exact Run.trace_forall
      (A := fun batch : List StoredProcessCommand => ∀ c ∈ batch, c.ClaimsUnder onePerOwner) _ _ (by
        simp [secondClaim, twoSubmittedOneClaimed, cappedClaim, StoredProcessCommand.ClaimsUnder])

/-- A claim that names its process loads no Running row of the owner, so that the owner's
second process is claimed although the cap is one. -/
theorem caps_exceeded_by_named_claim : ∃ history d, StoreRun history d ∧
    (∀ x ∈ history, ∀ c ∈ x.command, c.isImport = false ∧ c.ClaimsUnder onePerOwner) ∧
    ¬ WithinCaps onePerOwner d.processes := by
  let batches := twoSubmittedOneClaimed ++ [[cappedClaim 9 (some (processId 2))]]
  refine ⟨_, _, StoreRun.of_batches batches, ?_, ?_⟩
  · exact Run.trace_forall (A := fun batch : List StoredProcessCommand =>
      ∀ c ∈ batch, c.isImport = false ∧ c.ClaimsUnder onePerOwner) _ _ (by
        simp [batches, twoSubmittedOneClaimed, cappedClaim, StoredProcessCommand.isImport,
          StoredProcessCommand.ClaimsUnder])
  · intro h
    have hcount := h.owner 1 rfl scope.tenantId ⟨"user"⟩
    revert hcount
    decide +kernel

end Ironclaw.Processes
