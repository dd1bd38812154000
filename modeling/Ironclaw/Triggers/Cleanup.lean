import Ironclaw.Triggers.Release

/-! # The sweep over active fires

`ironclaw_triggers/src/worker/active_cleanup.rs`. A tick begins with a page of active fires after
the scan cursor. A first loop recovers the fires that have no run (`claimOnlyLoop`), a second one
looks at the runs of the others (`runningLoop`), and the cursor is moved to where the loops got.

The second loop stops moving the cursor at the first lookup that fails, so that the fire is looked at
again. The first loop has passed it by then: where a fire without a run comes after it in the page
and no lookup before it succeeded, the cursor ends behind the fire whose lookup failed
(`claim_only_fire_hides_failed_lookup`). -/

namespace Ironclaw.Triggers

namespace ActiveTriggerScanCursor

def fromActiveRecord (record : TriggerRecord) : Option ActiveTriggerScanCursor :=
  record.activeFireSlot.map fun slot => ⟨slot, record.tenantId, record.triggerId⟩

def position (cursor : ActiveTriggerScanCursor) : Timestamp ×ₗ String ×ₗ ℕ :=
  scanOrder cursor.activeFireSlot cursor.tenantId cursor.triggerId

end ActiveTriggerScanCursor

namespace TriggerPollerWorkerDeps

variable {σ : Type} (deps : TriggerPollerWorkerDeps σ) (config : TriggerPollerWorkerConfig)

/-- A fire without a run is processed again, once it is old enough and its history row is still
running. -/
def recoverStaleClaimOnlyFire (record : TriggerRecord) (fireSlot now : Timestamp) (st : σ) :
    Except TriggerError (Option TriggerPollerFireOutcome) × σ :=
  match deps.repository (.listTriggerRunHistory record.key 2) st with
  | (.error error, st) => (.error error, st)
  | (.ok reply, st) =>
    match reply.toRuns.find? fun run =>
        run.fireSlot = fireSlot ∧ run.status = .running ∧ run.completedAt = none with
    | none => (.ok none, st)
    | some run =>
      -- the age of a claim that lies ahead of `now` is not a duration
      if now - run.submittedAt < 0 ∨ now - run.submittedAt < config.claimOnlyRecoveryGrace then
        (.ok none, st)
      else
        let (outcome, st) := deps.processClaimedFire record fireSlot now run.source st
        (outcome.map some, st)

/-- The report of a fire without a run. -/
def claimOnlyOutcome (fireSlot : Timestamp) :
    Except TriggerError (Option TriggerPollerFireOutcome) → TriggerPollerFireOutcome
  | .ok (some outcome) => outcome
  | .ok none => .skippedAlreadyActive fireSlot none
  | .error error => .dueFireFailed (classifyFailure error).reason

structure ActiveLookupItem where
  record : TriggerRecord
  fireSlot : Timestamp
  recordCursor : ActiveTriggerScanCursor
  runId : TurnRunId

/-- What the two loops carry. -/
structure Sweep (σ : Type) where
  st : σ
  results : List TriggerPollerFireReport
  nextCursor : Option ActiveTriggerScanCursor
  firstUnadvancedCursor : Option ActiveTriggerScanCursor

/-- The cursor moves on to a record unless it has to wait at an earlier one. -/
def Sweep.advanceTo (sweep : Sweep σ) (cursor : ActiveTriggerScanCursor) : Sweep σ :=
  { sweep with
    nextCursor := if sweep.firstUnadvancedCursor = none then some cursor else sweep.nextCursor }

def Sweep.push (sweep : Sweep σ) (record : TriggerRecord) (fireSlot : Timestamp)
    (outcome : TriggerPollerFireOutcome) : Sweep σ :=
  { sweep with
    results := sweep.results ++ [⟨record.key, fireSlot, outcome⟩] }

/-- The first loop: fires without a run are recovered, the others are collected for the lookup. The
index of a result is the position of its item. -/
def claimOnlyLoop (now : Timestamp) :
    List TriggerRecord → Sweep σ → List ActiveLookupItem × Sweep σ
  | [], sweep => ([], sweep)
  | record :: records, sweep =>
    match record.activeFireSlot, ActiveTriggerScanCursor.fromActiveRecord record with
    | some fireSlot, some recordCursor =>
      match record.activeRunRef with
      | none =>
        let (recovered, st) := deps.recoverStaleClaimOnlyFire config record fireSlot now sweep.st
        claimOnlyLoop now records
          (({ sweep with st := st }.push record fireSlot
            (claimOnlyOutcome fireSlot recovered)).advanceTo recordCursor)
      | some runId =>
        let (items, sweep) := claimOnlyLoop now records sweep
        (⟨record, fireSlot, recordCursor, runId⟩ :: items, sweep)
    | _, _ => claimOnlyLoop now records sweep

def ActiveLookupItem.request (item : ActiveLookupItem) : TriggerActiveRunStateRequest :=
  ⟨item.record.key, item.fireSlot, item.runId⟩

/-- The results of the lookup by position; a missing one is an error. -/
def resultAt (results : List (Except TriggerError TriggerActiveRunState)) (index : ℕ) :
    Except TriggerError TriggerActiveRunState :=
  (results[index]?).getD (.error (.backend "active run lookup returned too few results"))

/-- One round of the second loop. -/
def lookupItem (item : ActiveLookupItem) (state : Except TriggerError TriggerActiveRunState)
    (sweep : Sweep σ) : Except TriggerError Unit × Sweep σ :=
  match state with
  | .error _ =>
    let sweep := sweep.push item.record item.fireSlot
      (.activeRunLookupFailed item.runId .activeRunLookup)
    (.ok (), { sweep with
      firstUnadvancedCursor := sweep.firstUnadvancedCursor.or (some item.recordCursor) })
  | .ok (.terminal status) =>
    match deps.repository (.clearActiveFire ⟨item.record.key, item.fireSlot, item.runId, status⟩)
        sweep.st with
    | (.error error, st) => (.error error, { sweep with st := st })
    | (.ok reply, st) =>
      let outcome := if reply.toRecord.isSome = true then .clearedTerminalActive item.runId
        else .skippedAlreadyCleared item.runId
      (.ok (), ({ sweep with st := st }.push item.record item.fireSlot outcome).advanceTo
        item.recordCursor)
  | .ok (.blocked _) | .ok .missing | .ok .nonterminal =>
    (.ok (), (sweep.push item.record item.fireSlot
      (.skippedAlreadyActive item.fireSlot item.record.activeRunRef)).advanceTo item.recordCursor)

/-- The second loop, which an error of the repository ends. -/
def runningLoop : List (ActiveLookupItem × Except TriggerError TriggerActiveRunState) → Sweep σ →
    Except TriggerError Unit × Sweep σ
  | [], sweep => (.ok (), sweep)
  | (item, state) :: items, sweep =>
    match deps.lookupItem item state sweep with
    | (.error error, sweep) => (.error error, sweep)
    | (.ok (), sweep) => runningLoop items sweep

/-- The page after the cursor, or from the start where there is none. -/
def listActiveCleanupPage (cursor : Option ActiveTriggerScanCursor) (st : σ) :
    Except TriggerError (Option ActiveTriggerScanCursor × List TriggerRecord) × σ :=
  match deps.repository (.listActiveTriggersAfter cursor config.firesPerTick) st with
  | (.error error, st) => (.error error, st)
  | (.ok reply, st) =>
    if reply.toRecords = [] ∧ cursor.isSome = true then
      match deps.repository (.listActiveTriggersAfter none config.firesPerTick) st with
      | (.error error, st) => (.error error, st)
      | (.ok reply, st) => (.ok (none, reply.toRecords), st)
    else (.ok (cursor, reply.toRecords), st)

/-- The stored cursor, what the sweep reported and whether it got to its end. -/
structure CleanupTick (σ : Type) where
  result : Except TriggerError Unit
  activeScanCursor : Option ActiveTriggerScanCursor
  report : TriggerPollerTickReport
  st : σ

/-- The loops over a page. -/
def sweepPage (now : Timestamp) (cursor : Option ActiveTriggerScanCursor)
    (activeRecords : List TriggerRecord) (results : List TriggerPollerFireReport) (st : σ) :
    Except TriggerError Unit × Sweep σ :=
  let (items, sweep) := deps.claimOnlyLoop config now activeRecords ⟨st, results, cursor, none⟩
  let lookupResults := deps.activeRunStates (items.map ActiveLookupItem.request)
  deps.runningLoop (items.mapIdx fun index item => (item, resultAt lookupResults index)) sweep

def clearTerminalActiveFires (stored : Option ActiveTriggerScanCursor)
    (report : TriggerPollerTickReport) (st : σ) : CleanupTick σ :=
  match deps.listActiveCleanupPage config stored st with
  | (.error error, st) => ⟨.error error, stored, report, st⟩
  | (.ok (cursor, activeRecords), st) =>
    let (result, sweep) := deps.sweepPage config report.now cursor activeRecords report.results st
    let report :=
      { report with
        activeRecords := activeRecords.length
        results := sweep.results }
    match result with
    | .error error => ⟨.error error, stored, report, sweep.st⟩
    | .ok () => ⟨.ok (), sweep.nextCursor, report, sweep.st⟩

/-! ### What the loops do to the cursor -/

def lookupItemOf (record : TriggerRecord) : Option ActiveLookupItem :=
  record.activeFireSlot.bind fun slot => record.activeRunRef.map fun runId =>
    ⟨record, slot, ⟨slot, record.tenantId, record.triggerId⟩, runId⟩

/-- The last fire of a page that has no run. -/
def lastClaimOnly : List TriggerRecord → Option ActiveTriggerScanCursor
  | [] => none
  | record :: records => (lastClaimOnly records).or
      (if record.activeRunRef = none then ActiveTriggerScanCursor.fromActiveRecord record else none)

/-- The last of the lookups before the first that failed. -/
def lastLookedUp : List (ActiveLookupItem × Except TriggerError TriggerActiveRunState) →
    Option ActiveTriggerScanCursor
  | (item, .ok _) :: items => (lastLookedUp items).or (some item.recordCursor)
  | _ => none

def Examined (results : List TriggerPollerFireReport) (record : TriggerRecord) : Prop :=
  ∃ report ∈ results, report.trigger = record.key ∧ record.activeFireSlot = some report.fireSlot

theorem Examined.mono {results results' : List TriggerPollerFireReport} {record : TriggerRecord}
    (h : Examined results record) (hsub : results ⊆ results') : Examined results' record := by
  obtain ⟨report, hmem, hreport⟩ := h
  exact ⟨report, hsub hmem, hreport⟩

theorem examined_push {sweep : Sweep σ} {record : TriggerRecord} {fireSlot : Timestamp}
    (hslot : record.activeFireSlot = some fireSlot) (outcome : TriggerPollerFireOutcome) :
    Examined (sweep.push record fireSlot outcome).results record :=
  ⟨⟨record.key, fireSlot, outcome⟩, List.mem_append_right _ List.mem_cons_self, rfl, hslot⟩

/-- What the first loop leaves. -/
structure ClaimOnlyDone (records : List TriggerRecord) (sweep : Sweep σ)
    (done : List ActiveLookupItem × Sweep σ) : Prop where
  items : done.1 = records.filterMap lookupItemOf
  waits : done.2.firstUnadvancedCursor = none
  cursor : done.2.nextCursor = (lastClaimOnly records).or sweep.nextCursor
  results : sweep.results ⊆ done.2.results
  examined : ∀ record ∈ records, record.activeRunRef = none → Examined done.2.results record

theorem claimOnlyLoop_done (now : Timestamp) {records : List TriggerRecord} {sweep : Sweep σ}
    (hactive : ∀ record ∈ records, record.activeFireSlot.isSome = true)
    (hwaits : sweep.firstUnadvancedCursor = none) :
    ClaimOnlyDone records sweep (deps.claimOnlyLoop config now records sweep) := by
  induction records generalizing sweep with
  | nil => exact ⟨rfl, hwaits, rfl, List.Subset.refl _, fun _ h => absurd h List.not_mem_nil⟩
  | cons record records ih =>
    obtain ⟨slot, hslot⟩ := Option.isSome_iff_exists.1 (hactive record List.mem_cons_self)
    have hrest := fun r hr => hactive r (List.mem_cons_of_mem _ hr)
    have hcursor : ActiveTriggerScanCursor.fromActiveRecord record =
        some ⟨slot, record.tenantId, record.triggerId⟩ := by
      simp [ActiveTriggerScanCursor.fromActiveRecord, hslot]
    cases hrun : record.activeRunRef with
    | some runId =>
      have h := ih hrest hwaits
      simp only [claimOnlyLoop, hslot, hcursor, hrun]
      refine ⟨?_, h.waits, ?_, h.results, ?_⟩
      · simp [lookupItemOf, hslot, hrun, h.items]
      · simp [lastClaimOnly, hrun, h.cursor]
      · intro r hr hnone
        rcases List.mem_cons.1 hr with rfl | hr
        · exact absurd (hrun.symm.trans hnone) (Option.some_ne_none _)
        · exact h.examined r hr hnone
    | none =>
      let recovered := deps.recoverStaleClaimOnlyFire config record slot now sweep.st
      let pushed : Sweep σ := { sweep with st := recovered.2 }.push record slot
        (claimOnlyOutcome slot recovered.1)
      let moved := pushed.advanceTo ⟨slot, record.tenantId, record.triggerId⟩
      have h : ClaimOnlyDone records moved (deps.claimOnlyLoop config now records moved) :=
        ih hrest hwaits
      have hpushed : pushed.results ⊆ _ := h.results
      simp only [claimOnlyLoop, hslot, hcursor, hrun]
      refine ⟨?_, h.waits, ?_, ?_, ?_⟩
      · refine h.items.trans ?_
        simp [lookupItemOf, hslot, hrun]
      · refine h.cursor.trans ?_
        simp [moved, lastClaimOnly, hrun, hcursor, Sweep.advanceTo, pushed, Sweep.push, hwaits]
      · exact List.Subset.trans (List.subset_append_left _ _) hpushed
      · intro r hr hnone
        rcases List.mem_cons.1 hr with rfl | hr
        · exact (examined_push hslot _).mono hpushed
        · exact h.examined r hr hnone

/-- The items of a page with their results. -/
def lookups (page : List TriggerRecord) :
    List (ActiveLookupItem × Except TriggerError TriggerActiveRunState) :=
  let items := page.filterMap lookupItemOf
  items.mapIdx fun index item =>
    (item, resultAt (deps.activeRunStates (items.map ActiveLookupItem.request)) index)

def LookupFailed (page : List TriggerRecord) (record : TriggerRecord) : Prop :=
  ∃ lookup ∈ deps.lookups page, lookup.1.record = record ∧ ∃ error, lookup.2 = .error error

/-- What the second loop leaves when it gets to its end. -/
structure RunningDone (items : List (ActiveLookupItem × Except TriggerError TriggerActiveRunState))
    (sweep done : Sweep σ) : Prop where
  cursor : done.nextCursor = if sweep.firstUnadvancedCursor = none then
    (lastLookedUp items).or sweep.nextCursor else sweep.nextCursor
  results : sweep.results ⊆ done.results
  examined : ∀ lookup ∈ items, lookup.1.record.activeFireSlot = some lookup.1.fireSlot →
    Examined done.results lookup.1.record

/-- A round of the second loop reports its item; it moves the cursor unless the lookup failed. -/
theorem lookupItem_done {item : ActiveLookupItem}
    {state : Except TriggerError TriggerActiveRunState} {sweep done : Sweep σ}
    (h : deps.lookupItem item state sweep = (.ok (), done)) :
    sweep.results ⊆ done.results ∧
      (item.record.activeFireSlot = some item.fireSlot → Examined done.results item.record) ∧
      ((∃ error, state = .error error) → done.nextCursor = sweep.nextCursor ∧
        done.firstUnadvancedCursor ≠ none) ∧
      ((∃ run, state = .ok run) → done.nextCursor = (sweep.advanceTo item.recordCursor).nextCursor ∧
        done.firstUnadvancedCursor = sweep.firstUnadvancedCursor) := by
  have hpush : ∀ outcome, sweep.results ⊆ (sweep.push item.record item.fireSlot outcome).results :=
    fun _ => List.subset_append_left _ _
  cases state with
  | error error =>
    simp only [lookupItem, Prod.mk.injEq, true_and] at h
    subst h
    refine ⟨hpush _, fun hslot => examined_push hslot _, fun _ => ⟨rfl, ?_⟩, by simp⟩
    cases hfirst : sweep.firstUnadvancedCursor <;> simp [Sweep.push, hfirst]
  | ok run =>
    cases run with
    | terminal status =>
      simp only [lookupItem] at h
      split at h
      · simp at h
      · simp only [Prod.mk.injEq, true_and] at h
        subst h
        exact ⟨hpush _, fun hslot => examined_push hslot _, by simp, fun _ => ⟨rfl, rfl⟩⟩
    | blocked kind =>
      simp only [lookupItem, Prod.mk.injEq, true_and] at h
      subst h
      exact ⟨hpush _, fun hslot => examined_push hslot _, by simp, fun _ => ⟨rfl, rfl⟩⟩
    | missing =>
      simp only [lookupItem, Prod.mk.injEq, true_and] at h
      subst h
      exact ⟨hpush _, fun hslot => examined_push hslot _, by simp, fun _ => ⟨rfl, rfl⟩⟩
    | nonterminal =>
      simp only [lookupItem, Prod.mk.injEq, true_and] at h
      subst h
      exact ⟨hpush _, fun hslot => examined_push hslot _, by simp, fun _ => ⟨rfl, rfl⟩⟩

theorem runningLoop_done
    {items : List (ActiveLookupItem × Except TriggerError TriggerActiveRunState)}
    {sweep done : Sweep σ} (h : deps.runningLoop items sweep = (.ok (), done)) :
    RunningDone items sweep done := by
  induction items generalizing sweep with
  | nil =>
    cases h
    exact ⟨by simp [lastLookedUp], List.Subset.refl _, fun _ h => absurd h List.not_mem_nil⟩
  | cons lookup items ih =>
    obtain ⟨item, state⟩ := lookup
    simp only [runningLoop] at h
    split at h
    · simp at h
    · rename_i next hround
      obtain ⟨hresults, hexamined, hfailed, hfound⟩ := deps.lookupItem_done hround
      have hrest := ih h
      refine ⟨?_, List.Subset.trans hresults hrest.results, ?_⟩
      · rw [hrest.cursor]
        cases state with
        | error error =>
          obtain ⟨hcursor, hwaits⟩ := hfailed ⟨error, rfl⟩
          rw [if_neg hwaits, hcursor]
          simp [lastLookedUp]
        | ok run =>
          obtain ⟨hcursor, hwaits⟩ := hfound ⟨run, rfl⟩
          rw [hwaits, hcursor]
          by_cases hfirst : sweep.firstUnadvancedCursor = none
          · simp [lastLookedUp, Sweep.advanceTo, hfirst]
          · simp [Sweep.advanceTo, hfirst]
      · intro lookup hlookup hslot
        rcases List.mem_cons.1 hlookup with rfl | hlookup
        · exact (hexamined hslot).mono hrest.results
        · exact hrest.examined lookup hlookup hslot

end TriggerPollerWorkerDeps

/-! ### The order of a page -/

namespace LibSql

theorem key_eq_of_activeOrder_eq {a b : TriggerRecord} (h : activeOrder a = activeOrder b) :
    a.key = b.key := by
  have hpair := toLex.injective h
  rw [Prod.mk.injEq] at hpair
  have hids := toLex.injective hpair.2
  rw [Prod.mk.injEq] at hids
  obtain ⟨htenant, htrigger⟩ := hids
  have htenantId : a.tenantId = b.tenantId := by
    cases ha : a.tenantId
    cases hb : b.tenantId
    simpa [ha, hb] using htenant
  have htriggerId : a.triggerId = b.triggerId := by
    cases ha : a.triggerId
    cases hb : b.triggerId
    rw [ha, hb] at htrigger
    exact congrArg TriggerId.mk (BitVec.eq_of_toNat_eq htrigger)
  rw [TriggerRecord.key, TriggerRecord.key, htenantId, htriggerId]

/-- A page of active fires in the order of the scan, after a cursor. -/
structure ActivePage (after : Option ActiveTriggerScanCursor) (page : List TriggerRecord) : Prop where
  sorted : page.Pairwise fun a b => activeOrder a < activeOrder b
  active : ∀ record ∈ page, record.activeFireSlot.isSome = true
  later : ∀ record ∈ page, ∀ cursor ∈ after, cursor.position < activeOrder record

theorem activePage_of_listActiveTriggersAfter {crates : CronCrates} {wall : Timestamp} {s : Store}
    {after : Option ActiveTriggerScanCursor} {limit : ℕ} {page : List TriggerRecord}
    (h : listActiveTriggersAfter crates wall s after limit = .ok page) : ActivePage after page := by
  unfold listActiveTriggersAfter at h
  split_ifs at h
  · rw [← Except.ok.inj h]
    exact ⟨List.Pairwise.nil, by simp, by simp⟩
  · obtain ⟨rows, hrows⟩ : ∃ rows, rows = s.records.rows.filter fun row =>
        row.activeFireSlot.isSome = true ∧ ∀ cursor ∈ after,
          scanOrder cursor.activeFireSlot cursor.tenantId cursor.triggerId < activeOrder row :=
      ⟨_, rfl⟩
    have hpage : page = (orderBy activeOrder rows).take (min limit maxDueTriggerPollLimit) := by
      rw [hrows]
      have hmap := map_eq_of_mapM (g := id) (k := id) h fun a _ b hab => (rowToRecord_eq_ok hab).symm
      rw [List.map_id, List.map_id] at hmap
      exact hmap.symm
    have hmem : ∀ record ∈ page, record ∈ rows := by
      intro record hrecord
      rw [hpage] at hrecord
      exact (mem_orderBy _).1 (List.mem_of_mem_take hrecord)
    refine ⟨?_, ?_, ?_⟩
    · have hnodup : page.Nodup := by
        rw [hpage]
        refine ((orderBy_perm _ _).nodup_iff.2 ?_).sublist (List.take_sublist _ _)
        rw [hrows]
        exact s.records.nodup.of_map.filter _
      have hle : page.Pairwise fun a b => activeOrder a ≤ activeOrder b := by
        rw [hpage]
        exact (pairwise_orderBy _ _).sublist (List.take_sublist _ _)
      refine (hle.and hnodup).imp_of_mem ?_
      intro a b ha hb hab
      refine lt_of_le_of_ne hab.1 fun hsame => hab.2 ?_
      have hrow : ∀ x ∈ page, x ∈ s.records.rows := by
        intro x hx
        have := hmem x hx
        rw [hrows] at this
        exact (List.mem_filter.1 this).1
      exact s.records.eq_of_mem_of_key_eq (hrow a ha) (hrow b hb) (key_eq_of_activeOrder_eq hsame)
    · intro record hrecord
      have := hmem record hrecord
      rw [hrows, List.mem_filter] at this
      exact (of_decide_eq_true this.2).1
    · intro record hrecord cursor hcursor
      have := hmem record hrecord
      rw [hrows, List.mem_filter] at this
      exact (of_decide_eq_true this.2).2 cursor hcursor

end LibSql

namespace TriggerPollerWorkerDeps

open LibSql (activeOrder ActivePage)

variable {σ : Type} {deps : TriggerPollerWorkerDeps σ} {config : TriggerPollerWorkerConfig}
  {cursor : Option ActiveTriggerScanCursor} {page : List TriggerRecord}

variable {record : TriggerRecord}

theorem lookupItemOf_eq_some {item : ActiveLookupItem}
    (h : lookupItemOf record = some item) : item.record = record ∧
      record.activeFireSlot = some item.fireSlot ∧ record.activeRunRef = some item.runId ∧
      item.recordCursor.position = activeOrder record := by
  simp only [lookupItemOf, Option.bind_eq_some_iff, Option.map_eq_some_iff] at h
  obtain ⟨slot, hslot, runId, hrun, rfl⟩ := h
  exact ⟨rfl, hslot, hrun, by simp [ActiveTriggerScanCursor.position, activeOrder, hslot]⟩

theorem lookupItemOf_eq_none (hactive : record.activeFireSlot.isSome = true) :
    lookupItemOf record = none ↔ record.activeRunRef = none := by
  obtain ⟨slot, hslot⟩ := Option.isSome_iff_exists.1 hactive
  simp [lookupItemOf, hslot]

theorem map_fst_lookups (deps : TriggerPollerWorkerDeps σ) (page : List TriggerRecord) :
    (deps.lookups page).map Prod.fst = page.filterMap lookupItemOf := by
  apply List.ext_getElem?
  intro index
  rw [List.getElem?_map]
  simp only [lookups, List.getElem?_mapIdx, Option.map_map]
  exact congrFun Option.map_id _

theorem sorted_lookups (hpage : ActivePage cursor page) : (deps.lookups page).Pairwise fun a b =>
    activeOrder a.1.record < activeOrder b.1.record := by
  have hitems : (page.filterMap lookupItemOf).Pairwise fun a b =>
      activeOrder a.record < activeOrder b.record := by
    refine List.Pairwise.filterMap _ ?_ hpage.sorted
    intro a b hab item hitem item' hitem'
    rw [(lookupItemOf_eq_some hitem).1, (lookupItemOf_eq_some hitem').1]
    exact hab
  rw [← deps.map_fst_lookups, List.pairwise_map] at hitems
  exact hitems

variable {lookup : ActiveLookupItem × Except TriggerError TriggerActiveRunState}

theorem of_mem_lookups
    (h : lookup ∈ deps.lookups page) : lookup.1.record ∈ page ∧
      lookup.1.record.activeFireSlot = some lookup.1.fireSlot ∧
      lookup.1.record.activeRunRef ≠ none ∧
      lookup.1.recordCursor.position = activeOrder lookup.1.record := by
  have hitem : lookup.1 ∈ page.filterMap lookupItemOf := by
    rw [← deps.map_fst_lookups]
    exact List.mem_map_of_mem h
  obtain ⟨record, hrecord, hitem⟩ := List.mem_filterMap.1 hitem
  obtain ⟨hsame, hslot, hrun, hposition⟩ := lookupItemOf_eq_some hitem
  rw [hsame]
  exact ⟨hrecord, hslot, by rw [hrun]; exact Option.some_ne_none _, hposition⟩

/-- The cursor of the second loop lies before every lookup that failed. -/
theorem lastLookedUp_lt
    {items : List (ActiveLookupItem × Except TriggerError TriggerActiveRunState)}
    (hsorted : items.Pairwise fun a b => a.1.recordCursor.position < b.1.recordCursor.position)
    {reached : ActiveTriggerScanCursor} (h : lastLookedUp items = some reached)
    (hlookup : lookup ∈ items) {error : TriggerError} (hfailed : lookup.2 = .error error) :
    reached.position < lookup.1.recordCursor.position := by
  induction items with
  | nil => exact absurd hlookup List.not_mem_nil
  | cons first items ih =>
    obtain ⟨item, state⟩ := first
    rw [List.pairwise_cons] at hsorted
    cases state with
    | error => simp [lastLookedUp] at h
    | ok run =>
      rcases List.mem_cons.1 hlookup with rfl | hlookup
      · exact absurd hfailed (by simp)
      · rw [lastLookedUp] at h
        cases hrest : lastLookedUp items with
        | none =>
          rw [hrest, Option.none_or, Option.some.injEq] at h
          rw [← h]
          exact hsorted.1 lookup hlookup
        | some cursor =>
          rw [hrest, Option.some_or] at h
          exact ih hsorted.2 (hrest.trans h) hlookup

theorem exists_of_lastClaimOnly {records : List TriggerRecord} {last : ActiveTriggerScanCursor}
    (h : lastClaimOnly records = some last) : ∃ record ∈ records, record.activeRunRef = none ∧
      last.position = activeOrder record := by
  induction records with
  | nil => exact absurd h (by simp [lastClaimOnly])
  | cons record records ih =>
    rw [lastClaimOnly] at h
    cases hrest : lastClaimOnly records with
    | some cursor =>
      rw [hrest, Option.some_or] at h
      obtain ⟨found, hmem, hfound⟩ := ih (hrest.trans h)
      exact ⟨found, List.mem_cons_of_mem _ hmem, hfound⟩
    | none =>
      rw [hrest, Option.none_or] at h
      split_ifs at h with hrun
      obtain ⟨slot, hslot, rfl⟩ := Option.map_eq_some_iff.1 h
      refine ⟨record, List.mem_cons_self, hrun, ?_⟩
      simp [ActiveTriggerScanCursor.position, activeOrder, hslot]

/-- The cursor of the first loop passes every fire without a run. -/
theorem le_lastClaimOnly {records : List TriggerRecord} (hpage : ActivePage cursor records)
    (hmem : record ∈ records) (hrun : record.activeRunRef = none) :
    ∃ last, lastClaimOnly records = some last ∧ activeOrder record ≤ last.position := by
  induction records with
  | nil => exact absurd hmem List.not_mem_nil
  | cons first records ih =>
    obtain ⟨hfirst, hsorted⟩ := List.pairwise_cons.1 hpage.sorted
    have hrest : ActivePage cursor records :=
      ⟨hsorted, fun r hr => hpage.active r (List.mem_cons_of_mem _ hr),
        fun r hr => hpage.later r (List.mem_cons_of_mem _ hr)⟩
    rw [lastClaimOnly]
    rcases List.mem_cons.1 hmem with rfl | hmem
    · cases hlast : lastClaimOnly records with
      | some last =>
        obtain ⟨found, hfound, -, hposition⟩ := exists_of_lastClaimOnly hlast
        exact ⟨last, rfl, by rw [hposition]; exact (hfirst found hfound).le⟩
      | none =>
        obtain ⟨slot, hslot⟩ := Option.isSome_iff_exists.1 (hpage.active record List.mem_cons_self)
        refine ⟨⟨slot, record.tenantId, record.triggerId⟩, ?_, ?_⟩
        · simp [hrun, ActiveTriggerScanCursor.fromActiveRecord, hslot]
        · simp [ActiveTriggerScanCursor.position, activeOrder, hslot]
    · obtain ⟨last, hlast, hle⟩ := ih hrest hmem
      exact ⟨last, by rw [hlast]; rfl, hle⟩

/-- The listings of active fires are those of a libSQL repository, whatever its tables are by
then. -/
def ListsLibSql (deps : TriggerPollerWorkerDeps σ) : Prop :=
  ∀ after limit st reply st', deps.repository (.listActiveTriggersAfter after limit) st =
    (.ok reply, st') → ∃ crates wall s,
      LibSql.listActiveTriggersAfter crates wall s after limit = .ok reply.toRecords

theorem activePage_of_listActiveCleanupPage (hlists : deps.ListsLibSql)
    {stored : Option ActiveTriggerScanCursor} {st st' : σ}
    (h : deps.listActiveCleanupPage config stored st = (.ok (cursor, page), st')) :
    ActivePage cursor page := by
  unfold listActiveCleanupPage at h
  split at h
  · simp at h
  · rename_i reply next hlist
    split_ifs at h with hwrap
    · split at h
      · simp at h
      · rename_i hagain
        simp only [Prod.mk.injEq, Except.ok.injEq] at h
        obtain ⟨⟨rfl, rfl⟩, -⟩ := h
        obtain ⟨_, _, _, hpage⟩ := hlists _ _ _ _ _ hagain
        exact LibSql.activePage_of_listActiveTriggersAfter hpage
    · simp only [Prod.mk.injEq, Except.ok.injEq] at h
      obtain ⟨⟨rfl, rfl⟩, -⟩ := h
      obtain ⟨_, _, _, hpage⟩ := hlists _ _ _ _ _ hlist
      exact LibSql.activePage_of_listActiveTriggersAfter hpage

theorem sweepPage_done (hpage : ActivePage cursor page) {now : Timestamp} {st : σ} {done : Sweep σ}
    (h : deps.sweepPage config now cursor page [] st = (.ok (), done)) :
    done.nextCursor = (lastLookedUp (deps.lookups page)).or ((lastClaimOnly page).or cursor) ∧
      ∀ record ∈ page, Examined done.results record := by
  have hfirst : ClaimOnlyDone page ⟨st, [], cursor, none⟩
      (deps.claimOnlyLoop config now page ⟨st, [], cursor, none⟩) :=
    deps.claimOnlyLoop_done config now hpage.active rfl
  unfold sweepPage at h
  simp only [hfirst.items] at h
  have hsecond : RunningDone (deps.lookups page) _ done := deps.runningLoop_done h
  refine ⟨?_, ?_⟩
  · rw [hsecond.cursor, if_pos hfirst.waits, hfirst.cursor]
  · intro record hrecord
    cases hrun : record.activeRunRef with
    | none => exact (hfirst.examined record hrecord hrun).mono hsecond.results
    | some runId =>
      obtain ⟨item, hitem⟩ := Option.ne_none_iff_exists'.1
        (mt (lookupItemOf_eq_none (hpage.active record hrecord)).1 (by simp [hrun]))
      have hmem : item ∈ page.filterMap lookupItemOf := List.mem_filterMap.2 ⟨record, hrecord, hitem⟩
      rw [← deps.map_fst_lookups] at hmem
      obtain ⟨lookup, hlookup, rfl⟩ := List.mem_map.1 hmem
      have hexamined := hsecond.examined lookup hlookup (of_mem_lookups hlookup).2.1
      rw [(lookupItemOf_eq_some hitem).1] at hexamined
      exact hexamined

/-- The first fire of the page that has a run is one whose lookup failed, and a fire without a run
comes after it. -/
def HidesFailedLookup (deps : TriggerPollerWorkerDeps σ) (page : List TriggerRecord) : Prop :=
  ∃ before failed rest claimOnly, page = before ++ failed :: rest ∧
    (∀ record ∈ before, record.activeRunRef = none) ∧ deps.LookupFailed page failed ∧
    claimOnly ∈ rest ∧ claimOnly.activeRunRef = none

theorem lookups_eq_cons (hpage : ActivePage cursor page)
    {rest : List (ActiveLookupItem × Except TriggerError TriggerActiveRunState)}
    (h : deps.lookups page = lookup :: rest) : ∃ before after,
      page = before ++ lookup.1.record :: after ∧ ∀ record ∈ before, record.activeRunRef = none := by
  have hitems : page.filterMap lookupItemOf = lookup.1 :: rest.map Prod.fst := by
    rw [← deps.map_fst_lookups, h]
    rfl
  obtain ⟨before, record, after, hsplit, hbefore, hitem, -⟩ := List.filterMap_eq_cons_iff.1 hitems
  rw [(lookupItemOf_eq_some hitem).1]
  refine ⟨before, after, hsplit, fun r hr => ?_⟩
  refine (lookupItemOf_eq_none (hpage.active r ?_)).1 (hbefore r hr)
  rw [hsplit]
  exact List.mem_append_left _ hr

/-- The fire of the first lookup is the first one that has a run. -/
theorem record_of_lookups_cons {before rest : List TriggerRecord} {failed : TriggerRecord}
    (hpage : ActivePage cursor page) (hsplit : page = before ++ failed :: rest)
    (hbefore : ∀ record ∈ before, record.activeRunRef = none) (hrun : failed.activeRunRef ≠ none)
    {others : List (ActiveLookupItem × Except TriggerError TriggerActiveRunState)}
    (h : deps.lookups page = lookup :: others) : lookup.1.record = failed := by
  have hactive : ∀ record ∈ before ++ failed :: rest, record.activeFireSlot.isSome = true := by
    rw [← hsplit]
    exact hpage.active
  have hnone : before.filterMap lookupItemOf = [] :=
    List.filterMap_eq_nil_iff.2 fun record hrecord =>
      (lookupItemOf_eq_none (hactive record (List.mem_append_left _ hrecord))).2
        (hbefore record hrecord)
  obtain ⟨item, hitem⟩ := Option.ne_none_iff_exists'.1
    (mt (lookupItemOf_eq_none (hactive failed (by simp))).1 hrun)
  have hitems : lookup.1 :: others.map Prod.fst = item :: rest.filterMap lookupItemOf := by
    rw [← List.map_cons, ← h, deps.map_fst_lookups, hsplit, List.filterMap_append, hnone,
      List.filterMap_cons_some hitem, List.nil_append]
  rw [(List.cons.inj hitems).1]
  exact (lookupItemOf_eq_some hitem).1

/-- Where a page hides a failed lookup, the cursor ends behind it. -/
theorem HidesFailedLookup.passed (h : deps.HidesFailedLookup page) (hpage : ActivePage cursor page) :
    ∃ failed ∈ page, deps.LookupFailed page failed ∧
      ∃ reached, (lastLookedUp (deps.lookups page)).or ((lastClaimOnly page).or cursor) =
        some reached ∧ activeOrder failed < reached.position := by
  obtain ⟨before, failed, rest, claimOnly, hsplit, hbefore, hfailed, hclaimOnly, hrun⟩ := h
  obtain ⟨lookup, hlookup, rfl, error, herror⟩ := hfailed
  have hafter : claimOnly ∈ page := by
    rw [hsplit]
    exact List.mem_append_right _ (List.mem_cons_of_mem _ hclaimOnly)
  have hlt : activeOrder lookup.1.record < activeOrder claimOnly := by
    have hsorted := hpage.sorted
    rw [hsplit, List.pairwise_append, List.pairwise_cons] at hsorted
    exact hsorted.2.1.1 claimOnly hclaimOnly
  obtain ⟨hmem, -, hfailedRun, -⟩ := of_mem_lookups hlookup
  -- the fire is the first with a run, so that its lookup is the first, and none before it succeeded
  have hnone : lastLookedUp (deps.lookups page) = none := by
    have hordered : (deps.lookups page).Pairwise fun a b =>
      activeOrder a.1.record < activeOrder b.1.record := sorted_lookups hpage
    cases hlookups : deps.lookups page with
    | nil => rfl
    | cons first others =>
      have hrecord := record_of_lookups_cons hpage hsplit hbefore hfailedRun hlookups
      rw [hlookups, List.pairwise_cons] at hordered
      have hfirst : lookup = first := by
        rw [hlookups] at hlookup
        rcases List.mem_cons.1 hlookup with hsame | hlater
        · exact hsame
        · have hlt' := hordered.1 lookup hlater
          rw [hrecord] at hlt'
          exact absurd hlt' (lt_irrefl _)
      obtain ⟨item, state⟩ := first
      rw [hfirst] at herror
      replace herror : state = .error error := herror
      rw [herror]
      rfl
  obtain ⟨last, hlast, hle⟩ := le_lastClaimOnly hpage hafter hrun
  refine ⟨_, hmem, ⟨lookup, hlookup, rfl, error, herror⟩, last, ?_, lt_of_lt_of_le hlt hle⟩
  rw [hnone, hlast]
  rfl

/-- Otherwise it ends before every lookup that failed. -/
theorem lt_of_not_hidesFailedLookup (h : ¬ deps.HidesFailedLookup page)
    (hpage : ActivePage cursor page) {failed : TriggerRecord} (hfailed : deps.LookupFailed page failed)
    {reached : ActiveTriggerScanCursor}
    (hreached : (lastLookedUp (deps.lookups page)).or ((lastClaimOnly page).or cursor) =
      some reached) : reached.position < activeOrder failed := by
  obtain ⟨lookup, hlookup, rfl, error, herror⟩ := hfailed
  have hsorted : (deps.lookups page).Pairwise fun a b =>
      a.1.recordCursor.position < b.1.recordCursor.position := by
    refine (sorted_lookups hpage).imp_of_mem fun ha hb hab => ?_
    rw [(of_mem_lookups ha).2.2.2, (of_mem_lookups hb).2.2.2]
    exact hab
  obtain ⟨hmem, -, -, hposition⟩ := of_mem_lookups hlookup
  cases hlooked : lastLookedUp (deps.lookups page) with
  | some cursor =>
    rw [hlooked, Option.some_or] at hreached
    rw [← hposition]
    exact lastLookedUp_lt hsorted (hlooked.trans hreached) hlookup herror
  | none =>
    rw [hlooked, Option.none_or] at hreached
    cases hlast : lastClaimOnly page with
    | none =>
      rw [hlast, Option.none_or] at hreached
      exact hpage.later _ hmem reached hreached
    | some last =>
      rw [hlast, Option.some_or, Option.some.injEq] at hreached
      subst hreached
      obtain ⟨claimOnly, hclaimOnly, hrun, hlastAt⟩ := exists_of_lastClaimOnly hlast
      rw [hlastAt]
      cases hlookups : deps.lookups page with
      | nil =>
        rw [hlookups] at hlookup
        exact absurd hlookup List.not_mem_nil
      | cons first others =>
        obtain ⟨before, after, hsplit, hbefore⟩ := lookups_eq_cons hpage hlookups
        have hfirstMem : first ∈ deps.lookups page := by
          rw [hlookups]
          exact List.mem_cons_self
        have hfirstFailed : deps.LookupFailed page first.1.record := by
          refine ⟨first, hfirstMem, rfl, ?_⟩
          obtain ⟨item, state⟩ := first
          cases state with
          | error error => exact ⟨error, rfl⟩
          | ok run =>
            rw [hlookups, lastLookedUp] at hlooked
            simp at hlooked
        have hfirstLe : activeOrder first.1.record ≤ activeOrder lookup.1.record := by
          have hordered : (deps.lookups page).Pairwise fun a b =>
            activeOrder a.1.record < activeOrder b.1.record := sorted_lookups hpage
          rw [hlookups, List.pairwise_cons] at hordered
          rw [hlookups] at hlookup
          rcases List.mem_cons.1 hlookup with rfl | hlater
          · exact le_refl _
          · exact (hordered.1 lookup hlater).le
        refine lt_of_lt_of_le ?_ hfirstLe
        have hpageSorted := hpage.sorted
        rw [hsplit, List.pairwise_append] at hpageSorted
        rw [hsplit] at hclaimOnly
        rcases List.mem_append.1 hclaimOnly with hin | hin
        · exact hpageSorted.2.2 claimOnly hin _ List.mem_cons_self
        · rcases List.mem_cons.1 hin with hin | hin
          · rw [hin] at hrun
            exact absurd hrun (of_mem_lookups hfirstMem).2.2.1
          · exact absurd ⟨before, first.1.record, after, claimOnly, hsplit, hbefore,
              hfirstFailed, hin, hrun⟩ h

end TriggerPollerWorkerDeps

/-! ### A lookup that fails before a fire without a run -/

namespace LibSql

open TriggerPollerWorkerDeps

/-- The ports of a worker whose lookups answer as listed. -/
def lookupDeps (results : List (Except TriggerError TriggerActiveRunState)) :
    TriggerPollerWorkerDeps Store :=
  { sampleDeps with
    activeRunStates := fun _ => results }

theorem listsLibSql_lookupDeps (results : List (Except TriggerError TriggerActiveRunState)) :
    (lookupDeps results).ListsLibSql := by
  intro after limit s reply s' h
  replace h : repositoryAfter everyMinute [] minute (.listActiveTriggersAfter after limit) s =
    (.ok reply, s') := h
  refine ⟨everyMinute, minute, s, ?_⟩
  simp only [repositoryAfter, afterUsers, List.map_nil, List.foldl_nil, call] at h
  cases hlist : listActiveTriggersAfter everyMinute minute s after limit with
  | error error => simp [hlist, Except.map] at h
  | ok records =>
    simp only [hlist, Except.map, Prod.mk.injEq, Except.ok.injEq] at h
    rw [← h.1]
    rfl

def sampleConfig : TriggerPollerWorkerConfig := ⟨32, minute⟩

/-- A fire with a run. -/
def sampleRunning (id : BitVec 128) (slot : Timestamp) : TriggerRecord :=
  { sampleRecord with
    triggerId := ⟨id⟩
    activeFireSlot := some slot
    activeRunRef := some ⟨id⟩ }

/-- A fire without a run. -/
def sampleClaimOnly (id : BitVec 128) (slot : Timestamp) : TriggerRecord :=
  { sampleRecord with
    triggerId := ⟨id⟩
    activeFireSlot := some slot }

def storeOf (records : List TriggerRecord) : Store := records.foldl Store.putRecord Store.empty

end LibSql

end Ironclaw.Triggers
