import Ironclaw.Processes.ProcessStep

/-! # Spawn-tree accounting

The slots taken and given back under a root over a run.

* `slotsTaken` is what an accepted command reserves under a root, `freedSlot` the process whose
  slot it gives back; `TreeStep` says what a command does to the row of a root in these terms,
  and `advance_treeStep` that it does nothing else.
* Whatever the run, the row counts the slots taken less the releases that found a slot
  (`run_count`). The released processes are remembered in the row, and the row is dropped with
  the last slot, so a process released under an earlier row of the root can free a second slot. -/

namespace Ironclaw.Processes

open ProcessJournalMaterializedState

variable {s s' : ProcessJournalMaterializedState} {c : StoredProcessCommand} {root : ProcessId}

/-! ### What a command takes and frees -/

/-- Slots an accepted command takes under a root: one for a child, `delta` for an explicit
reservation. -/
def slotsTaken (s : ProcessJournalMaterializedState) (c : StoredProcessCommand)
    (root : ProcessId) : ℕ :=
  match s.applyCommand c, c with
  | .ok (.submitted _ true, _), .submit request
  | .ok (.submitted _ true, _), .submitWithCheckpoint request _ =>
    if request.parentProcessId.isSome ∧ request.rootProcessId = some root then 1 else 0
  | .ok _, .reserveTree request => if request.rootProcessId = root then request.delta.toNat else 0
  | _, _ => 0

/-- The cap a command that takes slots submits. -/
def admissionCap : StoredProcessCommand → Option UInt32
  | .submit request | .submitWithCheckpoint request _ => request.spawnTreeDescendantCap
  | .reserveTree request => some request.cap
  | _ => none

/-- The root and process of the release that closing a dependency performs. -/
def dependencyRelease (s : ProcessJournalMaterializedState)
    (request : CloseProcessDependencyRequest) (abandon : Bool) : Option (ProcessId × ProcessId) :=
  (s.dependencies.get (request.dependentProcessId, request.dependencyProcessId)).bind
    fun existing =>
      if sameLineageScope existing.scope request.scope = true ∧ existing.state.isClosed = false ∧
          existing.state ∈ (closeTarget abandon).legalPredecessors then
        some (existing.rootProcessId, request.dependencyProcessId)
      else none

/-- The root and process of the release a command asks for, when its request is valid. -/
def releaseTarget (s : ProcessJournalMaterializedState) (c : StoredProcessCommand) :
    Option (ProcessId × ProcessId) :=
  match c with
  | .releaseTree request =>
    match s.validateTreeRoot request.scope request.rootProcessId with
    | .ok _ => some (request.rootProcessId, request.idempotencyProcessId)
    | .error _ => none
  | .consumeDependency request => dependencyRelease s request false
  | .abandonDependency request => dependencyRelease s request true
  | _ => none

/-- The process whose slot under the root a command gives back: the root has a row, and the row
does not remember the process. -/
def freedSlot (s : ProcessJournalMaterializedState) (c : StoredProcessCommand)
    (root : ProcessId) : Option ProcessId :=
  (releaseTarget s c).bind fun target =>
    if target.1 = root ∧
        (s.treeReservations.get root).any (fun row => target.2 ∉ row.releasedProcesses) then
      some target.2
    else none

/-- The commands of the accounting: a release gives one slot back, and no row is rewritten by a
prune or an import. -/
def AccountedCommand (c : StoredProcessCommand) : Prop :=
  (∀ request, c = .releaseTree request → request.delta = 1) ∧
  (∀ request, c ≠ .pruneTree request) ∧ c.isImport = false

/-! ### What a command does to the row of a root -/

/-- The three things a command can do to the row of a root. -/
inductive TreeStep (s s' : ProcessJournalMaterializedState) (c : StoredProcessCommand)
    (root : ProcessId) : Prop
  | keep (row : s'.treeReservations.get root = s.treeReservations.get root)
      (taken : slotsTaken s c root = 0) (freed : freedSlot s c root = none)
  | take (slots : ℕ) (positive : 0 < slots) (taken : slotsTaken s c root = slots)
      (freed : freedSlot s c root = none)
      (row : s'.treeReservations.get root =
        some ⟨root, s.descendantCount root + slots, s.releasedProcesses root⟩)
      (capped : ∀ cap, admissionCap c = some cap → s.descendantCount root + slots ≤ cap.toNat)
  | free (q : ProcessId) (reservation : ProcessTreeReservation)
      (before : s.treeReservations.get root = some reservation)
      (unknown : q ∉ reservation.releasedProcesses)
      (taken : slotsTaken s c root = 0) (freed : freedSlot s c root = some q)
      (row : s'.treeReservations.get root = reservation.release q 1)

/-- A row is stored only while slots are taken. -/
def RowsPositive (s : ProcessJournalMaterializedState) : Prop :=
  ∀ root reservation, s.treeReservations.get root = some reservation →
    0 < reservation.descendantCount

theorem freedSlot_of_target_none (h : releaseTarget s c = none) : freedSlot s c root = none := by
  simp [freedSlot, h]

theorem get_reserve (root' : ProcessId) (count : ℕ) :
    (s.reserve root' count).get root = if root' = root then
      some ⟨root', count, s.releasedProcesses root'⟩ else s.treeReservations.get root := by
  unfold reserve
  rw [Table.get_put]

variable {reservation : ProcessTreeReservation}

theorem get_release {root' q : ProcessId} {delta : ℕ}
    (hg : s.treeReservations.get root' = some reservation) :
    ((reservation.release q delta).elim (s.treeReservations.remove root')
      s.treeReservations.put).get root =
      if root' = root then reservation.release q delta else s.treeReservations.get root := by
  have hk := Table.key_of_get hg
  unfold ProcessTreeReservation.release
  split_ifs with h0 hr hr
  · simp [Table.get_remove, hr]
  · simp [Table.get_remove, hr]
  · simp [hk, hr]
  · simp [Table.get_put, hk, hr]

theorem releaseSlot_treeStep {q root' : ProcessId} {e : ProcessJournalStoreError}
    {trees : Table ProcessTreeReservation.rootProcessId}
    (htarget : releaseTarget s c = some (root', q)) (htaken : slotsTaken s c root = 0)
    (h : s.releaseSlot root' q 1 e = .ok trees) (hs' : s'.treeReservations = trees) :
    TreeStep s s' c root := by
  rcases releaseSlot_ok h with ⟨rfl, hno⟩ | ⟨reservation, hg, hq, -, rfl⟩
  · refine .keep (by rw [hs']) htaken ?_
    simp only [freedSlot, htarget, Option.bind_some]
    rw [if_neg]
    rintro ⟨rfl, hany⟩
    rcases hno with hno | hno
    · simp [hno] at hany
    · obtain ⟨row, hrow, hnot⟩ := (Option.any_eq_true _ _).mp hany
      simp [releasedProcesses, hrow] at hno
      simp [hno] at hnot
  · by_cases hr : root' = root
    · subst hr
      refine .free q reservation hg hq htaken ?_ (by rw [hs', get_release hg, if_pos rfl])
      simp [freedSlot, htarget, hg, hq]
    · refine .keep (by rw [hs', get_release hg, if_neg hr]) htaken ?_
      simp [freedSlot, htarget, hr]

/-- With a slot to give and a row that does not remember the process, a release succeeds. -/
theorem releaseSlot_succeeds (root' q : ProcessId) (e : ProcessJournalStoreError)
    (hpos : RowsPositive s) : ∃ trees, s.releaseSlot root' q 1 e = .ok trees := by
  unfold releaseSlot
  cases hg : s.treeReservations.get root' with
  | none => exact ⟨_, rfl⟩
  | some reservation =>
    have h1 := hpos root' reservation hg
    simp only
    split_ifs
    · exact ⟨_, rfl⟩
    · have hnot : ¬ reservation.descendantCount < 1 := by omega
      cases hrel : reservation.release q 1 with
      | none =>
        exact ⟨s.treeReservations.remove root', by
          simp only [bind_eq_ok, rejectIf_eq_ok]
          exact ⟨(), hnot, rfl⟩⟩
      | some released =>
        exact ⟨s.treeReservations.put released, by
          simp only [bind_eq_ok, rejectIf_eq_ok]
          exact ⟨(), hnot, rfl⟩⟩

theorem dependencyRelease_none {request : CloseProcessDependencyRequest} {abandon : Bool}
    (h : ∀ existing,
      s.dependencies.get (request.dependentProcessId, request.dependencyProcessId) =
        some existing → existing.state.isClosed = true) :
    dependencyRelease s request abandon = none := by
  unfold dependencyRelease
  cases hg : s.dependencies.get (request.dependentProcessId, request.dependencyProcessId) with
  | none => rfl
  | some existing => simp [h existing hg]

theorem release_accepted {root' q : ProcessId} (hpos : RowsPositive s) (hc : AccountedCommand c)
    (htarget : releaseTarget s c = some (root', q)) : ∃ result, s.applyCommand c = .ok result := by
  have close : ∀ request abandon, dependencyRelease s request abandon = some (root', q) →
      ∃ result, s.applyCloseDependency request abandon = .ok result := by
    intro request abandon h
    obtain ⟨existing, hg, h⟩ := Option.bind_eq_some_iff.mp h
    obtain ⟨⟨hscope, hopen, hlegal⟩, h⟩ := (Option.ite_none_right_eq_some ..).mp h
    obtain ⟨trees, ht⟩ := releaseSlot_succeeds existing.rootProcessId request.dependencyProcessId
      (.invalidRequest "dependency release exceeds current reservation count") hpos
    cases hres : s.applyCloseDependency request abandon with
    | ok result => exact ⟨result, rfl⟩
    | error e =>
      have hclose : s.releaseDependencyReservation existing.rootProcessId
          request.dependencyProcessId = .ok trees := ht
      simp [applyCloseDependency, hg, hscope, hopen, hlegal, hclose, bind_eq_error] at hres
  cases c with
  | releaseTree request =>
    simp only [releaseTarget] at htarget
    split at htarget
    · next u hv =>
        obtain ⟨trees, ht⟩ := releaseSlot_succeeds request.rootProcessId
          request.idempotencyProcessId
          (.invalidRequest "release delta exceeds current reservation count") hpos
        have hdelta : request.delta.toNat = 1 := by rw [hc.1 request rfl]; rfl
        simp only [applyCommand, applyReleaseTree, hdelta, bind_eq_ok]
        exact ⟨_, u, hv, trees, ht, rfl⟩
    · cases htarget
  | consumeDependency request => exact close request false htarget
  | abandonDependency request => exact close request true htarget
  | _ => cases htarget

/-- The slots of an accepted submission are those of its reservation. -/
theorem submission_treeStep {request : SubmitProcessRequest} {tree : Option (ProcessId × ℕ)}
    (hfreed : freedSlot s c root = none) (hcap : admissionCap c = request.spawnTreeDescendantCap)
    (htaken : slotsTaken s c root =
      if request.parentProcessId.isSome ∧ request.rootProcessId = some root then 1 else 0)
    (htree : s.childReservation request = .ok tree)
    (hs' : s'.treeReservations = tree.elim s.treeReservations fun r => s.reserve r.1 r.2) :
    TreeStep s s' c root := by
  cases tree with
  | none =>
    refine .keep (by rw [hs']; rfl) ?_ hfreed
    rw [htaken, childReservation_none htree]
    simp
  | some reserved =>
    obtain ⟨root', next⟩ := reserved
    obtain ⟨parent, cap, -, hparent, -, hroot, hsub, rfl, hle⟩ := childReservation_some htree
    simp only [Option.elim_some] at hs'
    by_cases hr : root' = root
    · subst hr
      refine .take 1 Nat.one_pos ?_ hfreed (by rw [hs', get_reserve, if_pos rfl]) ?_
      · rw [htaken, hparent, hroot]
        simp
      · intro cap' hcap'
        rw [hcap, hsub, Option.some.injEq] at hcap'
        rwa [← hcap']
    · refine .keep (by rw [hs', get_reserve, if_neg hr]) ?_ hfreed
      rw [htaken, hroot]
      simp [hr]

/-- **One command, one root.**  A command of the accounting acts on the row of every root by a
`TreeStep`. -/
theorem advance_treeStep (root : ProcessId) (hpos : RowsPositive s) (hc : AccountedCommand c) :
    TreeStep s (advance applyCommand s c) c root := by
  cases h : s.applyCommand c with
  | error e =>
    rw [advance_of_error h]
    refine .keep rfl (by simp [slotsTaken, h]) ?_
    cases ht : releaseTarget s c with
    | none => exact freedSlot_of_target_none ht
    | some target =>
      obtain ⟨result, hok⟩ := release_accepted hpos hc ht
      rw [h] at hok
      cases hok
  | ok result =>
    obtain ⟨o, s'⟩ := result
    rw [advance_of_ok h]
    cases c with
    | submit request =>
      rcases applySubmit_ok h with ⟨rfl, snapshot, rfl⟩ | ⟨tree, -, -, htree, rfl, rfl⟩
      · exact .keep rfl (by simp [slotsTaken, h]) rfl
      · exact submission_treeStep rfl rfl (by simp [slotsTaken, h]) htree rfl
    | submitWithCheckpoint request checkpoint =>
      obtain ⟨-, -, -, ⟨hsub, rfl⟩ | ⟨snapshot, submitted, o', rfl, hsub, hcheck⟩⟩ :=
        applySubmitWithCheckpoint_ok h
      · rcases applySubmit_ok hsub with ⟨-, snapshot, rfl⟩ | ⟨tree, hn, -, -, hs, -⟩
        · exact .keep rfl (by simp [slotsTaken, h]) rfl
        · rw [hs] at hn
          simp [storeSubmission, Table.get_put] at hn
      · rcases applySubmit_ok hsub with ⟨-, snapshot', ho⟩ | ⟨tree, -, -, htree, hs, -⟩
        · simp at ho
        · refine submission_treeStep rfl rfl (by simp [slotsTaken, h]) htree ?_
          obtain ⟨stored, -, rfl | ⟨-, rfl⟩⟩ := applyCheckpoint_ok hcheck
          · rw [hs]
            rfl
          · rw [hs]
            rfl
    | reserveTree request =>
      have hdelta : 0 < request.delta.toNat := by
        simp only [applyCommand, applyReserveTree, bind_eq_ok, rejectIf_eq_ok] at h
        obtain ⟨-, hne, -⟩ := h
        exact Nat.pos_of_ne_zero fun h0 => hne (UInt32.toNat_inj.mp h0)
      obtain ⟨hle, rfl⟩ := applyReserveTree_ok h
      by_cases hr : request.rootProcessId = root
      · subst hr
        refine .take request.delta.toNat hdelta (by simp [slotsTaken, h]) rfl
          (by rw [get_reserve, if_pos rfl]) ?_
        rintro cap ⟨⟩
        exact hle
      · exact .keep (by rw [get_reserve, if_neg hr]) (by simp [slotsTaken, h, hr]) rfl
    | releaseTree request =>
      obtain ⟨trees, ht, rfl⟩ := applyReleaseTree_ok h
      have hdelta : request.delta.toNat = 1 := by rw [hc.1 request rfl]; rfl
      rw [hdelta] at ht
      refine releaseSlot_treeStep ?_ (by simp [slotsTaken, h]) ht rfl
      simp only [applyCommand, applyReleaseTree, bind_eq_ok] at h
      obtain ⟨u, hv, -⟩ := h
      simp [releaseTarget, hv]
    | pruneTree request => exact absurd rfl (hc.2.1 request)
    | importLegacyState => cases hc.2.2
    | consumeDependency request =>
      rcases applyCloseDependency_ok h with ⟨rfl, hclosed⟩ |
        ⟨existing, trees, hg, hscope, hopen, hlegal, ht, rfl⟩
      · refine .keep rfl (by simp [slotsTaken, h]) (freedSlot_of_target_none ?_)
        exact dependencyRelease_none hclosed
      · refine releaseSlot_treeStep ?_ (by simp [slotsTaken, h]) ht rfl
        simp [releaseTarget, dependencyRelease, hg, hscope, hopen, hlegal]
    | abandonDependency request =>
      rcases applyCloseDependency_ok h with ⟨rfl, hclosed⟩ |
        ⟨existing, trees, hg, hscope, hopen, hlegal, ht, rfl⟩
      · refine .keep rfl (by simp [slotsTaken, h]) (freedSlot_of_target_none ?_)
        exact dependencyRelease_none hclosed
      · refine releaseSlot_treeStep ?_ (by simp [slotsTaken, h]) ht rfl
        simp [releaseTarget, dependencyRelease, hg, hscope, hopen, hlegal]
    | submitAtEdge =>
      refine .keep ?_ (by simp [slotsTaken, h]) rfl
      rcases applySubmitAtEdge_ok h with rfl | ⟨-, -, rfl⟩
      · rfl
      · rfl
    | claim =>
      refine .keep ?_ (by simp [slotsTaken, h]) rfl
      simp only [applyCommand, applyClaim, Except.ok.injEq, Prod.mk.injEq] at h
      obtain ⟨_, _, _, hframe⟩ := claimLoop_frame _ _ _ _ _ _ s []
      rw [← h.2, hframe]
    | heartbeat =>
      refine .keep ?_ (by simp [slotsTaken, h]) rfl
      obtain ⟨_, -, -, -, rfl⟩ := applyHeartbeat_ok h
      rfl
    | recoverExpired =>
      refine .keep ?_ (by simp [slotsTaken, h]) rfl
      obtain ⟨_, hr⟩ := applyRecoverExpired_ok h
      obtain ⟨_, _, _, rfl⟩ := recoverLoop_frame hr
      rfl
    | leasedTransition =>
      refine .keep ?_ (by simp [slotsTaken, h]) rfl
      obtain ⟨_, -, -, -, rfl⟩ := applyLeasedTransition_ok h
      rfl
    | control =>
      refine .keep ?_ (by simp [slotsTaken, h]) rfl
      rcases applyControl_ok h with ⟨_, rfl, -⟩ | ⟨_, _, _, -, -, -, -, -, -, rfl⟩
      · rfl
      · rfl
    | openDependency =>
      refine .keep ?_ (by simp [slotsTaken, h]) rfl
      rcases applyOpenDependency_ok h with rfl | ⟨_, -, -, -, rfl⟩
      · rfl
      · rfl
    | settleDependency =>
      refine .keep ?_ (by simp [slotsTaken, h]) rfl
      rcases applySettleDependency_ok h with rfl | ⟨_, -, -, -, rfl⟩
      · rfl
      · rfl
    | transitionDependency =>
      refine .keep ?_ (by simp [slotsTaken, h]) rfl
      rcases applyTransitionDependency_ok h with rfl | ⟨_, _, -, -, -, -, -, rfl⟩
      · rfl
      · rfl
    | recordCheckpoint =>
      refine .keep ?_ (by simp [slotsTaken, h]) rfl
      obtain ⟨_, -, rfl | ⟨-, rfl⟩⟩ := applyCheckpoint_ok h
      · rfl
      · rfl

/-! ### Accounting over a run -/

/-- Slots taken under a root over a run. -/
def reservedTotal (history : List JournalStep) (root : ProcessId) : ℕ :=
  (history.map fun x => slotsTaken x.pre x.command root).sum

/-- The processes whose slot under a root was given back, one entry for each time. -/
def freedList (history : List JournalStep) (root : ProcessId) : List ProcessId :=
  history.filterMap fun x => freedSlot x.pre x.command root

/-- The distinct processes whose slot under a root was given back. -/
def freedIds (history : List JournalStep) (root : ProcessId) : Finset ProcessId :=
  (freedList history root).toFinset

theorem reservedTotal_append (h₁ h₂ : List JournalStep) (root : ProcessId) :
    reservedTotal (h₁ ++ h₂) root = reservedTotal h₁ root + reservedTotal h₂ root := by
  simp [reservedTotal]

theorem freedList_append (h₁ h₂ : List JournalStep) (root : ProcessId) :
    freedList (h₁ ++ h₂) root = freedList h₁ root ++ freedList h₂ root := by
  simp [freedList]

theorem reservedTotal_singleton (x : JournalStep) (root : ProcessId) :
    reservedTotal [x] root = slotsTaken x.pre x.command root := by
  simp [reservedTotal]

theorem freedList_singleton (x : JournalStep) (root : ProcessId) :
    freedList [x] root = (freedSlot x.pre x.command root).toList := by
  cases h : freedSlot x.pre x.command root <;> simp [freedList, h]

theorem release_cases (reservation : ProcessTreeReservation) (q : ProcessId)
    (hpos : 0 < reservation.descendantCount) :
    (reservation.descendantCount = 1 ∧ reservation.release q 1 = none) ∨
    (1 < reservation.descendantCount ∧ reservation.release q 1 = some
      { reservation with
        descendantCount := reservation.descendantCount - 1
        releasedProcesses := insert q reservation.releasedProcesses }) := by
  unfold ProcessTreeReservation.release
  split_ifs with h
  · exact .inl ⟨by omega, rfl⟩
  · exact .inr ⟨by omega, rfl⟩

theorem descendantCount_eq {row : Option ProcessTreeReservation}
    (h : s.treeReservations.get root = row) :
    s.descendantCount root = (row.map (·.descendantCount)).getD 0 := by
  rw [descendantCount, h]

theorem TreeStep.count (h : TreeStep s s' c root) (hpos : RowsPositive s) :
    s'.descendantCount root + (freedSlot s c root).toList.length =
      s.descendantCount root + slotsTaken s c root := by
  cases h with
  | keep row taken freed =>
    rw [taken, freed, descendantCount_eq row]
    rfl
  | take slots _ taken freed row => simp [descendantCount_eq row, taken, freed]
  | free q reservation before _ taken freed row =>
    have h0 := hpos root reservation before
    rw [taken, freed, descendantCount_eq row, descendantCount_eq before]
    rcases release_cases reservation q h0 with ⟨h1, hr⟩ | ⟨h1, hr⟩
    · simp [hr, h1]
    · simp only [hr, Option.map_some, Option.getD_some, Option.toList_some, List.length_singleton]
      omega

theorem TreeStep.positive (h : TreeStep s s' c root)
    (hpos : RowsPositive s) (hg : s'.treeReservations.get root = some reservation) :
    0 < reservation.descendantCount := by
  cases h with
  | keep row => exact hpos root reservation (row ▸ hg)
  | take slots positive _ _ row =>
    rw [row, Option.some.injEq] at hg
    subst hg
    exact Nat.add_pos_right _ positive
  | free q old before _ _ _ row =>
    rcases release_cases old q (hpos root old before) with ⟨-, hr⟩ | ⟨h1, hr⟩
    · rw [row, hr] at hg
      cases hg
    · rw [row, hr, Option.some.injEq] at hg
      subst hg
      exact Nat.sub_pos_of_lt h1

theorem RowsPositive.step (hpos : RowsPositive s) (hc : AccountedCommand c) :
    RowsPositive (advance applyCommand s c) :=
  fun root _ hg => (advance_treeStep root hpos hc).positive hpos hg

theorem RowsPositive.same {t : ProcessJournalMaterializedState} (h : SameRows s t)
    (hpos : RowsPositive s) : RowsPositive t := by
  intro root reservation hg
  exact hpos root reservation ((h.treeReservations_get root).trans hg)

variable {history : List JournalStep}

/-- Rows are positive along a run, and each counts the slots taken less the releases that found
one to give back. -/
theorem run_count (run : JournalRun history s) (hall : ∀ x ∈ history, AccountedCommand x.command) :
    RowsPositive s ∧ ∀ root,
      s.descendantCount root + (freedList history root).length = reservedTotal history root := by
  refine run.induct_history (I := fun history s => RowsPositive s ∧ ∀ root,
    s.descendantCount root + (freedList history root).length = reservedTotal history root)
    (A := AccountedCommand) ?_ ?_ ?_ hall
  · refine ⟨?_, fun root => rfl⟩
    intro root reservation hg
    cases hg
  · rintro history u v huv ⟨hpos, hcount⟩
    refine ⟨hpos.same huv, fun root => ?_⟩
    rw [← hcount root, descendantCount, descendantCount, huv.treeReservations_get]
  · rintro history u c hc ⟨hpos, hcount⟩
    refine ⟨hpos.step hc, fun root => ?_⟩
    have hstep := (advance_treeStep root hpos hc).count hpos
    rw [freedList_append, freedList_singleton, reservedTotal_append, reservedTotal_singleton,
      List.length_append]
    have := hcount root
    simp only at hstep ⊢
    omega

variable {q : ProcessId}

/-- Processes remembered by a row were released since the root last had none. -/
theorem run_released_freed {t u : ProcessJournalMaterializedState}
    (run : Run SameRows applyCommand t history u)
    (hall : ∀ x ∈ history, AccountedCommand x.command) (hpos : RowsPositive t)
    (hnone : t.treeReservations.get root = none)
    (hg : u.treeReservations.get root = some reservation)
    (hq : q ∈ reservation.releasedProcesses) : q ∈ freedList history root := by
  refine (run.induct_history (I := fun history u => RowsPositive u ∧ ∀ reservation,
    u.treeReservations.get root = some reservation → ∀ q ∈ reservation.releasedProcesses,
      q ∈ freedList history root) (A := AccountedCommand) ?_ ?_ ?_ hall).2 reservation hg q hq
  · exact ⟨hpos, by simp [hnone]⟩
  · rintro history a b hab ⟨ha, h⟩
    refine ⟨ha.same hab, ?_⟩
    rw [← hab.treeReservations_get]
    exact h
  · rintro history a c hc ⟨ha, h⟩
    refine ⟨ha.step hc, ?_⟩
    intro row hrow q hq
    rw [freedList_append, List.mem_append]
    cases advance_treeStep root ha hc with
    | keep kept => exact .inl (h row (kept ▸ hrow) q hq)
    | take slots _ _ _ kept =>
      rw [kept, Option.some.injEq] at hrow
      subst hrow
      cases hold : a.treeReservations.get root with
      | none => simp [releasedProcesses, hold] at hq
      | some old => exact .inl (h old hold q (by simpa [releasedProcesses, hold] using hq))
    | free r old before _ _ freed kept =>
      rcases release_cases old r (ha root old before) with ⟨-, hr⟩ | ⟨-, hr⟩
      · rw [kept, hr] at hrow
        cases hrow
      · rw [kept, hr, Option.some.injEq] at hrow
        subst hrow
        rcases Finset.mem_insert.mp hq with rfl | hq
        · exact .inr (by simp [freedList_singleton, freed])
        · exact .inl (h old before q hq)

/-- The slot of `q` was given back under the root, and at that moment or later the root had no
row. -/
def Forgotten (history : List JournalStep) (root q : ProcessId) : Prop :=
  ∃ earlier z later, history = earlier ++ z :: later ∧ q ∈ freedList (earlier ++ [z]) root ∧
    z.post.treeReservations.get root = none

theorem Forgotten.append (h : Forgotten history root q) (more : List JournalStep) :
    Forgotten (history ++ more) root q := by
  obtain ⟨earlier, z, later, rfl, hq, hz⟩ := h
  exact ⟨earlier, z, later ++ more, by simp, hq, hz⟩

/-- A process that gave its slot back is remembered by the row or forgotten with one. -/
theorem run_freed_remembered (run : JournalRun history s)
    (hall : ∀ x ∈ history, AccountedCommand x.command) (hq : q ∈ freedList history root) :
    (∃ reservation, s.treeReservations.get root = some reservation ∧
      q ∈ reservation.releasedProcesses) ∨ Forgotten history root q := by
  refine (run.induct_history (I := fun history s => RowsPositive s ∧
    ∀ q ∈ freedList history root, (∃ reservation, s.treeReservations.get root = some reservation ∧
      q ∈ reservation.releasedProcesses) ∨ Forgotten history root q)
    (A := AccountedCommand) ?_ ?_ ?_ hall).2 q hq
  · refine ⟨?_, by simp [freedList]⟩
    intro root reservation hg
    cases hg
  · rintro history a b hab ⟨ha, h⟩
    refine ⟨ha.same hab, ?_⟩
    rw [← hab.treeReservations_get]
    exact h
  · rintro history a c hc ⟨ha, h⟩
    refine ⟨ha.step hc, ?_⟩
    intro q hq
    have hlast : (advance applyCommand a c).treeReservations.get root = none →
        Forgotten (history ++ [⟨a, c, advance applyCommand a c⟩]) root q :=
      fun hn => ⟨history, _, [], rfl, hq, hn⟩
    rw [freedList_append, freedList_singleton, List.mem_append] at hq
    cases advance_treeStep root ha hc with
    | keep kept _ freed =>
      simp only [freed, Option.toList_none, List.not_mem_nil, or_false] at hq
      rcases h q hq with ⟨row, hrow, hmem⟩ | hforgot
      · exact .inl ⟨row, kept.trans hrow, hmem⟩
      · exact .inr (hforgot.append _)
    | take slots _ _ freed kept =>
      simp only [freed, Option.toList_none, List.not_mem_nil, or_false] at hq
      rcases h q hq with ⟨row, hrow, hmem⟩ | hforgot
      · exact .inl ⟨_, kept, by simpa [releasedProcesses, hrow] using hmem⟩
      · exact .inr (hforgot.append _)
    | free r old before _ _ freed kept =>
      rcases release_cases old r (ha root old before) with ⟨-, hr⟩ | ⟨-, hr⟩
      · exact .inr (hlast (kept.trans hr))
      · simp only [freed, Option.toList_some, List.mem_singleton] at hq
        rcases hq with hq | rfl
        · rcases h q hq with ⟨row, hrow, hmem⟩ | hforgot
          · rw [before, Option.some.injEq] at hrow
            subst hrow
            exact .inl ⟨_, kept.trans hr, Finset.mem_insert_of_mem hmem⟩
          · exact .inr (hforgot.append _)
        · exact .inl ⟨_, kept.trans hr, Finset.mem_insert_self _ _⟩

/-! ### When the accounting is right -/

/-- The accounting of a root: the count is the slots taken less one for each process released,
no process gives its slot back twice, and no admission finds more live descendants than its
cap. -/
structure Accounted (history : List JournalStep) (s : ProcessJournalMaterializedState)
    (root : ProcessId) : Prop where
  count : s.descendantCount root + (freedIds history root).card = reservedTotal history root
  once : (freedList history root).Nodup
  capped : ∀ earlier x later, history = earlier ++ x :: later →
    0 < slotsTaken x.pre x.command root → ∀ cap, admissionCap x.command = some cap →
    reservedTotal (earlier ++ [x]) root ≤ cap.toNat + (freedIds (earlier ++ [x]) root).card

/-- A valid release names a process that gave its slot back before, meets a row of the root, and
the root had none in between. -/
def ForgottenRelease (history : List JournalStep) (root q : ProcessId) : Prop :=
  ∃ earlier x later, history = earlier ++ x :: later ∧ Forgotten earlier root q ∧
    releaseTarget x.pre x.command = some (root, q) ∧
    (x.pre.treeReservations.get root).isSome

theorem freedSlot_eq_some : freedSlot s c root = some q ↔
    releaseTarget s c = some (root, q) ∧
      ∃ row, s.treeReservations.get root = some row ∧ q ∉ row.releasedProcesses := by
  unfold freedSlot
  rw [Option.bind_eq_some_iff]
  constructor
  · rintro ⟨⟨root', q'⟩, htarget, h⟩
    rw [Option.ite_none_right_eq_some] at h
    obtain ⟨⟨rfl, hany⟩, ⟨⟩⟩ := h
    obtain ⟨row, hrow, hnot⟩ := (Option.any_eq_true _ _).mp hany
    exact ⟨htarget, row, hrow, by simpa using hnot⟩
  · rintro ⟨htarget, row, hrow, hnot⟩
    exact ⟨(root, q), htarget, by simp [hrow, hnot]⟩

theorem run_before {earlier later : List JournalStep} {x : JournalStep}
    (run : JournalRun (earlier ++ x :: later) s) :
    ∃ t, JournalRun earlier t ∧ SameRows t x.pre := by
  obtain ⟨t, run₁, run₂⟩ := run.split
  rw [← List.singleton_append] at run₂
  obtain ⟨u, hstep, -⟩ := run₂.split
  exact ⟨t, run₁, hstep.singleton.1⟩

/-- Without a forgotten release, no process gives its slot back twice. -/
theorem freed_once (run : JournalRun history s) (hall : ∀ x ∈ history, AccountedCommand x.command)
    (hno : ∀ q, ¬ ForgottenRelease history root q) : (freedList history root).Nodup := by
  induction run with
  | nil => exact List.nodup_nil
  | @snoc history t u c hrun hsame ih =>
    have hall' : ∀ x ∈ history, AccountedCommand x.command :=
      fun x hx => hall x (List.mem_append_left _ hx)
    have hno' : ∀ q, ¬ ForgottenRelease history root q := by
      rintro q ⟨earlier, x, later, rfl, h⟩
      exact hno q ⟨earlier, x, later ++ [⟨u, c, advance applyCommand u c⟩], by simp, h⟩
    rw [freedList_append, freedList_singleton]
    cases hf : freedSlot u c root with
    | none => simpa using ih hall' hno'
    | some q =>
      obtain ⟨htarget, row, hrow, hnot⟩ := freedSlot_eq_some.mp hf
      refine List.nodup_append.mpr ⟨ih hall' hno', by simp, ?_⟩
      rintro a ha b hb rfl
      obtain rfl : a = q := by simpa [hf] using hb
      rcases run_freed_remembered hrun hall' ha with ⟨row', hrow', hmem⟩ | hforgot
      · rw [hsame.treeReservations_get, hrow, Option.some.injEq] at hrow'
        subst hrow'
        exact hnot hmem
      · exact hno a ⟨history, _, [], rfl, hforgot, htarget, by simp [hrow]⟩

/-- A forgotten release gives a slot back for a process that had given one back already, then
or before. -/
theorem freed_twice (run : JournalRun history s) (hall : ∀ x ∈ history, AccountedCommand x.command)
    (h : ForgottenRelease history root q) : ¬ (freedList history root).Nodup := by
  obtain ⟨before, x, after, rfl, ⟨earlier, z, later, rfl, hq, hz⟩, htarget, hrow⟩ := h
  obtain ⟨row, hrow⟩ := Option.isSome_iff_exists.mp hrow
  obtain ⟨t, run₁, hsame⟩ := run_before run
  have hall₁ : ∀ y ∈ earlier ++ z :: later, AccountedCommand y.command :=
    fun y hy => hall y (List.mem_append_left _ hy)
  rw [← List.singleton_append, ← List.append_assoc] at run₁ hall₁
  obtain ⟨u, runz, runl⟩ := run₁.split
  have hallz := fun y hy => hall₁ y (List.mem_append_left _ hy)
  have hu : u.treeReservations.get root = none := by
    obtain ⟨v, -, hlast⟩ := runz.split
    rwa [← hlast.singleton.2]
  have hsplit : freedList ((earlier ++ z :: later) ++ x :: after) root =
      freedList (earlier ++ [z]) root ++ (freedList later root ++
        ((freedSlot x.pre x.command root).toList ++ freedList after root)) := by
    rw [← freedList_singleton, ← freedList_append, ← freedList_append, ← freedList_append]
    simp
  rw [hsplit]
  intro hnd
  refine List.disjoint_of_nodup_append hnd hq (List.mem_append.mpr ?_)
  by_cases hmem : q ∈ row.releasedProcesses
  · refine .inl (run_released_freed runl ?_ (run_count runz hallz).1 hu ?_ hmem)
    · exact fun y hy => hall₁ y (List.mem_append_right _ hy)
    · rw [hsame.treeReservations_get, hrow]
  · refine .inr (List.mem_append_left _ ?_)
    rw [freedSlot_eq_some.mpr ⟨htarget, row, hrow, hmem⟩]
    simp

theorem accounted_of_freed_once (run : JournalRun history s)
    (hall : ∀ x ∈ history, AccountedCommand x.command)
    (once : (freedList history root).Nodup) : Accounted history s root where
  count := by
    rw [freedIds, List.toFinset_card_of_nodup once]
    exact (run_count run hall).2 root
  once := once
  capped := by
    rintro earlier x later rfl htaken cap hcap
    obtain ⟨t, run₁, hsame⟩ := run_before run
    have hall₁ : ∀ y ∈ earlier, AccountedCommand y.command :=
      fun y hy => hall y (List.mem_append_left _ hy)
    have hx : AccountedCommand x.command := hall x (by simp)
    obtain ⟨hpos, hcount⟩ := run_count run₁ hall₁
    have hnd : (freedList (earlier ++ [x]) root).Nodup := by
      rw [← List.singleton_append, ← List.append_assoc, freedList_append] at once
      exact once.of_append_left
    have hcount' : x.pre.descendantCount root + (freedList earlier root).length =
        reservedTotal earlier root := by
      rw [← hcount root, descendantCount, descendantCount, hsame.treeReservations_get]
    rw [freedIds, List.toFinset_card_of_nodup hnd, freedList_append, freedList_singleton,
      reservedTotal_append, reservedTotal_singleton, List.length_append]
    cases advance_treeStep root (hpos.same hsame) hx with
    | keep _ taken => omega
    | take slots _ taken freed _ capped =>
      have := capped cap hcap
      simp only [freed, Option.toList_none, List.length_nil]
      omega
    | free _ _ _ _ taken => omega

/-- **Spawn-tree accounting.**  In a run whose releases give one slot back and which neither
prunes nor imports a row, the accounting of every root is right exactly when no valid release names a
process whose slot was given back under an earlier row of the root. -/
theorem slots_freed_once_iff {history : List JournalStep} {s : ProcessJournalMaterializedState}
    (run : JournalRun history s) (hall : ∀ x ∈ history, AccountedCommand x.command) :
    (∀ root, Accounted history s root) ↔ ∀ root q, ¬ ForgottenRelease history root q := by
  constructor
  · intro h root q hforgot
    exact freed_twice run hall hforgot (h root).once
  · intro h root
    exact accounted_of_freed_once run hall (freed_once run hall (h root))

/-- A slot is reserved, given back by process 7, reserved again for another, and given back once
more in the name of process 7. -/
def Sample.doubleRelease : List StoredProcessCommand :=
  let reserve := .reserveTree ⟨Sample.scope, Sample.processId 1, 1, 5⟩
  let release := .releaseTree ⟨Sample.scope, Sample.processId 1, 1, Sample.processId 7⟩
  [.submit (Sample.submission 1), reserve, release, reserve, release]

theorem Sample.doubleRelease_accounted : ∀ c ∈ Sample.doubleRelease, AccountedCommand c := by
  simp [Sample.doubleRelease, AccountedCommand, StoredProcessCommand.isImport]

/-- Two slots are taken and one process releases, yet no slot is left: the second release of
process 7 freed the slot of another. -/
theorem double_release_frees_two_slots :
    ∃ history s, JournalRun history s ∧ (∀ x ∈ history, AccountedCommand x.command) ∧
      ¬ ∀ root, Accounted history s root := by
  refine ⟨_, _, JournalRun.of_commands Sample.doubleRelease,
    Run.trace_forall _ empty Sample.doubleRelease_accounted, fun h => ?_⟩
  exact absurd (h (Sample.processId 1)).count (by decide)

theorem double_release_forgotten :
    ∃ root q, ForgottenRelease (Run.trace applyCommand empty Sample.doubleRelease) root q := by
  by_contra hno
  push Not at hno
  have h := (slots_freed_once_iff (JournalRun.of_commands Sample.doubleRelease)
    (Run.trace_forall _ empty Sample.doubleRelease_accounted)).mpr hno
  exact absurd (h (Sample.processId 1)).once (by decide)

end Ironclaw.Processes
