import Ironclaw.Hooks.Gates
import Ironclaw.Lib.Run

/-! # Hooks that broke

A hook that breaks denies the invocation it broke on, and its slot is poisoned
(`Progress.Settled`). A poisoned slot is not among the bindings of a later dispatch, which decides
as if the binding had never been registered (`dispatch_without`): the failure counts once. With no
other hook left, the next invocation is allowed (`broken_hook_allows_later`). -/

namespace Ironclaw.Hooks

/-- A dispatch as a step of the dispatcher; it rejects nothing. -/
def dispatchStep (d : HookDispatcher) (invocation : Invocation) :
    Except Empty (BeforeCapabilityDispatchOutcome × HookDispatcher) :=
  .ok (dispatchBeforeCapability d invocation)

/-- The hook was started and timed out, panicked or ended without a decision. -/
def Broke (d : HookDispatcher) (invocation : Invocation) (hookId : HookId) : Prop :=
  ∃ binding failure, Milestone.dispatched binding (.error failure) ∈
    (dispatchBeforeCapability d invocation).1.milestones ∧ binding.hookId = hookId

def Started (d : HookDispatcher) (invocation : Invocation) (hookId : HookId) : Prop :=
  ∃ binding result, Milestone.dispatched binding result ∈
    (dispatchBeforeCapability d invocation).1.milestones ∧ binding.hookId = hookId

/-- The dispatcher with a binding taken out. -/
def HookDispatcher.without (d : HookDispatcher) (hookId : HookId) : HookDispatcher :=
  { d with
    registry := d.registry.without hookId }

/-! ### Poisoned slots -/

namespace HookRegistry

variable {registry : HookRegistry} {hookId other : HookId}

theorem mem_poisonedIds : hookId ∈ registry.poisonedIds ↔
    ∃ binding ∈ registry.rows, binding.poisoned = true ∧ binding.hookId = hookId := by
  simp [poisonedIds, and_assoc]

theorem rows_poison (registry : HookRegistry) (hookId : HookId) :
    (registry.poison hookId).rows = registry.rows.map (poisonRow hookId) := rfl

theorem hookIds_poison (registry : HookRegistry) (hookId : HookId) :
    (registry.poison hookId).rows.map HookBinding.hookId =
      registry.rows.map HookBinding.hookId := by
  rw [rows_poison, List.map_map]
  exact List.map_congr_left fun binding _ => hookId_poisonRow hookId binding

theorem mem_poisonedIds_poison_of_mem (h : hookId ∈ registry.poisonedIds) (other : HookId) :
    hookId ∈ (registry.poison other).poisonedIds := by
  obtain ⟨binding, hrow, hpoisoned, rfl⟩ := mem_poisonedIds.1 h
  refine mem_poisonedIds.2 ⟨poisonRow other binding, ?_, ?_, hookId_poisonRow other binding⟩
  · rw [rows_poison]
    exact List.mem_map_of_mem hrow
  · unfold poisonRow
    split
    · rfl
    · exact hpoisoned

theorem mem_poisonedIds_poison_self (h : hookId ∈ registry.rows.map HookBinding.hookId) :
    hookId ∈ (registry.poison hookId).poisonedIds := by
  obtain ⟨binding, hrow, rfl⟩ := List.mem_map.1 h
  refine mem_poisonedIds.2 ⟨poisonRow binding.hookId binding, ?_, ?_, hookId_poisonRow _ binding⟩
  · rw [rows_poison]
    exact List.mem_map_of_mem hrow
  · rw [poisonRow, if_pos rfl]

theorem rows_without (registry : HookRegistry) (hookId : HookId) :
    (registry.without hookId).rows =
      registry.rows.filter fun binding => decide (binding.hookId ≠ hookId) := rfl

theorem orderedBindings_without (h : hookId ∈ registry.poisonedIds) (point : HookPointSpec) :
    (registry.without hookId).orderedBindings point = registry.orderedBindings point := by
  obtain ⟨poisoned, hpoisoned, hflag, rfl⟩ := mem_poisonedIds.1 h
  rw [orderedBindings, orderedBindings]
  congr 1
  rw [activeAt, activeAt, rows_without, List.filter_filter]
  refine List.filter_congr fun binding hrow => ?_
  by_cases hid : binding.hookId = poisoned.hookId
  · have heq : binding = poisoned := registry.eq_of_mem_of_key_eq hrow hpoisoned hid
    simp [heq, hflag]
  · simp [hid]

theorem poison_without (registry : HookRegistry) (hookId other : HookId) :
    (registry.poison other).without hookId = (registry.without hookId).poison other := by
  refine Table.eq_of_rows ?_
  rw [rows_poison, rows_without, rows_without, rows_poison, List.filter_map]
  congr 1
  refine List.filter_congr fun binding _ => ?_
  simp [hookId_poisonRow]

theorem poisonedIds_without (registry : HookRegistry) (hookId : HookId) :
    (registry.without hookId).poisonedIds =
      registry.poisonedIds.filter fun id => decide (id ≠ hookId) := by
  rw [poisonedIds, poisonedIds, rows_without, List.filter_map, List.filter_filter,
    List.filter_filter]
  congr 1
  refine List.filter_congr fun binding _ => ?_
  simp [Bool.and_comm]

end HookRegistry

/-! ### What a dispatch leaves -/

section Settled

variable {d : HookDispatcher} {invocation : Invocation} {p p' : Progress} {b : HookBinding}
  {bindings : List HookBinding}

/-- A hook that broke has denied the invocation, and its slot is poisoned. -/
def Progress.Settled (p : Progress) : Prop :=
  ∀ binding failure, Milestone.dispatched binding (.error failure) ∈ p.milestones →
    p.composed.rank = 3 ∧ binding.hookId ∈ p.registry.poisonedIds

/-- What one round of the loop leaves of an earlier one. -/
structure Progress.Extends (p p' : Progress) : Prop where
  hookIds : p'.registry.rows.map HookBinding.hookId = p.registry.rows.map HookBinding.hookId
  poisoned : ∀ id ∈ p.registry.poisonedIds, id ∈ p'.registry.poisonedIds

theorem Progress.Extends.refl (p : Progress) : p.Extends p := ⟨rfl, fun _ => id⟩

theorem Progress.Extends.trans {p'' : Progress} (h : p.Extends p') (h' : p'.Extends p'') :
    p.Extends p'' :=
  ⟨h'.hookIds.trans h.hookIds, fun id hid => h'.poisoned id (h.poisoned id hid)⟩

theorem extends_poison {registry : HookRegistry} (hookId : HookId)
    (h : p.registry = registry) (h' : p'.registry = registry.poison hookId) : p.Extends p' where
  hookIds := by rw [h, h', HookRegistry.hookIds_poison]
  poisoned id hid := by
    rw [h']
    exact HookRegistry.mem_poisonedIds_poison_of_mem (h ▸ hid) hookId

theorem extends_ran (p : Progress) (b : HookBinding)
    (result : Except HookFailureRecord GateHookOutcome) : p.Extends (p.ran b result) := by
  match result with
  | .ok .pass => exact ⟨rfl, fun _ => id⟩
  | .ok (.decision _ _) => exact ⟨rfl, fun _ => id⟩
  | .error failure =>
    refine extends_poison failure.hookId rfl ?_
    unfold Progress.ran
    dsimp only
    split <;> rfl

theorem extends_missing (p : Progress) (b : HookBinding) : p.Extends (p.missing b) :=
  extends_poison b.hookId rfl rfl

theorem milestones_ran (p : Progress) (b : HookBinding)
    (result : Except HookFailureRecord GateHookOutcome) :
    (p.ran b result).milestones = p.milestones ++ [.dispatched b result] := by
  match result with
  | .ok .pass => rfl
  | .ok (.decision _ _) => rfl
  | .error failure =>
    unfold Progress.ran
    dsimp only
    split <;> rfl

theorem Progress.Settled.missing (h : p.Settled) (b : HookBinding) : (p.missing b).Settled := by
  intro binding failure hmem
  have hbefore : Milestone.dispatched binding (.error failure) ∈ p.milestones := by
    rcases List.mem_append.1 hmem with hmem | hmem
    · exact hmem
    · exact absurd (List.mem_singleton.1 hmem) nofun
  obtain ⟨hrank, hpoisoned⟩ := h binding failure hbefore
  refine ⟨?_, (extends_missing p b).poisoned _ hpoisoned⟩
  rw [Progress.missing]
  dsimp only
  split
  · exact hrank
  · rfl

theorem Progress.Settled.exceeded (h : p.Settled) (b : HookBinding) : (p.exceeded b).Settled := by
  intro binding failure hmem
  have hbefore : Milestone.dispatched binding (.error failure) ∈ p.milestones := by
    rcases List.mem_append.1 hmem with hmem | hmem
    · exact hmem
    · exact absurd (List.mem_singleton.1 hmem) nofun
  obtain ⟨hrank, hpoisoned⟩ := h binding failure hbefore
  refine ⟨?_, hpoisoned⟩
  rw [Progress.exceeded]
  dsimp only
  rw [rank_composeGateDecision, hrank, GateDecision.rank_deny, max_self]

theorem Progress.Settled.ran (h : p.Settled) (hpoint : b.point = .beforeCapability)
    (hinstalled : d.beforeCapability b.hookId = true)
    (hknown : b.hookId ∈ p.registry.rows.map HookBinding.hookId) :
    (p.ran b (runBeforeCapabilityHook b (invocation.runs b.hookId))).Settled := by
  intro binding failure hmem
  have hrank : (p.ran b (runBeforeCapabilityHook b (invocation.runs b.hookId))).composed.rank =
      max p.composed.rank (verdict d invocation b) := rank_ran hpoint hinstalled
  have hextends := extends_ran p b (runBeforeCapabilityHook b (invocation.runs b.hookId))
  rw [milestones_ran, List.mem_append, List.mem_singleton] at hmem
  rcases hmem with hmem | heq
  · obtain ⟨hthree, hpoisoned⟩ := h binding failure hmem
    refine ⟨?_, hextends.poisoned _ hpoisoned⟩
    have hle := (p.ran b (runBeforeCapabilityHook b (invocation.runs b.hookId))).composed.rank_le_three
    omega
  · obtain ⟨rfl, hrun⟩ := Milestone.dispatched.inj heq
    have hverdict : verdict d invocation binding = 3 := by
      rw [verdict, if_neg (by simp [hinstalled]), ← hrun]
    obtain ⟨category, reason, rfl⟩ := runBeforeCapabilityHook_eq_error hrun.symm
    refine ⟨by rw [hrank, hverdict]; have := p.composed.rank_le_three; omega, ?_⟩
    have hregistry : (p.ran binding (.error (classifyFailure binding category reason))).registry =
        p.registry.poison binding.hookId := by
      unfold Progress.ran
      dsimp only
      split <;> rfl
    rw [← hrun, hregistry]
    exact HookRegistry.mem_poisonedIds_poison_self hknown

theorem settled_visitAll (h : Ready d invocation p bindings) (hs : p.Settled)
    (hknown : ∀ b ∈ bindings, b.hookId ∈ p.registry.rows.map HookBinding.hookId) :
    (visitAll d invocation p bindings).Settled ∧
      p.Extends (visitAll d invocation p bindings) := by
  induction bindings generalizing p with
  | nil => exact ⟨hs, .refl p⟩
  | cons b rest ih =>
    have hafter : ∀ p', p.Extends p' → p'.Settled → Ready d invocation p' rest →
        (visitAll d invocation p' rest).Settled ∧
          p.Extends (visitAll d invocation p' rest) := by
      intro p' hextends hsettled hready
      obtain ⟨hrest, hlater⟩ := ih hready hsettled fun c hc => by
        rw [hextends.hookIds]
        exact hknown c (List.mem_cons_of_mem _ hc)
      exact ⟨hrest, hextends.trans hlater⟩
    rw [visitAll]
    by_cases hopen : p.shortCircuited = false ∨ b.phase = .telemetry
    · rw [visit_eq h hopen]
      cases hinstalled : d.beforeCapability b.hookId with
      | false =>
        rw [if_pos rfl]
        exact hafter _ (extends_missing p b) (hs.missing b)
          (h.tail fun _ => mem_poisoned_missing)
      | true =>
        rw [if_neg (by simp)]
        by_cases hlimit : d.maxBeforeCapabilityHooksPerDispatch ≤ p.eligibleHooksEvaluated
        · rw [if_pos hlimit]
          exact ⟨hs.exceeded b, ⟨rfl, fun _ => id⟩⟩
        · rw [if_neg hlimit]
          exact hafter _ (extends_ran p b _)
            (hs.ran (h.gates b List.mem_cons_self) hinstalled (hknown b List.mem_cons_self))
            (h.tail fun _ => mem_poisoned_ran)
    · rw [visit_skip hopen]
      exact hafter p (.refl p) hs (h.tail fun _ => .inr)

variable (d invocation) in
theorem settled_finalProgress : (finalProgress d invocation).Settled ∧
    (Progress.start d.registry).Extends (finalProgress d invocation) := by
  rw [finalProgress_eq]
  refine settled_visitAll (ready_start d invocation) (by intro _ _ h; exact absurd h List.not_mem_nil) ?_
  intro b hb
  exact List.mem_map_of_mem (mem_orderedBindings.1 (List.mem_filter.1 hb).1).1

/-- A binding that is passed over or started is one of the list. -/
theorem mem_of_dispatched {result : Except HookFailureRecord GateHookOutcome}
    (h : Milestone.dispatched b result ∈ (visitAll d invocation p bindings).milestones) :
    Milestone.dispatched b result ∈ p.milestones ∨ b ∈ bindings := by
  induction bindings generalizing p with
  | nil => exact .inl h
  | cons c rest ih =>
    have hlater : ∀ p', Milestone.dispatched b result ∈ (visitAll d invocation p' rest).milestones →
        (Milestone.dispatched b result ∈ p'.milestones →
          Milestone.dispatched b result ∈ p.milestones ∨ b = c) →
        Milestone.dispatched b result ∈ p.milestones ∨ b ∈ c :: rest := by
      intro p' hmem hnow
      rcases ih hmem with hmem | hmem
      · rcases hnow hmem with hmem | rfl
        · exact .inl hmem
        · exact .inr List.mem_cons_self
      · exact .inr (List.mem_cons_of_mem _ hmem)
    have hfailed : ∀ record, Milestone.dispatched b result ∈
        p.milestones ++ [Milestone.failed record] →
        Milestone.dispatched b result ∈ p.milestones := by
      intro record hmem
      rcases List.mem_append.1 hmem with hmem | hmem
      · exact hmem
      · exact absurd (List.mem_singleton.1 hmem) nofun
    rw [visitAll, visit] at h
    split_ifs at h
    · exact hlater p h .inl
    · exact hlater p h .inl
    · exact hlater p h .inl
    · exact hlater _ h fun hmem => .inl (hfailed _ hmem)
    · exact .inl (hfailed _ h)
    · refine hlater _ h fun hmem => ?_
      rw [milestones_ran, List.mem_append, List.mem_singleton] at hmem
      exact hmem.imp_right fun heq => (Milestone.dispatched.inj heq).1

end Settled

/-! ### Without a slot -/

section Without

variable {d : HookDispatcher} {invocation : Invocation} {hookId : HookId} {b : HookBinding}

/-- A progress that never saw the slot. -/
def Progress.without (p : Progress) (hookId : HookId) : Progress :=
  { p with
    registry := p.registry.without hookId
    poisoned := p.poisoned.filter fun id => decide (id ≠ hookId) }

theorem without_poison (p : Progress) {other : HookId} (hne : other ≠ hookId) :
    (p.poison other).without hookId = (p.without hookId).poison other := by
  simp [Progress.poison, Progress.without, HookRegistry.poison_without, hne]

theorem without_missing (p : Progress) (hne : b.hookId ≠ hookId) :
    (p.missing b).without hookId = (p.without hookId).missing b := by
  simp [Progress.missing, Progress.without, Progress.poison, Progress.emit, Progress.fail,
    HookRegistry.poison_without, hne]

theorem without_ran (p : Progress) (hne : b.hookId ≠ hookId) (run : HookRun) :
    (p.ran b (runBeforeCapabilityHook b run)).without hookId =
      (p.without hookId).ran b (runBeforeCapabilityHook b run) := by
  cases hrun : runBeforeCapabilityHook b run with
  | ok outcome => cases outcome <;> rfl
  | error failure =>
    obtain ⟨category, reason, rfl⟩ := runBeforeCapabilityHook_eq_error hrun
    let failure := classifyFailure b category reason
    let started : Progress :=
      { p.emit (.dispatched b (.error failure)) with
        eligibleHooksEvaluated := p.eligibleHooksEvaluated + 1 }
    have hpoison := without_poison started hne
    unfold Progress.ran
    dsimp only
    split
    · exact congrArg (fun q => (q.fail failure).compose (.deny reason)) hpoison
    · exact congrArg (fun q => q.fail failure) hpoison

theorem visit_without (p : Progress) (hne : b.hookId ≠ hookId) :
    visit (d.without hookId) invocation (p.without hookId) b =
      match visit d invocation p b with
      | .next p' => .next (p'.without hookId)
      | .stop p' => .stop (p'.without hookId) := by
  have hpoisoned : b.hookId ∈ (p.without hookId).poisoned ↔ b.hookId ∈ p.poisoned := by
    simp [Progress.without, hne]
  have hshort : (p.without hookId).shortCircuited = p.shortCircuited := rfl
  have hevaluated : (p.without hookId).eligibleHooksEvaluated = p.eligibleHooksEvaluated := rfl
  have hinstalled : (d.without hookId).beforeCapability = d.beforeCapability := rfl
  have hlimit : (d.without hookId).maxBeforeCapabilityHooksPerDispatch =
      d.maxBeforeCapabilityHooksPerDispatch := rfl
  unfold visit
  simp only [hpoisoned, hshort, hevaluated, hinstalled, hlimit]
  split_ifs
  · rfl
  · rfl
  · rfl
  · exact congrArg Visit.next (without_missing p hne).symm
  · rfl
  · exact congrArg Visit.next (without_ran p hne _).symm

theorem visitAll_without (p : Progress) {bindings : List HookBinding}
    (hne : ∀ b ∈ bindings, b.hookId ≠ hookId) :
    visitAll (d.without hookId) invocation (p.without hookId) bindings =
      (visitAll d invocation p bindings).without hookId := by
  induction bindings generalizing p with
  | nil => rfl
  | cons b rest ih =>
    rw [List.forall_mem_cons] at hne
    rw [visitAll, visitAll, visit_without p hne.1]
    cases visit d invocation p b with
    | next p' => exact ih p' hne.2
    | stop p' => rfl

theorem hookId_ne_of_poisoned (h : hookId ∈ d.registry.poisonedIds)
    (hb : b ∈ d.registry.orderedBindings .beforeCapability) : b.hookId ≠ hookId := by
  obtain ⟨hrow, -, hactive⟩ := mem_orderedBindings.1 hb
  obtain ⟨poisoned, hpoisoned, hflag, rfl⟩ := HookRegistry.mem_poisonedIds.1 h
  intro hid
  rw [d.registry.eq_of_mem_of_key_eq hrow hpoisoned hid, hflag] at hactive
  exact absurd hactive nofun

theorem dispatch_without (invocation : Invocation) (h : hookId ∈ d.registry.poisonedIds) :
    (dispatchBeforeCapability (d.without hookId) invocation).1 =
      (dispatchBeforeCapability d invocation).1 := by
  have hstart : Progress.start (d.without hookId).registry =
      (Progress.start d.registry).without hookId := by
    simp [Progress.start, Progress.without, HookDispatcher.without,
      HookRegistry.poisonedIds_without]
  have hordered : (d.without hookId).registry.orderedBindings .beforeCapability =
      d.registry.orderedBindings .beforeCapability :=
    HookRegistry.orderedBindings_without h _
  have hfinal : finalProgress (d.without hookId) invocation =
      (finalProgress d invocation).without hookId := by
    rw [finalProgress, finalProgress, hstart, hordered]
    exact visitAll_without _ fun b hb => hookId_ne_of_poisoned h hb
  simp only [dispatchBeforeCapability, hfinal]
  rfl

end Without

/-! ### Runs -/

section Runs

variable {d₀ d : HookDispatcher} {history : List (Step HookDispatcher Invocation)}

variable {invocation : Invocation}

theorem Broke.denies {hookId : HookId} (h : Broke d invocation hookId) :
    (dispatchBeforeCapability d invocation).1.decision.rank = 3 := by
  obtain ⟨binding, failure, hmem, -⟩ := h
  exact ((settled_finalProgress d invocation).1 binding failure hmem).1

theorem Broke.poisons {hookId : HookId} (h : Broke d invocation hookId) :
    hookId ∈ (dispatchBeforeCapability d invocation).2.registry.poisonedIds := by
  obtain ⟨binding, failure, hmem, rfl⟩ := h
  exact ((settled_finalProgress d invocation).1 binding failure hmem).2

theorem not_started {hookId : HookId}
    (h : hookId ∈ d.registry.poisonedIds) : ¬ Started d invocation hookId := by
  rintro ⟨binding, result, hmem, hid⟩
  rcases mem_of_dispatched (show _ ∈ (finalProgress d invocation).milestones from hmem) with
    hbefore | hbinding
  · exact absurd hbefore List.not_mem_nil
  · exact hookId_ne_of_poisoned h hbinding hid

/-- A hook that breaks denies the invocation it breaks on. From then on it is not started, and every
dispatch decides as if it had not been registered. -/
theorem broken_hook_counts_once (run : Run Eq dispatchStep d₀ history d) :
    (∀ x ∈ history, ∀ hookId, Broke x.pre x.command hookId →
        ∃ reason, (dispatchBeforeCapability x.pre x.command).1.decision = .deny reason) ∧
      history.Pairwise fun x y => ∀ hookId, Broke x.pre x.command hookId →
        ¬ Started y.pre y.command hookId ∧
          (dispatchBeforeCapability y.pre y.command).1 =
            (dispatchBeforeCapability (y.pre.without hookId) y.command).1 := by
  constructor
  · intro x _ hookId hbroke
    have hrank := hbroke.denies
    cases hdecision : (dispatchBeforeCapability x.pre x.command).1.decision with
    | deny reason => exact ⟨reason, rfl⟩
    | allow | pauseApproval | pauseAuth =>
      rw [hdecision] at hrank
      exact absurd hrank (by simp [GateDecision.rank])
  · -- a slot stays poisoned, in every state that is reached later
    have hkept : history.Pairwise (fun x y => ∀ hookId, Broke x.pre x.command hookId →
        hookId ∈ y.pre.registry.poisonedIds) ∧
        ∀ x ∈ history, ∀ hookId, Broke x.pre x.command hookId →
          hookId ∈ d.registry.poisonedIds := by
      refine run.induct_history (A := fun _ => True) (I := fun history d =>
        history.Pairwise (fun x y => ∀ hookId, Broke x.pre x.command hookId →
          hookId ∈ y.pre.registry.poisonedIds) ∧
        ∀ x ∈ history, ∀ hookId, Broke x.pre x.command hookId →
          hookId ∈ d.registry.poisonedIds)
        ⟨List.Pairwise.nil, List.forall_mem_nil _⟩ ?_ ?_ fun _ _ => trivial
      · rintro history d t rfl h
        exact h
      · rintro history d c - ⟨hpairs, hnow⟩
        constructor
        · rw [List.pairwise_append]
          refine ⟨hpairs, List.pairwise_singleton _ _, ?_⟩
          intro x hx y hy hookId hbroke
          rw [List.mem_singleton.1 hy]
          exact hnow x hx hookId hbroke
        · rw [List.forall_mem_append, List.forall_mem_singleton]
          refine ⟨fun x hx hookId hbroke => ?_, fun hookId hbroke => hbroke.poisons⟩
          exact (settled_finalProgress d c).2.poisoned hookId (hnow x hx hookId hbroke)
    refine hkept.1.imp fun h hookId hbroke => ?_
    have hpoisoned := h hookId hbroke
    exact ⟨not_started hpoisoned, (dispatch_without _ hpoisoned).symm⟩

end Runs

def onePolicy : HookDispatcher where
  registry := ⟨[policyBinding ⟨1⟩ 100], by decide⟩
  beforeCapability _ := true
  maxBeforeCapabilityHooksPerDispatch := 64

/-- The hook panics. -/
def panicking : Invocation where
  provider := none
  runs _ := .panicked

theorem broke_panicking : Broke onePolicy panicking ⟨1⟩ :=
  ⟨policyBinding ⟨1⟩ 100, classifyFailure (policyBinding ⟨1⟩ 100) .panic "hook panicked",
    by decide +kernel, rfl⟩

theorem broken_hook_counts_once_sample :
    Broke onePolicy panicking ⟨1⟩ ∧
      ∃ reason, (dispatchBeforeCapability onePolicy panicking).1.decision = .deny reason :=
  ⟨broke_panicking,
    (broken_hook_counts_once (.of_commands (fun _ => rfl) [panicking, panicking] onePolicy)).1
      ⟨onePolicy, panicking, advance dispatchStep onePolicy panicking⟩ List.mem_cons_self ⟨1⟩
      broke_panicking⟩

/-- The hook panics on every invocation; the first is denied and the second allowed. -/
theorem broken_hook_allows_later :
    ¬ (Run.trace dispatchStep onePolicy [panicking, panicking]).Pairwise fun x y =>
      ∀ binding ∈ x.pre.registry.rows, inScope y.command binding = true →
        Broke x.pre x.command binding.hookId →
        (dispatchBeforeCapability y.pre y.command).1.decision ≠ .allow := by
  intro h
  have hsecond := List.rel_of_pairwise_cons h List.mem_cons_self (policyBinding ⟨1⟩ 100)
    List.mem_cons_self rfl broke_panicking
  exact hsecond (by decide +kernel)

end Ironclaw.Hooks
