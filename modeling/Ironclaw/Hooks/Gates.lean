import Ironclaw.Hooks.Dispatch

/-! # The composed gate decision

A dispatch composes the verdicts of the hooks that it starts. The first verdict other than an allow
ends the gate phases: from then on only telemetry hooks that have an implementation are started, and
a verdict of any other binding, a deny behind a pause included, is not seen. `rank_decision` says
which verdicts count (`counted`). -/

namespace Ironclaw.Hooks

section Verdicts

variable (d : HookDispatcher) (invocation : Invocation)

/-- The rank of what a binding says to an invocation: a failure, and a binding without
implementation, are denials. -/
def verdict (binding : HookBinding) : ℕ :=
  if d.beforeCapability binding.hookId = false then 3
  else
    match runBeforeCapabilityHook binding (invocation.runs binding.hookId) with
    | .ok .pass => 0
    | .ok (.decision decision _) => decision.rank
    | .error _ => 3

/-- The highest rank among the verdicts of some bindings. -/
def highest (bindings : List HookBinding) : ℕ :=
  (bindings.map (verdict d invocation)).foldr max 0

/-- The bindings that are active and fire against an invocation, in their order. -/
def eligibleBindings : List HookBinding :=
  (d.registry.orderedBindings .beforeCapability).filter (inScope invocation)

/-- A binding that is started also after the gates were short-circuited. -/
def exempt (binding : HookBinding) : Bool :=
  decide (binding.phase = .telemetry) && d.beforeCapability binding.hookId

/-- The bindings whose verdicts the loop gets to see, apart from those that allow. -/
def counted : List HookBinding → List HookBinding
  | [] => []
  | binding :: rest =>
    if verdict d invocation binding = 0 then counted rest
    else binding :: rest.filter (exempt d)

/-- Behind the first verdict that does not allow, no binding that is not started any more says more
than that verdict or than a hook that is still started. -/
def Exposed (bindings : List HookBinding) : Prop :=
  ∀ before first after, bindings = before ++ first :: after →
    (∀ b ∈ before, verdict d invocation b = 0) → verdict d invocation first ≠ 0 →
    ∀ b ∈ after, exempt d b = false →
      verdict d invocation b ≤ verdict d invocation first ∨
        ∃ t ∈ after, exempt d t = true ∧ verdict d invocation b ≤ verdict d invocation t

end Verdicts

/-! ### The highest of some verdicts -/

section Highest

variable {d : HookDispatcher} {invocation : Invocation} {bindings others : List HookBinding}

theorem highest_cons (binding : HookBinding) :
    highest d invocation (binding :: bindings) =
      max (verdict d invocation binding) (highest d invocation bindings) := rfl

theorem highest_le {n : ℕ} :
    highest d invocation bindings ≤ n ↔ ∀ b ∈ bindings, verdict d invocation b ≤ n := by
  induction bindings with
  | nil => simp [highest]
  | cons b rest ih => rw [highest_cons, max_le_iff, ih, List.forall_mem_cons]

theorem le_highest {b : HookBinding} (hb : b ∈ bindings) :
    verdict d invocation b ≤ highest d invocation bindings :=
  highest_le.1 le_rfl b hb

theorem exists_of_le_highest {n : ℕ} (hn : n ≠ 0) (h : n ≤ highest d invocation bindings) :
    ∃ b ∈ bindings, n ≤ verdict d invocation b := by
  by_contra hnone
  push Not at hnone
  obtain ⟨m, rfl⟩ := Nat.exists_eq_succ_of_ne_zero hn
  have hle : highest d invocation bindings ≤ m := by
    rw [highest_le]
    intro b hb
    exact Nat.le_of_lt_succ (hnone b hb)
  omega

theorem counted_subset : counted d invocation bindings ⊆ bindings := by
  induction bindings with
  | nil => simp [counted]
  | cons b rest ih =>
    rw [counted]
    split
    · exact List.subset_cons_of_subset b ih
    · exact List.cons_subset_cons b (List.filter_subset_self _)

theorem counted_append {before : List HookBinding} (h : ∀ b ∈ before, verdict d invocation b = 0) :
    counted d invocation (before ++ bindings) = counted d invocation bindings := by
  induction before with
  | nil => rfl
  | cons b rest ih =>
    rw [List.forall_mem_cons] at h
    rw [List.cons_append, counted, if_pos h.1, ih h.2]

theorem exists_first (d : HookDispatcher) (invocation : Invocation) (bindings : List HookBinding) :
    (∀ b ∈ bindings, verdict d invocation b = 0) ∨
      ∃ before first after, bindings = before ++ first :: after ∧
        (∀ b ∈ before, verdict d invocation b = 0) ∧ verdict d invocation first ≠ 0 := by
  induction bindings with
  | nil => exact .inl (List.forall_mem_nil _)
  | cons b rest ih =>
    by_cases hb : verdict d invocation b = 0
    · rcases ih with hall | ⟨before, first, after, rfl, hbefore, hfirst⟩
      · exact .inl (List.forall_mem_cons.2 ⟨hb, hall⟩)
      · exact .inr ⟨b :: before, first, after, rfl, List.forall_mem_cons.2 ⟨hb, hbefore⟩, hfirst⟩
    · exact .inr ⟨[], b, rest, rfl, List.forall_mem_nil _, hb⟩

/-- The verdicts that count are as high as all of them exactly where nothing is hidden. -/
theorem highest_counted_iff :
    highest d invocation (counted d invocation bindings) = highest d invocation bindings ↔
      Exposed d invocation bindings := by
  have hle : highest d invocation (counted d invocation bindings) ≤
      highest d invocation bindings :=
    highest_le.2 fun b hb => le_highest (counted_subset hb)
  constructor
  · rintro heq before first after rfl hbefore hfirst b hb -
    have hverdict : verdict d invocation b ≤
        highest d invocation (first :: after.filter (exempt d)) := by
      rw [counted_append hbefore, counted, if_neg hfirst] at heq
      rw [heq]
      exact le_highest (List.mem_append_right _ (List.mem_cons_of_mem _ hb))
    by_cases hzero : verdict d invocation b = 0
    · rw [hzero]
      exact .inl (Nat.zero_le _)
    obtain ⟨t, ht, htb⟩ := exists_of_le_highest hzero hverdict
    rcases List.mem_cons.1 ht with rfl | ht
    · exact .inl htb
    · rw [List.mem_filter] at ht
      exact .inr ⟨t, ht.1, ht.2, htb⟩
  · intro hexposed
    refine le_antisymm hle (highest_le.2 ?_)
    rcases exists_first d invocation bindings with hall |
      ⟨before, first, after, rfl, hbefore, hfirst⟩
    · intro b hb
      rw [hall b hb]
      exact Nat.zero_le _
    rw [counted_append hbefore, counted, if_neg hfirst]
    have hfirst_le : verdict d invocation first ≤
        highest d invocation (first :: after.filter (exempt d)) := le_highest List.mem_cons_self
    have hexempt_le : ∀ t ∈ after, exempt d t = true → verdict d invocation t ≤
        highest d invocation (first :: after.filter (exempt d)) := by
      intro t ht hexempt
      exact le_highest (List.mem_cons_of_mem _ (List.mem_filter.2 ⟨ht, hexempt⟩))
    intro b hb
    rcases List.mem_append.1 hb with hb | hb
    · rw [hbefore b hb]
      exact Nat.zero_le _
    rcases List.mem_cons.1 hb with rfl | hb
    · exact hfirst_le
    cases hexempt : exempt d b with
    | true => exact hexempt_le b hb hexempt
    | false =>
      rcases hexposed before first after rfl hbefore hfirst b hb hexempt with hless |
        ⟨t, ht, hstarted, hless⟩
      · exact hless.trans hfirst_le
      · exact hless.trans (hexempt_le t ht hstarted)

end Highest

/-! ### The loop -/

section Loop

variable {d : HookDispatcher} {invocation : Invocation} {p p' : Progress} {b : HookBinding}
  {bindings : List HookBinding}

/-- A binding that does not fire is passed over. -/
theorem visitAll_filter (p : Progress) (bindings : List HookBinding) :
    visitAll d invocation p bindings =
      visitAll d invocation p (bindings.filter (inScope invocation)) := by
  induction bindings generalizing p with
  | nil => rfl
  | cons b rest ih =>
    cases hscope : inScope invocation b with
    | false =>
      have hskip : visit d invocation p b = .next p := by
        simp [visit, hscope]
      rw [visitAll, hskip, List.filter_cons_of_neg (by simp [hscope])]
      exact ih p
    | true =>
      rw [List.filter_cons_of_pos hscope, visitAll, visitAll]
      cases visit d invocation p b with
      | next p' => exact ih p'
      | stop p' => rfl

/-- What the rest of the loop can rely on. -/
structure Ready (d : HookDispatcher) (invocation : Invocation) (p : Progress)
    (bindings : List HookBinding) : Prop where
  distinct : (bindings.map HookBinding.hookId).Nodup
  fresh : ∀ b ∈ bindings, b.hookId ∉ p.poisoned
  fires : ∀ b ∈ bindings, inScope invocation b = true
  gates : ∀ b ∈ bindings, b.point = .beforeCapability

theorem Ready.tail (h : Ready d invocation p (b :: bindings))
    (hpoisoned : ∀ id ∈ p'.poisoned, id = b.hookId ∨ id ∈ p.poisoned) :
    Ready d invocation p' bindings where
  distinct := (List.nodup_cons.1 h.distinct).2
  fresh := by
    intro c hc hmem
    rcases hpoisoned _ hmem with heq | hmem
    · have hnot := (List.nodup_cons.1 h.distinct).1
      rw [← heq] at hnot
      exact hnot (List.mem_map_of_mem hc)
    · exact h.fresh c (List.mem_cons_of_mem _ hc) hmem
  fires c hc := h.fires c (List.mem_cons_of_mem _ hc)
  gates c hc := h.gates c (List.mem_cons_of_mem _ hc)

theorem mem_poisoned_missing {id : HookId} (h : id ∈ (p.missing b).poisoned) :
    id = b.hookId ∨ id ∈ p.poisoned :=
  List.mem_cons.1 h

theorem mem_poisoned_ran {id : HookId} {run : HookRun}
    (h : id ∈ (p.ran b (runBeforeCapabilityHook b run)).poisoned) :
    id = b.hookId ∨ id ∈ p.poisoned := by
  cases hrun : runBeforeCapabilityHook b run with
  | ok outcome =>
    rw [hrun] at h
    cases outcome <;> exact .inr h
  | error failure =>
    obtain ⟨category, reason, rfl⟩ := runBeforeCapabilityHook_eq_error hrun
    rw [hrun] at h
    unfold Progress.ran at h
    dsimp only at h
    split at h <;> exact List.mem_cons.1 h

theorem rank_ran (hpoint : b.point = .beforeCapability)
    (hinstalled : d.beforeCapability b.hookId = true) :
    (p.ran b (runBeforeCapabilityHook b (invocation.runs b.hookId))).composed.rank =
      max p.composed.rank (verdict d invocation b) := by
  unfold verdict
  rw [if_neg (by simp [hinstalled])]
  cases hrun : runBeforeCapabilityHook b (invocation.runs b.hookId) with
  | ok outcome =>
    cases outcome with
    | pass => simp [Progress.ran, Progress.emit]
    | decision decision audit => simp [Progress.ran, Progress.compose, Progress.emit]
  | error failure =>
    obtain ⟨category, reason, rfl⟩ := runBeforeCapabilityHook_eq_error hrun
    simp [Progress.ran, classifyFailure, hpoint, decisionKindFor, FailureCategory.dispositionFor,
      Progress.compose, Progress.fail, Progress.poison, Progress.emit]

/-- The gates are short-circuited exactly when the composed decision does not allow. -/
def Progress.Coherent (p : Progress) : Prop := p.shortCircuited = true ↔ p.composed ≠ .allow

theorem Progress.Coherent.compose (h : p.Coherent) (decision : GateDecision) :
    (p.compose decision).Coherent := by
  rw [Coherent, Progress.compose, Bool.or_eq_true, decide_eq_true_eq]
  refine or_iff_right_of_imp fun hs => ?_
  have hne := h.1 hs
  rw [ne_eq, ← GateDecision.rank_eq_zero] at hne ⊢
  rw [rank_composeGateDecision]
  omega

theorem Progress.Coherent.ran (h : p.Coherent) (b : HookBinding)
    (result : Except HookFailureRecord GateHookOutcome) : (p.ran b result).Coherent := by
  have hstarted : Progress.Coherent
      { p.emit (.dispatched b result) with
        eligibleHooksEvaluated := p.eligibleHooksEvaluated + 1 } := h
  match result with
  | .ok .pass => exact h
  | .ok (.decision decision _) => exact hstarted.compose decision
  | .error failure =>
    unfold Progress.ran
    dsimp only
    split
    · exact Coherent.compose (by exact h) _
    · exact h

theorem evaluated_ran (run : HookRun) :
    (p.ran b (runBeforeCapabilityHook b run)).eligibleHooksEvaluated =
      p.eligibleHooksEvaluated + 1 := by
  cases hrun : runBeforeCapabilityHook b run with
  | ok outcome => cases outcome <;> rfl
  | error failure =>
    unfold Progress.ran
    dsimp only
    split <;> rfl

theorem composed_missing_of_open (h : p.shortCircuited = false) :
    (p.missing b).composed = .deny "hook binding missing implementation" :=
  if_neg (by simp [h])

theorem Progress.Coherent.missing (h : (p.missing b).composed ≠ .allow) : (p.missing b).Coherent :=
  ⟨fun _ => h, fun _ => rfl⟩

/-- The rounds of the loop for a binding that fires. -/
theorem visit_eq (h : Ready d invocation p (b :: bindings))
    (hopen : p.shortCircuited = false ∨ b.phase = .telemetry) :
    visit d invocation p b =
      if d.beforeCapability b.hookId = false then .next (p.missing b)
      else if d.maxBeforeCapabilityHooksPerDispatch ≤ p.eligibleHooksEvaluated then
        .stop (p.exceeded b)
      else .next (p.ran b (runBeforeCapabilityHook b (invocation.runs b.hookId))) := by
  have hskip : ¬ (p.shortCircuited = true ∧ b.phase ≠ .telemetry) := by
    rcases hopen with hs | ht
    · simp [hs]
    · simp [ht]
  unfold visit
  rw [if_neg hskip, if_neg (h.fresh b List.mem_cons_self),
    if_neg (by simp [h.fires b List.mem_cons_self])]

theorem visit_skip (h : ¬ (p.shortCircuited = false ∨ b.phase = .telemetry)) :
    visit d invocation p b = .next p := by
  rw [not_or, Bool.not_eq_false] at h
  simp [visit, h.1, h.2]

variable (h : Ready d invocation p bindings)
include h

/-- Once the gates are short-circuited, the verdicts of the exempt bindings are added. -/
theorem rank_visitAll_of_shortCircuited (hc : p.Coherent) (hs : p.shortCircuited = true)
    (hbudget : p.eligibleHooksEvaluated + bindings.length ≤
      d.maxBeforeCapabilityHooksPerDispatch) :
    (visitAll d invocation p bindings).composed.rank =
      max p.composed.rank (highest d invocation (bindings.filter (exempt d))) := by
  induction bindings generalizing p with
  | nil => simp [visitAll, highest]
  | cons b rest ih =>
    rw [List.length_cons] at hbudget
    by_cases htelemetry : b.phase = .telemetry
    · rw [visitAll, visit_eq h (.inr htelemetry)]
      cases hinstalled : d.beforeCapability b.hookId with
      | false =>
        rw [if_pos rfl, List.filter_cons_of_neg (by simp [exempt, hinstalled])]
        have hcomposed : (p.missing b).composed = p.composed := if_pos hs
        have hcoherent : (p.missing b).Coherent := by
          apply Progress.Coherent.missing
          rw [hcomposed]
          exact hc.1 hs
        rw [← hcomposed]
        exact ih (h.tail fun _ => mem_poisoned_missing) hcoherent rfl
          (by change p.eligibleHooksEvaluated + _ ≤ _; omega)
      | true =>
        have hlt : ¬ d.maxBeforeCapabilityHooksPerDispatch ≤ p.eligibleHooksEvaluated := by
          omega
        rw [if_neg (by simp), if_neg hlt,
          List.filter_cons_of_pos (by simp [exempt, hinstalled, htelemetry])]
        have hpoint := h.gates b List.mem_cons_self
        have hcoherent := hc.ran b (runBeforeCapabilityHook b (invocation.runs b.hookId))
        refine (ih (h.tail fun _ => mem_poisoned_ran) hcoherent ?_ ?_).trans ?_
        · have hne := hc.1 hs
          apply hcoherent.2
          rw [ne_eq, ← GateDecision.rank_eq_zero] at hne ⊢
          rw [rank_ran hpoint hinstalled]
          omega
        · rw [evaluated_ran]
          omega
        · rw [rank_ran hpoint hinstalled, highest_cons, max_assoc]
    · rw [visitAll, visit_skip (by simp [hs, htelemetry]),
        List.filter_cons_of_neg (by simp [exempt, htelemetry])]
      exact ih (h.tail fun _ => .inr) hc hs (by omega)

/-- While everything allows, the loop composes the verdicts that count. -/
theorem rank_visitAll (hc : p.Coherent) (hallow : p.composed = .allow)
    (hbudget : p.eligibleHooksEvaluated + bindings.length ≤
      d.maxBeforeCapabilityHooksPerDispatch) :
    (visitAll d invocation p bindings).composed.rank =
      highest d invocation (counted d invocation bindings) := by
  induction bindings generalizing p with
  | nil => simp [visitAll, counted, highest, hallow, GateDecision.rank]
  | cons b rest ih =>
    rw [List.length_cons] at hbudget
    have hopen : p.shortCircuited = false := by
      rw [← Bool.not_eq_true]
      exact fun hs => hc.1 hs hallow
    rw [visitAll, visit_eq h (.inl hopen), counted]
    cases hinstalled : d.beforeCapability b.hookId with
    | false =>
      have hverdict : verdict d invocation b = 3 := if_pos hinstalled
      have hcomposed : (p.missing b).composed = .deny "hook binding missing implementation" :=
        composed_missing_of_open hopen
      have hcoherent : (p.missing b).Coherent := by
        apply Progress.Coherent.missing
        rw [hcomposed]
        simp
      rw [if_pos rfl, if_neg (by simp [hverdict]), highest_cons, hverdict]
      refine (rank_visitAll_of_shortCircuited (h.tail fun _ => mem_poisoned_missing)
        hcoherent rfl ?_).trans ?_
      · change p.eligibleHooksEvaluated + _ ≤ _
        omega
      · rw [hcomposed, GateDecision.rank_deny]
    | true =>
      have hlt : ¬ d.maxBeforeCapabilityHooksPerDispatch ≤ p.eligibleHooksEvaluated := by omega
      have hrank : (p.ran b (runBeforeCapabilityHook b
          (invocation.runs b.hookId))).composed.rank = verdict d invocation b := by
        rw [rank_ran (h.gates b List.mem_cons_self) hinstalled,
          GateDecision.rank_eq_zero.2 hallow, Nat.zero_max]
      have hcoherent := hc.ran b (runBeforeCapabilityHook b (invocation.runs b.hookId))
      have hready : Ready d invocation
          (p.ran b (runBeforeCapabilityHook b (invocation.runs b.hookId))) rest :=
        h.tail fun _ => mem_poisoned_ran
      have hrest : (p.ran b (runBeforeCapabilityHook b
          (invocation.runs b.hookId))).eligibleHooksEvaluated + rest.length ≤
          d.maxBeforeCapabilityHooksPerDispatch := by
        rw [evaluated_ran]
        omega
      rw [if_neg (by simp), if_neg hlt]
      by_cases hverdict : verdict d invocation b = 0
      · rw [if_pos hverdict]
        exact ih hready hcoherent (GateDecision.rank_eq_zero.1 (hrank.trans hverdict)) hrest
      · rw [if_neg hverdict, highest_cons, ← hrank]
        refine rank_visitAll_of_shortCircuited hready hcoherent (hcoherent.2 ?_) hrest
        rw [ne_eq, ← GateDecision.rank_eq_zero, hrank]
        exact hverdict

omit h in
theorem GateDecision.rank_le_three (decision : GateDecision) : decision.rank ≤ 3 := by
  cases decision <;> simp [rank]

/-- The composed decision never gets less restrictive. -/
theorem rank_le_visitAll : p.composed.rank ≤ (visitAll d invocation p bindings).composed.rank := by
  induction bindings generalizing p with
  | nil => exact le_rfl
  | cons b rest ih =>
    by_cases hopen : p.shortCircuited = false ∨ b.phase = .telemetry
    · rw [visitAll, visit_eq h hopen]
      cases hinstalled : d.beforeCapability b.hookId with
      | false =>
        rw [if_pos rfl]
        refine le_trans ?_ (ih (h.tail fun _ => mem_poisoned_missing))
        rw [Progress.missing]
        split
        · exact le_rfl
        · exact p.composed.rank_le_three
      | true =>
        rw [if_neg (by simp)]
        split
        · rename_i p' hstop
          split at hstop
          · exact absurd hstop nofun
          · obtain rfl := Visit.next.inj hstop
            refine le_trans ?_ (ih (h.tail fun _ => mem_poisoned_ran))
            rw [rank_ran (h.gates b List.mem_cons_self) hinstalled]
            exact le_max_left _ _
        · rename_i p' hstop
          split at hstop
          · obtain rfl := Visit.stop.inj hstop
            exact (rank_composeGateDecision _ _).ge.trans' (le_max_left _ _)
          · exact absurd hstop nofun
    · rw [visitAll, visit_skip hopen]
      exact ih (h.tail fun _ => .inr)

/-- Where the outcome is an allow, every installed hook was started. -/
theorem evaluated_of_allow (hc : p.Coherent)
    (hbudget : p.eligibleHooksEvaluated ≤ d.maxBeforeCapabilityHooksPerDispatch)
    (hallow : (visitAll d invocation p bindings).composed = .allow) :
    p.eligibleHooksEvaluated + (bindings.filter fun b => d.beforeCapability b.hookId).length ≤
      d.maxBeforeCapabilityHooksPerDispatch := by
  induction bindings generalizing p with
  | nil => simpa using hbudget
  | cons b rest ih =>
    have hopen : p.shortCircuited = false := by
      rw [← Bool.not_eq_true]
      intro hs
      have hle := rank_le_visitAll h
      rw [hallow] at hle
      exact hc.1 hs (GateDecision.rank_eq_zero.1 (Nat.le_zero.1 hle))
    rw [visitAll, visit_eq h (.inl hopen)] at hallow
    cases hinstalled : d.beforeCapability b.hookId with
    | false =>
      rw [hinstalled, if_pos rfl] at hallow
      have hle : _ ≤ (visitAll d invocation (p.missing b) rest).composed.rank :=
        rank_le_visitAll (h.tail fun _ => mem_poisoned_missing)
      rw [hallow, composed_missing_of_open hopen] at hle
      exact absurd hle (by simp [GateDecision.rank])
    | true =>
      rw [hinstalled, if_neg (by simp)] at hallow
      by_cases hlimit : d.maxBeforeCapabilityHooksPerDispatch ≤ p.eligibleHooksEvaluated
      · rw [if_pos hlimit] at hallow
        have hrank : (p.exceeded b).composed.rank = max p.composed.rank 3 :=
          rank_composeGateDecision _ _
        rw [show (p.exceeded b).composed = .allow from hallow,
          show GateDecision.allow.rank = 0 from rfl] at hrank
        omega
      · rw [if_neg hlimit] at hallow
        have hrest := ih (h.tail fun _ => mem_poisoned_ran) (hc.ran b _)
          (by rw [evaluated_ran]; omega) hallow
        rw [evaluated_ran] at hrest
        rw [List.filter_cons_of_pos (by exact hinstalled), List.length_cons]
        omega

omit h

end Loop

/-! ### Dispatches -/

section Dispatch

variable (d : HookDispatcher) (invocation : Invocation)

theorem mem_orderedBindings {registry : HookRegistry} {point : HookPointSpec} {b : HookBinding} :
    b ∈ registry.orderedBindings point ↔
      b ∈ registry.rows ∧ b.point = point ∧ b.poisoned = false := by
  simp [HookRegistry.orderedBindings, HookRegistry.activeAt]

theorem nodup_orderedBindings (registry : HookRegistry) (point : HookPointSpec) :
    ((registry.orderedBindings point).map HookBinding.hookId).Nodup := by
  have hperm := (orderBy_perm HookBinding.orderKey (registry.activeAt point)).map HookBinding.hookId
  refine hperm.nodup_iff.2 (registry.nodup.sublist ?_)
  exact List.filter_sublist.map _

theorem ready_start : Ready d invocation (.start d.registry) (eligibleBindings d invocation) where
  distinct := (nodup_orderedBindings d.registry .beforeCapability).sublist
    (List.filter_sublist.map _)
  fresh := by
    intro b hb hpoisoned
    obtain ⟨hrow, -, hactive⟩ := mem_orderedBindings.1 (List.mem_filter.1 hb).1
    obtain ⟨c, hc, hid⟩ := List.mem_map.1 hpoisoned
    rw [List.mem_filter] at hc
    have heq : c = b := d.registry.eq_of_mem_of_key_eq hc.1 hrow hid
    rw [heq, hactive] at hc
    exact absurd hc.2 nofun
  fires b hb := (List.mem_filter.1 hb).2
  gates b hb := (mem_orderedBindings.1 (List.mem_filter.1 hb).1).2.1

theorem finalProgress_eq : finalProgress d invocation =
    visitAll d invocation (.start d.registry) (eligibleBindings d invocation) :=
  visitAll_filter _ _

theorem rank_decision
    (hbudget : (eligibleBindings d invocation).length ≤ d.maxBeforeCapabilityHooksPerDispatch) :
    (dispatchBeforeCapability d invocation).1.decision.rank =
      highest d invocation (counted d invocation (eligibleBindings d invocation)) := by
  have hcoherent : (Progress.start d.registry).Coherent := ⟨nofun, fun h => absurd rfl h⟩
  have hstart : (Progress.start d.registry).eligibleHooksEvaluated +
      (eligibleBindings d invocation).length ≤ d.maxBeforeCapabilityHooksPerDispatch := by
    rw [show (Progress.start d.registry).eligibleHooksEvaluated = 0 from rfl, Nat.zero_add]
    exact hbudget
  have hrank := rank_visitAll (ready_start d invocation) hcoherent rfl hstart
  rw [← finalProgress_eq] at hrank
  exact hrank

theorem decision_ne_allow
    (hbudget : d.maxBeforeCapabilityHooksPerDispatch <
      ((eligibleBindings d invocation).filter fun b => d.beforeCapability b.hookId).length) :
    (dispatchBeforeCapability d invocation).1.decision ≠ .allow := by
  intro hallow
  have hcoherent : (Progress.start d.registry).Coherent := ⟨nofun, fun h => absurd rfl h⟩
  have hfinal : (finalProgress d invocation).composed = .allow := hallow
  rw [finalProgress_eq] at hfinal
  have hle := evaluated_of_allow (ready_start d invocation) hcoherent (Nat.zero_le _) hfinal
  rw [show (Progress.start d.registry).eligibleHooksEvaluated = 0 from rfl] at hle
  omega

/-- The decision is the most restrictive verdict, and nothing is allowed beyond the budget, exactly
where no verdict is hidden behind the first one that does not allow. -/
theorem most_restrictive_iff :
    (((eligibleBindings d invocation).length ≤ d.maxBeforeCapabilityHooksPerDispatch →
        (dispatchBeforeCapability d invocation).1.decision.rank =
          highest d invocation (eligibleBindings d invocation)) ∧
      (d.maxBeforeCapabilityHooksPerDispatch <
          ((eligibleBindings d invocation).filter fun b => d.beforeCapability b.hookId).length →
        (dispatchBeforeCapability d invocation).1.decision ≠ .allow)) ↔
      ((eligibleBindings d invocation).length ≤ d.maxBeforeCapabilityHooksPerDispatch →
        Exposed d invocation (eligibleBindings d invocation)) := by
  rw [and_iff_left (decision_ne_allow d invocation)]
  refine forall_congr' fun hbudget => ?_
  rw [rank_decision d invocation hbudget]
  exact highest_counted_iff

end Dispatch

/-! ### A pause before a deny -/

def policyBinding (hookId : HookId) (priority : ℤ) : HookBinding where
  hookId := hookId
  hookVersion := 1
  trustClass := .builtin
  phase := .policy
  priority := priority
  point := .beforeCapability
  eventKindFilter := none
  owningExtension := none
  scope := .global
  poisoned := false

/-- Two installed policy hooks, visited in this order. -/
def twoPolicies : HookDispatcher where
  registry := ⟨[policyBinding ⟨1⟩ 100, policyBinding ⟨2⟩ 200], by decide⟩
  beforeCapability _ := true
  maxBeforeCapabilityHooksPerDispatch := 64

/-- The first hook asks for an approval, the second denies. -/
def pausedThenDenied : Invocation where
  provider := none
  runs hookId := if hookId = ⟨1⟩ then .finished (.decided (.pauseApproval "needs approval")) none
    else .finished (.decided (.deny "forbidden")) none

theorem pause_hides_deny :
    (dispatchBeforeCapability twoPolicies pausedThenDenied).1.decision =
        .pauseApproval "needs approval" ∧
      verdict twoPolicies pausedThenDenied (policyBinding ⟨2⟩ 200) = 3 ∧
      ¬ ((eligibleBindings twoPolicies pausedThenDenied).length ≤
          twoPolicies.maxBeforeCapabilityHooksPerDispatch →
        (dispatchBeforeCapability twoPolicies pausedThenDenied).1.decision.rank =
          highest twoPolicies pausedThenDenied
            (eligibleBindings twoPolicies pausedThenDenied)) := by
  decide +kernel

end Ironclaw.Hooks
