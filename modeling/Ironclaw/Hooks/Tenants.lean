import Ironclaw.Hooks.Buckets
import Ironclaw.Lib.Run
import Mathlib.Algebra.Order.BigOperators.Group.Finset

/-! # The counters of different tenants

A tenant has no effect on the counters of another, as long as there are no more than four of them
(`tenants_isolated`). A new key of a tenant at its quota evicts a key of the same tenant; below the
quota a full map would evict across tenants, but four tenants at their quotas just fill a map
(`Quota.not_full`). So the calls of one tenant see its own share of the maps only (`Share`), and the
calls of the others leave that share alone.

Which of several equally old buckets goes depends on the order in which a map is enumerated, which is
not the program's choice. What is the same with and without the other tenants is therefore the set of
the answers that are possible. -/

namespace Ironclaw.Hooks

/-! ### The part of a map that belongs to a tenant -/

section Part

variable {K V : Type} {tenantOf : K → TenantId} {tenant : TenantId}

def History.ofTenant (tenantOf : K → TenantId) (history : History K V) (tenant : TenantId) :
    History K V :=
  history.filter fun row => tenantOf row.key = tenant

theorem tenantKeyCount_eq (tenantOf : K → TenantId) (history : History K V) (tenant : TenantId) :
    tenantKeyCount tenantOf history tenant = (history.ofTenant tenantOf tenant).rows.length :=
  List.countP_eq_length_filter

theorem ofTenant_idem (tenantOf : K → TenantId) (history : History K V) (tenant : TenantId) :
    (history.ofTenant tenantOf tenant).ofTenant tenantOf tenant =
      history.ofTenant tenantOf tenant := by
  apply Table.eq_of_rows
  simp [History.ofTenant, Table.filter]

variable (history : History K V)
include history

theorem lruCandidateForTenant_ofTenant :
    lruCandidateForTenant tenantOf (history.ofTenant tenantOf tenant) tenant =
      lruCandidateForTenant tenantOf history tenant := by
  have hrows := congrArg Table.rows (ofTenant_idem tenantOf history tenant)
  exact congrArg (List.argmin fun row => row.bucket.oldest) hrows

variable {row : Row K V}

omit history in
theorem mem_of_lruCandidate {history : History K V}
    (h : lruCandidateForTenant tenantOf history tenant = some row) :
    row ∈ (history.ofTenant tenantOf tenant).rows ∧ tenantOf row.key = tenant := by
  have hmem : row ∈ history.rows.filter fun row => decide (tenantOf row.key = tenant) :=
    List.argmin_mem h
  exact ⟨hmem, of_decide_eq_true (List.mem_filter.1 hmem).2⟩

omit history in
theorem lruCandidate_eq_none {history : History K V}
    (h : lruCandidateForTenant tenantOf history tenant = none) :
    (history.ofTenant tenantOf tenant).rows = [] := List.argmin_eq_none.1 h

variable [DecidableEq K]

theorem get_ofTenant {key : K} (h : tenantOf key = tenant) :
    (history.ofTenant tenantOf tenant).get key = history.get key := by
  rw [History.ofTenant, Table.get_filter]
  cases hget : history.get key with
  | none => rfl
  | some row =>
    have hkey : tenantOf row.key = tenant := by rw [Table.key_of_get hget, h]
    rw [Option.filter_some, if_pos (by simpa using hkey)]

theorem ofTenant_remove (key : K) :
    History.ofTenant tenantOf (history.remove key) tenant =
      (history.ofTenant tenantOf tenant).remove key := Table.filter_remove _ _ _

theorem ofTenant_remove_of_ne {key : K} (h : tenantOf key ≠ tenant) :
    History.ofTenant tenantOf (history.remove key) tenant = history.ofTenant tenantOf tenant := by
  refine Table.filter_remove_of_neg _ fun row hkey => ?_
  rw [hkey]
  exact decide_eq_false h

theorem ofTenant_put (h : tenantOf row.key = tenant) :
    History.ofTenant tenantOf (history.put row) tenant =
      (history.ofTenant tenantOf tenant).put row := by
  refine Table.filter_put_of_pos _ fun other hkey => ?_
  rw [hkey]
  exact decide_eq_true h

theorem ofTenant_put_of_ne (h : tenantOf row.key ≠ tenant) :
    History.ofTenant tenantOf (history.put row) tenant = history.ofTenant tenantOf tenant := by
  refine Table.filter_put_of_neg _ fun other hkey => ?_
  rw [hkey]
  exact decide_eq_false h

omit history in
theorem Shrinks.mem_of_mem {t t' : History K V} (h : Shrinks t t')
    (hrow : row ∈ t'.rows) : row ∈ t.rows := by
  have hget : t'.get row.key = some row := Table.get_of_mem hrow
  rcases h row.key with heq | hnone
  · exact Table.mem_of_get (heq.symm.trans hget)
  · rw [hnone] at hget
    exact absurd hget nofun

omit history in
theorem Shrinks.tenantKeyCount_le {t t' : History K V} (h : Shrinks t t') :
    tenantKeyCount tenantOf t' tenant ≤ tenantKeyCount tenantOf t tenant :=
  Table.count_le_count fun row hrow hp => ⟨row, h.mem_of_mem hrow, rfl, hp⟩

variable [Zero V] [Add V] [Sub V]

omit [Add V] [Sub V] in
theorem bucketOf_ofTenant {key : K} (h : tenantOf key = tenant) :
    (history.ofTenant tenantOf tenant).bucketOf key = history.bucketOf key := by
  rw [History.bucketOf, get_ofTenant _ h, History.bucketOf]

/-- A recording of a tenant sees and changes its own part only. -/
theorem sample_ofTenant {key : K} (h : tenantOf key = tenant)
    (label : String) (cutoff : Timestamp) (entry : Sample V) :
    sample (history.ofTenant tenantOf tenant) key label cutoff entry =
      ((sample history key label cutoff entry).1,
        History.ofTenant tenantOf (sample history key label cutoff entry).2 tenant) := by
  have hkeep (bucket : Bucket V) :
      (if bucket.entries.isEmpty = true then (history.ofTenant tenantOf tenant).remove key
        else (history.ofTenant tenantOf tenant).put ⟨key, bucket⟩) =
      History.ofTenant tenantOf (if bucket.entries.isEmpty = true then history.remove key
        else history.put ⟨key, bucket⟩) tenant := by
    split
    · rw [ofTenant_remove]
    · rw [ofTenant_put _ h]
  unfold sample
  dsimp only
  rw [bucketOf_ofTenant _ h]
  split
  · rw [hkeep]
  split
  · rw [hkeep]
  · rw [hkeep]

/-- A recording of another tenant does not change the part. -/
theorem ofTenant_sample_of_ne {key : K} (h : tenantOf key ≠ tenant)
    (label : String) (cutoff : Timestamp) (entry : Sample V) :
    History.ofTenant tenantOf (sample history key label cutoff entry).2 tenant =
      history.ofTenant tenantOf tenant := by
  have hkeep (bucket : Bucket V) :
      History.ofTenant tenantOf (if bucket.entries.isEmpty = true then history.remove key
        else history.put ⟨key, bucket⟩) tenant = history.ofTenant tenantOf tenant := by
    split
    · rw [ofTenant_remove_of_ne _ h]
    · rw [ofTenant_put_of_ne _ h]
  unfold sample
  dsimp only
  split
  · exact hkeep _
  split
  · exact hkeep _
  · exact hkeep _

omit history

theorem tenantKeyCount_sample_le (tenantOf : K → TenantId) (history : History K V)
    (tenant : TenantId) (key : K) (label : String) (cutoff : Timestamp) (entry : Sample V) :
    tenantKeyCount tenantOf (sample history key label cutoff entry).2 tenant ≤
      tenantKeyCount tenantOf history tenant + if (history.get key).isSome = true then 0 else 1 := by
  have hkeep (bucket : Bucket V) :
      tenantKeyCount tenantOf (if bucket.entries.isEmpty = true then history.remove key
        else history.put ⟨key, bucket⟩) tenant ≤
      tenantKeyCount tenantOf history tenant + if (history.get key).isSome = true then 0 else 1 := by
    split
    · exact le_add_right (List.filter_sublist.countP_le)
    · cases hget : history.get key with
      | none =>
        have hcount := Table.count_put_of_none history (r := ⟨key, bucket⟩)
          (fun row => decide (tenantOf row.key = tenant)) hget
        unfold tenantKeyCount
        rw [hcount]
        simp only [Option.isSome_none, Bool.false_eq_true, if_false]
        split <;> omega
      | some row =>
        have hkey : row.key = key := Table.key_of_get hget
        have hcount := Table.count_put_of_get history (r := ⟨key, bucket⟩)
          (fun row => decide (tenantOf row.key = tenant)) hget
        unfold tenantKeyCount
        simp only [hkey, Option.isSome_some, if_true, add_zero] at hcount ⊢
        omega
  unfold sample
  dsimp only
  split
  · exact hkeep _
  split
  · exact hkeep _
  · exact hkeep _

end Part

/-! ### The share of a tenant -/

namespace InMemoryPredicateStateBackend

variable {D : Type} {s a : InMemoryPredicateStateBackend D} {tenant other : TenantId}

/-- The second state holds what belongs to the tenant in the first; the number of evictions, which no
answer depends on, may differ. -/
structure Share (tenant : TenantId) (s a : InMemoryPredicateStateBackend D) : Prop where
  invocations : a.invocationHistory = s.invocationHistory.ofTenant InvocationKey.tenantId tenant
  values : a.valueHistory = s.valueHistory.ofTenant ValueKey.tenantId tenant

variable (h : Share tenant s a)
include h

theorem Share.keysOfTenant_eq : a.keysOfTenant tenant = s.keysOfTenant tenant := by
  rw [keysOfTenant, keysOfTenant, tenantKeyCount_eq, tenantKeyCount_eq, tenantKeyCount_eq,
    tenantKeyCount_eq, h.invocations, h.values, ofTenant_idem, ofTenant_idem]

variable {t : InMemoryPredicateStateBackend D}

theorem Share.congr
    (hinvocations : t.invocationHistory.ofTenant InvocationKey.tenantId tenant =
      s.invocationHistory.ofTenant InvocationKey.tenantId tenant)
    (hvalues : t.valueHistory.ofTenant ValueKey.tenantId tenant =
      s.valueHistory.ofTenant ValueKey.tenantId tenant) : Share tenant t a where
  invocations := h.invocations.trans hinvocations.symm
  values := h.values.trans hvalues.symm

theorem Share.length_le :
    a.invocationHistory.rows.length ≤ s.invocationHistory.rows.length ∧
      a.valueHistory.rows.length ≤ s.valueHistory.rows.length := by
  rw [h.invocations, h.values]
  exact ⟨List.filter_sublist.length_le, List.filter_sublist.length_le⟩

theorem Share.evictLruForTenant :
    Share tenant (s.evictLruForTenant tenant) (a.evictLruForTenant tenant) := by
  unfold InMemoryPredicateStateBackend.evictLruForTenant
  dsimp only
  rw [h.invocations, h.values, lruCandidateForTenant_ofTenant, lruCandidateForTenant_ofTenant]
  split
  · split
    · exact ⟨(ofTenant_remove _ _).symm, rfl⟩
    · exact ⟨rfl, (ofTenant_remove _ _).symm⟩
  · exact ⟨(ofTenant_remove _ _).symm, rfl⟩
  · exact ⟨rfl, (ofTenant_remove _ _).symm⟩
  · exact h

/-- An eviction for another tenant leaves the share alone. -/
theorem Share.evictLruForTenant_of_ne (hne : other ≠ tenant) :
    Share tenant (s.evictLruForTenant other) a := by
  have hinvocation {row : Row InvocationKey Unit}
      (hrow : lruCandidateForTenant InvocationKey.tenantId s.invocationHistory other = some row) :
      row.key.tenantId ≠ tenant := (mem_of_lruCandidate hrow).2 ▸ hne
  have hvalue {row : Row ValueKey D}
      (hrow : lruCandidateForTenant ValueKey.tenantId s.valueHistory other = some row) :
      row.key.tenantId ≠ tenant := (mem_of_lruCandidate hrow).2 ▸ hne
  unfold InMemoryPredicateStateBackend.evictLruForTenant
  dsimp only
  split
  · rename_i hrow hrow'
    split
    · exact h.congr (ofTenant_remove_of_ne _ (hinvocation hrow)) rfl
    · exact h.congr rfl (ofTenant_remove_of_ne _ (hvalue hrow'))
  · rename_i hrow _
    exact h.congr (ofTenant_remove_of_ne _ (hinvocation hrow)) rfl
  · rename_i _ hrow'
    exact h.congr rfl (ofTenant_remove_of_ne _ (hvalue hrow'))
  · exact h

/-! ### Quotas -/

/-- No tenant is over its quota, and only the given tenants hold keys. -/
structure Quota (tenants : Finset TenantId) (s : InMemoryPredicateStateBackend D) : Prop where
  bound : ∀ tenant, s.keysOfTenant tenant ≤ maxKeysPerTenant
  invocations : ∀ row ∈ s.invocationHistory.rows, row.key.tenantId ∈ tenants
  values : ∀ row ∈ s.valueHistory.rows, row.key.tenantId ∈ tenants

omit h in
theorem length_eq_sum_tenantKeyCount {K V : Type} {tenantOf : K → TenantId} {history : History K V}
    {tenants : Finset TenantId} (h : ∀ row ∈ history.rows, tenantOf row.key ∈ tenants) :
    history.rows.length = ∑ tenant ∈ tenants, tenantKeyCount tenantOf history tenant := by
  have hsum := Multiset.sum_count_eq_card
    (s := tenants) (m := ↑(history.rows.map fun row => tenantOf row.key)) (by
      intro tenant htenant
      obtain ⟨row, hrow, rfl⟩ := List.mem_map.1 (Multiset.mem_coe.1 htenant)
      exact h row hrow)
  rw [Multiset.coe_card, List.length_map] at hsum
  rw [← hsum]
  refine Finset.sum_congr rfl fun tenant _ => ?_
  rw [Multiset.coe_count, List.count_eq_countP, List.countP_map]
  rfl

omit h in
/-- While a tenant is below its quota, four tenants cannot fill a map. -/
theorem Quota.not_full {tenants : Finset TenantId} (h : Quota tenants s) (hfour : tenants.card ≤ 4)
    (hmem : tenant ∈ tenants) (hbelow : s.keysOfTenant tenant < maxKeysPerTenant) :
    s.invocationHistory.rows.length < maxHistoryKeys ∧
      s.valueHistory.rows.length < maxHistoryKeys := by
  have hlt : ∑ tenant ∈ tenants, s.keysOfTenant tenant < maxHistoryKeys := by
    calc ∑ tenant ∈ tenants, s.keysOfTenant tenant < ∑ _ ∈ tenants, maxKeysPerTenant :=
          Finset.sum_lt_sum (fun other _ => h.bound other) ⟨tenant, hmem, hbelow⟩
      _ = tenants.card * maxKeysPerTenant := Finset.sum_const_nat fun _ _ => rfl
      _ ≤ 4 * maxKeysPerTenant := Nat.mul_le_mul_right _ hfour
      _ = maxHistoryKeys := rfl
  rw [length_eq_sum_tenantKeyCount h.invocations, length_eq_sum_tenantKeyCount h.values]
  constructor
  · exact (Finset.sum_le_sum fun other _ => Nat.le_add_right _ _).trans_lt hlt
  · exact (Finset.sum_le_sum fun other _ => Nat.le_add_left _ _).trans_lt hlt

omit h in
/-- An eviction for a tenant that holds keys frees one of them. -/
theorem keysOfTenant_evictLruForTenant_lt (h : 0 < s.keysOfTenant tenant) :
    (s.evictLruForTenant tenant).keysOfTenant tenant < s.keysOfTenant tenant := by
  have hinvocation {row : Row InvocationKey Unit}
      (hrow : lruCandidateForTenant InvocationKey.tenantId s.invocationHistory tenant = some row) :
      tenantKeyCount InvocationKey.tenantId (s.invocationHistory.remove row.key) tenant + 1 =
        tenantKeyCount InvocationKey.tenantId s.invocationHistory tenant := by
    obtain ⟨hmem, htenant⟩ := mem_of_lruCandidate hrow
    exact Table.count_remove_of_get _ (Table.get_of_mem (List.mem_filter.1 hmem).1)
      (decide_eq_true htenant)
  have hvalue {row : Row ValueKey D}
      (hrow : lruCandidateForTenant ValueKey.tenantId s.valueHistory tenant = some row) :
      tenantKeyCount ValueKey.tenantId (s.valueHistory.remove row.key) tenant + 1 =
        tenantKeyCount ValueKey.tenantId s.valueHistory tenant := by
    obtain ⟨hmem, htenant⟩ := mem_of_lruCandidate hrow
    exact Table.count_remove_of_get _ (Table.get_of_mem (List.mem_filter.1 hmem).1)
      (decide_eq_true htenant)
  unfold InMemoryPredicateStateBackend.evictLruForTenant
  unfold keysOfTenant at h ⊢
  dsimp only
  split
  · rename_i hrow hrow'
    have := hinvocation hrow
    have := hvalue hrow'
    split <;> dsimp only <;> omega
  · rename_i hrow _
    have := hinvocation hrow
    dsimp only
    omega
  · rename_i _ hrow'
    have := hvalue hrow'
    dsimp only
    omega
  · rename_i hnone hnone'
    rw [tenantKeyCount_eq, tenantKeyCount_eq, lruCandidate_eq_none hnone,
      lruCandidate_eq_none hnone'] at h
    exact absurd h (lt_irrefl 0)

/-! ### Making room -/

variable {evictLru : InMemoryPredicateStateBackend D → InMemoryPredicateStateBackend D}

omit h in
theorem makeRoom_eq {known full : Bool}
    (hfull : s.keysOfTenant tenant < maxKeysPerTenant → full = false) :
    s.makeRoom tenant known full evictLru =
      if known = false ∧ maxKeysPerTenant ≤ s.keysOfTenant tenant then s.evictLruForTenant tenant
      else s := by
  unfold makeRoom
  by_cases hknown : known = true
  · simp [hknown]
  by_cases hquota : maxKeysPerTenant ≤ s.keysOfTenant tenant
  · simp [hknown, hquota]
  · simp [hquota, hfull (not_le.1 hquota)]

theorem Share.makeRoom {known full full' : Bool}
    (hfull : s.keysOfTenant tenant < maxKeysPerTenant → full = false ∧ full' = false) :
    Share tenant (s.makeRoom tenant known full evictLru)
      (a.makeRoom tenant known full' evictLru) := by
  rw [makeRoom_eq fun hbelow => (hfull hbelow).1, makeRoom_eq fun hbelow =>
    (hfull (h.keysOfTenant_eq ▸ hbelow)).2, h.keysOfTenant_eq]
  split
  · exact h.evictLruForTenant
  · exact h

theorem Share.makeRoom_of_ne (hne : other ≠ tenant) {known full : Bool}
    (hfull : s.keysOfTenant other < maxKeysPerTenant → full = false) :
    Share tenant (s.makeRoom other known full evictLru) a := by
  rw [makeRoom_eq hfull]
  split
  · exact h.evictLruForTenant_of_ne hne
  · exact h

omit h in
theorem Evicts.keysOfTenant_le {s' : InMemoryPredicateStateBackend D} (h : Evicts s s')
    (tenant : TenantId) : s'.keysOfTenant tenant ≤ s.keysOfTenant tenant :=
  Nat.add_le_add h.invocations.tenantKeyCount_le h.values.tenantKeyCount_le

omit h in
theorem keysOfTenant_makeRoom_lt {full : Bool}
    (hevicts : ∀ s, Evicts s (evictLru s)) (hbound : s.keysOfTenant tenant ≤ maxKeysPerTenant) :
    (s.makeRoom tenant false full evictLru).keysOfTenant tenant < maxKeysPerTenant := by
  unfold InMemoryPredicateStateBackend.makeRoom
  rw [if_neg Bool.false_ne_true]
  split
  · rename_i hquota
    have hpos : 0 < s.keysOfTenant tenant := lt_of_lt_of_le (by decide) hquota
    exact (keysOfTenant_evictLruForTenant_lt hpos).trans_le hbound
  · rename_i hquota
    split
    · exact ((hevicts s).keysOfTenant_le tenant).trans_lt (not_le.1 hquota)
    · exact not_le.1 hquota

/-! ### The order of enumeration -/

variable {tenants : Finset TenantId}

omit h in
theorem Same.trans (h : s.Same a) (h' : a.Same t) : s.Same t :=
  ⟨h.invocations.trans h'.invocations, h.values.trans h'.values, h.evictions.trans h'.evictions⟩

omit h in
theorem Same.quota (h : s.Same t) (hquota : Quota tenants s) : Quota tenants t where
  bound := by
    intro tenant
    rw [keysOfTenant, tenantKeyCount, tenantKeyCount, ← h.invocations.count_eq, ← h.values.count_eq]
    exact hquota.bound tenant
  invocations := fun row hrow => hquota.invocations row (h.invocations.mem_iff.2 hrow)
  values := fun row hrow => hquota.values row (h.values.mem_iff.2 hrow)

/-- Enumerated in another order, a state has the share in another order. -/
theorem Share.of_same (hsame : s.Same t) : ∃ a', a.Same a' ∧ Share tenant t a' := by
  refine ⟨⟨t.invocationHistory.ofTenant InvocationKey.tenantId tenant,
    t.valueHistory.ofTenant ValueKey.tenantId tenant, a.evictions⟩, ⟨?_, ?_, rfl⟩, rfl, rfl⟩
  · rw [h.invocations]
    exact hsame.invocations.filter _
  · rw [h.values]
    exact hsame.values.filter _

/-- The share of a state can be enumerated in any order. -/
theorem Share.of_same_share {a' : InMemoryPredicateStateBackend D}
    (hsame : a.Same a') : ∃ t, s.Same t ∧ Share tenant t a' := by
  obtain ⟨invocations, hinvocations, hpart⟩ := s.invocationHistory.exists_filter_eq
    (h.invocations ▸ hsame.invocations.symm)
  obtain ⟨values, hvalues, hpart'⟩ := s.valueHistory.exists_filter_eq
    (h.values ▸ hsame.values.symm)
  exact ⟨⟨invocations, values, s.evictions⟩, ⟨hinvocations.symm, hvalues.symm, rfl⟩,
    hpart.symm, hpart'.symm⟩

omit h

theorem quota_new : Quota tenants (new : InMemoryPredicateStateBackend D) where
  bound := fun _ => Nat.zero_le _
  invocations := List.forall_mem_nil _
  values := List.forall_mem_nil _

theorem share_new : Share tenant (new : InMemoryPredicateStateBackend D) new := ⟨rfl, rfl⟩

/-! ### Room for the key of a call -/

theorem roomForInvocation_le {key : InvocationKey}
    (hbound : s.keysOfTenant key.tenantId ≤ maxKeysPerTenant) :
    (s.roomForInvocation key).keysOfTenant key.tenantId +
        (if ((s.roomForInvocation key).invocationHistory.get key).isSome = true then 0 else 1) ≤
      maxKeysPerTenant := by
  rw [get_roomForInvocation]
  cases hget : s.invocationHistory.get key with
  | some row => exact ((s.evicts_roomForInvocation key).keysOfTenant_le _).trans hbound
  | none =>
    unfold roomForInvocation
    rw [hget]
    exact keysOfTenant_makeRoom_lt evicts_evictLruInvocation hbound

theorem roomForValue_le {key : ValueKey} (hbound : s.keysOfTenant key.tenantId ≤ maxKeysPerTenant) :
    (s.roomForValue key).keysOfTenant key.tenantId +
        (if ((s.roomForValue key).valueHistory.get key).isSome = true then 0 else 1) ≤
      maxKeysPerTenant := by
  rw [get_roomForValue]
  cases hget : s.valueHistory.get key with
  | some row => exact ((s.evicts_roomForValue key).keysOfTenant_le _).trans hbound
  | none =>
    unfold roomForValue
    rw [hget]
    exact keysOfTenant_makeRoom_lt evicts_evictLruValue hbound

end InMemoryPredicateStateBackend

/-! ### Calls -/

inductive RecordCall (D : Type) where
  | invocation (key : InvocationKey) (eventId : PredicateEventId) (now : Timestamp) (window : ℤ)
  | value (key : ValueKey) (eventId : PredicateEventId) (now : Timestamp) (value : D) (window : ℤ)

def RecordCall.tenantId {D : Type} : RecordCall D → TenantId
  | .invocation key _ _ _ => key.tenantId
  | .value key _ _ _ _ => key.tenantId

inductive RecordResult (D : Type) where
  | count (result : Except PredicateBackendError ℕ)
  | sum (result : Except PredicateBackendError D)

namespace InMemoryPredicateStateBackend

variable {D : Type} [Zero D] [Add D] [Sub D] {s a : InMemoryPredicateStateBackend D}
  {tenant : TenantId} {tenants : Finset TenantId} {c : RecordCall D}

def record (s : InMemoryPredicateStateBackend D) :
    RecordCall D → RecordResult D × InMemoryPredicateStateBackend D
  | .invocation key eventId now window =>
    ((s.recordInvocation key eventId now window).map .count id)
  | .value key eventId now value window =>
    ((s.recordValue key eventId now value window).map .sum id)

/-- No call takes a tenant over its quota. -/
theorem keysOfTenant_record_le (hbound : ∀ tenant, s.keysOfTenant tenant ≤ maxKeysPerTenant)
    (c : RecordCall D) (tenant : TenantId) :
    (s.record c).2.keysOfTenant tenant ≤ maxKeysPerTenant := by
  cases c with
  | invocation key eventId now window =>
    change tenantKeyCount _ (sample (s.roomForInvocation key).invocationHistory _ _ _ _).2 _ +
      tenantKeyCount _ (s.roomForInvocation key).valueHistory _ ≤ _
    by_cases htenant : key.tenantId = tenant
    · subst htenant
      have hroom := roomForInvocation_le (hbound key.tenantId)
      have hsample := tenantKeyCount_sample_le InvocationKey.tenantId
        (s.roomForInvocation key).invocationHistory key.tenantId key
        (key.tenantId.asStr ++ "/" ++ key.capability) (windowCutoff now window) ⟨now, (), eventId⟩
      unfold keysOfTenant at hroom
      omega
    · rw [tenantKeyCount_eq, ofTenant_sample_of_ne _ htenant, ← tenantKeyCount_eq]
      exact ((s.evicts_roomForInvocation key).keysOfTenant_le tenant).trans (hbound tenant)
  | value key eventId now value window =>
    change tenantKeyCount _ (s.roomForValue key).invocationHistory _ +
      tenantKeyCount _ (sample (s.roomForValue key).valueHistory _ _ _ _).2 _ ≤ _
    by_cases htenant : key.tenantId = tenant
    · subst htenant
      have hroom := roomForValue_le (hbound key.tenantId)
      have hsample := tenantKeyCount_sample_le ValueKey.tenantId
        (s.roomForValue key).valueHistory key.tenantId key
        (key.tenantId.asStr ++ "/" ++ key.capability ++ "#" ++ key.field)
        (windowCutoff now window) ⟨now, value, eventId⟩
      unfold keysOfTenant at hroom
      omega
    · rw [tenantKeyCount_eq ValueKey.tenantId, ofTenant_sample_of_ne _ htenant, ← tenantKeyCount_eq]
      exact ((s.evicts_roomForValue key).keysOfTenant_le tenant).trans (hbound tenant)

theorem mem_sample {K V : Type} [DecidableEq K] [Zero V] [Add V] [Sub V] {history : History K V}
    {key : K} {label : String} {cutoff : Timestamp} {entry : Sample V} {row : Row K V}
    (h : row ∈ (sample history key label cutoff entry).2.rows) :
    row ∈ history.rows ∨ row.key = key := by
  by_cases hkey : row.key = key
  · exact .inr hkey
  · have hget := get_sample_of_ne history (Ne.symm hkey) label cutoff entry
    exact .inl (Table.mem_of_get (hget.symm.trans (Table.get_of_mem h)))

theorem Quota.record (h : Quota tenants s) (hmem : c.tenantId ∈ tenants) :
    Quota tenants (s.record c).2 := by
  refine ⟨keysOfTenant_record_le h.bound c, ?_, ?_⟩
  · cases c with
    | invocation key eventId now window =>
      intro row hrow
      rcases mem_sample hrow with hrow | hkey
      · exact h.invocations row ((s.evicts_roomForInvocation key).invocations.mem_of_mem hrow)
      · rw [hkey]
        exact hmem
    | value key eventId now value window =>
      intro row hrow
      exact h.invocations row ((s.evicts_roomForValue key).invocations.mem_of_mem hrow)
  · cases c with
    | invocation key eventId now window =>
      intro row hrow
      exact h.values row ((s.evicts_roomForInvocation key).values.mem_of_mem hrow)
    | value key eventId now value window =>
      intro row hrow
      rcases mem_sample hrow with hrow | hkey
      · exact h.values row ((s.evicts_roomForValue key).values.mem_of_mem hrow)
      · rw [hkey]
        exact hmem

/-- A call of a tenant gives the same answer on its share, and leaves the share of what it leaves. -/
theorem Share.record (h : Share c.tenantId s a) (hquota : Quota tenants s)
    (hfour : tenants.card ≤ 4) (hmem : c.tenantId ∈ tenants) :
    (a.record c).1 = (s.record c).1 ∧ Share c.tenantId (s.record c).2 (a.record c).2 := by
  have hfull := hquota.not_full hfour hmem
  obtain ⟨hlength, hlength'⟩ := h.length_le
  cases c with
  | invocation key eventId now window =>
    have hroom : Share key.tenantId (s.roomForInvocation key) (a.roomForInvocation key) := by
      have hknown : a.invocationHistory.get key = s.invocationHistory.get key :=
        h.invocations ▸ get_ofTenant _ rfl
      unfold roomForInvocation
      rw [hknown]
      refine h.makeRoom fun hbelow => ⟨decide_eq_false ?_, decide_eq_false ?_⟩
      · exact not_le.2 (hfull hbelow).1
      · exact not_le.2 (hlength.trans_lt (hfull hbelow).1)
    have hsample := sample_ofTenant (s.roomForInvocation key).invocationHistory
      (rfl : key.tenantId = key.tenantId) (key.tenantId.asStr ++ "/" ++ key.capability)
      (windowCutoff now window) ⟨now, (), eventId⟩
    rw [← hroom.invocations] at hsample
    refine ⟨?_, congrArg Prod.snd hsample, hroom.values⟩
    exact congrArg (fun r => RecordResult.count (r.1.map fun bucket => bucket.entries.length)) hsample
  | value key eventId now value window =>
    have hroom : Share key.tenantId (s.roomForValue key) (a.roomForValue key) := by
      have hknown : a.valueHistory.get key = s.valueHistory.get key :=
        h.values ▸ get_ofTenant _ rfl
      unfold roomForValue
      rw [hknown]
      refine h.makeRoom fun hbelow => ⟨decide_eq_false ?_, decide_eq_false ?_⟩
      · exact not_le.2 (hfull hbelow).2
      · exact not_le.2 (hlength'.trans_lt (hfull hbelow).2)
    have hsample := sample_ofTenant (s.roomForValue key).valueHistory
      (rfl : key.tenantId = key.tenantId)
      (key.tenantId.asStr ++ "/" ++ key.capability ++ "#" ++ key.field)
      (windowCutoff now window) ⟨now, value, eventId⟩
    rw [← hroom.values] at hsample
    refine ⟨?_, hroom.invocations, congrArg Prod.snd hsample⟩
    exact congrArg (fun r => RecordResult.sum (r.1.map fun bucket => bucket.runningSum)) hsample

theorem Share.record_of_ne (h : Share tenant s a) (hquota : Quota tenants s)
    (hfour : tenants.card ≤ 4) (hmem : c.tenantId ∈ tenants) (hne : c.tenantId ≠ tenant) :
    Share tenant (s.record c).2 a := by
  have hfull := hquota.not_full hfour hmem
  cases c with
  | invocation key eventId now window =>
    have hroom : Share tenant (s.roomForInvocation key) a :=
      h.makeRoom_of_ne hne fun hbelow => decide_eq_false (not_le.2 (hfull hbelow).1)
    have hkey : key.tenantId ≠ tenant := hne
    exact hroom.congr (ofTenant_sample_of_ne _ hkey _ _ _) rfl
  | value key eventId now value window =>
    have hroom : Share tenant (s.roomForValue key) a :=
      h.makeRoom_of_ne hne fun hbelow => decide_eq_false (not_le.2 (hfull hbelow).2)
    have hkey : key.tenantId ≠ tenant := hne
    exact hroom.congr rfl (ofTenant_sample_of_ne _ hkey _ _ _)

/-! ### Runs -/

/-- A call; it never fails as a step. -/
def recordStep (s : InMemoryPredicateStateBackend D) (c : RecordCall D) :
    Except Empty (RecordResult D × InMemoryPredicateStateBackend D) := .ok (s.record c)

/-- Runs of calls; between two of them the maps may be enumerated in another order. -/
abbrev RecordRun := Run (Same (D := D)) recordStep

/-- The results of the calls of a tenant, oldest first. -/
def resultsOf (tenant : TenantId)
    (history : List (Step (InMemoryPredicateStateBackend D) (RecordCall D))) :
    List (RecordResult D) :=
  (history.filter fun x => x.command.tenantId = tenant).map fun x => (x.pre.record x.command).1

/-- What a tenant may be answered when the calls are made on a new backend. -/
def possibleResults (tenant : TenantId) (calls : List (RecordCall D)) : Set (List (RecordResult D)) :=
  {results | ∃ history s, RecordRun new history s ∧ history.map Step.command = calls ∧
    resultsOf tenant history = results}

def callsOf (tenant : TenantId) (calls : List (RecordCall D)) : List (RecordCall D) :=
  calls.filter fun c => c.tenantId = tenant

theorem resultsOf_append_of_eq {history : List (Step (InMemoryPredicateStateBackend D) (RecordCall D))}
    {t : InMemoryPredicateStateBackend D} (h : c.tenantId = tenant) :
    resultsOf tenant (history ++ [⟨s, c, t⟩]) = resultsOf tenant history ++ [(s.record c).1] := by
  rw [resultsOf, List.filter_append, List.filter_cons_of_pos (by simpa using h), List.filter_nil,
    List.map_append, List.map_singleton, resultsOf]

theorem resultsOf_append_of_ne {history : List (Step (InMemoryPredicateStateBackend D) (RecordCall D))}
    {t : InMemoryPredicateStateBackend D} (h : c.tenantId ≠ tenant) :
    resultsOf tenant (history ++ [⟨s, c, t⟩]) = resultsOf tenant history := by
  rw [resultsOf, List.filter_append, List.filter_cons_of_neg (by simpa using h), List.filter_nil,
    List.append_nil, resultsOf]

omit [Zero D] [Add D] [Sub D] in
theorem callsOf_append_of_eq {calls : List (RecordCall D)} (h : c.tenantId = tenant) :
    callsOf tenant (calls ++ [c]) = callsOf tenant calls ++ [c] := by
  rw [callsOf, List.filter_append, List.filter_cons_of_pos (by simpa using h), List.filter_nil,
    callsOf]

omit [Zero D] [Add D] [Sub D] in
theorem callsOf_append_of_ne {calls : List (RecordCall D)} (h : c.tenantId ≠ tenant) :
    callsOf tenant (calls ++ [c]) = callsOf tenant calls := by
  rw [callsOf, List.filter_append, List.filter_cons_of_neg (by simpa using h), List.filter_nil,
    List.append_nil, callsOf]

/-- A run of all tenants, with the run of one of them that it contains. -/
structure Contains (tenant : TenantId)
    (history : List (Step (InMemoryPredicateStateBackend D) (RecordCall D)))
    (s : InMemoryPredicateStateBackend D)
    (alone : List (Step (InMemoryPredicateStateBackend D) (RecordCall D)))
    (a : InMemoryPredicateStateBackend D) : Prop where
  commands : alone.map Step.command = callsOf tenant (history.map Step.command)
  results : resultsOf tenant alone = resultsOf tenant history
  share : Share tenant s a

section Containing

variable {history alone : List (Step (InMemoryPredicateStateBackend D) (RecordCall D))}

theorem Contains.step (h : Contains c.tenantId history s alone a) (hquota : Quota tenants s)
    (hfour : tenants.card ≤ 4) (hmem : c.tenantId ∈ tenants) :
    Contains c.tenantId (history ++ [⟨s, c, advance recordStep s c⟩]) (advance recordStep s c)
      (alone ++ [⟨a, c, advance recordStep a c⟩]) (advance recordStep a c) := by
  obtain ⟨hresult, hshare⟩ := h.share.record hquota hfour hmem
  refine ⟨?_, ?_, hshare⟩
  · rw [List.map_append, List.map_append, List.map_singleton, List.map_singleton,
      callsOf_append_of_eq rfl, h.commands]
  · rw [resultsOf_append_of_eq rfl, resultsOf_append_of_eq rfl, h.results, hresult]

theorem Contains.step_of_ne (h : Contains tenant history s alone a) (hquota : Quota tenants s)
    (hfour : tenants.card ≤ 4) (hmem : c.tenantId ∈ tenants) (hne : c.tenantId ≠ tenant) :
    Contains tenant (history ++ [⟨s, c, advance recordStep s c⟩]) (advance recordStep s c)
      alone a := by
  refine ⟨?_, ?_, h.share.record_of_ne hquota hfour hmem hne⟩
  · rw [List.map_append, List.map_singleton, callsOf_append_of_ne hne, h.commands]
  · rw [resultsOf_append_of_ne hne, h.results]

/-- Every run contains a run of the tenant alone. -/
theorem exists_alone (run : RecordRun new history s) (hfour : tenants.card ≤ 4)
    (hall : ∀ x ∈ history, x.command.tenantId ∈ tenants) (tenant : TenantId) :
    Quota tenants s ∧ ∃ alone a a', RecordRun new alone a ∧ a.Same a' ∧
      Contains tenant history s alone a' := by
  refine run.induct_history
    (I := fun history s => Quota tenants s ∧ ∃ alone a a', RecordRun new alone a ∧ a.Same a' ∧
      Contains tenant history s alone a')
    (A := fun c => c.tenantId ∈ tenants) ?_ ?_ ?_ hall
  · exact ⟨quota_new, [], new, new, .nil, .refl _, rfl, rfl, share_new⟩
  · rintro history s t hsame ⟨hquota, alone, a, a', hrun, haa', hcontains⟩
    obtain ⟨a'', ha'', hshare⟩ := hcontains.share.of_same hsame
    exact ⟨hsame.quota hquota, alone, a, a'', hrun, haa'.trans ha'', hcontains.commands,
      hcontains.results, hshare⟩
  · rintro history s c hmem ⟨hquota, alone, a, a', hrun, haa', hcontains⟩
    refine ⟨hquota.record hmem, ?_⟩
    by_cases htenant : c.tenantId = tenant
    · subst htenant
      exact ⟨_, _, _, hrun.snoc c haa', .refl _, hcontains.step hquota hfour hmem⟩
    · exact ⟨alone, a, a', hrun, haa', hcontains.step_of_ne hquota hfour hmem htenant⟩

/-- Every run of the tenant alone is contained in a run of all. -/
theorem exists_containing (hfour : tenants.card ≤ 4) (tenant : TenantId)
    (calls : List (RecordCall D)) (hall : ∀ c ∈ calls, c.tenantId ∈ tenants)
    {alone : List (Step (InMemoryPredicateStateBackend D) (RecordCall D))}
    {a : InMemoryPredicateStateBackend D} (run : RecordRun new alone a)
    (hcalls : alone.map Step.command = callsOf tenant calls) :
    ∃ history s, RecordRun new history s ∧ history.map Step.command = calls ∧ Quota tenants s ∧
      Contains tenant history s alone a := by
  induction calls using List.reverseRecOn generalizing alone a with
  | nil =>
    obtain rfl : alone = [] := List.map_eq_nil_iff.1 hcalls
    rw [run.nil_eq]
    exact ⟨[], new, .nil, rfl, quota_new, rfl, rfl, share_new⟩
  | append_singleton calls c ih =>
    have hmem : c.tenantId ∈ tenants := hall c (List.mem_append_right _ List.mem_cons_self)
    replace ih := @ih fun c hc => hall c (List.mem_append_left _ hc)
    by_cases htenant : c.tenantId = tenant
    · subst htenant
      rw [callsOf_append_of_eq rfl] at hcalls
      obtain ⟨before, last, rfl, hbefore, hlast⟩ := List.map_eq_append_iff.1 hcalls
      obtain ⟨x, rfl, hx⟩ := List.map_eq_singleton_iff.1 hlast
      obtain ⟨b, hrun, hrest⟩ := run.split
      obtain ⟨history, s, hrun', hcommands, hquota, hcontains⟩ := ih hrun hbefore
      obtain ⟨hsame, hpost⟩ := hrest.singleton
      obtain ⟨t, hst, hshare⟩ := hcontains.share.of_same_share hsame
      have hstep : x.post = advance recordStep x.pre x.command :=
        run.post_eq x (List.mem_append_right _ List.mem_cons_self)
      have hquota' := hst.quota hquota
      have hnext := Contains.step (a := x.pre) ⟨hcontains.commands, hcontains.results, hshare⟩
        hquota' hfour hmem
      refine ⟨_, _, hrun'.snoc c hst, ?_, hquota'.record hmem, ?_⟩
      · rw [List.map_append, List.map_singleton, hcommands]
      · obtain ⟨pre, command, post⟩ := x
        dsimp only at hx hpost hstep
        subst hx hpost hstep
        exact hnext
    · rw [callsOf_append_of_ne htenant] at hcalls
      obtain ⟨history, s, hrun', hcommands, hquota, hcontains⟩ := ih run hcalls
      refine ⟨_, _, hrun'.snoc c (.refl s), ?_, hquota.record hmem,
        hcontains.step_of_ne hquota hfour hmem htenant⟩
      rw [List.map_append, List.map_singleton, hcommands]

end Containing

/-- In one order of enumeration, a tenant is answered as if it were alone. -/
theorem Share.resultsOf_trace (h : Share tenant s a) (hfour : tenants.card ≤ 4)
    (hquota : Quota tenants s) (calls : List (RecordCall D))
    (hall : ∀ c ∈ calls, c.tenantId ∈ tenants) :
    resultsOf tenant (Run.trace recordStep s calls) =
      resultsOf tenant (Run.trace recordStep a (callsOf tenant calls)) := by
  induction calls generalizing s a with
  | nil => rfl
  | cons c calls ih =>
    rw [List.forall_mem_cons] at hall
    have hquota' : Quota tenants (advance recordStep s c) := hquota.record hall.1
    by_cases htenant : c.tenantId = tenant
    · subst htenant
      obtain ⟨hresult, hnext⟩ := h.record hquota hfour hall.1
      rw [callsOf, List.filter_cons_of_pos (by simp), ← callsOf, Run.trace, Run.trace, resultsOf,
        resultsOf, List.filter_cons_of_pos (by simp), List.filter_cons_of_pos (by simp),
        List.map_cons, List.map_cons, hresult]
      exact congrArg _ (ih hnext hquota' hall.2)
    · have hnext := h.record_of_ne hquota hfour hall.1 htenant
      rw [callsOf, List.filter_cons_of_neg (by simpa using htenant), ← callsOf, Run.trace, resultsOf,
        List.filter_cons_of_neg (by simpa using htenant)]
      exact ih hnext hquota' hall.2

/-- With four tenants at most, what a tenant may be answered does not depend on the calls of the
others, and in one order of enumeration its answers are the same; and no tenant ever holds more keys
than its quota. -/
theorem tenants_isolated (calls : List (RecordCall D)) (tenant : TenantId)
    (hfour : (calls.map RecordCall.tenantId).toFinset.card ≤ 4) :
    possibleResults tenant calls = possibleResults tenant (callsOf tenant calls) ∧
      resultsOf tenant (Run.trace recordStep new calls) =
        resultsOf tenant (Run.trace recordStep new (callsOf tenant calls)) ∧
      ∀ history (s : InMemoryPredicateStateBackend D), RecordRun new history s →
        ∀ other, s.keysOfTenant other ≤ maxKeysPerTenant := by
  have hall : ∀ c ∈ calls, c.tenantId ∈ (calls.map RecordCall.tenantId).toFinset := by
    intro c hc
    rw [List.mem_toFinset]
    exact List.mem_map_of_mem hc
  refine ⟨?_, share_new.resultsOf_trace hfour quota_new calls hall, ?_⟩
  · ext results
    constructor
    · rintro ⟨history, s, run, rfl, rfl⟩
      obtain ⟨-, alone, a, a', hrun, -, hcontains⟩ := exists_alone run hfour
        (fun x hx => hall _ (List.mem_map_of_mem hx)) tenant
      exact ⟨alone, a, hrun, hcontains.commands, hcontains.results⟩
    · rintro ⟨alone, a, run, hcommands, rfl⟩
      obtain ⟨history, s, hrun, hcalls, -, hcontains⟩ :=
        exists_containing hfour tenant calls hall run hcommands
      exact ⟨history, s, hrun, hcalls, hcontains.results.symm⟩
  · intro history s run
    refine run.invariant (I := fun s => ∀ other, s.keysOfTenant other ≤ maxKeysPerTenant)
      (A := fun _ => True) (fun _ => Nat.zero_le _) ?_ ?_ (fun _ _ => trivial)
    · intro s t hsame hbound other
      rw [keysOfTenant, tenantKeyCount, tenantKeyCount, ← hsame.invocations.count_eq,
        ← hsame.values.count_eq]
      exact hbound other
    · intro s c _ hbound
      exact keysOfTenant_record_le hbound c

/-- Two tenants that count at the same time. -/
def sampleCalls : List (RecordCall ℤ) :=
  [.invocation ⟨⟨1⟩, ⟨"quiet"⟩, "shell"⟩ ⟨"first"⟩ 0 60, .value ⟨⟨2⟩, ⟨"noisy"⟩, "pay", "amount"⟩ ⟨"paid"⟩ 1 5 60,
    .invocation ⟨⟨1⟩, ⟨"quiet"⟩, "shell"⟩ ⟨"second"⟩ 2 60]

theorem tenants_isolated_sample :
    possibleResults ⟨"quiet"⟩ sampleCalls = possibleResults ⟨"quiet"⟩ (callsOf ⟨"quiet"⟩ sampleCalls) :=
  (tenants_isolated sampleCalls ⟨"quiet"⟩ (by decide)).1

end InMemoryPredicateStateBackend

end Ironclaw.Hooks
