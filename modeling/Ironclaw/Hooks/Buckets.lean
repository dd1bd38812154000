import Ironclaw.Hooks.PredicateState

/-! # Buckets and evictions

What the operations of a bucket keep: the id set is the set of the ids in the deque
(`Bucket.WellFormed`), and a deque in the order of time is trimmed to its window
(`Bucket.entries_trim_of_sorted`). `sample_cases` says what recording a sample does, `Evicts` what
making room for a key does to the other keys. -/

namespace Ironclaw.Hooks

/-! ### Buckets -/

namespace Bucket

variable {V : Type} {bucket : Bucket V} {cutoff : Timestamp}

/-- The id set is the set of the ids in the deque, and no id is there twice. -/
structure WellFormed (bucket : Bucket V) : Prop where
  ids : bucket.dedupIds = (bucket.entries.map Sample.eventId).toFinset
  nodup : (bucket.entries.map Sample.eventId).Nodup

theorem WellFormed.empty [Zero V] : (Bucket.empty : Bucket V).WellFormed where
  ids := rfl
  nodup := List.nodup_nil

theorem WellFormed.mem_dedupIds (h : bucket.WellFormed) {eventId : PredicateEventId} :
    eventId ∈ bucket.dedupIds ↔ ∃ entry ∈ bucket.entries, entry.eventId = eventId := by
  rw [h.ids, List.mem_toFinset, List.mem_map]

theorem WellFormed.popFront [Sub V] (h : bucket.WellFormed) : bucket.popFront.WellFormed := by
  obtain ⟨entries, dedupIds, runningSum⟩ := bucket
  cases entries with
  | nil => exact h
  | cons front rest =>
    have hnodup := h.nodup
    rw [List.map_cons, List.nodup_cons] at hnodup
    refine ⟨?_, hnodup.2⟩
    have hids : dedupIds = insert front.eventId (rest.map Sample.eventId).toFinset := by
      rw [← List.toFinset_cons]
      exact h.ids
    change dedupIds.erase front.eventId = (rest.map Sample.eventId).toFinset
    rw [hids, Finset.erase_insert]
    rw [List.mem_toFinset]
    exact hnodup.1

theorem WellFormed.trimRounds [Sub V] (h : bucket.WellFormed) (rounds : ℕ) :
    (bucket.trimRounds cutoff rounds).WellFormed := by
  induction rounds generalizing bucket with
  | zero => exact h
  | succ rounds ih =>
    rw [Bucket.trimRounds]
    split
    · exact h
    · split
      · exact ih h.popFront
      · exact h

theorem WellFormed.pushBack [Add V] (h : bucket.WellFormed) {entry : Sample V}
    (hnew : entry.eventId ∉ bucket.dedupIds) : (bucket.pushBack entry).WellFormed where
  ids := by
    ext eventId
    simp [Bucket.pushBack, h.ids]
  nodup := by
    rw [Bucket.pushBack, List.map_append, List.nodup_append]
    refine ⟨h.nodup, List.nodup_singleton _, ?_⟩
    rw [h.ids, List.mem_toFinset] at hnew
    intro a ha b hb hab
    rw [List.map_singleton, List.mem_singleton] at hb
    rw [hab, hb] at ha
    exact hnew ha

section Trimming

variable [Sub V]

theorem entries_trimRounds (rounds : ℕ) (h : bucket.entries.length ≤ rounds) :
    (bucket.trimRounds cutoff rounds).entries =
      bucket.entries.dropWhile fun entry => entry.timestamp < cutoff := by
  obtain ⟨entries, dedupIds, runningSum⟩ := bucket
  induction rounds generalizing entries dedupIds runningSum with
  | zero =>
    obtain rfl : entries = [] := List.length_eq_zero_iff.1 (Nat.le_zero.1 h)
    rfl
  | succ rounds ih =>
    cases entries with
    | nil => rfl
    | cons front rest =>
      rw [Bucket.trimRounds, List.dropWhile_cons]
      dsimp only
      by_cases hold : front.timestamp < cutoff
      · rw [if_pos hold, if_pos (by simpa using hold)]
        exact ih rest _ _ (Nat.le_of_succ_le_succ h)
      · rw [if_neg hold, if_neg (by simpa using hold)]

theorem entries_trim (bucket : Bucket V) (cutoff : Timestamp) :
    (bucket.trim cutoff).entries =
      bucket.entries.dropWhile fun entry => entry.timestamp < cutoff :=
  entries_trimRounds _ le_rfl

theorem mem_trim {entry : Sample V} (h : entry ∈ bucket.entries) (hrecent : cutoff ≤ entry.timestamp) :
    entry ∈ (bucket.trim cutoff).entries := by
  rw [entries_trim]
  generalize bucket.entries = entries at h
  induction entries with
  | nil => exact h
  | cons front rest ih =>
    rw [List.dropWhile_cons]
    split
    · rename_i hold
      refine ih ((List.mem_cons.1 h).resolve_left ?_)
      rintro rfl
      rw [decide_eq_true_eq] at hold
      exact absurd hold (not_lt.2 hrecent)
    · exact h

theorem mem_of_mem_trim {entry : Sample V} (h : entry ∈ (bucket.trim cutoff).entries) :
    entry ∈ bucket.entries := by
  rw [entries_trim] at h
  exact (List.dropWhile_sublist _).subset h

/-- In a bucket that is in the order of time, exactly the samples of the window stay. -/
theorem entries_trim_of_sorted (h : bucket.entries.Pairwise fun a b => a.timestamp ≤ b.timestamp) :
    (bucket.trim cutoff).entries =
      bucket.entries.filter fun entry => decide (cutoff ≤ entry.timestamp) := by
  rw [entries_trim]
  generalize bucket.entries = entries at h
  induction entries with
  | nil => rfl
  | cons front rest ih =>
    rw [List.pairwise_cons] at h
    rw [List.dropWhile_cons]
    by_cases hold : front.timestamp < cutoff
    · rw [if_pos (by simpa using hold), List.filter_cons_of_neg (by simpa using hold)]
      exact ih h.2
    · have hall : ∀ entry ∈ front :: rest, decide (cutoff ≤ entry.timestamp) = true := by
        intro entry hentry
        rw [decide_eq_true_eq]
        rcases List.mem_cons.1 hentry with rfl | hentry
        · exact not_lt.1 hold
        · exact (not_lt.1 hold).trans (h.1 entry hentry)
      rw [if_neg (by simpa using hold), List.filter_eq_self.2 hall]

end Trimming

end Bucket

/-! ### Recording a sample -/

section Sampling

variable {K V : Type} [DecidableEq K] [Zero V] [Add V] [Sub V] {history : History K V} {key : K}
  {label : String} {cutoff : Timestamp} {entry : Sample V}

/-- The three outcomes of recording a sample, with the bucket that is left. -/
theorem sample_cases (h : (history.bucketOf key).WellFormed) :
    (entry.eventId ∈ ((history.bucketOf key).trim cutoff).dedupIds ∧
      sample history key label cutoff entry =
        (.ok ((history.bucketOf key).trim cutoff),
          history.put ⟨key, (history.bucketOf key).trim cutoff⟩)) ∨
    (entry.eventId ∉ ((history.bucketOf key).trim cutoff).dedupIds ∧
      maxSamplesPerKey ≤ ((history.bucketOf key).trim cutoff).entries.length ∧
      sample history key label cutoff entry =
        (.error (.windowOverflow label maxSamplesPerKey),
          history.put ⟨key, (history.bucketOf key).trim cutoff⟩)) ∨
    (entry.eventId ∉ ((history.bucketOf key).trim cutoff).dedupIds ∧
      ((history.bucketOf key).trim cutoff).entries.length < maxSamplesPerKey ∧
      sample history key label cutoff entry =
        (.ok (((history.bucketOf key).trim cutoff).pushBack entry),
          history.put ⟨key, ((history.bucketOf key).trim cutoff).pushBack entry⟩)) := by
  have hwf : ((history.bucketOf key).trim cutoff).WellFormed := h.trimRounds _
  unfold sample
  dsimp only
  by_cases hold : entry.eventId ∈ ((history.bucketOf key).trim cutoff).dedupIds
  · refine .inl ⟨hold, ?_⟩
    have hne : ((history.bucketOf key).trim cutoff).entries.isEmpty = false := by
      obtain ⟨found, hfound, -⟩ := hwf.mem_dedupIds.1 hold
      rw [← Bool.not_eq_true, List.isEmpty_iff]
      exact List.ne_nil_of_mem hfound
    rw [if_pos hold, if_neg (by simp [hne])]
  by_cases hfull : maxSamplesPerKey ≤ ((history.bucketOf key).trim cutoff).entries.length
  · refine .inr (.inl ⟨hold, hfull, ?_⟩)
    have hne : ((history.bucketOf key).trim cutoff).entries.isEmpty = false := by
      rw [← Bool.not_eq_true, List.isEmpty_iff_length_eq_zero]
      unfold maxSamplesPerKey at hfull
      omega
    rw [if_neg hold, if_pos hfull, if_neg (by simp [hne])]
  · refine .inr (.inr ⟨hold, not_le.1 hfull, ?_⟩)
    rw [if_neg hold, if_neg hfull, if_neg (by simp [Bucket.pushBack])]

omit [Add V] [Sub V] in
theorem bucketOf_put (history : History K V) (key : K) (bucket : Bucket V) :
    History.bucketOf (history.put ⟨key, bucket⟩) key = bucket := by
  rw [History.bucketOf, show (history.put ⟨key, bucket⟩).get key = some ⟨key, bucket⟩ from
    Table.get_put_self _ _]

end Sampling

/-! ### Making room -/

/-- Equal up to the order in which the maps are enumerated. -/
structure InMemoryPredicateStateBackend.Same {D : Type} (s t : InMemoryPredicateStateBackend D) :
    Prop where
  invocations : s.invocationHistory.SameRows t.invocationHistory
  values : s.valueHistory.SameRows t.valueHistory
  evictions : s.evictions = t.evictions

theorem InMemoryPredicateStateBackend.Same.refl {D : Type} (s : InMemoryPredicateStateBackend D) :
    s.Same s := ⟨.refl _, .refl _, rfl⟩

/-- No bucket of the second map differs from the bucket of the first. -/
def Shrinks {K V : Type} [DecidableEq K] (t t' : History K V) : Prop :=
  ∀ key, t'.get key = t.get key ∨ t'.get key = none

section Shrinking

variable {K V : Type} [DecidableEq K] {t t' t'' : History K V} {key : K}

theorem Shrinks.refl (t : History K V) : Shrinks t t := fun _ => .inl rfl

theorem Shrinks.remove (t : History K V) (key : K) : Shrinks t (t.remove key) := by
  intro other
  rw [Table.get_remove]
  split
  · exact .inr rfl
  · exact .inl rfl

theorem Shrinks.get_of_none (h : Shrinks t t') (hnone : t.get key = none) : t'.get key = none := by
  rcases h key with hget | hget
  · rw [hget, hnone]
  · exact hget

end Shrinking

namespace InMemoryPredicateStateBackend

variable {D : Type} {s : InMemoryPredicateStateBackend D}

/-- Buckets go only away. -/
structure Evicts (s s' : InMemoryPredicateStateBackend D) : Prop where
  invocations : Shrinks s.invocationHistory s'.invocationHistory
  values : Shrinks s.valueHistory s'.valueHistory

theorem Evicts.refl (s : InMemoryPredicateStateBackend D) : Evicts s s := ⟨.refl _, .refl _⟩

theorem evicts_evictLruForTenant (s : InMemoryPredicateStateBackend D) (tenantId : TenantId) :
    Evicts s (s.evictLruForTenant tenantId) := by
  unfold evictLruForTenant
  dsimp only
  split
  · split
    · exact ⟨.remove _ _, .refl _⟩
    · exact ⟨.refl _, .remove _ _⟩
  · exact ⟨.remove _ _, .refl _⟩
  · exact ⟨.refl _, .remove _ _⟩
  · exact .refl s

theorem evicts_evictLruInvocation (s : InMemoryPredicateStateBackend D) :
    Evicts s s.evictLruInvocation := by
  unfold evictLruInvocation
  split
  · exact ⟨.remove _ _, .refl _⟩
  · exact .refl s

theorem evicts_evictLruValue (s : InMemoryPredicateStateBackend D) : Evicts s s.evictLruValue := by
  unfold evictLruValue
  split
  · exact ⟨.refl _, .remove _ _⟩
  · exact .refl s

theorem evicts_makeRoom {tenantId : TenantId} {known full : Bool}
    {evictLru : InMemoryPredicateStateBackend D → InMemoryPredicateStateBackend D}
    (h : ∀ s, Evicts s (evictLru s)) : Evicts s (s.makeRoom tenantId known full evictLru) := by
  unfold makeRoom
  split
  · exact .refl s
  split
  · exact evicts_evictLruForTenant s tenantId
  split
  · exact h s
  · exact .refl s

/-- The maps once there is room for the key of an invocation. -/
def roomForInvocation (s : InMemoryPredicateStateBackend D) (key : InvocationKey) :
    InMemoryPredicateStateBackend D :=
  s.makeRoom key.tenantId (s.invocationHistory.get key).isSome
    (decide (maxHistoryKeys ≤ s.invocationHistory.rows.length)) evictLruInvocation

/-- The maps once there is room for the key of a value. -/
def roomForValue (s : InMemoryPredicateStateBackend D) (key : ValueKey) :
    InMemoryPredicateStateBackend D :=
  s.makeRoom key.tenantId (s.valueHistory.get key).isSome
    (decide (maxHistoryKeys ≤ s.valueHistory.rows.length)) evictLruValue

theorem evicts_roomForInvocation (s : InMemoryPredicateStateBackend D) (key : InvocationKey) :
    Evicts s (s.roomForInvocation key) := evicts_makeRoom evicts_evictLruInvocation

theorem evicts_roomForValue (s : InMemoryPredicateStateBackend D) (key : ValueKey) :
    Evicts s (s.roomForValue key) := evicts_makeRoom evicts_evictLruValue

theorem get_roomForInvocation (s : InMemoryPredicateStateBackend D) (key : InvocationKey) :
    (s.roomForInvocation key).invocationHistory.get key = s.invocationHistory.get key := by
  cases hget : s.invocationHistory.get key with
  | none => exact (s.evicts_roomForInvocation key).invocations.get_of_none hget
  | some row =>
    rw [roomForInvocation, makeRoom, hget]
    exact hget

theorem get_roomForValue (s : InMemoryPredicateStateBackend D) (key : ValueKey) :
    (s.roomForValue key).valueHistory.get key = s.valueHistory.get key := by
  cases hget : s.valueHistory.get key with
  | none => exact (s.evicts_roomForValue key).values.get_of_none hget
  | some row =>
    rw [roomForValue, makeRoom, hget]
    exact hget

/-! ### What a recording does -/

/-- The outcomes of recording an invocation: the event is still in the window, the window is full, or
the event is new. -/
inductive Recorded (trimmed : Bucket Unit) (entry : Sample Unit) :
    Except PredicateBackendError ℕ → Bucket Unit → Prop
  | again (hold : entry.eventId ∈ trimmed.dedupIds) :
      Recorded trimmed entry (.ok trimmed.entries.length) trimmed
  | full (label : String) (hnew : entry.eventId ∉ trimmed.dedupIds)
      (hfull : maxSamplesPerKey ≤ trimmed.entries.length) :
      Recorded trimmed entry (.error (.windowOverflow label maxSamplesPerKey)) trimmed
  | fresh (hnew : entry.eventId ∉ trimmed.dedupIds)
      (hroom : trimmed.entries.length < maxSamplesPerKey) :
      Recorded trimmed entry (.ok (trimmed.entries.length + 1)) (trimmed.pushBack entry)

section Recording

variable {trimmed bucket' : Bucket Unit} {entry : Sample Unit}
  {result : Except PredicateBackendError ℕ}

variable (h : Recorded trimmed entry result bucket')
include h

theorem Recorded.wellFormed (hwf : trimmed.WellFormed) : bucket'.WellFormed := by
  cases h with
  | again => exact hwf
  | full => exact hwf
  | fresh hnew => exact hwf.pushBack hnew

theorem Recorded.subset : trimmed.entries ⊆ bucket'.entries := by
  cases h with
  | again => exact List.Subset.refl _
  | full => exact List.Subset.refl _
  | fresh => exact List.subset_append_left _ _

theorem Recorded.entries :
    bucket'.entries = trimmed.entries ∨ bucket'.entries = trimmed.entries ++ [entry] := by
  cases h with
  | again => exact .inl rfl
  | full => exact .inl rfl
  | fresh => exact .inr rfl

theorem Recorded.of_ok (hwf : trimmed.WellFormed) {count : ℕ} (hok : result = .ok count) :
    count = bucket'.entries.length ∧
      ∃ found ∈ bucket'.entries, found.eventId = entry.eventId := by
  cases h with
  | again hold =>
    cases hok
    exact ⟨rfl, hwf.mem_dedupIds.1 hold⟩
  | full => cases hok
  | fresh =>
    cases hok
    exact ⟨by simp [Bucket.pushBack], entry, List.mem_append_right _ List.mem_cons_self, rfl⟩

theorem Recorded.of_mem (hold : entry.eventId ∈ trimmed.dedupIds) :
    result = .ok trimmed.entries.length ∧ bucket' = trimmed := by
  cases h with
  | again => exact ⟨rfl, rfl⟩
  | full _ hnew => exact absurd hold hnew
  | fresh hnew => exact absurd hold hnew

theorem Recorded.of_full (hnew : entry.eventId ∉ trimmed.dedupIds)
    (hfull : maxSamplesPerKey ≤ trimmed.entries.length) : ∃ error, result = .error error := by
  cases h with
  | again hold => exact absurd hold hnew
  | full => exact ⟨_, rfl⟩
  | fresh _ hroom => exact absurd hfull (not_le.2 hroom)

omit h

end Recording

theorem recorded_recordInvocation (key : InvocationKey) (eventId : PredicateEventId)
    (now : Timestamp) (window : ℤ) (h : (s.invocationHistory.bucketOf key).WellFormed) :
    Recorded ((s.invocationHistory.bucketOf key).trim (windowCutoff now window)) ⟨now, (), eventId⟩
      (s.recordInvocation key eventId now window).1
      ((s.recordInvocation key eventId now window).2.invocationHistory.bucketOf key) := by
  have hroom : (s.roomForInvocation key).invocationHistory.bucketOf key =
      s.invocationHistory.bucketOf key := by
    rw [History.bucketOf, get_roomForInvocation, History.bucketOf]
  unfold recordInvocation
  dsimp only
  change Recorded _ _ ((sample (s.roomForInvocation key).invocationHistory _ _ _ _).1.map _)
    (History.bucketOf (sample (s.roomForInvocation key).invocationHistory _ _ _ _).2 key)
  rcases sample_cases (hroom ▸ h) with ⟨hold, heq⟩ | ⟨hnew, hfull, heq⟩ | ⟨hnew, hlt, heq⟩
  · rw [heq, bucketOf_put]
    rw [hroom] at hold ⊢
    exact .again hold
  · rw [heq, bucketOf_put]
    rw [hroom] at hnew hfull ⊢
    exact .full _ hnew hfull
  · rw [heq, bucketOf_put]
    rw [hroom] at hnew hlt ⊢
    have hlength : (((s.invocationHistory.bucketOf key).trim (windowCutoff now window)).pushBack
        ⟨now, (), eventId⟩).entries.length =
        ((s.invocationHistory.bucketOf key).trim (windowCutoff now window)).entries.length + 1 :=
      List.length_append
    have hfresh := Recorded.fresh hnew hlt
    rw [← hlength] at hfresh
    exact hfresh

theorem get_sample_of_ne {K V : Type} [DecidableEq K] [Zero V] [Add V] [Sub V]
    (history : History K V) {key other : K} (hne : key ≠ other) (label : String)
    (cutoff : Timestamp) (entry : Sample V) :
    (sample history key label cutoff entry).2.get other = history.get other := by
  have hkeep (bucket : Bucket V) : (if bucket.entries.isEmpty = true then history.remove key
      else history.put ⟨key, bucket⟩).get other = history.get other := by
    split
    · rw [Table.get_remove, if_neg hne]
    · exact Table.get_put_of_ne _ hne
  unfold sample
  dsimp only
  split
  · exact hkeep _
  split
  · exact hkeep _
  · exact hkeep _

theorem get_recordInvocation_of_ne {key other : InvocationKey} (hne : key ≠ other)
    (eventId : PredicateEventId) (now : Timestamp) (window : ℤ) :
    (s.recordInvocation key eventId now window).2.invocationHistory.get other =
        s.invocationHistory.get other ∨
      (s.recordInvocation key eventId now window).2.invocationHistory.get other = none := by
  have hsample := get_sample_of_ne (s.roomForInvocation key).invocationHistory hne
    (key.tenantId.asStr ++ "/" ++ key.capability) (windowCutoff now window) ⟨now, (), eventId⟩
  rcases (s.evicts_roomForInvocation key).invocations other with hget | hget
  · exact .inl (hsample.trans hget)
  · exact .inr (hsample.trans hget)

theorem shrinks_recordValue [Zero D] [Add D] [Sub D] (key : ValueKey) (eventId : PredicateEventId) (now : Timestamp)
    (value : D) (window : ℤ) :
    Shrinks s.invocationHistory
      (s.recordValue key eventId now value window).2.invocationHistory :=
  (s.evicts_roomForValue key).invocations

end InMemoryPredicateStateBackend

end Ironclaw.Hooks
