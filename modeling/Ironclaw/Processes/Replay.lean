import Ironclaw.Lib.Working
import Ironclaw.Processes.State

/-! # Replay records of a batch

A batch holds the whole queue of a replay map but only some of its records: those under the
keys it names, and as many of the oldest as it names keys. That is enough, because a key is
displaced only when a new one is stored: `oldest_loaded` bounds how far into the queue a batch
can reach.

* `WellFormed` ties a replay map to its queue.
* `ReplayTracks` relates the records of a batch to the full replay map; it is kept by
  `remember`. -/

namespace Ironclaw.Processes

namespace IdempotencyRecords

variable {κ ν : Type} [DecidableEq κ]

/-- The queue lists the remembered keys, each once, and is within its bound. -/
structure WellFormed (r : IdempotencyRecords κ ν) : Prop where
  nodup : r.order.Nodup
  bounded : r.order.length ≤ maxIdempotencyRecords
  queued : ∀ k, (r.records.get k).isSome ↔ k ∈ r.order

theorem wellFormed_empty : (empty : IdempotencyRecords κ ν).WellFormed where
  nodup := List.nodup_nil
  bounded := Nat.zero_le _
  queued := by simp [empty]

/-! ### Making room -/

theorem evict_of_lt {records : Table (Prod.fst : κ × ν → κ)} {order : List κ}
    (h : order.length < maxIdempotencyRecords) : evict records order = ⟨records, order⟩ := by
  cases order with
  | nil => rfl
  | cons oldest order =>
    rw [evict, if_neg]
    simpa using h

theorem evict_of_full {records : Table (Prod.fst : κ × ν → κ)} {oldest : κ} {order : List κ}
    (h : order.length + 1 = maxIdempotencyRecords) :
    evict records (oldest :: order) = ⟨records.remove oldest, order⟩ := by
  rw [evict, if_pos h.ge]
  exact evict_of_lt (by omega)

theorem evict_cases (records : Table (Prod.fst : κ × ν → κ)) {order : List κ}
    (h : order.length ≤ maxIdempotencyRecords) :
    (order.length < maxIdempotencyRecords ∧ evict records order = ⟨records, order⟩) ∨
    ∃ oldest rest, order = oldest :: rest ∧ rest.length + 1 = maxIdempotencyRecords ∧
      evict records order = ⟨records.remove oldest, rest⟩ := by
  rcases Nat.lt_or_ge order.length maxIdempotencyRecords with hlt | hge
  · exact .inl ⟨hlt, evict_of_lt hlt⟩
  · cases order with
    | nil => simp [maxIdempotencyRecords] at hge
    | cons oldest rest =>
      have hfull : rest.length + 1 = maxIdempotencyRecords := le_antisymm h hge
      exact .inr ⟨oldest, rest, rfl, hfull, evict_of_full hfull⟩

variable {r : IdempotencyRecords κ ν}

theorem get_isSome_iff {k : κ} : (r.get k).isSome ↔ (r.records.get k).isSome := by
  simp [get]

theorem remember_of_none {k : κ} {v : ν} (h : r.get k = none) :
    r.remember (some k) v = r.pushBack k v := by
  simp [remember, h]

theorem WellFormed.pushBack (h : r.WellFormed) {k : κ} {v : ν}
    (hk : k ∉ r.order) : (r.pushBack k v).WellFormed := by
  unfold IdempotencyRecords.pushBack
  rcases evict_cases r.records h.bounded with
    ⟨hlt, he⟩ | ⟨oldest, rest, ho, hfull, he⟩
  · rw [he]
    refine ⟨?_, ?_, ?_⟩
    · simpa using h.nodup.concat hk
    · rw [List.length_append, List.length_singleton]
      exact hlt
    · intro k'
      simp only [Table.get_put, List.mem_append, List.mem_singleton]
      split_ifs with hkk
      · simp [hkk]
      · rw [h.queued k']
        simp [Ne.symm hkk]
  · rw [he]
    have hnd := h.nodup
    rw [ho, List.nodup_cons] at hnd
    have hk' : k ∉ rest := fun hm => hk (by simp [ho, hm])
    refine ⟨?_, ?_, ?_⟩
    · simpa using hnd.2.concat hk'
    · rw [List.length_append, List.length_singleton]
      exact hfull.le
    · intro k'
      simp only [Table.get_put, Table.get_remove, List.mem_append, List.mem_singleton]
      split_ifs with hkk hok
      · simp [hkk]
      · subst hok
        simp [hnd.1, Ne.symm hkk]
      · rw [h.queued k', ho, List.mem_cons]
        simp [Ne.symm hkk, Ne.symm hok]

end IdempotencyRecords

/-! ### The part of the queue a batch can reach -/

/-- The queue of a batch in progress: what is left of the queue at its start, then keys it
names. -/
def QueueWindow {κ : Type} (start named order : List κ) : Prop :=
  ∃ dropped fresh, order = start.drop dropped ++ fresh ∧ ∀ k ∈ fresh, k ∈ named

theorem oldest_loaded {κ : Type} {start named rest : List κ} {oldest k : κ} {bound : ℕ}
    (hwindow : QueueWindow start named (oldest :: rest)) (hstart : start.length ≤ bound)
    (hfull : rest.length + 1 = bound) (hnodup : (oldest :: rest).Nodup) (hk : k ∈ named)
    (hnew : k ∉ oldest :: rest) : oldest ∈ named ∨ oldest ∈ start.take named.length := by
  obtain ⟨dropped, fresh, horder, hfresh⟩ := hwindow
  -- the keys stored by the batch are distinct from each other and from the new one
  have hlen : fresh.length + 1 ≤ named.length := by
    have hnd : (k :: fresh).Nodup := by
      rw [List.nodup_cons]
      constructor
      · intro hm
        exact hnew (by rw [horder]; exact List.mem_append_right _ hm)
      · rw [horder] at hnodup
        exact hnodup.of_append_right
    have hsub : k :: fresh ⊆ named := by
      intro x hx
      rcases List.mem_cons.mp hx with rfl | hx
      · exact hk
      · exact hfresh x hx
    simpa using (List.subperm_of_subset hnd hsub).length_le
  cases hdrop : start.drop dropped with
  | nil =>
    rw [hdrop, List.nil_append] at horder
    exact .inl (hfresh oldest (by simp [← horder]))
  | cons first tail =>
    rw [hdrop, List.cons_append, List.cons.injEq] at horder
    obtain ⟨rfl, hrest⟩ := horder
    have hlength : rest.length = tail.length + fresh.length := by rw [hrest, List.length_append]
    have hleft : start.length - dropped = tail.length + 1 := by
      rw [← List.length_drop, hdrop, List.length_cons]
    have hat : start[dropped]? = some oldest := by
      rw [← List.head?_drop, hdrop, List.head?_cons]
    refine .inr (List.mem_of_getElem? (i := dropped) ?_)
    rw [List.getElem?_take_of_lt (by omega)]
    exact hat

/-! ### The records of a batch -/

/-- The records `u` of a batch follow the replay map `r`, whose queue started as `start`; the
batch names the keys `named`. -/
structure ReplayTracks {κ ν : Type} [DecidableEq κ] (R : ν → ν → Prop)
    (base loaded : Table (Prod.fst : κ × ν → κ)) (start named : List κ)
    (r u : IdempotencyRecords κ ν) : Prop where
  tracks : Table.Tracks (fun a b => a.1 = b.1 ∧ R a.2 b.2) base loaded r.records u.records
  order : u.order = r.order
  wellFormed : r.WellFormed
  bounded : start.length ≤ maxIdempotencyRecords
  window : QueueWindow start named r.order
  covered : ∀ k, k ∈ named ∨ k ∈ start.take named.length → base.covers loaded k = true

namespace ReplayTracks

variable {κ ν : Type} [DecidableEq κ] {R : ν → ν → Prop}
  {base loaded : Table (Prod.fst : κ × ν → κ)} {start named : List κ}
  {r u : IdempotencyRecords κ ν}

theorem of_load (hr : r.WellFormed) (hR : ∀ v, R v v) (named : List κ) :
    let loaded := r.records.filter fun row => row.1 ∈ named ++ r.order.take named.length
    ReplayTracks R r.records loaded r.order named r ⟨loaded, r.order⟩ where
  tracks := .refl_of_filter (fun row => ⟨rfl, hR row.2⟩) _ _
  order := rfl
  wellFormed := hr
  bounded := hr.bounded
  window := ⟨0, [], by simp, by simp⟩
  covered := fun k hk => Table.covers_filter_of_key fun row hrow => by
    simpa [hrow] using hk

variable (h : ReplayTracks R base loaded start named r u)
include h

theorem get {k : κ} (hk : k ∈ named) : Option.Rel R (r.get k) (u.get k) := by
  have hrel := h.tracks.get (fun _ _ hab => hab.1) (h.covered k (.inl hk))
  unfold IdempotencyRecords.get
  rcases optionRel_cases hrel with ⟨a, b, hr, hu, hab⟩ | ⟨hr, hu⟩
  · rw [hr, hu]
    exact .some hab.2
  · rw [hr, hu]
    exact .none

theorem pushBack {k : κ} {v v' : ν} (hk : k ∈ named) (hnew : k ∉ r.order) (hv : R v v') :
    ReplayTracks R base loaded start named (r.pushBack k v) (u.pushBack k v') where
  tracks := by
    have hcov := h.covered k (.inl hk)
    unfold IdempotencyRecords.pushBack
    rw [h.order]
    rcases IdempotencyRecords.evict_cases r.records h.wellFormed.bounded with
      ⟨hlt, he⟩ | ⟨oldest, rest, ho, hfull, he⟩
    · rw [he, IdempotencyRecords.evict_of_lt hlt]
      exact h.tracks.put (fun _ _ hab => hab.1) ⟨rfl, hv⟩ hcov
    · rw [he, ho, IdempotencyRecords.evict_of_full hfull]
      have hwindow := h.window
      have hnd := h.wellFormed.nodup
      rw [ho] at hwindow hnd hnew
      have hgone := h.covered oldest
        (oldest_loaded hwindow h.bounded hfull hnd hk hnew)
      exact (h.tracks.remove (fun _ _ hab => hab.1) hgone).put (fun _ _ hab => hab.1)
        ⟨rfl, hv⟩ hcov
  order := by
    unfold IdempotencyRecords.pushBack
    rw [h.order]
    rcases IdempotencyRecords.evict_cases r.records h.wellFormed.bounded with
      ⟨hlt, he⟩ | ⟨oldest, rest, ho, hfull, he⟩
    · rw [he, IdempotencyRecords.evict_of_lt hlt]
    · rw [he, ho, IdempotencyRecords.evict_of_full hfull]
  wellFormed := h.wellFormed.pushBack hnew
  bounded := h.bounded
  window := by
    obtain ⟨dropped, fresh, horder, hfresh⟩ := h.window
    have hmore : ∀ x ∈ fresh ++ [k], x ∈ named := by
      intro x hx
      rcases List.mem_append.mp hx with hx | hx
      · exact hfresh x hx
      · rw [List.mem_singleton.mp hx]
        exact hk
    unfold IdempotencyRecords.pushBack
    rcases IdempotencyRecords.evict_cases r.records h.wellFormed.bounded with
      ⟨hlt, he⟩ | ⟨oldest, rest, ho, hfull, he⟩
    · rw [he]
      exact ⟨dropped, fresh ++ [k], by simp [horder], hmore⟩
    · rw [he]
      rw [ho] at horder
      cases hdrop : start.drop dropped with
      | nil =>
        -- the key displaced is one the batch itself had stored
        rw [hdrop, List.nil_append] at horder
        refine ⟨dropped, rest ++ [k], by simp [hdrop], ?_⟩
        intro x hx
        apply hmore
        rw [← horder, List.cons_append]
        exact List.mem_cons_of_mem _ hx
      | cons first tail =>
        rw [hdrop, List.cons_append, List.cons.injEq] at horder
        refine ⟨dropped + 1, fresh ++ [k], ?_, hmore⟩
        have htail : start.drop (dropped + 1) = tail := by
          rw [← List.tail_drop, hdrop, List.tail_cons]
        simp only [htail, horder.2, List.append_assoc]
  covered := h.covered

omit h

theorem wellFormed_overlay (h : ReplayTracks Eq base loaded start named r u) :
    (⟨base.overlay loaded u.records, u.order⟩ : IdempotencyRecords κ ν).WellFormed := by
  have htracks : Table.Tracks Eq base loaded r.records u.records :=
    h.tracks.mono fun _ _ hab => Prod.ext hab.1 hab.2
  refine ⟨?_, ?_, ?_⟩
  · rw [h.order]
    exact h.wellFormed.nodup
  · rw [h.order]
    exact h.wellFormed.bounded
  · intro k
    rw [htracks.get_overlay k, h.order]
    exact h.wellFormed.queued k

end ReplayTracks

end Ironclaw.Processes
