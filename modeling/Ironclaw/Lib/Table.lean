import Mathlib.Algebra.BigOperators.Group.List.Basic
import Mathlib.Data.List.Nodup
import Mathlib.Data.List.Perm.Subperm

/-! # Finite tables whose rows carry their own key

`Table key` is a finite collection of rows of type `ν`, at most one for each value of the
projection `key : ν → κ`. It stands for a hash map whose values repeat their key and for a
collection of stored records addressed by primary key. The rows are kept in a list, so the
table can be enumerated; nothing about the order is promised to a client, and
`Table.SameRows` is the relation "equal up to enumeration order" under which two tables
answer every lookup alike (`SameRows.get_eq`).

* `get`, `put`, `remove` are the map operations; clients reason through their equations only.
* `count p` is the number of rows with property `p` and `total f` the sum of `f` over the rows.
* `overlay` writes a changed working copy of part of a table back (`get_overlay`,
  `overlay_put`). -/

namespace Ironclaw

/-- A finite table with at most one row for each key. -/
structure Table {κ ν : Type} (key : ν → κ) where
  rows : List ν
  nodup : (rows.map key).Nodup

namespace Table

variable {κ ν : Type} {key : ν → κ}

/-- The table with no rows. -/
def empty : Table key := ⟨[], List.nodup_nil⟩

instance : Inhabited (Table key) := ⟨empty⟩

variable {t u : Table key}

theorem eq_of_rows (h : t.rows = u.rows) : t = u := by
  cases t
  cases u
  cases h
  rfl

/-- Equal up to the order of enumeration. -/
def SameRows (t u : Table key) : Prop := t.rows.Perm u.rows

theorem SameRows.refl (t : Table key) : t.SameRows t := List.Perm.refl _

theorem SameRows.symm (h : t.SameRows u) : u.SameRows t := List.Perm.symm h

/-- Number of rows with a property. -/
def count (t : Table key) (p : ν → Bool) : ℕ := t.rows.countP p

theorem SameRows.count_eq (h : t.SameRows u) (p : ν → Bool) :
    t.count p = u.count p := List.Perm.countP_eq p h

/-- The rows with a property. -/
def filter (t : Table key) (p : ν → Bool) : Table key :=
  ⟨t.rows.filter p, t.nodup.sublist (List.filter_sublist.map key)⟩

/-- Every row replaced by one with the same key. -/
def mapRows (t : Table key) (f : ν → ν) (hf : ∀ r, key (f r) = key r) : Table key :=
  ⟨t.rows.map f, by rw [List.map_map, show key ∘ f = key from funext hf]; exact t.nodup⟩

theorem eq_of_mem_of_key_eq (t : Table key) {a b : ν} (ha : a ∈ t.rows) (hb : b ∈ t.rows)
    (h : key a = key b) : a = b := List.inj_on_of_nodup_map t.nodup ha hb h

variable {p : ν → Bool}

/-- A property that two rows have only if they have the same key is had by one row at most. -/
theorem count_le_one (t : Table key)
    (h : ∀ a ∈ t.rows, ∀ b ∈ t.rows, p a = true → p b = true → key a = key b) :
    t.count p ≤ 1 := by
  rw [count, List.countP_eq_length_filter]
  have hnd : (t.rows.filter p).Nodup := t.nodup.of_map.filter p
  cases hf : t.rows.filter p with
  | nil => simp
  | cons a l =>
    cases l with
    | nil => simp
    | cons b l =>
      have ha : a ∈ t.rows.filter p := by simp [hf]
      have hb : b ∈ t.rows.filter p := by simp [hf]
      rw [List.mem_filter] at ha hb
      have hab := t.eq_of_mem_of_key_eq ha.1 hb.1 (h a ha.1 b hb.1 ha.2 hb.2)
      rw [hf, hab] at hnd
      simp at hnd

/-- If every row of `t` with a property stands for a row of `u` with the property and the same
key, then `t` has no more such rows than `u`. -/
theorem count_le_count (h : ∀ a ∈ t.rows, p a = true → ∃ b ∈ u.rows, key b = key a ∧ p b = true) :
    t.count p ≤ u.count p := by
  have hnd : ((t.rows.filter p).map key).Nodup := t.nodup.sublist (List.filter_sublist.map key)
  have hsub : (t.rows.filter p).map key ⊆ (u.rows.filter p).map key := by
    intro k hk
    obtain ⟨a, ha, rfl⟩ := List.mem_map.mp hk
    rw [List.mem_filter] at ha
    obtain ⟨b, hb, hkey, hpb⟩ := h a ha.1 ha.2
    exact List.mem_map.mpr ⟨b, List.mem_filter.mpr ⟨hb, hpb⟩, hkey⟩
  have hlen := (List.subperm_of_subset hnd hsub).length_le
  rw [List.length_map, List.length_map] at hlen
  rw [count, count, List.countP_eq_length_filter, List.countP_eq_length_filter]
  exact hlen

theorem SameRows.filter (h : t.SameRows u) (p : ν → Bool) :
    (t.filter p).SameRows (u.filter p) := List.Perm.filter p h

/-- A part of a table can be enumerated in any order without regard to the rest. -/
theorem exists_filter_eq (t : Table key) {u : Table key}
    (h : u.SameRows (t.filter p)) : ∃ t' : Table key, t'.SameRows t ∧ t'.filter p = u := by
  have hperm : (u.rows ++ t.rows.filter fun x => !p x).Perm t.rows :=
    (h.append_right _).trans (List.filter_append_perm p t.rows)
  refine ⟨⟨_, (hperm.map key).nodup_iff.mpr t.nodup⟩, hperm, eq_of_rows ?_⟩
  have hall : u.rows.filter p = u.rows := by
    rw [List.filter_eq_self]
    intro x hx
    exact (List.mem_filter.mp (h.mem_iff.mp hx)).2
  simp [filter, hall]

variable [DecidableEq κ]

/-- The row stored under a key. -/
def get (t : Table key) (k : κ) : Option ν := t.rows.find? (fun r => decide (key r = k))

variable {r : ν} {k : κ}

theorem get_eq_some_iff (t : Table key) : t.get k = some r ↔ r ∈ t.rows ∧ key r = k := by
  constructor
  · intro h
    exact ⟨List.mem_of_find?_eq_some h, by simpa using List.find?_some h⟩
  · rintro ⟨hr, rfl⟩
    cases hg : t.get (key r) with
    | none =>
      have := List.find?_eq_none.mp hg r hr
      simp at this
    | some a =>
      have hk : key a = key r := by simpa using List.find?_some hg
      rw [t.eq_of_mem_of_key_eq (List.mem_of_find?_eq_some hg) hr hk]

theorem key_of_get {t : Table key} (h : t.get k = some r) : key r = k :=
  (t.get_eq_some_iff.mp h).2

theorem mem_of_get {t : Table key} (h : t.get k = some r) : r ∈ t.rows :=
  (t.get_eq_some_iff.mp h).1

theorem get_of_mem {t : Table key} (h : r ∈ t.rows) : t.get (key r) = some r :=
  t.get_eq_some_iff.mpr ⟨h, rfl⟩

theorem get_eq_none_iff (t : Table key) : t.get k = none ↔ ∀ r ∈ t.rows, key r ≠ k := by
  unfold get
  rw [List.find?_eq_none]
  simp

@[simp] theorem get_empty (k : κ) : (empty : Table key).get k = none := rfl

theorem SameRows.get_eq (h : t.SameRows u) (k : κ) : t.get k = u.get k := by
  apply Option.ext
  intro r
  rw [get_eq_some_iff, get_eq_some_iff, h.mem_iff]

/-- Two tables that answer every lookup alike hold the same rows. -/
theorem sameRows_of_get_eq (h : ∀ k, t.get k = u.get k) : t.SameRows u := by
  refine (List.perm_ext_iff_of_nodup t.nodup.of_map u.nodup.of_map).mpr ?_
  intro r
  constructor
  · intro hr
    exact mem_of_get ((h (key r)).symm.trans (get_of_mem hr))
  · intro hr
    exact mem_of_get ((h (key r)).trans (get_of_mem hr))

theorem get_mapRows (t : Table key) (f : ν → ν) (hf : ∀ r, key (f r) = key r) (k : κ) :
    (t.mapRows f hf).get k = (t.get k).map f := by
  rw [get, get, mapRows, List.find?_map]
  congr 2
  funext r
  rw [Function.comp_apply, hf]

theorem get_filter (t : Table key) (p : ν → Bool) (k : κ) :
    (t.filter p).get k = (t.get k).filter p := by
  apply Option.ext
  intro r
  rw [get_eq_some_iff, Option.filter_eq_some_iff, get_eq_some_iff]
  simp only [filter, List.mem_filter]
  tauto

/-! ### Writing one row -/

/-- Store a row under its own key, replacing the row that was there. -/
def put (t : Table key) (r : ν) : Table key :=
  if h : (t.get (key r)).isSome then
    ⟨t.rows.map (fun x => if key x = key r then r else x), by
      have e : (t.rows.map (fun x => if key x = key r then r else x)).map key = t.rows.map key := by
        rw [List.map_map]
        apply List.map_congr_left
        intro x _
        simp only [Function.comp_apply]
        split_ifs with hx
        · exact hx.symm
        · rfl
      rw [e]
      exact t.nodup⟩
  else
    ⟨t.rows ++ [r], by
      rw [List.map_append, List.map_singleton]
      refine List.nodup_append.mpr ⟨t.nodup, List.nodup_singleton _, ?_⟩
      rintro a ha b hb rfl
      obtain ⟨x, hx, rfl⟩ := List.mem_map.mp ha
      rw [Option.not_isSome_iff_eq_none, get_eq_none_iff] at h
      exact h x hx (List.mem_singleton.mp hb)⟩

theorem rows_put_of_isSome (t : Table key) (h : (t.get (key r)).isSome) :
    (t.put r).rows = t.rows.map fun x => if key x = key r then r else x := by
  unfold put
  rw [dif_pos h]

theorem rows_put_of_none (t : Table key) (h : t.get (key r) = none) :
    (t.put r).rows = t.rows ++ [r] := by
  unfold put
  rw [dif_neg (by simp [h])]

theorem mem_put (t : Table key) (r x : ν) :
    x ∈ (t.put r).rows ↔ x = r ∨ (x ∈ t.rows ∧ key x ≠ key r) := by
  unfold put
  split_ifs with h
  · obtain ⟨a, ha⟩ := Option.isSome_iff_exists.mp h
    obtain ⟨har, hak⟩ := t.get_eq_some_iff.mp ha
    simp only [List.mem_map]
    constructor
    · rintro ⟨y, hy, rfl⟩
      split_ifs with hk
      · exact .inl rfl
      · exact .inr ⟨hy, hk⟩
    · rintro (rfl | ⟨hx, hk⟩)
      · exact ⟨a, har, by simp [hak]⟩
      · exact ⟨x, hx, by simp [hk]⟩
  · rw [Option.not_isSome_iff_eq_none, get_eq_none_iff] at h
    simp only [List.mem_append, List.mem_singleton]
    constructor
    · rintro (hx | hx)
      · exact .inr ⟨hx, h x hx⟩
      · exact .inl hx
    · rintro (hx | hx)
      · exact .inr hx
      · exact .inl hx.1

theorem get_put (t : Table key) (r : ν) (k : κ) :
    (t.put r).get k = if key r = k then some r else t.get k := by
  apply Option.ext
  intro x
  rw [get_eq_some_iff, mem_put]
  split_ifs with h
  · subst h
    simp only [Option.some.injEq]
    constructor
    · rintro ⟨rfl | ⟨_, hne⟩, hk⟩
      · rfl
      · exact absurd hk hne
    · rintro rfl
      exact ⟨.inl rfl, rfl⟩
  · rw [get_eq_some_iff]
    constructor
    · rintro ⟨rfl | ⟨hx, _⟩, hk⟩
      · exact absurd hk h
      · exact ⟨hx, hk⟩
    · rintro ⟨hx, rfl⟩
      exact ⟨.inr ⟨hx, fun e => h e.symm⟩, rfl⟩

@[simp] theorem get_put_self (t : Table key) (r : ν) : (t.put r).get (key r) = some r := by
  rw [get_put, if_pos rfl]

theorem get_put_of_ne (t : Table key) (h : key r ≠ k) : (t.put r).get k = t.get k := by
  rw [get_put, if_neg h]

/-- Drop the row stored under a key. -/
def remove (t : Table key) (k : κ) : Table key := t.filter (fun r => decide (key r ≠ k))

theorem get_remove (t : Table key) (k k' : κ) :
    (t.remove k).get k' = if k = k' then none else t.get k' := by
  unfold remove
  rw [get_filter]
  cases hg : t.get k' with
  | none => simp
  | some r =>
    have hk := key_of_get hg
    by_cases h : k = k'
    · simp [h, hk]
    · simp [h, hk, Ne.symm h]

/-- The row that is dropped and the rows that stay. -/
theorem perm_cons_remove {t : Table key} (h : t.get k = some r) :
    t.rows.Perm (r :: (t.remove k).rows) := by
  obtain ⟨hr, hk⟩ := t.get_eq_some_iff.mp h
  have hnot : r ∉ (t.remove k).rows := by
    intro hmem
    exact of_decide_eq_true (List.mem_filter.mp hmem).2 hk
  refine (List.perm_ext_iff_of_nodup t.nodup.of_map
    (List.nodup_cons.mpr ⟨hnot, (t.remove k).nodup.of_map⟩)).mpr ?_
  intro x
  rw [List.mem_cons]
  constructor
  · intro hx
    by_cases hkey : key x = k
    · exact .inl (t.eq_of_mem_of_key_eq hx hr (hkey.trans hk.symm))
    · exact .inr (List.mem_filter.mpr ⟨hx, decide_eq_true hkey⟩)
  · rintro (rfl | hx)
    · exact hr
    · exact (List.mem_filter.mp hx).1

theorem count_remove_of_get {t : Table key} (p : ν → Bool) (h : t.get k = some r)
    (hp : p r = true) : (t.remove k).count p + 1 = t.count p := by
  rw [count, count, (perm_cons_remove h).countP_eq, List.countP_cons_of_pos hp]

/-! ### Parts of a table that are told by the key -/

theorem filter_remove (t : Table key) (p : ν → Bool) (k : κ) :
    (t.remove k).filter p = (t.filter p).remove k := by
  apply eq_of_rows
  simp only [remove, filter, List.filter_filter, Bool.and_comm]

theorem filter_remove_of_neg (t : Table key)
    (hp : ∀ x, key x = k → p x = false) : (t.remove k).filter p = t.filter p := by
  apply eq_of_rows
  simp only [remove, filter, List.filter_filter]
  refine List.filter_congr fun x _ => ?_
  by_cases hx : key x = k
  · simp [hp x hx]
  · simp [hx]

theorem filter_put_of_pos (t : Table key)
    (hp : ∀ x, key x = key r → p x = true) : (t.put r).filter p = (t.filter p).put r := by
  apply eq_of_rows
  cases hget : t.get (key r) with
  | none =>
    rw [rows_put_of_none _ (by rw [get_filter, hget]; rfl)]
    simp only [filter, t.rows_put_of_none hget, List.filter_append,
      List.filter_cons_of_pos (hp r rfl), List.filter_nil]
  | some a =>
    have ha := hp a (key_of_get hget)
    rw [rows_put_of_isSome _ (by rw [get_filter, hget, Option.filter_some, if_pos ha]; rfl)]
    simp only [filter, t.rows_put_of_isSome (Option.isSome_of_eq_some hget), List.filter_map]
    congr 1
    refine List.filter_congr fun x _ => ?_
    by_cases hx : key x = key r
    · simp [hx, hp x hx, hp r rfl]
    · simp [hx]

theorem filter_put_of_neg (t : Table key)
    (hp : ∀ x, key x = key r → p x = false) : (t.put r).filter p = t.filter p := by
  apply eq_of_rows
  cases hget : t.get (key r) with
  | none =>
    simp only [filter, t.rows_put_of_none hget, List.filter_append]
    rw [List.filter_cons_of_neg (by simp [hp r rfl]), List.filter_nil, List.append_nil]
  | some a =>
    simp only [filter, t.rows_put_of_isSome (Option.isSome_of_eq_some hget), List.filter_map]
    have hcomp : t.rows.filter (p ∘ fun x => if key x = key r then r else x) = t.rows.filter p := by
      refine List.filter_congr fun x _ => ?_
      by_cases hx : key x = key r
      · simp [hx, hp x hx, hp r rfl]
      · simp [hx]
    rw [hcomp]
    refine (List.map_congr_left fun x hx => if_neg ?_).trans (List.map_id _)
    intro hkey
    rw [List.mem_filter, hp x hkey] at hx
    exact Bool.false_ne_true hx.2

/-! ### Sums and counts -/

section total
variable {M : Type} [AddCommMonoid M]

/-- Sum of a quantity over the rows. -/
def total (t : Table key) (f : ν → M) : M := (t.rows.map f).sum

omit [DecidableEq κ] in
theorem SameRows.total_eq {t u : Table key} (h : t.SameRows u) (f : ν → M) :
    t.total f = u.total f := (List.Perm.map f h).sum_eq

omit [DecidableEq κ] in
theorem count_eq_total (t : Table key) (p : ν → Bool) :
    t.count p = t.total fun r => if p r then 1 else 0 := by
  unfold count total
  induction t.rows with
  | nil => rfl
  | cons r l ih => rw [List.countP_cons, ih, List.map_cons, List.sum_cons, add_comm]

theorem total_put_of_none (t : Table key) {r : ν} (f : ν → M) (h : t.get (key r) = none) :
    (t.put r).total f = t.total f + f r := by
  unfold total
  rw [t.rows_put_of_none h, List.map_append, List.sum_append, List.map_singleton,
    List.sum_singleton]

private theorem sum_replace (f : ν → M) (r : ν) : ∀ (l : List ν) (a : ν),
    (l.map key).Nodup → a ∈ l → key a = key r →
    ((l.map (fun x => if key x = key r then r else x)).map f).sum + f a = (l.map f).sum + f r
  | [], a, _, ha, _ => absurd ha List.not_mem_nil
  | b :: l, a, hnd, ha, hk => by
    rw [List.map_cons, List.nodup_cons] at hnd
    rw [List.map_cons, List.map_cons, List.map_cons, List.sum_cons, List.sum_cons]
    rcases List.mem_cons.mp ha with rfl | hal
    · have hrest : l.map (fun x => if key x = key r then r else x) = l := by
        refine (List.map_congr_left fun x hx => ?_).trans (List.map_id l)
        have hne : key x ≠ key r := fun e => hnd.1 (by
          rw [hk, ← e]
          exact List.mem_map_of_mem hx)
        simp [hne]
      rw [hrest, if_pos hk]
      ac_rfl
    · have hb : key b ≠ key r := fun e => hnd.1 (by
        rw [e, ← hk]
        exact List.mem_map_of_mem hal)
      have ih := sum_replace f r l a hnd.2 hal hk
      rw [if_neg hb, add_assoc, ih, add_assoc]

/-- Replacing the row `a` by a row with the same key moves a sum by the difference of the two
rows' contributions. -/
theorem total_put_of_get (t : Table key) {a r : ν} (f : ν → M) (h : t.get (key r) = some a) :
    (t.put r).total f + f a = t.total f + f r := by
  obtain ⟨ha, hk⟩ := t.get_eq_some_iff.mp h
  unfold total
  rw [t.rows_put_of_isSome (by simp [h])]
  exact sum_replace f r t.rows a t.nodup ha hk

end total

theorem count_put_of_none (t : Table key) (p : ν → Bool) (h : t.get (key r) = none) :
    (t.put r).count p = t.count p + if p r then 1 else 0 := by
  rw [count_eq_total, count_eq_total, t.total_put_of_none _ h]

/-- Replacing the row `a` by a row with the same key moves the count by the difference of the
two rows' contributions. -/
theorem count_put_of_get (t : Table key) {a r : ν} (p : ν → Bool) (h : t.get (key r) = some a) :
    (t.put r).count p + (if p a then 1 else 0) = t.count p + if p r then 1 else 0 := by
  rw [count_eq_total, count_eq_total]
  exact t.total_put_of_get (fun x => if p x then 1 else 0) h

/-! ### Writing back part of a table -/

/-- `stored` after the rows of the working copy `loaded` have been changed to `next`: a row
that was loaded and is gone from `next` is dropped, every row of `next` is written, and a row
that was not loaded keeps its value. -/
def overlay (stored loaded next : Table key) : Table key :=
  next.rows.foldl put (stored.filter (fun r => (loaded.get (key r)).isNone))

private theorem get_foldl_put (k : κ) : ∀ (l : List ν) (t : Table key), (l.map key).Nodup →
    (l.foldl put t).get k = (l.find? (fun r => decide (key r = k))).or (t.get k)
  | [], t, _ => by simp
  | r :: l, t, hnd => by
    rw [List.map_cons, List.nodup_cons] at hnd
    rw [List.foldl_cons, get_foldl_put k l _ hnd.2, get_put, List.find?_cons]
    by_cases h : key r = k
    · subst h
      have hn : l.find? (fun x => decide (key x = key r)) = none := by
        rw [List.find?_eq_none]
        intro x hx
        simp only [decide_eq_true_eq]
        intro e
        exact hnd.1 (e ▸ List.mem_map_of_mem hx)
      simp [hn]
    · simp [h]

theorem get_overlay (stored loaded next : Table key) (k : κ) :
    (stored.overlay loaded next).get k =
      (next.get k).or (if (loaded.get k).isNone then stored.get k else none) := by
  unfold overlay
  rw [get_foldl_put k next.rows _ next.nodup, get_filter]
  congr 1
  cases hs : stored.get k with
  | none => simp
  | some r =>
    have hk := key_of_get hs
    subst hk
    cases hl : loaded.get (key r) <;> simp [hl]

/-- Rows that were loaded and did not change are written back as they were. -/
theorem get_overlay_filter (stored : Table key) (p : ν → Bool) (k : κ) :
    (stored.overlay (stored.filter p) (stored.filter p)).get k = stored.get k := by
  rw [get_overlay, get_filter]
  cases hk : stored.get k with
  | none => simp
  | some r =>
    cases hp : p r with
    | true => simp [Option.filter, hp]
    | false => simp [Option.filter, hp]

/-- Writing a row to the working copy is writing it to the table. -/
theorem overlay_put (stored loaded next : Table key) (r : ν) :
    (stored.overlay loaded (next.put r)).SameRows ((stored.overlay loaded next).put r) := by
  apply sameRows_of_get_eq
  intro k
  rw [get_overlay, get_put, get_put, get_overlay]
  split_ifs <;> simp

end Table

end Ironclaw
