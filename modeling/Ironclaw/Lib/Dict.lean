import Ironclaw.Lib.Table

/-! # Finite maps

`Dict κ ν` is a table of pairs: a finite map from `κ` to `ν` that can be enumerated. Where a hash
map of a program is only ever asked for its values, `lookup`, `insert`, `erase` and `retain` and
their equations are all there is to it; `pairs` lists it. -/

namespace Ironclaw

/-- A finite map. -/
abbrev Dict (κ ν : Type) := Table (Prod.fst : κ × ν → κ)

namespace Dict

variable {κ ν : Type} [DecidableEq κ] (d : Dict κ ν)

def lookup (k : κ) : Option ν := (d.get k).map Prod.snd

def insert (k : κ) (v : ν) : Dict κ ν := d.put (k, v)

def erase (k : κ) : Dict κ ν := d.remove k

/-- Without any of the keys. -/
def eraseAll (keys : List κ) : Dict κ ν := keys.foldl erase d

omit [DecidableEq κ] in
/-- The pairs that pass a test. -/
def retain (p : κ → ν → Bool) : Dict κ ν := d.filter fun entry => p entry.1 entry.2

omit [DecidableEq κ] in
def pairs : List (κ × ν) := d.rows

/-- The pairs put in one after the other. -/
def extend (pairs : List (κ × ν)) : Dict κ ν := pairs.foldl (fun d pair => insert d pair.1 pair.2) d

theorem lookup_eq_some {k : κ} {v : ν} : lookup d k = some v ↔ (k, v) ∈ pairs d := by
  unfold lookup pairs
  rw [Option.map_eq_some_iff]
  constructor
  · rintro ⟨⟨k', v'⟩, hget, rfl⟩
    obtain ⟨hmem, hkey⟩ := (Table.get_eq_some_iff d).1 hget
    cases hkey
    exact hmem
  · intro hmem
    exact ⟨(k, v), (Table.get_eq_some_iff d).2 ⟨hmem, rfl⟩, rfl⟩

theorem lookup_insert (k : κ) (v : ν) (k' : κ) :
    lookup (insert d k v) k' = if k = k' then some v else lookup d k' := by
  unfold lookup insert
  rw [Table.get_put]
  split
  next => rfl
  next => rfl

@[simp] theorem lookup_insert_self (k : κ) (v : ν) : lookup (insert d k v) k = some v := by
  rw [lookup_insert, if_pos rfl]

theorem lookup_insert_of_ne {k k' : κ} (v : ν) (h : k ≠ k') :
    lookup (insert d k v) k' = lookup d k' := by
  rw [lookup_insert, if_neg h]

theorem lookup_of_lookup_insert {k k' : κ} {v v' : ν} (h : lookup (insert d k v) k' = some v') :
    lookup d k' = some v' ∨ (k = k' ∧ v = v') := by
  rw [lookup_insert] at h
  split at h
  next heq => exact .inr ⟨heq, Option.some.inj h⟩
  next => exact .inl h

theorem lookup_erase (k k' : κ) : lookup (erase d k) k' = if k = k' then none else lookup d k' := by
  unfold lookup erase
  rw [Table.get_remove]
  split
  next => rfl
  next => rfl

theorem lookup_of_lookup_erase {k k' : κ} {v : ν} (h : lookup (erase d k) k' = some v) :
    lookup d k' = some v := by
  rw [lookup_erase] at h
  split at h
  next => cases h
  next => exact h

theorem lookup_of_lookup_eraseAll {keys : List κ} {k : κ} {v : ν}
    (h : lookup (eraseAll d keys) k = some v) : lookup d k = some v := by
  induction keys generalizing d with
  | nil => exact h
  | cons key keys ih =>
    exact lookup_of_lookup_erase d (ih (erase d key) h)

/-- Putting pairs in that are all pairs of one map. -/
theorem lookup_extend (saved : Dict κ ν) {l : List (κ × ν)} (h : ∀ pair ∈ l, pair ∈ pairs saved)
    (k : κ) : lookup (extend d l) k = if k ∈ l.map Prod.fst then lookup saved k else lookup d k := by
  induction l generalizing d with
  | nil => rfl
  | cons pair l ih =>
    have hpair := (lookup_eq_some saved).2 (h pair List.mem_cons_self)
    show lookup (extend (insert d pair.1 pair.2) l) k = _
    rw [ih _ fun p hp => h p (List.mem_cons_of_mem _ hp), List.map_cons]
    by_cases hin : k ∈ l.map Prod.fst
    · rw [if_pos hin, if_pos (List.mem_cons_of_mem _ hin)]
    · rw [if_neg hin, lookup_insert]
      by_cases hkey : pair.1 = k
      · rw [if_pos hkey, if_pos (List.mem_cons.2 (.inl hkey.symm)), ← hkey, hpair]
      · rw [if_neg hkey, if_neg]
        rw [List.mem_cons, not_or]
        exact ⟨fun hk => hkey hk.symm, hin⟩

theorem lookup_extend_filter {d d' : Dict κ ν} {p : κ → Bool}
    (h : ∀ k, lookup d' k = lookup d k ∨ (p k = true ∧ lookup d' k = none)) (k : κ) :
    lookup (extend d' ((pairs d).filter fun pair => p pair.1)) k = lookup d k := by
  rw [lookup_extend d' d fun pair hpair => (List.mem_filter.1 hpair).1]
  split
  next => rfl
  next hout =>
    obtain hsame | ⟨hp, hnone⟩ := h k
    · exact hsame
    · rw [hnone]
      cases hget : lookup d k with
      | none => rfl
      | some v =>
        have hmem : (k, v) ∈ (pairs d).filter fun pair => p pair.1 :=
          List.mem_filter.2 ⟨(lookup_eq_some d).1 hget, hp⟩
        exact absurd (List.mem_map_of_mem hmem) hout

theorem lookup_extend_congr {d d' : Dict κ ν} (h : ∀ k, lookup d k = lookup d' k)
    (l : List (κ × ν)) (k : κ) : lookup (extend d l) k = lookup (extend d' l) k := by
  induction l generalizing d d' with
  | nil => exact h k
  | cons pair l ih =>
    refine ih fun k' => ?_
    rw [lookup_insert, lookup_insert, h]

theorem lookup_retain_eq_some {p : κ → ν → Bool} {k : κ} {v : ν} :
    lookup (retain d p) k = some v ↔ lookup d k = some v ∧ p k v = true := by
  rw [lookup_eq_some, lookup_eq_some]
  exact List.mem_filter

theorem lookup_retain (p : κ → Bool) (k : κ) :
    lookup (retain d fun k _ => p k) k = if p k then lookup d k else none := by
  apply Option.ext
  intro v
  rw [lookup_retain_eq_some]
  split_ifs with hp
  · exact and_iff_left hp
  · simp [hp]

end Dict

end Ironclaw
