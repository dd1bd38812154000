import Mathlib.Data.List.Sort

/-! # Maps in the order of their keys

`SortedMap κ ν` is a finite map that lists its pairs by increasing key, so two maps that answer every
lookup alike are equal (`ext_get`). A map may be kept to a number of pairs by dropping the last one when
there are too many: `insertBounded_take` says that inserting into the first `n` pairs in this way gives
the first `n` pairs of the map with all of them. -/

namespace Ironclaw

/-- A finite map, its pairs by increasing key. -/
structure SortedMap (κ ν : Type) [LinearOrder κ] where
  pairs : List (κ × ν)
  sorted : pairs.Pairwise fun a b => a.1 < b.1

namespace SortedMap

variable {κ ν : Type} [LinearOrder κ]

/-- A pair at its place, in place of the one with its key. -/
def insertPair (k : κ) (v : ν) : List (κ × ν) → List (κ × ν)
  | [] => [(k, v)]
  | pair :: rest =>
    if k < pair.1 then (k, v) :: pair :: rest
    else if k = pair.1 then (k, v) :: rest
    else pair :: insertPair k v rest

variable {k : κ}

theorem mem_insertPair {v : ν} {x : κ × ν} {l : List (κ × ν)}
    (h : l.Pairwise fun a b => a.1 < b.1) :
    x ∈ insertPair k v l ↔ x = (k, v) ∨ x ∈ l ∧ x.1 ≠ k := by
  induction l with
  | nil => simp [insertPair]
  | cons pair rest ih =>
    obtain ⟨hfirst, hrest⟩ := List.pairwise_cons.1 h
    rw [insertPair]
    split_ifs with hlt heq
    · have hne : ∀ y ∈ pair :: rest, y.1 ≠ k := by
        intro y hy
        rcases List.mem_cons.1 hy with rfl | hy
        · exact hlt.ne'
        · exact (hlt.trans (hfirst y hy)).ne'
      rw [List.mem_cons]
      exact or_congr_right ⟨fun hx => ⟨hx, hne x hx⟩, fun hx => hx.1⟩
    · have hne : ∀ y ∈ rest, y.1 ≠ k := fun y hy => heq ▸ (hfirst y hy).ne'
      rw [List.mem_cons, List.mem_cons]
      refine or_congr_right ⟨fun hx => ⟨.inr hx, hne x hx⟩, ?_⟩
      rintro ⟨rfl | hx, hxk⟩
      · exact absurd heq.symm hxk
      · exact hx
    · rw [List.mem_cons, List.mem_cons, ih hrest]
      constructor
      · rintro (rfl | rfl | ⟨hx, hxk⟩)
        · exact .inr ⟨.inl rfl, fun he => heq he.symm⟩
        · exact .inl rfl
        · exact .inr ⟨.inr hx, hxk⟩
      · rintro (rfl | ⟨rfl | hx, hxk⟩)
        · exact .inr (.inl rfl)
        · exact .inl rfl
        · exact .inr (.inr ⟨hx, hxk⟩)

theorem insertPair_sorted (k : κ) (v : ν) {l : List (κ × ν)} (h : l.Pairwise fun a b => a.1 < b.1) :
    (insertPair k v l).Pairwise fun a b => a.1 < b.1 := by
  induction l with
  | nil => simp [insertPair]
  | cons pair rest ih =>
    obtain ⟨hfirst, hrest⟩ := List.pairwise_cons.1 h
    rw [insertPair]
    split_ifs with hlt heq
    · refine List.pairwise_cons.2 ⟨fun x hx => ?_, h⟩
      rcases List.mem_cons.1 hx with rfl | hx
      · exact hlt
      · exact hlt.trans (hfirst x hx)
    · exact List.pairwise_cons.2 ⟨fun x hx => heq ▸ hfirst x hx, hrest⟩
    · refine List.pairwise_cons.2 ⟨fun x hx => ?_, ih hrest⟩
      rcases (mem_insertPair hrest).1 hx with rfl | ⟨hx, -⟩
      · exact lt_of_le_of_ne (not_lt.1 hlt) (Ne.symm heq)
      · exact hfirst x hx

theorem length_insertPair_le (k : κ) (v : ν) (l : List (κ × ν)) :
    (insertPair k v l).length ≤ l.length + 1 := by
  induction l with
  | nil => simp [insertPair]
  | cons pair rest ih =>
    rw [insertPair]
    split_ifs
    · simp
    · simp
    · simpa using ih

/-- The first pairs after an insertion depend on the first pairs before it. -/
theorem take_insertPair (k : κ) (v : ν) (n : ℕ) (l : List (κ × ν)) :
    (insertPair k v (l.take n)).take n = (insertPair k v l).take n := by
  induction l generalizing n with
  | nil => simp
  | cons pair rest ih =>
    cases n with
    | zero => simp
    | succ n =>
      rw [List.take_succ_cons, insertPair, insertPair]
      split_ifs
      · cases n with
        | zero => simp
        | succ n => simp [List.take_take]
      · simp [List.take_take]
      · rw [List.take_succ_cons, List.take_succ_cons, ih]

def empty : SortedMap κ ν := ⟨[], List.Pairwise.nil⟩

variable (m : SortedMap κ ν)

def get (k : κ) : Option ν := (m.pairs.find? fun pair => pair.1 = k).map Prod.snd

def insert (k : κ) (v : ν) : SortedMap κ ν := ⟨insertPair k v m.pairs, insertPair_sorted k v m.sorted⟩

def len : ℕ := m.pairs.length

/-- Without the pair with the largest key. -/
def popLast : SortedMap κ ν := ⟨m.pairs.dropLast, m.sorted.sublist (List.dropLast_sublist _)⟩

/-- The first pairs. -/
def take (n : ℕ) : SortedMap κ ν := ⟨m.pairs.take n, m.sorted.sublist (List.take_sublist _ _)⟩

/-- The pairs whose key passes a test. -/
def filter (p : κ → Bool) : SortedMap κ ν :=
  ⟨m.pairs.filter fun pair => p pair.1, m.sorted.sublist List.filter_sublist⟩

variable {m}

theorem eq_of_key_eq {a b : κ × ν} (ha : a ∈ m.pairs) (hb : b ∈ m.pairs) (h : a.1 = b.1) : a = b := by
  have hnodup : (m.pairs.map Prod.fst).Nodup := List.pairwise_map.2 (m.sorted.imp ne_of_lt)
  exact List.inj_on_of_nodup_map hnodup ha hb h

theorem get_eq_some {v : ν} : m.get k = some v ↔ (k, v) ∈ m.pairs := by
  unfold get
  rw [Option.map_eq_some_iff]
  constructor
  · rintro ⟨⟨k', v'⟩, hfind, rfl⟩
    have hk : k' = k := by simpa using List.find?_some hfind
    subst hk
    exact List.mem_of_find?_eq_some hfind
  · intro hmem
    cases hfind : m.pairs.find? fun pair => pair.1 = k with
    | none => simpa using List.find?_eq_none.1 hfind _ hmem
    | some pair =>
      have hk : pair.1 = k := by simpa using List.find?_some hfind
      have hsame := eq_of_key_eq (List.mem_of_find?_eq_some hfind) hmem hk
      exact ⟨pair, rfl, by rw [hsame]⟩

theorem get_eq_none : m.get k = none ↔ ∀ pair ∈ m.pairs, pair.1 ≠ k := by
  unfold get
  rw [Option.map_eq_none_iff, List.find?_eq_none]
  simp

theorem get_insert (k : κ) (v : ν) (k' : κ) :
    (m.insert k v).get k' = if k = k' then some v else m.get k' := by
  apply Option.ext
  intro w
  rw [get_eq_some]
  show (k', w) ∈ insertPair k v m.pairs ↔ _
  rw [mem_insertPair m.sorted, Prod.mk.injEq]
  split_ifs with h
  · subst h
    simp [eq_comm]
  · rw [get_eq_some]
    constructor
    · rintro (⟨rfl, -⟩ | hmem)
      · exact absurd rfl h
      · exact hmem.1
    · intro hmem
      exact .inr ⟨hmem, fun hk => h hk.symm⟩

theorem get_filter (p : κ → Bool) (k : κ) : (m.filter p).get k = if p k then m.get k else none := by
  apply Option.ext
  intro w
  rw [get_eq_some, filter, List.mem_filter]
  split_ifs with h
  · rw [get_eq_some]
    exact and_iff_left h
  · simp [h]

theorem eq_of_pairs {m m' : SortedMap κ ν} (h : m.pairs = m'.pairs) : m = m' := by
  cases m
  cases m'
  cases h
  rfl

/-- Maps that answer every lookup alike are equal. -/
theorem ext_get {m m' : SortedMap κ ν} (h : ∀ k, m.get k = m'.get k) : m = m' := by
  have hmem : ∀ pair, pair ∈ m.pairs ↔ pair ∈ m'.pairs := by
    rintro ⟨k, v⟩
    rw [← get_eq_some, ← get_eq_some, h]
  have hnodup : ∀ m : SortedMap κ ν, m.pairs.Nodup := fun m =>
    m.sorted.imp fun hlt heq => absurd (congrArg Prod.fst heq) hlt.ne
  have hperm : m.pairs.Perm m'.pairs :=
    (List.perm_ext_iff_of_nodup (hnodup m) (hnodup m')).2 hmem
  exact eq_of_pairs
    (hperm.eq_of_pairwise (fun a b _ _ hab hba => absurd hab hba.asymm) m.sorted m'.sorted)

/-! ### Maps kept to a number of pairs -/

/-- Insert, and drop the last pair when there are more than `n`. -/
def insertBounded (m : SortedMap κ ν) (n : ℕ) (k : κ) (v : ν) : SortedMap κ ν :=
  let page := m.insert k v
  if n < page.len then page.popLast else page

theorem insertBounded_take (n : ℕ) (k : κ) (v : ν) :
    (m.take n).insertBounded n k v = (m.insert k v).take n := by
  have hlength : ((m.take n).insert k v).len ≤ n + 1 := by
    refine (length_insertPair_le k v _).trans ?_
    exact Nat.add_le_add_right (List.length_take_le n m.pairs) 1
  apply eq_of_pairs
  have htake : (((m.take n).insert k v).pairs).take n = ((m.insert k v).take n).pairs :=
    take_insertPair k v n m.pairs
  rw [← htake]
  unfold insertBounded
  dsimp only
  split_ifs with hfull
  · show ((m.take n).insert k v).pairs.dropLast = _
    have hexact : ((m.take n).insert k v).pairs.length = n + 1 := by
      unfold len at hlength hfull
      omega
    rw [List.dropLast_eq_take, hexact, Nat.add_sub_cancel]
  · exact (List.take_of_length_le (not_lt.1 hfull)).symm

theorem length_insertPair_of_mem {v w : ν} {l : List (κ × ν)}
    (hsorted : l.Pairwise fun a b => a.1 < b.1) (hmem : (k, w) ∈ l) :
    (insertPair k v l).length = l.length := by
  induction l with
  | nil => exact absurd hmem List.not_mem_nil
  | cons pair rest ih =>
    obtain ⟨hfirst, hrest⟩ := List.pairwise_cons.1 hsorted
    rw [insertPair]
    rcases List.mem_cons.1 hmem with rfl | hmem
    · rw [if_neg (lt_irrefl k), if_pos rfl]
      rfl
    · have hlt : pair.1 < k := hfirst _ hmem
      rw [if_neg hlt.asymm, if_neg hlt.ne', List.length_cons, ih hrest hmem, List.length_cons]

theorem insert_take_of_get {n : ℕ} {v w : ν} (h : (m.take n).get k = some w) :
    (m.take n).insert k v = (m.insert k v).take n := by
  have hlength := length_insertPair_of_mem (v := v) (m.take n).sorted (get_eq_some.1 h)
  rw [← insertBounded_take, insertBounded, if_neg]
  rw [not_lt]
  exact hlength.trans_le (List.length_take_le n m.pairs)

theorem insert_eq_self {v : ν} (h : m.get k = some v) : m.insert k v = m := by
  apply ext_get
  intro k'
  rw [get_insert]
  split_ifs with hk
  · rw [← hk, h]
  · rfl

theorem get_of_get_take {n : ℕ} {v : ν} (h : (m.take n).get k = some v) : m.get k = some v :=
  get_eq_some.2 (List.mem_of_mem_take (get_eq_some.1 h))

/-- Replacing a pair that is not among the first `n` does not change them. -/
theorem take_insert_of_dropped {n : ℕ} {v w : ν} (hget : m.get k = some v)
    (hdropped : (m.take n).get k = none) : (m.insert k w).take n = m.take n := by
  have key : ∀ (l : List (κ × ν)) (n : ℕ), l.Pairwise (fun a b => a.1 < b.1) → (k, v) ∈ l →
      (∀ pair ∈ l.take n, pair.1 ≠ k) → (insertPair k w l).take n = l.take n := by
    intro l
    induction l with
    | nil => exact fun _ _ hmem => absurd hmem List.not_mem_nil
    | cons pair rest ih =>
      intro n hsorted hmem hnone
      obtain ⟨hfirst, hrest⟩ := List.pairwise_cons.1 hsorted
      cases n with
      | zero => rfl
      | succ n =>
        rw [List.take_succ_cons] at hnone ⊢
        have hne : pair.1 ≠ k := hnone pair List.mem_cons_self
        have hin : (k, v) ∈ rest := (List.mem_cons.1 hmem).resolve_left fun h => hne (by rw [← h])
        have hlt : pair.1 < k := hfirst _ hin
        rw [insertPair, if_neg hlt.asymm, if_neg hne.symm, List.take_succ_cons,
          ih n hrest hin fun x hx => hnone x (List.mem_cons_of_mem _ hx)]
  exact eq_of_pairs (key m.pairs n m.sorted (get_eq_some.1 hget) (get_eq_none.1 hdropped))

end SortedMap

end Ironclaw
