import Mathlib.Data.Option.Basic
import Ironclaw.Lib.Table

/-! # Working copies of part of a table

A transaction loads some rows of a stored table, changes the loaded copy and writes it back.
`Tracks R base loaded s t` compares the copy `t` with the table `s` that the same changes make
of the whole `base`: the rows of `t` are, one by one and up to `R`, the rows of `s` under the
keys the load `covers`, and under every other key `s` is still `base`. A key is covered when
its row was loaded or when there was no row to load.

The relation is kept by writes and removals under covered keys (`Tracks.put`, `Tracks.remove`)
and at the end it says that writing the copy back yields `s` (`Tracks.get_overlay`). -/

namespace Ironclaw

/-- Related lookups find related values, or both nothing. -/
theorem optionRel_cases {α β : Type} {R : α → β → Prop} {o : Option α} {o' : Option β}
    (h : Option.Rel R o o') :
    (∃ a b, o = some a ∧ o' = some b ∧ R a b) ∨ (o = none ∧ o' = none) := by
  cases h with
  | some h => exact .inl ⟨_, _, rfl, rfl, h⟩
  | none => exact .inr ⟨rfl, rfl⟩

namespace Table

variable {κ ν : Type} {key : ν → κ} [DecidableEq κ]

/-- Whether the load has the row under a key, or there is none. -/
def covers (base loaded : Table key) (k : κ) : Bool :=
  (loaded.get k).isSome || (base.get k).isNone

private theorem exists_rel_of_mem {l l' : List ν} {R : ν → ν → Prop} (h : List.Forall₂ R l l')
    {b : ν} (hb : b ∈ l') : ∃ a ∈ l, R a b := by
  induction h with
  | nil => cases hb
  | @cons a b' l l' hab _ ih =>
    rcases List.mem_cons.mp hb with rfl | hb'
    · exact ⟨a, List.mem_cons_self, hab⟩
    · obtain ⟨a', ha', hr⟩ := ih hb'
      exact ⟨a', List.mem_cons_of_mem _ ha', hr⟩

/-- The copy `t` of the loaded part follows the whole table `s`. -/
structure Tracks (R : ν → ν → Prop) (base loaded s t : Table key) : Prop where
  mirror : List.Forall₂ R (s.rows.filter fun r => base.covers loaded (key r)) t.rows
  frame : ∀ k, base.covers loaded k = false → s.get k = base.get k

variable {R : ν → ν → Prop} {base loaded s t : Table key}

private theorem find?_rel {p q : ν → Bool} (hpq : ∀ a b, R a b → p a = q b) {l l' : List ν}
    (h : List.Forall₂ R l l') : Option.Rel R (l.find? p) (l'.find? q) := by
  induction h with
  | nil => exact .none
  | @cons a b l l' hab _ ih =>
    rw [List.find?_cons, List.find?_cons, ← hpq a b hab]
    cases p a with
    | true => exact .some hab
    | false => exact ih

section Loading

theorem covers_eq_false_iff {k : κ} :
    base.covers loaded k = false ↔ loaded.get k = none ∧ ∃ r, base.get k = some r := by
  simp [covers, Option.isSome_iff_exists]

/-- A load that takes the rows with a property covers a key when its row has the property. -/
theorem covers_filter {p : ν → Bool} {k : κ} :
    base.covers (base.filter p) k = (base.get k).all p := by
  unfold covers
  rw [get_filter]
  cases h : base.get k with
  | none => simp
  | some r => cases hp : p r <;> simp [hp]

/-- A load that takes whatever is under a key covers the key. -/
theorem covers_filter_of_key {p : ν → Bool} {k : κ} (hp : ∀ r, key r = k → p r = true) :
    base.covers (base.filter p) k = true := by
  rw [covers_filter]
  cases h : base.get k with
  | none => rfl
  | some r => exact hp r (key_of_get h)

theorem Tracks.refl_of_filter (hR : ∀ r, R r r) (base : Table key) (p : ν → Bool) :
    Tracks R base (base.filter p) base (base.filter p) where
  mirror := by
    have hrows : base.rows.filter (fun r => base.covers (base.filter p) (key r)) =
        (base.filter p).rows := by
      apply List.filter_congr
      intro r hr
      rw [covers_filter, get_of_mem hr]
      rfl
    rw [hrows]
    exact List.forall₂_same.mpr fun r _ => hR r
  frame := fun _ _ => rfl

end Loading

namespace Tracks

theorem mono {R' : ν → ν → Prop} (h : Tracks R base loaded s t) (hR : ∀ a b, R a b → R' a b) :
    Tracks R' base loaded s t :=
  ⟨h.mirror.imp hR, h.frame⟩

section

variable (hR : ∀ a b, R a b → key a = key b) (h : Tracks R base loaded s t)

include hR h

/-- Under a covered key the two tables hold related rows, or both none. -/
theorem get {k : κ} (hk : base.covers loaded k = true) : Option.Rel R (s.get k) (t.get k) := by
  have hfind := find?_rel (p := fun r => decide (key r = k)) (q := fun r => decide (key r = k))
    (fun a b hab => by rw [hR a b hab]) h.mirror
  have hs : (s.rows.filter fun r => base.covers loaded (key r)).find?
      (fun r => decide (key r = k)) = s.get k := by
    rw [List.find?_filter]
    unfold Table.get
    congr 1
    funext r
    by_cases hr : key r = k
    · simp [hr, hk]
    · simp [hr]
  rw [hs] at hfind
  exact hfind

/-- Under an uncovered key the copy holds nothing. -/
theorem get_uncovered {k : κ} (hk : base.covers loaded k = false) : t.get k = none := by
  rw [get_eq_none_iff]
  intro b hb hkb
  obtain ⟨a, ha, hab⟩ := exists_rel_of_mem h.mirror hb
  rw [List.mem_filter, hR a b hab, hkb, hk] at ha
  cases ha.2

theorem put {a b : ν} (hab : R a b) (hk : base.covers loaded (key a) = true) :
    Tracks R base loaded (s.put a) (t.put b) where
  mirror := by
    have hkey := hR a b hab
    rcases optionRel_cases (h.get hR hk) with ⟨r, r', hs, ht, -⟩ | ⟨hs, ht⟩
    · rw [hkey] at ht
      rw [s.rows_put_of_isSome (by simp [hs]), t.rows_put_of_isSome (by simp [ht])]
      -- replacing a row keeps its key, so it commutes with the restriction to covered keys
      have hcomm : (s.rows.map fun x => if key x = key a then a else x).filter
          (fun r => base.covers loaded (key r)) =
          (s.rows.filter fun r => base.covers loaded (key r)).map
            fun x => if key x = key a then a else x := by
        rw [List.filter_map]
        congr 1
        apply List.filter_congr
        intro x _
        simp only [Function.comp_apply]
        split_ifs with hx
        · rw [hx]
        · rfl
      rw [hcomm]
      refine List.rel_map (R := R) ?_ h.mirror
      intro x y hxy
      simp only [← hR x y hxy, ← hkey]
      split_ifs
      · exact hab
      · exact hxy
    · rw [hkey] at ht
      rw [s.rows_put_of_none hs, t.rows_put_of_none ht, List.filter_append,
        List.filter_singleton, hk]
      exact List.rel_append h.mirror (.cons hab .nil)
  frame := fun k hk' => by
    have hne : key a ≠ k := by
      rintro rfl
      rw [hk] at hk'
      cases hk'
    rw [get_put_of_ne _ hne]
    exact h.frame k hk'

theorem remove {k : κ} (hk : base.covers loaded k = true) :
    Tracks R base loaded (s.remove k) (t.remove k) where
  mirror := by
    unfold Table.remove Table.filter
    simp only
    rw [List.filter_comm]
    refine List.rel_filter ?_ h.mirror
    intro a b hab
    simp [hR a b hab]
  frame := fun k' hk' => by
    have hne : k ≠ k' := by
      rintro rfl
      rw [hk] at hk'
      cases hk'
    rw [get_remove, if_neg hne]
    exact h.frame k' hk'

end

/-- Writing the copy back over the stored table yields the whole table. -/
theorem get_overlay (h : Tracks Eq base loaded s t) (k : κ) :
    (base.overlay loaded t).get k = s.get k := by
  rw [Table.get_overlay]
  have hkey : ∀ a b : ν, a = b → key a = key b := fun _ _ e => by rw [e]
  cases hc : base.covers loaded k with
  | false =>
    rw [h.get_uncovered hkey hc, h.frame k hc, (covers_eq_false_iff.mp hc).1]
    rfl
  | true =>
    rcases optionRel_cases (h.get hkey hc) with ⟨a, b, hs, ht, hab⟩ | ⟨hs, ht⟩
    · rw [hs, ht, hab, Option.some_or]
    · rw [hs, ht, Option.none_or]
      cases hl : loaded.get k with
      | some r => rfl
      | none => simpa [covers, hl] using hc

end Tracks

end Table

end Ironclaw
