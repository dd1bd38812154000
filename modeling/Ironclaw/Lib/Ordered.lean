import Mathlib.Data.List.Sort
import Mathlib.Order.Bounds.Basic

/-! # Listings by a key, and the next element of a set

`orderBy f l` lists `l` by increasing `f`, as `ORDER BY` and `sort_by_key` do. Where `f` tells the
listed elements apart, the listing does not depend on the order of `l` (`orderBy_eq_of_perm`); the
least element is among the first ones (`mem_take_orderBy`).

`NextIn S next` says of a partial function that it gives the least element of `S` strictly above
its argument, and nothing exactly when there is none. Such a function is monotone
(`NextIn.le_of_le`) and constant up to its value (`NextIn.eq_of_lt`). -/

namespace Ironclaw

section OrderBy

variable {α κ : Type} [LinearOrder κ] (f : α → κ)

/-- The elements of a list by increasing key. -/
def orderBy (l : List α) : List α := l.insertionSort fun a b => f a ≤ f b

@[simp] theorem mem_orderBy {l : List α} {a : α} : a ∈ orderBy f l ↔ a ∈ l :=
  List.mem_insertionSort _

theorem orderBy_perm (l : List α) : (orderBy f l).Perm l := List.perm_insertionSort _ _

theorem pairwise_orderBy (l : List α) : (orderBy f l).Pairwise fun a b => f a ≤ f b := by
  have htrans : IsTrans α fun a b => f a ≤ f b := ⟨fun _ _ _ => le_trans⟩
  have htotal : Std.Total fun a b : α => f a ≤ f b := ⟨fun a b => le_total (f a) (f b)⟩
  exact List.pairwise_insertionSort _ _

variable {f}

/-- A key that tells the elements apart determines the listing. -/
theorem orderBy_eq_of_perm {l l' : List α} (h : l.Perm l')
    (hkey : ∀ a ∈ l, ∀ b ∈ l, f a = f b → a = b) : orderBy f l = orderBy f l' := by
  have hperm : (orderBy f l).Perm (orderBy f l') :=
    (orderBy_perm f l).trans (h.trans (orderBy_perm f l').symm)
  refine hperm.eq_of_pairwise ?_ (pairwise_orderBy f l) (pairwise_orderBy f l')
  intro a b ha hb hab hba
  have hb' : b ∈ l := h.mem_iff.2 ((mem_orderBy f).1 hb)
  exact hkey a ((mem_orderBy f).1 ha) b hb' (le_antisymm hab hba)

theorem mem_take_orderBy {l : List α} {a : α} (ha : a ∈ l) (hmin : ∀ b ∈ l, f b ≤ f a → b = a)
    {n : ℕ} (hn : 0 < n) : a ∈ (orderBy f l).take n := by
  have hmem : a ∈ orderBy f l := (mem_orderBy f).2 ha
  cases hl : orderBy f l with
  | nil =>
    rw [hl] at hmem
    exact absurd hmem List.not_mem_nil
  | cons b rest =>
    have hle : f b ≤ f a := by
      rw [hl] at hmem
      rcases List.mem_cons.1 hmem with rfl | hrest
      · exact le_refl _
      · have hpair := pairwise_orderBy f l
        rw [hl, List.pairwise_cons] at hpair
        exact hpair.1 a hrest
    have hb : b ∈ l := (mem_orderBy f).1 (hl ▸ List.mem_cons_self)
    obtain ⟨m, rfl⟩ := Nat.exists_eq_succ_of_ne_zero hn.ne'
    rw [hmin b hb hle, List.take_succ_cons]
    exact List.mem_cons_self

end OrderBy

section NextIn

variable {α : Type} [LinearOrder α]

/-- The least element of a set strictly above the argument, where there is one. -/
structure NextIn (S : Set α) (next : α → Option α) : Prop where
  isLeast : ∀ {a n}, next a = some n → IsLeast {x ∈ S | a < x} n
  le_of_none : ∀ {a}, next a = none → ∀ x ∈ S, x ≤ a

namespace NextIn

variable {S : Set α} {next : α → Option α} {a b n m : α}

theorem lt (h : NextIn S next) (ha : next a = some n) : a < n := (h.isLeast ha).1.2

theorem mem (h : NextIn S next) (ha : next a = some n) : n ∈ S := (h.isLeast ha).1.1

theorem le (h : NextIn S next) (ha : next a = some n) {x : α} (hx : x ∈ S) (hlt : a < x) : n ≤ x :=
  (h.isLeast ha).2 ⟨hx, hlt⟩

theorem le_of_le (h : NextIn S next) (hab : a ≤ b) (ha : next a = some n) (hb : next b = some m) :
    n ≤ m :=
  h.le ha (h.mem hb) (lt_of_le_of_lt hab (h.lt hb))

/-- Below the next element, the next element stays the same. -/
theorem eq_of_lt (h : NextIn S next) (hab : a ≤ b) (ha : next a = some n) (hb : b < n) :
    next b = some n := by
  cases hnext : next b with
  | none => exact absurd (h.le_of_none hnext n (h.mem ha)) (not_le.2 hb)
  | some m =>
    have hle : n ≤ m := h.le_of_le hab ha hnext
    have hge : m ≤ n := h.le hnext (h.mem ha) hb
    rw [le_antisymm hge hle]

end NextIn

end NextIn

end Ironclaw
