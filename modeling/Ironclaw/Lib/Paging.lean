import Mathlib.Order.WithBot
import Mathlib.Data.List.Lex
import Mathlib.Data.Prod.Lex

/-! # Keyset pages

A list whose elements are in strictly increasing `position` is read in pages: each page starts after
the position of the last element of the page before (`pageAfter`), and the pages together are the
list (`followAll_eq`). A list in decreasing position is read in the dual order.

The keys of a composite index are lists in lexicographic order. Those that begin with given values
stand together (`isPrefix_of_le_of_le`), and among them the next two values decide
(`lt_of_first_two_lt`). -/

namespace Ironclaw

variable {α κ : Type} [LinearOrder κ] (position : α → κ) (limit : ℕ) (items : List α)

/-- At most `limit` elements whose position comes after the cursor. -/
def pageAfter (after : Option κ) : List α :=
  (items.filter fun item => after.all fun cursor => cursor < position item).take limit

/-- The pages one after the other, up to an empty one. -/
def followAll : ℕ → Option κ → List α
  | 0, _ => []
  | fuel + 1, after =>
    let page := pageAfter position limit items after
    match page.getLast? with
    | none => page
    | some last => page ++ followAll fuel (some (position last))

variable {position limit items}

/-- The elements after the last one of a beginning are the rest. -/
theorem filter_after_eq {before rest : List α} {last : α}
    (hsorted : (before ++ [last] ++ rest).Pairwise (position · < position ·)) :
    (before ++ [last] ++ rest).filter (fun item => decide (position last < position item)) = rest := by
  obtain ⟨hleft, -, hcross⟩ := List.pairwise_append.1 hsorted
  rw [List.filter_append, List.filter_eq_nil_iff.2, List.nil_append, List.filter_eq_self.2]
  · intro item hitem
    exact decide_eq_true (hcross last (by simp) item hitem)
  · intro item hitem
    rw [decide_eq_true_iff, not_lt]
    rcases List.mem_append.1 hitem with hbefore | hlast
    · exact ((List.pairwise_append.1 hleft).2.2 item hbefore last (by simp)).le
    · rw [List.mem_singleton.1 hlast]

/-- What is left of the list after a cursor. -/
def Rest (position : α → κ) (items : List α) (after : Option κ) (rest : List α) : Prop :=
  (after = none ∧ rest = items) ∨
    ∃ before last, items = before ++ [last] ++ rest ∧ after = some (position last)

variable {after : Option κ} {rest : List α}

theorem Rest.pageAfter_eq (hsorted : items.Pairwise (position · < position ·))
    (h : Rest position items after rest) :
    pageAfter position limit items after = rest.take limit := by
  rcases h with ⟨rfl, rfl⟩ | ⟨before, last, rfl, rfl⟩
  · simp [pageAfter]
  · rw [pageAfter]
    simp only [Option.all_some]
    rw [filter_after_eq hsorted]

omit [LinearOrder κ] in
/-- What is left after a page: the rest of the rest, from the last element of the page on. -/
theorem Rest.next (h : Rest position items after rest) {last : α}
    (hlast : (rest.take limit).getLast? = some last) :
    Rest position items (some (position last)) (rest.drop limit) := by
  obtain ⟨init, hinit⟩ := List.getLast?_eq_some_iff.1 hlast
  have hsplit : rest = init ++ [last] ++ rest.drop limit := by
    rw [← hinit, List.take_append_drop]
  rcases h with ⟨-, rfl⟩ | ⟨before, prior, hitems, -⟩
  · exact .inr ⟨init, last, hsplit, rfl⟩
  · refine .inr ⟨before ++ [prior] ++ init, last, ?_, rfl⟩
    rw [hitems]
    nth_rewrite 1 [hsplit]
    simp only [List.append_assoc]

omit [LinearOrder κ] in
theorem length_drop_lt {last : α} (hlast : (rest.take limit).getLast? = some last) :
    (rest.drop limit).length < rest.length := by
  have hmem := List.mem_of_getLast? hlast
  have hpos := List.length_pos_of_mem hmem
  rw [List.length_take] at hpos
  rw [List.length_drop]
  omega

theorem eq_nil_of_take_getLast? (hlimit : 0 < limit)
    (hlast : (rest.take limit).getLast? = none) : rest = [] := by
  rcases List.take_eq_nil_iff.1 (List.getLast?_eq_none_iff.1 hlast) with hzero | hnil
  · omega
  · exact hnil

/-- The pages from a cursor on are the rest of the list. -/
theorem followAll_rest (hsorted : items.Pairwise (position · < position ·)) (hlimit : 0 < limit) :
    ∀ {fuel : ℕ} {after : Option κ} {rest : List α}, Rest position items after rest →
      rest.length < fuel → followAll position limit items fuel after = rest
  | 0, _, _, _, hfuel => absurd hfuel (Nat.not_lt_zero _)
  | fuel + 1, after, rest, hrest, hfuel => by
    rw [followAll, hrest.pageAfter_eq hsorted]
    cases hlast : (rest.take limit).getLast? with
    | none =>
      rw [eq_nil_of_take_getLast? hlimit hlast]
      exact List.take_nil
    | some last =>
      have hshorter := length_drop_lt hlast
      dsimp only
      rw [followAll_rest hsorted hlimit (hrest.next hlast) (by omega), List.take_append_drop]

/-- Pages of at least one element, followed far enough, are the whole list. -/
theorem followAll_eq (hsorted : items.Pairwise (position · < position ·)) (hlimit : 0 < limit)
    {fuel : ℕ} (hfuel : items.length < fuel) : followAll position limit items fuel none = items :=
  followAll_rest hsorted hlimit (.inl ⟨rfl, rfl⟩) hfuel

theorem mem_pageAfter {item : α} (h : item ∈ pageAfter position limit items after) :
    item ∈ items ∧ after.all (· < position item) := by
  obtain ⟨hitem, hafter⟩ := List.mem_filter.1 (List.mem_of_mem_take h)
  exact ⟨hitem, hafter⟩

theorem pageAfter_sorted (hsorted : items.Pairwise (position · < position ·)) (after : Option κ) :
    (pageAfter position limit items after).Pairwise (position · < position ·) :=
  (hsorted.sublist List.filter_sublist).sublist (List.take_sublist _ _)

/-- An element after the cursor is on the page, or the page is full and ends before it. -/
theorem mem_pageAfter_or (hsorted : items.Pairwise (position · < position ·))
    {item : α} (hitem : item ∈ items) (hafter : after.all (· < position item)) :
    item ∈ pageAfter position limit items after ∨
      limit ≤ (pageAfter position limit items after).length ∧
        ∀ other ∈ pageAfter position limit items after, position other < position item := by
  have hrest := hsorted.sublist (List.filter_sublist (p := fun item =>
    after.all fun cursor => cursor < position item))
  have hmem : item ∈ items.filter fun item => after.all fun cursor => cursor < position item :=
    List.mem_filter.2 ⟨hitem, hafter⟩
  rw [← List.take_append_drop limit (items.filter _)] at hrest hmem
  rcases List.mem_append.1 hmem with htake | hdrop
  · exact .inl htake
  · refine .inr ⟨?_, fun other hother => (List.pairwise_append.1 hrest).2.2 other hother item hdrop⟩
    have hlong := List.length_pos_of_mem hdrop
    rw [List.length_drop] at hlong
    rw [pageAfter, List.length_take]
    omega

/-- Where a test can only turn from true to false, taking the beginning that passes it is
filtering. -/
theorem takeWhile_eq_filter {p : α → Bool} : ∀ {l : List α},
    l.Pairwise (fun a b => p b = true → p a = true) → l.takeWhile p = l.filter p
  | [], _ => rfl
  | a :: l, h => by
    obtain ⟨hfirst, hrest⟩ := List.pairwise_cons.1 h
    cases ha : p a with
    | true =>
      rw [List.takeWhile_cons_of_pos ha, List.filter_cons_of_pos ha, takeWhile_eq_filter hrest]
    | false =>
      rw [List.takeWhile_cons_of_neg (by simp [ha]), eq_comm, List.filter_eq_nil_iff]
      intro b hb hpb
      rcases List.mem_cons.1 hb with rfl | hb
      · exact Bool.noConfusion (ha.symm.trans hpb)
      · exact Bool.noConfusion (ha.symm.trans (hfirst b hb hpb))

/-! ### Composite keys -/

theorem cons_lt_iff {x y : κ} {u v : List κ} : x :: u < y :: v ↔ x < y ∨ x = y ∧ u < v :=
  List.cons_lt_cons_iff

theorem le_of_isPrefix : ∀ {head key : List κ}, head <+: key → head ≤ key
  | [], [], _ => le_rfl
  | [], y :: key, _ => (List.nil_lt_cons y key : [] < y :: key).le
  | x :: head, [], h => absurd h.length_le (by simp)
  | x :: head, y :: key, h => by
    obtain ⟨rfl, hrest⟩ := List.cons_prefix_cons.1 h
    rw [← not_lt, cons_lt_iff, not_or]
    exact ⟨lt_irrefl x, fun hlt => not_lt.2 (le_of_isPrefix hrest) hlt.2⟩

theorem isPrefix_of_le_of_le : ∀ {head key rest : List κ}, head ≤ key → key ≤ head ++ rest →
    head <+: key
  | [], _, _, _, _ => List.nil_prefix
  | x :: head, [], _, hle, _ => absurd (List.nil_lt_cons x head) (not_lt.2 hle)
  | x :: head, y :: key, rest, hle, hle' => by
    rw [List.cons_append] at hle'
    rw [← not_lt, cons_lt_iff, not_or] at hle hle'
    obtain rfl : x = y := le_antisymm (not_lt.1 hle.1) (not_lt.1 hle'.1)
    have hle := not_lt.1 fun hlt => hle.2 ⟨rfl, hlt⟩
    have hle' := not_lt.1 fun hlt => hle'.2 ⟨rfl, hlt⟩
    exact List.cons_prefix_cons.2 ⟨rfl, isPrefix_of_le_of_le hle hle'⟩

omit [LinearOrder κ] in
/-- A missing value comes before all others. -/
def orBot : Option κ → WithBot κ
  | some value => value
  | none => ⊥

omit [LinearOrder κ] in
def valueAt (key : List κ) (n : ℕ) : WithBot κ := orBot key[n]?

theorem lt_of_first_two_lt {u v : List κ}
    (h : toLex (valueAt u 0, valueAt u 1) < toLex (valueAt v 0, valueAt v 1)) : u < v := by
  rcases Prod.Lex.toLex_lt_toLex.1 h with hfirst | ⟨hfirst, hsecond⟩
  · cases v with
    | nil => exact absurd hfirst not_lt_bot
    | cons y v =>
      cases u with
      | nil => exact List.nil_lt_cons y v
      | cons x u => exact cons_lt_iff.2 (.inl (WithBot.coe_lt_coe.1 hfirst))
  · match u, v with
    | [], [] => exact absurd hsecond not_lt_bot
    | [], y :: v => exact List.nil_lt_cons y v
    | _ :: _, [] => exact absurd hsecond not_lt_bot
    | [x], [y] => exact absurd hsecond not_lt_bot
    | _ :: _ :: _, [_] => exact absurd hsecond not_lt_bot
    | [x], y :: z :: v =>
      exact cons_lt_iff.2 (.inr ⟨WithBot.coe_inj.1 hfirst, List.nil_lt_cons z v⟩)
    | x :: w :: u, y :: z :: v =>
      have hlt : w :: u < z :: v := cons_lt_iff.2 (.inl (WithBot.coe_lt_coe.1 hsecond))
      exact cons_lt_iff.2 (.inr ⟨WithBot.coe_inj.1 hfirst, hlt⟩)

end Ironclaw
