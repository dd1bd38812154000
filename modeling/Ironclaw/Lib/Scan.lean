import Mathlib.Data.List.Basic
import Mathlib.Data.Nat.Basic
import Mathlib.Order.Basic

/-! # Filtered scans of a log

A log is a list in strictly increasing `position`. A read passes over the log from a cursor on and
collects what it keeps, up to a limit (`scan`); the next read starts where it stopped. `Scanned`
says what one read owes its caller, and `follow_eq` that reads which do so, one after the other
until the cursor stops moving, return everything kept after the first cursor. -/

namespace Ironclaw

variable {α : Type}

section Scan

variable (position : α → ℕ) (keep : α → Bool) (limit : ℕ)

/-- One pass: what was found so far and the position reached, until `limit` are found. -/
def scan : List α → List α × ℕ → List α × ℕ
  | [], acc => acc
  | item :: rest, (found, _) =>
    if keep item then
      if limit ≤ (found ++ [item]).length then (found ++ [item], position item)
      else scan rest (found ++ [item], position item)
    else scan rest (found, position item)

/-- The position reached by passing over a list. -/
def reached (last : ℕ) (passed : List α) : ℕ := (passed.getLast?.map position).getD last

/-- What a pass does: it keeps what it likes of a beginning of the list, and stops before the end
only at the element that fills the limit. -/
structure Passed (l found : List α) (last : ℕ) (out : List α × ℕ) (passed rest : List α) : Prop where
  split : l = passed ++ rest
  found_eq : out.1 = found ++ passed.filter keep
  reached_eq : out.2 = reached position last passed
  short : out.1.length ≤ limit
  all : out.1.length < limit → rest = []
  full : limit ≤ out.1.length → ∃ item, passed.getLast? = some item ∧ keep item = true

variable {position keep limit}

theorem reached_append_singleton (last : ℕ) (passed : List α) (item : α) :
    reached position last (passed ++ [item]) = position item := by
  rw [reached, List.getLast?_append, List.getLast?_singleton]
  rfl

theorem reached_cons (last : ℕ) (item : α) (passed : List α) :
    reached position last (item :: passed) = reached position (position item) passed := by
  cases passed with
  | nil => rfl
  | cons next passed => rw [reached, reached, List.getLast?_cons_cons, List.getLast?_cons]; rfl

theorem exists_passed : ∀ (l found : List α) (last : ℕ), found.length < limit →
    ∃ passed rest, Passed position keep limit l found last
      (scan position keep limit l (found, last)) passed rest
  | [], found, last, h => by
    refine ⟨[], [], rfl, ?_, rfl, h.le, fun _ => rfl, fun hfull => absurd h (not_lt.2 hfull)⟩
    rw [scan, List.filter_nil, List.append_nil]
  | item :: l, found, last, h => by
    rw [scan]
    split
    · rename_i hkeep
      split
      · rename_i hfull
        refine ⟨[item], l, rfl, ?_, rfl, ?_, fun hshort => absurd hshort (not_lt.2 hfull),
          fun _ => ⟨item, rfl, hkeep⟩⟩
        · rw [List.filter_cons_of_pos hkeep, List.filter_nil]
        · rw [List.length_append, List.length_singleton]
          omega
      · rename_i hroom
        obtain ⟨passed, rest, hpassed⟩ :=
          exists_passed l (found ++ [item]) (position item) (not_le.1 hroom)
        refine ⟨item :: passed, rest, ?_, ?_, ?_, hpassed.short, hpassed.all, fun hfull => ?_⟩
        · rw [hpassed.split, List.cons_append]
        · rw [hpassed.found_eq, List.filter_cons_of_pos hkeep, List.append_assoc,
            List.singleton_append]
        · rw [hpassed.reached_eq, reached_cons]
        · obtain ⟨lastItem, hlast, hlastKeep⟩ := hpassed.full hfull
          exact ⟨lastItem, by rw [List.getLast?_cons, hlast]; rfl, hlastKeep⟩
    · rename_i hdrop
      obtain ⟨passed, rest, hpassed⟩ := exists_passed l found (position item) h
      refine ⟨item :: passed, rest, ?_, ?_, ?_, hpassed.short, hpassed.all, fun hfull => ?_⟩
      · rw [hpassed.split, List.cons_append]
      · rw [hpassed.found_eq, List.filter_cons_of_neg hdrop]
      · rw [hpassed.reached_eq, reached_cons]
      · obtain ⟨lastItem, hlast, hlastKeep⟩ := hpassed.full hfull
        exact ⟨lastItem, by rw [List.getLast?_cons, hlast]; rfl, hlastKeep⟩

/-- A list is passed over in pieces: the second only when the first left room. -/
theorem scan_append : ∀ (l l' found : List α) (last : ℕ), found.length < limit →
    scan position keep limit (l ++ l') (found, last) =
      if limit ≤ (scan position keep limit l (found, last)).1.length then
        scan position keep limit l (found, last)
      else scan position keep limit l' (scan position keep limit l (found, last))
  | [], l', found, last, h => (if_neg (not_le.2 h)).symm
  | item :: l, l', found, last, h => by
    rw [List.cons_append, scan, scan]
    split
    · split
      · rfl
      · rename_i hroom
        exact scan_append l l' (found ++ [item]) (position item) (not_le.1 hroom)
    · exact scan_append l l' found (position item) h

theorem scan_map {β : Type} (f : β → α) : ∀ (l found : List β) (last : ℕ),
    scan position keep limit (l.map f) (found.map f, last) =
      ((scan (position ∘ f) (keep ∘ f) limit l (found, last)).1.map f,
        (scan (position ∘ f) (keep ∘ f) limit l (found, last)).2)
  | [], found, last => rfl
  | item :: l, found, last => by
    rw [List.map_cons, scan, scan, Function.comp_apply, Function.comp_apply]
    have hfound : found.map f ++ [f item] = (found ++ [item]).map f := by
      rw [List.map_append, List.map_singleton]
    rw [hfound, List.length_map]
    split
    · split
      · rfl
      · exact scan_map f l (found ++ [item]) (position (f item))
    · exact scan_map f l found (position (f item))

end Scan

/-! ### Reads, one after the other -/

section Follow

variable (position : α → ℕ) (keep : α → Bool) (items : List α)

/-- What is kept of the elements after a cursor. -/
def keptAfter (after : ℕ) : List α :=
  items.filter fun item => decide (after < position item) && keep item

/-- The cursor is not past the last element. -/
def NotPast (after : ℕ) : Prop := after = 0 ∨ ∃ item ∈ items, after ≤ position item

/-- What a read owes its caller: the kept elements up to the cursor it returns, which stands still
only when nothing kept is left. -/
structure Scanned (after : ℕ) (page : List α) (next : ℕ) : Prop where
  page_eq : page = items.filter fun item =>
    decide (after < position item) && decide (position item ≤ next) && keep item
  moved : next = after ∨ ∃ item ∈ items, after < position item ∧ position item = next
  done : next = after → keptAfter position keep items after = []

/-- Read after the returned cursor until it stops moving. -/
def follow {ε : Type} (read : ℕ → Except ε (List α × ℕ)) : ℕ → ℕ → Except ε (List α)
  | 0, _ => .ok []
  | fuel + 1, after =>
    match read after with
    | .error e => .error e
    | .ok (page, next) =>
      if next = after then .ok page else (follow read fuel next).map (page ++ ·)

variable {position keep items}

variable {after next : ℕ} {page : List α}

theorem Scanned.forward (h : Scanned position keep items after page next) : after ≤ next := by
  rcases h.moved with rfl | ⟨item, -, hlt, rfl⟩
  · exact le_rfl
  · exact hlt.le

theorem Scanned.notPast (h : Scanned position keep items after page next)
    (hafter : NotPast position items after) :
    NotPast position items next := by
  rcases h.moved with rfl | ⟨item, hitem, -, rfl⟩
  · exact hafter
  · exact .inr ⟨item, hitem, le_rfl⟩

/-- The page and what is left after it are what was left before. -/
theorem Scanned.append_keptAfter (hsorted : items.Pairwise (position · < position ·))
    (h : Scanned position keep items after page next) :
    page ++ keptAfter position keep items next = keptAfter position keep items after := by
  have hforward := h.forward
  rw [h.page_eq, keptAfter, keptAfter]
  clear h
  induction items with
  | nil => rfl
  | cons item items ih =>
    obtain ⟨hfirst, hrest⟩ := List.pairwise_cons.1 hsorted
    by_cases hle : position item ≤ next
    · have hnot : (decide (next < position item) && keep item) = false := by
        rw [decide_eq_false (not_lt.2 hle), Bool.false_and]
      have hsame : (decide (after < position item) && decide (position item ≤ next) &&
          keep item) = (decide (after < position item) && keep item) := by
        rw [decide_eq_true hle, Bool.and_true]
      rw [List.filter_cons, List.filter_cons, List.filter_cons, hnot, hsame]
      split
      · rw [if_neg Bool.false_ne_true, List.cons_append, ih hrest]
      · rw [if_neg Bool.false_ne_true, ih hrest]
    · -- from here on nothing belongs to the page
      have hlt : ∀ other ∈ item :: items, next < position other := by
        intro other hother
        rcases List.mem_cons.1 hother with rfl | hother
        · exact not_le.1 hle
        · exact (not_le.1 hle).trans (hfirst other hother)
      rw [List.filter_eq_nil_iff.2, List.nil_append]
      · refine List.filter_congr fun other hother => ?_
        rw [decide_eq_true (hlt other hother),
          decide_eq_true (hforward.trans_lt (hlt other hother))]
      · intro other hother
        rw [decide_eq_false (not_le.2 (hlt other hother)), Bool.and_false, Bool.false_and]
        exact Bool.false_ne_true

/-- What a pass from a cursor returns is what a read owes its caller. -/
theorem Passed.scanned {limit after : ℕ} {out : List α × ℕ} {passed rest : List α}
    (hsorted : items.Pairwise (position · < position ·)) (hlimit : 0 < limit)
    (h : Passed position keep limit (items.filter fun item => decide (after < position item)) []
      after out passed rest) : Scanned position keep items after out.1 out.2 := by
  have hfound : out.1 = passed.filter keep := by rw [h.found_eq, List.nil_append]
  have hcut : ∀ p : α → Bool, items.filter (fun item => decide (after < position item) && p item) =
      passed.filter p ++ rest.filter p := by
    intro p
    rw [← List.filter_append, ← h.split, List.filter_filter]
    exact List.filter_congr fun item _ => Bool.and_comm _ _
  have hpage : items.filter (fun item => decide (after < position item) &&
      decide (position item ≤ out.2) && keep item) =
      passed.filter (fun item => decide (position item ≤ out.2) && keep item) ++
        rest.filter (fun item => decide (position item ≤ out.2) && keep item) := by
    rw [← hcut]
    exact List.filter_congr fun item _ => Bool.and_assoc _ _ _
  have hafter : ∀ item ∈ passed ++ rest, item ∈ items ∧ after < position item := by
    intro item hitem
    obtain ⟨hmem, hlt⟩ := List.mem_filter.1 (h.split ▸ hitem)
    exact ⟨hmem, of_decide_eq_true hlt⟩
  rcases List.eq_nil_or_concat passed with rfl | ⟨init, last, rfl⟩
  · -- nothing was passed, so nothing was there
    obtain rfl : rest = [] := h.all (by rw [hfound]; exact hlimit)
    refine ⟨by rw [hfound, hpage]; rfl, .inl h.reached_eq, fun _ => ?_⟩
    exact hcut keep
  · rw [List.concat_eq_append] at hfound hpage hcut hafter h
    have hreached : out.2 = position last := by rw [h.reached_eq, reached_append_singleton]
    obtain ⟨hmem, hlt⟩ := hafter last (by simp)
    have hparts : (init ++ [last] ++ rest).Pairwise (position · < position ·) := by
      rw [← h.split]
      exact hsorted.filter _
    obtain ⟨hpassed, -, hcross⟩ := List.pairwise_append.1 hparts
    have hle : ∀ item ∈ init ++ [last], position item ≤ out.2 := by
      intro item hitem
      rw [hreached]
      rcases List.mem_append.1 hitem with hinit | hlast
      · exact ((List.pairwise_append.1 hpassed).2.2 item hinit last (by simp)).le
      · rw [List.mem_singleton.1 hlast]
    have hgt : ∀ item ∈ rest, out.2 < position item := by
      intro item hitem
      rw [hreached]
      exact hcross last (by simp) item hitem
    refine ⟨?_, .inr ⟨last, hmem, hlt, hreached.symm⟩, fun hstill => ?_⟩
    · have hkept : (init ++ [last]).filter (fun item => decide (position item ≤ out.2) && keep item) =
          (init ++ [last]).filter keep := by
        refine List.filter_congr fun item hitem => ?_
        rw [decide_eq_true (hle item hitem), Bool.true_and]
      have hnone : rest.filter (fun item => decide (position item ≤ out.2) && keep item) = [] := by
        refine List.filter_eq_nil_iff.2 fun item hitem => ?_
        rw [decide_eq_false (not_le.2 (hgt item hitem)), Bool.false_and]
        exact Bool.false_ne_true
      rw [hpage, hkept, hnone, List.append_nil, hfound]
    · exact absurd (hreached.symm.trans hstill) hlt.ne'

/-- The cursor may also go back to the last element of the page. -/
theorem Scanned.cut {last : α} (hsorted : items.Pairwise (position · < position ·))
    (h : Scanned position keep items after page next) (hlast : page.getLast? = some last) :
    Scanned position keep items after page (position last) := by
  obtain ⟨init, hinit⟩ := List.getLast?_eq_some_iff.1 hlast
  have hmem : ∀ item, item ∈ page ↔ item ∈ items ∧ after < position item ∧
      position item ≤ next ∧ keep item = true := by
    intro item
    rw [h.page_eq, List.mem_filter]
    simp only [Bool.and_eq_true, decide_eq_true_iff, and_assoc]
  have hpage : page.Pairwise (position · < position ·) := by
    rw [h.page_eq]
    exact hsorted.filter _
  obtain ⟨hitems, hlt, hle, -⟩ := (hmem last).1 (by rw [hinit]; simp)
  refine ⟨?_, .inr ⟨last, hitems, hlt, rfl⟩, fun hstill => absurd hstill hlt.ne'⟩
  rw [h.page_eq]
  refine List.filter_congr fun item hitem => ?_
  rw [Bool.eq_iff_iff]
  simp only [Bool.and_eq_true, decide_eq_true_iff]
  refine ⟨fun ⟨⟨hafter, hnext⟩, hkeep⟩ => ⟨⟨hafter, ?_⟩, hkeep⟩,
    fun ⟨⟨hafter, hnext⟩, hkeep⟩ => ⟨⟨hafter, hnext.trans hle⟩, hkeep⟩⟩
  have hin := (hmem item).2 ⟨hitem, hafter, hnext, hkeep⟩
  rw [hinit] at hin hpage
  rcases List.mem_append.1 hin with hbefore | hsame
  · exact ((List.pairwise_append.1 hpage).2.2 item hbefore last (by simp)).le
  · rw [List.mem_singleton.1 hsame]

/-- A cursor that moves leaves fewer elements after it. -/
theorem Scanned.length_lt (h : Scanned position keep items after page next) (hne : next ≠ after) :
    (items.filter fun item => decide (next < position item)).length <
      (items.filter fun item => decide (after < position item)).length := by
  obtain ⟨item, hitem, hlt, hnext⟩ := h.moved.resolve_left hne
  have hsub : items.filter (fun item => decide (next < position item)) =
      (items.filter fun item => decide (after < position item)).filter
        fun item => decide (next < position item) := by
    rw [List.filter_filter]
    refine List.filter_congr fun other _ => ?_
    rw [Bool.eq_iff_iff, Bool.and_eq_true, decide_eq_true_iff, decide_eq_true_iff]
    exact ⟨fun hother => ⟨hother, h.forward.trans_lt hother⟩, And.left⟩
  rw [hsub, List.length_filter_lt_length_iff_exists]
  refine ⟨item, List.mem_filter.2 ⟨hitem, decide_eq_true hlt⟩, ?_⟩
  rw [decide_eq_true_iff, hnext]
  exact lt_irrefl _

/-- Reads that keep their promise, followed far enough, return all that is kept. -/
theorem follow_eq {ε : Type} {read : ℕ → Except ε (List α × ℕ)}
    (hsorted : items.Pairwise (position · < position ·))
    (hread : ∀ after, NotPast position items after →
      ∃ page next, read after = .ok (page, next) ∧ Scanned position keep items after page next) :
    ∀ {fuel after : ℕ}, NotPast position items after →
      (items.filter fun item => decide (after < position item)).length < fuel →
      follow read fuel after = .ok (keptAfter position keep items after)
  | 0, _, _, hfuel => absurd hfuel (Nat.not_lt_zero _)
  | fuel + 1, after, hafter, hfuel => by
    obtain ⟨page, next, hok, hscanned⟩ := hread after hafter
    have hpage := hscanned.append_keptAfter hsorted
    rw [follow, hok]
    dsimp only
    split
    · rename_i hnext
      rw [← hpage, hnext, hscanned.done hnext, List.append_nil]
    · rename_i hnext
      have hless := hscanned.length_lt hnext
      rw [follow_eq hsorted hread (hscanned.notPast hafter) (by omega)]
      exact congrArg Except.ok hpage

end Follow

end Ironclaw
