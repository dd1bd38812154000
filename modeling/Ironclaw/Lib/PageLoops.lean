import Mathlib.Data.List.Sort
import Ironclaw.Lib.Paging

/-! # Loops over keyset pages

Three loops that read a list page by page, each page after the position of the last element of the
one before:

* `drainPages` reads up to a page that is not full. Where positions repeat, the elements that share
  the position of the last one of a full page and come after it are passed over: `tornPages`.
* `filterPages` keeps what passes a test, up to a number of elements: the pages are read for their
  matches, and the loop may end in the middle of one.
* `streamPages` does the same but ends only between pages.

Where several streams are sorted and cut together, nothing is lost by cutting each of them first
(`take_sortedBy_streams`). -/

namespace Ironclaw

variable {α κ : Type} [LinearOrder κ] (position : α → κ)

/-- The elements in the order of their positions. -/
def sortedBy (l : List α) : List α := l.mergeSort fun a b => position a ≤ position b

/-- The elements after a cursor. -/
def remaining (items : List α) (after : Option κ) : List α :=
  items.filter fun item => after.all fun cursor => cursor < position item

/-- All pages up to one that is not full. -/
def drainPages (limit : ℕ) (items : List α) : ℕ → Option κ → List α
  | 0, _ => []
  | fuel + 1, after =>
    let page := pageAfter position limit items after
    if page.length < limit then page
    else page ++ drainPages limit items fuel (page.getLast?.map position)

/-- The elements that `drainPages` passes over. -/
def tornPages (limit : ℕ) (items : List α) : ℕ → Option κ → List α
  | 0, _ => []
  | fuel + 1, after =>
    let page := pageAfter position limit items after
    if page.length < limit then []
    else
      ((remaining position items after).drop limit).filter
          (fun item => page.getLast?.any fun last => position item ≤ position last) ++
        tornPages limit items fuel (page.getLast?.map position)

/-- Push what passes the test; the flag says that there are enough. -/
def collectUpTo (keep : α → Bool) (limit : ℕ) : List α → List α → List α × Bool
  | [], collected => (collected, false)
  | item :: rest, collected =>
    if keep item then
      if limit ≤ (collected ++ [item]).length then (collected ++ [item], true)
      else collectUpTo keep limit rest (collected ++ [item])
    else collectUpTo keep limit rest collected

/-- The pages for their matches, up to `limit` of these. -/
def filterPages (keep : α → Bool) (limit pageLimit : ℕ) (items : List α) :
    ℕ → Option κ → List α → List α
  | 0, _, collected => collected
  | fuel + 1, after, collected =>
    let page := pageAfter position pageLimit items after
    let collected := collectUpTo keep limit page collected
    if collected.2 then collected.1
    else if page.length < pageLimit then collected.1
    else filterPages keep limit pageLimit items fuel (page.getLast?.map position) collected.1

/-- The pages for their matches, up to a page after which there are `limit` of these. -/
def streamPages (keep : α → Bool) (limit pageLimit : ℕ) (items : List α) :
    ℕ → Option κ → List α → List α
  | 0, _, collected => collected
  | fuel + 1, after, collected =>
    let page := pageAfter position pageLimit items after
    let collected := collected ++ page.filter keep
    if page.length < pageLimit then collected
    else if limit ≤ collected.length then collected
    else streamPages keep limit pageLimit items fuel (page.getLast?.map position) collected

variable {position} {items : List α} {limit pageLimit : ℕ} {keep : α → Bool}

/-! ### Sorting -/

theorem sortedBy_perm (l : List α) : (sortedBy position l).Perm l := List.mergeSort_perm _ _

theorem mem_sortedBy {l : List α} {a : α} : a ∈ sortedBy position l ↔ a ∈ l := (sortedBy_perm l).mem_iff

theorem sortedBy_le (l : List α) : (sortedBy position l).Pairwise (position · ≤ position ·) := by
  have hsorted : (sortedBy position l).Pairwise fun a b => decide (position a ≤ position b) = true :=
    List.pairwise_mergeSort
      (fun a b c hab hbc => decide_eq_true ((of_decide_eq_true hab).trans (of_decide_eq_true hbc)))
      (fun a b => by
        rcases le_total (position a) (position b) with hab | hba
        · simp [hab]
        · simp [hba]) l
  exact hsorted.imp fun h => of_decide_eq_true h

theorem sortedBy_lt {l : List α} (hne : l.Pairwise fun a b => position a ≠ position b) :
    (sortedBy position l).Pairwise (position · < position ·) := by
  have hne' : (sortedBy position l).Pairwise fun a b => position a ≠ position b :=
    (sortedBy_perm l).symm.pairwise hne fun h => h.symm
  exact ((sortedBy_le l).and hne').imp fun h => lt_of_le_of_ne h.1 h.2

/-- A list in strictly increasing position is determined by its elements. -/
theorem eq_of_perm_of_sorted {l l' : List α} (hl : l.Pairwise (position · < position ·))
    (hl' : l'.Pairwise (position · < position ·)) (hperm : l.Perm l') : l = l' := by
  refine List.Perm.eq_of_pairwise (fun a b _ _ hab hba => ?_) hl hl' hperm
  exact absurd hba (lt_asymm hab)

/-! ### One page after another -/

theorem remaining_length_le (after : Option κ) :
    (remaining position items after).length ≤ items.length :=
  List.length_filter_le _ _

theorem remaining_sublist (after : Option κ) : (remaining position items after).Sublist items :=
  List.filter_sublist

variable {after : Option κ}

/-- After an element there is what comes after it in any part that holds all of this. -/
theorem remaining_some {last : α} (hlast : last ∈ remaining position items after) :
    remaining position items (some (position last)) =
      (remaining position items after).filter fun item => position last < position item := by
  unfold remaining
  rw [List.filter_filter]
  refine List.filter_congr fun item _ => ?_
  have hafter := (List.mem_filter.1 hlast).2
  cases after with
  | none => simp
  | some cursor =>
    have hcursor : cursor < position last := by simpa using hafter
    by_cases hitem : position last < position item
    · simp [hitem, hcursor.trans hitem]
    · simp [hitem]

/-- Where positions strictly increase, what comes after the last element of a page is the rest. -/
theorem remaining_next (hsorted : items.Pairwise (position · < position ·)) {last : α}
    (hlast : (pageAfter position limit items after).getLast? = some last) :
    remaining position items (some (position last)) = (remaining position items after).drop limit := by
  obtain ⟨init, hinit⟩ := List.getLast?_eq_some_iff.1 hlast
  have hsplit : remaining position items after =
      init ++ [last] ++ (remaining position items after).drop limit := by
    rw [← hinit]
    exact (List.take_append_drop _ _).symm
  have hmem : last ∈ remaining position items after := by
    rw [hsplit]
    simp
  rw [remaining_some hmem]
  have hrest : (remaining position items after).Pairwise (position · < position ·) :=
    hsorted.sublist (remaining_sublist after)
  rw [hsplit] at hrest
  have hafter := filter_after_eq hrest
  rwa [← hsplit] at hafter

/-- A page that is not full is all that remains. -/
theorem page_eq_of_short (hshort : (pageAfter position limit items after).length < limit) :
    pageAfter position limit items after = remaining position items after := by
  have hlength : (pageAfter position limit items after).length =
      min limit (remaining position items after).length := List.length_take
  have hle : (remaining position items after).length ≤ limit := by omega
  exact List.take_of_length_le hle

/-- A full page has a last element, and less remains after it. -/
theorem page_full (hlimit : 0 < limit)
    (hfull : ¬ (pageAfter position limit items after).length < limit) :
    (∃ last, (pageAfter position limit items after).getLast? = some last) ∧
      limit ≤ (remaining position items after).length := by
  have hlength : (pageAfter position limit items after).length =
      min limit (remaining position items after).length := List.length_take
  refine ⟨?_, by omega⟩
  cases hlast : (pageAfter position limit items after).getLast? with
  | none =>
    rw [List.getLast?_eq_none_iff.1 hlast] at hfull
    exact absurd hlimit hfull
  | some last => exact ⟨last, rfl⟩

/-! ### Draining -/

/-- What comes after the last element of a page, where positions may repeat. -/
theorem remaining_next_of_le (hsorted : items.Pairwise (position · ≤ position ·))
    {last : α} (hlast : (pageAfter position limit items after).getLast? = some last) :
    remaining position items (some (position last)) =
      ((remaining position items after).drop limit).filter fun item => position last < position item := by
  obtain ⟨init, hinit⟩ := List.getLast?_eq_some_iff.1 hlast
  have hpage : (List.take limit (remaining position items after)) = init ++ [last] := hinit
  have hmem : last ∈ remaining position items after := by
    refine List.mem_of_mem_take (i := limit) ?_
    rw [hpage]
    simp
  have hnone : (init ++ [last]).filter (fun item => decide (position last < position item)) = [] := by
    refine List.filter_eq_nil_iff.2 fun item hitem => ?_
    rw [decide_eq_true_iff, not_lt]
    have hordered : (init ++ [last]).Pairwise (position · ≤ position ·) := by
      rw [← hpage]
      exact (hsorted.sublist (remaining_sublist after)).sublist (List.take_sublist _ _)
    rcases List.mem_append.1 hitem with hitem | hitem
    · exact (List.pairwise_append.1 hordered).2.2 item hitem last (by simp)
    · rw [List.mem_singleton.1 hitem]
  rw [remaining_some hmem]
  nth_rewrite 1 [← List.take_append_drop limit (remaining position items after)]
  rw [List.filter_append, hpage, hnone, List.nil_append]

/-- What a drain reads and what it passes over are together all that remains. -/
theorem drainPages_append_torn (hsorted : items.Pairwise (position · ≤ position ·)) (hlimit : 0 < limit) :
    ∀ {fuel : ℕ} {after : Option κ}, (remaining position items after).length < fuel →
      (drainPages position limit items fuel after ++ tornPages position limit items fuel after).Perm
        (remaining position items after)
  | 0, _, hfuel => absurd hfuel (Nat.not_lt_zero _)
  | fuel + 1, after, hfuel => by
    unfold drainPages tornPages
    dsimp only
    split
    next hshort => rw [page_eq_of_short hshort, List.append_nil]
    next hfull =>
      obtain ⟨⟨last, hlast⟩, hlong⟩ := page_full hlimit hfull
      have hnext := remaining_next_of_le hsorted hlast
      have hshorter : (remaining position items (some (position last))).length < fuel := by
        have hdrop := List.length_filter_le (fun item => decide (position last < position item))
          ((remaining position items after).drop limit)
        rw [← hnext, List.length_drop] at hdrop
        omega
      have ih := drainPages_append_torn hsorted hlimit hshorter
      rw [hlast]
      simp only [Option.map_some, Option.any_some]
      -- the rest of the list, at the position of the last element and after it
      have hcut := List.filter_append_perm (fun item => decide (position item ≤ position last))
        ((remaining position items after).drop limit)
      have hnot : (fun item => !decide (position item ≤ position last)) =
          fun item => decide (position last < position item) := by
        funext item
        simp [← not_le]
      rw [hnot, ← hnext] at hcut
      rw [List.append_assoc]
      refine ((List.perm_append_comm_assoc _ _ _).append_left _).trans ?_
      refine ((ih.append_left _).append_left _).trans ((hcut.append_left _).trans ?_)
      rw [pageAfter]
      exact .of_eq (List.take_append_drop _ _)

/-- Where all elements share one position, a drain passes over what does not fit the first page. -/
theorem tornPages_of_tied {p : κ} (htied : ∀ item ∈ items, position item = p) (hlimit : 0 < limit)
    (hlong : limit < items.length) (fuel : ℕ) :
    ∃ item, item ∈ tornPages position limit items (fuel + 1) none := by
  have hall : remaining position items none = items := List.filter_eq_self.2 fun _ _ => rfl
  have hlength : (pageAfter position limit items none).length =
      min limit (remaining position items none).length := List.length_take
  rw [hall] at hlength
  have hfull : ¬ (pageAfter position limit items none).length < limit := by omega
  obtain ⟨⟨last, hlast⟩, -⟩ := page_full hlimit hfull
  have hmem : last ∈ items := by
    have hpage : last ∈ (remaining position items none).take limit := List.mem_of_getLast? hlast
    rw [hall] at hpage
    exact List.mem_of_mem_take hpage
  unfold tornPages
  dsimp only
  rw [if_neg hfull, hlast, hall]
  obtain ⟨item, hitem⟩ := List.exists_mem_of_length_pos (l := items.drop limit) (by
    rw [List.length_drop]
    omega)
  refine ⟨item, List.mem_append_left _ (List.mem_filter.2 ⟨hitem, ?_⟩)⟩
  rw [Option.any_some, htied item (List.mem_of_mem_drop hitem), htied last hmem]
  exact decide_eq_true le_rfl

/-! ### Reading for matches -/

theorem collectUpTo_eq : ∀ {batch collected : List α}, collected.length < limit →
    collectUpTo keep limit batch collected =
      if limit ≤ (collected ++ batch.filter keep).length then
        ((collected ++ batch.filter keep).take limit, true)
      else (collected ++ batch.filter keep, false)
  | [], collected, hroom => by
    rw [List.filter_nil, List.append_nil, if_neg (not_le.2 hroom)]
    rfl
  | item :: rest, collected, hroom => by
    unfold collectUpTo
    by_cases hkeep : keep item = true
    · rw [if_pos hkeep, List.filter_cons_of_pos hkeep]
      have hassoc : collected ++ item :: rest.filter keep = collected ++ [item] ++ rest.filter keep := by
        simp
      by_cases hfull : limit ≤ (collected ++ [item]).length
      · have hlength : (collected ++ [item]).length = limit := by
          rw [List.length_append, List.length_singleton] at hfull ⊢
          omega
        rw [if_pos hfull, hassoc, if_pos]
        · rw [← hlength, List.take_left]
        · rw [List.length_append]
          omega
      · rw [if_neg hfull, collectUpTo_eq (not_le.1 hfull), hassoc]
    · rw [if_neg hkeep, List.filter_cons_of_neg hkeep]
      exact collectUpTo_eq hroom

/-- The loop returns the first matches after its cursor. -/
theorem filterPages_eq (hsorted : items.Pairwise (position · < position ·)) (hpage : 0 < pageLimit) :
    ∀ {fuel : ℕ} {after : Option κ} {collected : List α}, collected.length < limit →
      (remaining position items after).length < fuel →
      filterPages position keep limit pageLimit items fuel after collected =
        (collected ++ (remaining position items after).filter keep).take limit
  | 0, _, _, _, hfuel => absurd hfuel (Nat.not_lt_zero _)
  | fuel + 1, after, collected, hroom, hfuel => by
    have hsplit : (remaining position items after).filter keep =
        (pageAfter position pageLimit items after).filter keep ++
          ((remaining position items after).drop pageLimit).filter keep := by
      rw [← List.filter_append]
      exact congrArg _ (List.take_append_drop _ _).symm
    unfold filterPages
    dsimp only
    rw [collectUpTo_eq hroom]
    by_cases henough : limit ≤
        (collected ++ (pageAfter position pageLimit items after).filter keep).length
    · rw [if_pos henough, if_pos rfl, hsplit, ← List.append_assoc,
        List.take_append_of_le_length henough]
    · rw [if_neg henough, if_neg Bool.false_ne_true]
      split
      next hshort =>
        rw [page_eq_of_short hshort] at henough ⊢
        rw [List.take_of_length_le (not_le.1 henough).le]
      next hfull =>
        obtain ⟨⟨last, hlast⟩, hlong⟩ := page_full hpage hfull
        have hnext := remaining_next hsorted hlast
        have hshorter : (remaining position items (some (position last))).length < fuel := by
          rw [hnext, List.length_drop]
          omega
        rw [hlast, Option.map_some, filterPages_eq hsorted hpage (not_le.1 henough) hshorter, hnext,
          List.append_assoc, ← hsplit]

/-- A stream is the matches up to some place: all of them, or enough. -/
theorem streamPages_eq (hsorted : items.Pairwise (position · < position ·)) (hpage : 0 < pageLimit) :
    ∀ {fuel : ℕ} {after : Option κ} (collected : List α),
      (remaining position items after).length < fuel →
      ∃ read, read <+: (remaining position items after).filter keep ∧
        streamPages position keep limit pageLimit items fuel after collected = collected ++ read ∧
        (read = (remaining position items after).filter keep ∨ limit ≤ (collected ++ read).length)
  | 0, _, _, hfuel => absurd hfuel (Nat.not_lt_zero _)
  | fuel + 1, after, collected, hfuel => by
    have hsplit : (remaining position items after).filter keep =
        (pageAfter position pageLimit items after).filter keep ++
          ((remaining position items after).drop pageLimit).filter keep := by
      rw [← List.filter_append]
      exact congrArg _ (List.take_append_drop _ _).symm
    unfold streamPages
    dsimp only
    split
    next hshort =>
      rw [page_eq_of_short hshort]
      exact ⟨_, List.prefix_rfl, rfl, .inl rfl⟩
    next hfull =>
      split
      next henough =>
        refine ⟨_, ?_, rfl, .inr henough⟩
        rw [hsplit]
        exact List.prefix_append _ _
      next =>
        obtain ⟨⟨last, hlast⟩, hlong⟩ := page_full hpage hfull
        have hnext := remaining_next hsorted hlast
        have hshorter : (remaining position items (some (position last))).length < fuel := by
          rw [hnext, List.length_drop]
          omega
        obtain ⟨read, hread, heq, hdone⟩ := streamPages_eq hsorted hpage
          (collected ++ (pageAfter position pageLimit items after).filter keep) hshorter
        rw [hnext] at hread hdone
        refine ⟨(pageAfter position pageLimit items after).filter keep ++ read, ?_, ?_, ?_⟩
        · rw [hsplit]
          exact List.prefix_append_right_inj _ |>.2 hread
        · rw [hlast, Option.map_some, heq, List.append_assoc]
        · rcases hdone with hall | henough
          · left
            rw [hsplit, hall]
          · right
            rwa [← List.append_assoc]

/-! ### Streams together -/

/-- The first elements of a sorted list are those of a part that holds them. -/
theorem take_eq_of_subset {n : ℕ} {all part : List α} (hall : all.Pairwise (position · < position ·))
    (hpart : part.Pairwise (position · < position ·)) (hsub : ∀ a ∈ part, a ∈ all)
    (hfirst : ∀ a ∈ all.take n, a ∈ part) : part.take n = all.take n := by
  classical
  have hnodup : ∀ {l : List α}, l.Pairwise (position · < position ·) → l.Nodup :=
    fun hl => hl.imp fun hlt heq => hlt.ne (congrArg position heq)
  have hfilter : part = all.filter (· ∈ part) := by
    refine eq_of_perm_of_sorted hpart (hall.sublist List.filter_sublist) ?_
    refine (List.perm_ext_iff_of_nodup (hnodup hpart) ((hnodup hall).filter _)).2 fun a => ?_
    simp only [List.mem_filter, decide_eq_true_eq]
    exact ⟨fun ha => ⟨hsub a ha, ha⟩, fun ha => ha.2⟩
  have hkeeps : (all.take n).filter (fun a => decide (a ∈ part)) = all.take n :=
    List.filter_eq_self.2 fun a ha => decide_eq_true (hfirst a ha)
  have hsplit : part = all.take n ++ (all.drop n).filter (· ∈ part) := by
    nth_rewrite 1 [hfilter]
    nth_rewrite 1 [← List.take_append_drop n all]
    rw [List.filter_append, hkeeps]
  rcases le_or_gt n all.length with hlong | hshort
  · have hlength : (all.take n).length = n := List.length_take_of_le hlong
    rw [hsplit, List.take_append_of_le_length hlength.ge, List.take_take, min_self]
  · rw [List.drop_of_length_le hshort.le, List.filter_nil, List.append_nil] at hsplit
    rw [hsplit, List.take_take, min_self]

section streams

variable {σ : Type} {states : List σ} {stream full : σ → List α} {n : ℕ}

theorem flatMap_sublist (hinit : ∀ s ∈ states, stream s <+: full s) :
    (states.flatMap stream).Sublist (states.flatMap full) := by
  induction states with
  | nil => exact List.Sublist.refl _
  | cons s states ih =>
    rw [List.flatMap_cons, List.flatMap_cons]
    exact (hinit s List.mem_cons_self).sublist.append
      (ih fun s hs => hinit s (List.mem_cons_of_mem _ hs))

/-- Streams that are cut after `n` elements have the first `n` of all. -/
theorem take_sortedBy_streams (hne : (states.flatMap full).Pairwise fun a b => position a ≠ position b)
    (hsorted : ∀ s ∈ states, (full s).Pairwise (position · < position ·))
    (hinit : ∀ s ∈ states, stream s <+: full s)
    (hcut : ∀ s ∈ states, stream s = full s ∨ n ≤ (stream s).length) :
    (sortedBy position (states.flatMap stream)).take n =
      (sortedBy position (states.flatMap full)).take n := by
  have hsub := flatMap_sublist hinit
  have hall := sortedBy_lt hne
  refine take_eq_of_subset hall (sortedBy_lt (hne.sublist hsub))
    (fun a ha => mem_sortedBy.2 (hsub.subset (mem_sortedBy.1 ha))) fun a ha => mem_sortedBy.2 ?_
  obtain ⟨s, hs, hfull⟩ := List.mem_flatMap.1 (mem_sortedBy.1 (List.mem_of_mem_take ha))
  by_contra hmissing
  have habsent : a ∉ stream s := fun h => hmissing (List.mem_flatMap.2 ⟨s, hs, h⟩)
  obtain ⟨rest, hrest⟩ := hinit s hs
  have hbefore : ∀ b ∈ stream s, position b < position a := by
    have hpair := hsorted s hs
    rw [← hrest] at hfull hpair
    have hlate := (List.mem_append.1 hfull).resolve_left habsent
    exact fun b hb => (List.pairwise_append.1 hpair).2.2 b hb a hlate
  have hlong : n ≤ (stream s).length := by
    refine (hcut s hs).resolve_left fun heq => habsent ?_
    rw [heq]
    exact hfull
  -- the stream and the element are more than `n`, and all among the first `n`
  have hmany : (stream s ++ [a]).length ≤ ((sortedBy position (states.flatMap full)).take n).length := by
    refine (List.subperm_of_subset ?_ fun b hb => ?_).length_le
    · refine List.Nodup.append ?_ (List.nodup_singleton a) fun b hb hlast => ?_
      · have hpair := (hsorted s hs).sublist (hinit s hs).sublist
        exact hpair.imp fun hlt heq => hlt.ne (congrArg position heq)
      · exact habsent (List.mem_singleton.1 hlast ▸ hb)
    · rcases List.mem_append.1 hb with hb | hb
      · have hmem : b ∈ sortedBy position (states.flatMap full) :=
          mem_sortedBy.2 (hsub.subset (List.mem_flatMap.2 ⟨s, hs, hb⟩))
        have hpair := hall
        rw [← List.take_append_drop n (sortedBy position (states.flatMap full))] at hmem hpair
        refine (List.mem_append.1 hmem).resolve_right fun hdrop => ?_
        exact lt_asymm (hbefore b hb) ((List.pairwise_append.1 hpair).2.2 a ha b hdrop)
      · rw [List.mem_singleton.1 hb]
        exact ha
  have htake := List.length_take_le n (sortedBy position (states.flatMap full))
  rw [List.length_append, List.length_singleton] at hmany
  omega

/-- The elements of several kinds, kind by kind. -/
theorem flatMap_filter_perm [DecidableEq σ] (kind : α → σ) (hnodup : states.Nodup) (l : List α) :
    (states.flatMap fun s => l.filter (kind · = s)).Perm (l.filter (kind · ∈ states)) := by
  induction states with
  | nil => simp
  | cons s states ih =>
    obtain ⟨hs, hrest⟩ := List.nodup_cons.1 hnodup
    rw [List.flatMap_cons]
    refine ((ih hrest).append_left _).trans ?_
    have hcut := List.filter_append_perm (fun a => decide (kind a = s))
      (l.filter (kind · ∈ s :: states))
    rw [List.filter_filter, List.filter_filter] at hcut
    have hfirst : (fun a => decide (kind a = s) && decide (kind a ∈ s :: states)) =
        fun a => decide (kind a = s) := by
      funext a
      by_cases h : kind a = s
      · simp [h]
      · simp [h]
    have hsecond : (fun a => !decide (kind a = s) && decide (kind a ∈ s :: states)) =
        fun a => decide (kind a ∈ states) := by
      funext a
      by_cases h : kind a = s
      · simp [h, hs]
      · simp [h]
    rw [hfirst, hsecond] at hcut
    exact hcut

end streams

end Ironclaw
