import Mathlib.Data.List.Pairwise
import Ironclaw.Threads.Summaries

/-! # Summaries that keep apart

What the calls of `create_summary_artifact` leave in the store. The overlap test compares a request
with a listing, so it keeps the stored summaries apart exactly as far as the listing is what is
stored when the summary is put: `ServedSteadily` are the runs in which it is. Along them the
replacement summaries are disjoint, the barriers end at different messages, and a retry finds the
summary that is stored (`summaries_stay_apart`). Where two calls list before either of them puts, both
put (`concurrent_summaries_overlap`). -/

namespace Ironclaw.Threads

/-- A summary that stands for its own range. -/
def SummaryArtifact.Replaces (summary : SummaryArtifact) : Prop :=
  summary.modelContextPolicy = some .replaceRangeWhenSelected ∧
    summary.contextMode ≠ some .cumulativeBarrier

/-- A summary of everything up to its end, made by a compaction. -/
def SummaryArtifact.IsBarrier (summary : SummaryArtifact) : Prop :=
  summary.contextMode = some .cumulativeBarrier ∧ summary.summaryKind = .compaction

def SummaryArtifact.Overlaps (a b : SummaryArtifact) : Prop :=
  rangesOverlap a.startSequence a.endSequence b.startSequence b.endSequence = true

/-- No two replacement summaries overlap. -/
def ReplacementsDisjoint (summaries : List SummaryArtifact) : Prop :=
  summaries.Pairwise fun a b => a.Replaces → b.Replaces → ¬ a.Overlaps b

/-- No two barriers end at the same message. -/
def BarriersDiffer (summaries : List SummaryArtifact) : Prop :=
  summaries.Pairwise fun a b => a.IsBarrier → b.IsBarrier → a.endSequence ≠ b.endSequence

/-- A request for a summary that is stored already. -/
def SummaryArtifact.RetriedBy (summary : SummaryArtifact) (request : CreateSummaryArtifactRequest) :
    Prop :=
  isExactCompactionSummaryReplay summary request request.content.text = true ∧
    summary.summaryKind = request.summaryKind

/-- The only replacement in the range of a summary is the summary itself. -/
def SummaryArtifact.AloneIn (summary : SummaryArtifact) (summaries : List SummaryArtifact) : Prop :=
  ∀ row ∈ summaries, row.modelContextPolicy = some .replaceRangeWhenSelected →
    summary.Overlaps row → row = summary

/-! ### The overlap test -/

section test

variable {rows : List SummaryArtifact} {request : CreateSummaryArtifactRequest} {content : String}
  {summary found : SummaryArtifact}

theorem isExact_iff :
    isExactCompactionSummaryReplay summary request content = true ↔
      summary.threadId = request.threadId ∧ summary.startSequence = request.startSequence ∧
        summary.endSequence = request.endSequence ∧ summary.content = content ∧
        summary.modelContextPolicy = request.modelContextPolicy ∧
        summary.contextMode = request.contextMode := by
  simp [isExactCompactionSummaryReplay]

theorem mem_requestOverlaps :
    summary ∈ requestOverlaps rows request ↔
      summary ∈ rows ∧ summary.modelContextPolicy = some .replaceRangeWhenSelected ∧
        rangesOverlap request.startSequence request.endSequence summary.startSequence
          summary.endSequence = true := by
  simp [requestOverlaps]

theorem mem_requestBarriers :
    summary ∈ requestBarriers rows request ↔
      summary ∈ rows ∧ summary.contextMode = some .cumulativeBarrier ∧
        request.summaryKind = .compaction ∧ summary.summaryKind = request.summaryKind := by
  simp [requestBarriers]

theorem findOverlappingSummary_barrier (hmode : request.contextMode = some .cumulativeBarrier)
    (hpolicy : request.modelContextPolicy ≠ none)
    (h : findOverlappingSummary rows request content = .ok none) :
    request.startSequence = 1 ∧
      ∀ row ∈ requestBarriers rows request, row.endSequence < request.endSequence := by
  obtain ⟨policy, hpolicy⟩ := Option.ne_none_iff_exists'.1 hpolicy
  simp only [findOverlappingSummary, hpolicy, hmode, if_true] at h
  split at h
  next => cases h
  next hstart =>
    split at h
    next => cases h
    next =>
      split at h
      next => cases h
      next hbarriers =>
        refine ⟨not_not.1 fun hne => hstart (.inr hne), fun row hrow => ?_⟩
        by_contra hlt
        exact hbarriers (List.any_eq_true.2 ⟨row, hrow, decide_eq_true (not_lt.1 hlt)⟩)

theorem findOverlappingSummary_replacement (hmode : request.contextMode ≠ some .cumulativeBarrier)
    (hpolicy : request.modelContextPolicy ≠ none)
    (h : findOverlappingSummary rows request content = .ok none) :
    requestOverlaps rows request = [] := by
  obtain ⟨policy, hpolicy⟩ := Option.ne_none_iff_exists'.1 hpolicy
  simp only [findOverlappingSummary, hpolicy, hmode, if_false] at h
  split at h
  next hnil => exact hnil
  next =>
    split at h
    · cases h
    · cases h
  next => cases h

theorem findOverlappingSummary_found
    (h : findOverlappingSummary rows request content = .ok (some found)) :
    found ∈ rows ∧ isExactCompactionSummaryReplay found request content = true ∧
      (request.contextMode ≠ some .cumulativeBarrier → requestOverlaps rows request = [found]) := by
  unfold findOverlappingSummary at h
  dsimp only at h
  split at h
  next => cases h
  next policy hpolicy =>
    split at h
    next hmode =>
      split at h
      next => cases h
      next =>
        split at h
        next replayed hfind =>
          cases h
          have hmem := mem_requestBarriers.1 (List.mem_of_find?_eq_some hfind)
          have hexact : isExactCompactionSummaryReplay found request content = true :=
            List.find?_some (p := (isExactCompactionSummaryReplay · request content)) hfind
          exact ⟨hmem.1, hexact, fun hne => absurd hmode hne⟩
        next =>
          split at h
          · cases h
          · cases h
    next hmode =>
      split at h
      next => cases h
      next only honly =>
        split at h
        next hexact =>
          cases h
          have hmem : found ∈ requestOverlaps rows request := by
            rw [honly]
            exact List.mem_singleton_self found
          exact ⟨(mem_requestOverlaps.1 hmem).1, hexact.2.2, fun _ => honly⟩
        next => cases h
      next => cases h

/-- A summary over a range of at least one message meets a request that retries it. -/
theorem mem_requestOverlaps_of_exact (hmem : summary ∈ rows)
    (hexact : isExactCompactionSummaryReplay summary request content = true)
    (hpolicy : request.modelContextPolicy ≠ none) (hrange : summary.startSequence ≤ summary.endSequence) :
    summary ∈ requestOverlaps rows request := by
  obtain ⟨-, hstart, hend, -, hsame, -⟩ := isExact_iff.1 hexact
  obtain ⟨⟨⟩, hpolicy⟩ := Option.ne_none_iff_exists'.1 hpolicy
  refine mem_requestOverlaps.2 ⟨hmem, hsame.trans hpolicy, ?_⟩
  rw [hstart, hend] at hrange
  simp [rangesOverlap, hstart, hend, hrange]

/-- A retry does not pass the test. -/
theorem findOverlappingSummary_retry_ne (hmem : summary ∈ rows) (hretry : summary.RetriedBy request)
    (hpolicy : request.modelContextPolicy ≠ none)
    (hrange : summary.startSequence ≤ summary.endSequence) :
    findOverlappingSummary rows request request.content.text ≠ .ok none := by
  intro h
  obtain ⟨hexact, hkind⟩ := hretry
  by_cases hmode : request.contextMode = some .cumulativeBarrier
  · have hbarrier : summary ∈ requestBarriers rows request := by
      refine mem_requestBarriers.2 ⟨hmem, ?_, ?_, hkind⟩
      · exact (isExact_iff.1 hexact).2.2.2.2.2.trans hmode
      · cases request.summaryKind
        rfl
    have hlt := (findOverlappingSummary_barrier hmode hpolicy h).2 summary hbarrier
    rw [(isExact_iff.1 hexact).2.2.1] at hlt
    exact lt_irrefl _ hlt
  · have hmeets := mem_requestOverlaps_of_exact hmem hexact hpolicy hrange
    rw [findOverlappingSummary_replacement hmode hpolicy h] at hmeets
    exact List.not_mem_nil hmeets

/-- What a retry is given is the summary it repeats. -/
theorem findOverlappingSummary_retry_found {stored : List SummaryArtifact}
    (hbarriers : BarriersDiffer stored) (hstored : ∀ row ∈ rows, row ∈ stored) (hmem : summary ∈ rows)
    (hretry : summary.RetriedBy request) (hpolicy : request.modelContextPolicy ≠ none)
    (hrange : summary.startSequence ≤ summary.endSequence)
    (h : findOverlappingSummary rows request request.content.text = .ok (some found)) :
    found = summary := by
  obtain ⟨hfound, hexactFound, hother⟩ := findOverlappingSummary_found h
  by_cases hmode : request.contextMode = some .cumulativeBarrier
  · have hbarrier : ∀ row : SummaryArtifact,
        isExactCompactionSummaryReplay row request request.content.text = true → row.IsBarrier :=
      fun row hrow => ⟨(isExact_iff.1 hrow).2.2.2.2.2.trans hmode, by cases row.summaryKind; rfl⟩
    have hsame : found.endSequence = summary.endSequence :=
      (isExact_iff.1 hexactFound).2.2.1.trans (isExact_iff.1 hretry.1).2.2.1.symm
    by_contra hne
    have : Std.Symm fun a b : SummaryArtifact =>
        a.IsBarrier → b.IsBarrier → a.endSequence ≠ b.endSequence :=
      ⟨fun a b hab hb ha heq => hab ha hb heq.symm⟩
    exact List.Pairwise.forall hbarriers (hstored found hfound) (hstored summary hmem) hne
      (hbarrier found hexactFound) (hbarrier summary hretry.1) hsame
  · have hmeets := mem_requestOverlaps_of_exact hmem hretry.1 hpolicy hrange
    rw [hother hmode] at hmeets
    exact (List.mem_singleton.1 hmeets).symm

/-- A retry of a barrier, or of a summary that nothing else overlaps, is answered. -/
theorem findOverlappingSummary_retry_answered (hnodup : rows.Nodup) (hmem : summary ∈ rows)
    (hretry : summary.RetriedBy request) (hpolicy : request.modelContextPolicy ≠ none)
    (hrange : summary.startSequence ≤ summary.endSequence)
    (halone : (summary.IsBarrier ∧ summary.startSequence = 1) ∨
      (¬ summary.IsBarrier ∧ summary.AloneIn rows)) :
    ∃ found, findOverlappingSummary rows request request.content.text = .ok (some found) := by
  have hexact := isExact_iff.1 hretry.1
  have hcompaction : request.summaryKind = .compaction := by
    cases request.summaryKind
    rfl
  obtain ⟨policy, hsome⟩ := Option.ne_none_iff_exists'.1 hpolicy
  have hreplace : policy = .replaceRangeWhenSelected := by
    cases policy
    rfl
  unfold findOverlappingSummary
  rw [hsome]
  dsimp only
  rcases halone with ⟨hbarrier, hone⟩ | ⟨hnot, halone⟩
  · have hmode : request.contextMode = some .cumulativeBarrier := hexact.2.2.2.2.2.symm.trans hbarrier.1
    have hstart : request.startSequence = 1 := hexact.2.1.symm.trans hone
    have hlisted : summary ∈ requestBarriers rows request :=
      mem_requestBarriers.2 ⟨hmem, hbarrier.1, hcompaction, hretry.2⟩
    rw [if_pos hmode, if_neg (by simp [hreplace, hstart])]
    cases hfind : (requestBarriers rows request).find?
        (isExactCompactionSummaryReplay · request request.content.text) with
    | some found => exact ⟨found, rfl⟩
    | none => exact absurd hretry.1 (List.find?_eq_none.1 hfind summary hlisted)
  · have hmode : request.contextMode ≠ some .cumulativeBarrier := by
      intro hmode
      exact hnot ⟨hexact.2.2.2.2.2.trans hmode, hretry.2.trans hcompaction⟩
    have hmeets := mem_requestOverlaps_of_exact hmem hretry.1 hpolicy hrange
    have honly : ∀ row ∈ requestOverlaps rows request, row = summary := by
      intro row hrow
      obtain ⟨hrow, hpolicyRow, hoverlap⟩ := mem_requestOverlaps.1 hrow
      rw [← hexact.2.1, ← hexact.2.2.1] at hoverlap
      exact halone row hrow hpolicyRow hoverlap
    have hsingle : requestOverlaps rows request = [summary] := by
      have hnodup' : (requestOverlaps rows request).Nodup := hnodup.filter _
      match hlist : requestOverlaps rows request with
      | [] =>
        rw [hlist] at hmeets
        exact absurd hmeets List.not_mem_nil
      | [row] =>
        rw [honly row (by simp [hlist])]
      | row :: row' :: rest =>
        rw [hlist] at hnodup'
        have hsame : row = row' :=
          (honly row (by simp [hlist])).trans (honly row' (by simp [hlist])).symm
        exact absurd hsame fun heq => (List.nodup_cons.1 hnodup').1 (by simp [heq])
    refine ⟨summary, ?_⟩
    rw [if_neg hmode, hsingle]
    exact if_pos ⟨hcompaction, hretry.2, hretry.1⟩

end test

/-! ### What is kept in the store -/

/-- What the stored summaries of a thread have in common. -/
structure Kept (threadId : ThreadId) (rows : List SummaryArtifact) : Prop where
  disjoint : ReplacementsDisjoint rows
  barriers : BarriersDiffer rows
  ids : rows.Pairwise fun a b => a.summaryId ≠ b.summaryId
  thread : ∀ row ∈ rows, row.threadId = threadId
  ranges : ∀ row ∈ rows, row.startSequence ≠ 0 ∧ row.startSequence ≤ row.endSequence
  firsts : ∀ row ∈ rows, row.contextMode = some .cumulativeBarrier → row.startSequence = 1

theorem Kept.nil (threadId : ThreadId) : Kept threadId [] where
  disjoint := List.Pairwise.nil
  barriers := List.Pairwise.nil
  ids := List.Pairwise.nil
  thread _ h := absurd h List.not_mem_nil
  ranges _ h := absurd h List.not_mem_nil
  firsts _ h := absurd h List.not_mem_nil

theorem pairwise_concat {α : Type} {R : α → α → Prop} {l : List α} {a : α} (hl : l.Pairwise R)
    (ha : ∀ b ∈ l, R b a) : (l ++ [a]).Pairwise R := by
  refine List.pairwise_append.2 ⟨hl, List.pairwise_singleton R a, fun b hb c hc => ?_⟩
  rw [List.mem_singleton.1 hc]
  exact ha b hb

theorem Kept.store {threadId : ThreadId} {rows existing : List SummaryArtifact}
    {request : CreateSummaryArtifactRequest} {summaryId : SummaryArtifactId} (h : Kept threadId rows)
    (hthread : request.threadId = threadId)
    (hrange : request.startSequence ≠ 0 ∧ request.startSequence ≤ request.endSequence)
    (hchecked : request.contextMode = some .cumulativeBarrier → request.modelContextPolicy ≠ none)
    (hlisted : ∀ row ∈ rows, row ∈ existing)
    (hpass : findOverlappingSummary existing request request.content.text = .ok none)
    (habsent : ∀ row ∈ rows, row.summaryId ≠ summaryId) :
    Kept threadId (rows ++ [request.artifact summaryId]) := by
  have hnew : ∀ {P : SummaryArtifact → Prop}, (∀ row ∈ rows, P row) → P (request.artifact summaryId) →
      ∀ row ∈ rows ++ [request.artifact summaryId], P row := by
    intro P hrows hartifact row hrow
    rcases List.mem_append.1 hrow with hrow | hrow
    · exact hrows row hrow
    · rw [List.mem_singleton.1 hrow]
      exact hartifact
  constructor
  · refine pairwise_concat h.disjoint fun row hrow hreplaces hnewReplaces hoverlap => ?_
    have hpolicy : request.modelContextPolicy ≠ none := by
      rw [show request.modelContextPolicy = some .replaceRangeWhenSelected from hnewReplaces.1]
      exact Option.some_ne_none _
    have hmeets : row ∈ requestOverlaps existing request := by
      refine mem_requestOverlaps.2 ⟨hlisted row hrow, hreplaces.1, ?_⟩
      have hboth : row.startSequence ≤ request.endSequence ∧ request.startSequence ≤ row.endSequence :=
        of_decide_eq_true hoverlap
      exact decide_eq_true hboth.symm
    rw [findOverlappingSummary_replacement hnewReplaces.2 hpolicy hpass] at hmeets
    exact List.not_mem_nil hmeets
  · refine pairwise_concat h.barriers fun row hrow hbarrier hnewBarrier hsame => ?_
    have hmeets : row ∈ requestBarriers existing request :=
      mem_requestBarriers.2 ⟨hlisted row hrow, hbarrier.1, hnewBarrier.2, hbarrier.2.trans hnewBarrier.2.symm⟩
    have hlt := (findOverlappingSummary_barrier hnewBarrier.1 (hchecked hnewBarrier.1) hpass).2 row hmeets
    exact hlt.ne hsame
  · exact pairwise_concat h.ids habsent
  · exact hnew h.thread hthread
  · exact hnew h.ranges hrange
  · refine hnew h.firsts fun hmode => ?_
    exact (findOverlappingSummary_barrier hmode (hchecked hmode) hpass).1

namespace SummaryStore

variable {ι : Type} {threadId : ThreadId} {s t : SummaryStore ι} {i : ι}

/-- The rows that were stored when the call began its listing. -/
def seen (s : SummaryStore ι) (i : ι) : List SummaryArtifact := s.summaries.take (s.began i)

theorem position_inj {a b : SummaryArtifact} (h : a.position = b.position) : a.summaryId = b.summaryId := by
  have hnat : a.summaryId.asUuid.toNat = b.summaryId.asUuid.toNat :=
    (Prod.mk.inj (toLex.injective h)).2
  have huuid := BitVec.eq_of_toNat_eq hnat
  cases ha : a.summaryId
  cases hb : b.summaryId
  rw [ha, hb] at huuid
  exact congrArg SummaryArtifactId.mk huuid

theorem mem_indexed {row : SummaryArtifact} : row ∈ s.indexed ↔ row ∈ s.summaries :=
  (List.mergeSort_perm _ _).mem_iff

theorem indexed_sorted (hids : s.summaries.Pairwise fun a b => a.summaryId ≠ b.summaryId) :
    s.indexed.Pairwise (·.position < ·.position) := by
  have hle : s.indexed.Pairwise fun a b => (decide (a.position ≤ b.position)) = true :=
    List.pairwise_mergeSort
      (fun a b c hab hbc => decide_eq_true ((of_decide_eq_true hab).trans (of_decide_eq_true hbc)))
      (fun a b => by
        rcases le_total a.position b.position with hab | hba
        · simp [hab]
        · simp [hba]) _
  have hne : s.indexed.Pairwise fun a b => a.summaryId ≠ b.summaryId :=
    (List.mergeSort_perm s.summaries _).symm.pairwise hids fun hab => hab.symm
  exact (hle.and hne).imp fun hab =>
    lt_of_le_of_ne (of_decide_eq_true hab.1) fun heq => hab.2 (position_inj heq)

/-- What a listing holds while its next page is read from a cursor on. -/
structure Listing (s : SummaryStore ι) (i : ι) (cursor : Option (ℕ ×ₗ ℕ)) (acc : List SummaryArtifact) :
    Prop where
  began : s.began i ≤ s.summaries.length
  stored : ∀ row ∈ acc, row ∈ s.summaries
  sorted : acc.Pairwise (·.position < ·.position)
  upTo : ∀ row ∈ acc, ∃ last, cursor = some last ∧ row.position ≤ last
  covers : ∀ row ∈ s.seen i, row ∈ acc ∨ cursor.all (· < row.position)

/-- What a listing holds when it is complete. -/
structure Listed (s : SummaryStore ι) (i : ι) (existing : List SummaryArtifact) : Prop where
  began : s.began i ≤ s.summaries.length
  stored : ∀ row ∈ existing, row ∈ s.summaries
  nodup : existing.Nodup
  covers : ∀ row ∈ s.seen i, row ∈ existing

/-- The summaries of other calls may be added, and the listing of this one is not begun again. -/
def Grows (i : ι) (s t : SummaryStore ι) : Prop := s.summaries <+: t.summaries ∧ t.began i = s.began i

theorem Grows.seen_eq (h : Grows i s t) (hbegan : s.began i ≤ s.summaries.length) :
    t.seen i = s.seen i := by
  obtain ⟨⟨rest, hrest⟩, hsame⟩ := h
  rw [seen, seen, hsame, ← hrest, List.take_append_of_le_length hbegan]

variable {cursor : Option (ℕ ×ₗ ℕ)} {acc : List SummaryArtifact}

theorem Listing.later (h : Listing s i cursor acc)
    (hgrows : Grows i s t) : Listing t i cursor acc where
  began := by
    rw [hgrows.2]
    exact h.began.trans hgrows.1.length_le
  stored row hrow := hgrows.1.subset (h.stored row hrow)
  sorted := h.sorted
  upTo := h.upTo
  covers := by
    rw [hgrows.seen_eq h.began]
    exact h.covers

theorem Listed.later {existing : List SummaryArtifact} (h : Listed s i existing)
    (hgrows : Grows i s t) : Listed t i existing where
  began := by
    rw [hgrows.2]
    exact h.began.trans hgrows.1.length_le
  stored row hrow := hgrows.1.subset (h.stored row hrow)
  nodup := h.nodup
  covers := by
    rw [hgrows.seen_eq h.began]
    exact h.covers

theorem Listed.sort {existing : List SummaryArtifact} (h : Listed s i existing)
    (le : SummaryArtifact → SummaryArtifact → Bool) : Listed s i (existing.mergeSort le) where
  began := h.began
  stored row hrow := h.stored row ((List.mergeSort_perm _ _).mem_iff.1 hrow)
  nodup := (List.mergeSort_perm _ _).nodup_iff.2 h.nodup
  covers row hrow := (List.mergeSort_perm _ _).mem_iff.2 (h.covers row hrow)

theorem Listing.length_le (h : Listing s i cursor acc) : acc.length ≤ s.summaries.length :=
  (List.subperm_of_subset (h.sorted.imp fun hlt heq => hlt.ne (congrArg _ heq)) h.stored).length_le

variable [DecidableEq ι]

@[simp] theorem queried_summaries (cursor : Option (ℕ ×ₗ ℕ)) :
    (s.queried i cursor).summaries = s.summaries := by
  unfold queried
  split
  · rfl
  · rfl

/-- The rows a page has to show are those the listing had to show, where it is not the first. -/
theorem Listing.queried_covers (h : Listing s i cursor acc) :
    (s.queried i cursor).began i ≤ s.summaries.length ∧
      ∀ row ∈ (s.queried i cursor).seen i, row ∈ s.summaries ∧
        (row ∈ acc ∨ cursor.all (· < row.position)) := by
  cases cursor with
  | none =>
    refine ⟨?_, fun row hrow => ⟨List.mem_of_mem_take hrow, .inr rfl⟩⟩
    simp [queried, beginListing]
  | some last => exact ⟨h.began, fun row hrow => ⟨List.mem_of_mem_take hrow, h.covers row hrow⟩⟩

section page

variable {cursor : Option (ℕ ×ₗ ℕ)} {acc : List SummaryArtifact}

omit [DecidableEq ι] in
theorem Listing.page_stored (h : Listing s i cursor acc) :
    ∀ row ∈ acc ++ s.nextPage cursor, row ∈ s.summaries := by
  intro row hrow
  rcases List.mem_append.1 hrow with hrow | hrow
  · exact h.stored row hrow
  · exact mem_indexed.1 (mem_pageAfter hrow).1

omit [DecidableEq ι] in
theorem Listing.page_sorted (h : Listing s i cursor acc)
    (hids : s.summaries.Pairwise fun a b => a.summaryId ≠ b.summaryId) :
    (acc ++ s.nextPage cursor).Pairwise (·.position < ·.position) := by
  refine List.pairwise_append.2 ⟨h.sorted, pageAfter_sorted (indexed_sorted hids) cursor, ?_⟩
  intro a ha b hb
  obtain ⟨last, hlast, hle⟩ := h.upTo a ha
  have hafter := (mem_pageAfter hb).2
  rw [hlast] at hafter
  exact hle.trans_lt (of_decide_eq_true hafter)

/-- A page that is not full completes the listing. -/
theorem Listing.finish (h : Listing s i cursor acc)
    (hids : s.summaries.Pairwise fun a b => a.summaryId ≠ b.summaryId)
    (hshort : (s.nextPage cursor).length < pageMaxLimit) :
    Listed (s.queried i cursor) i (acc ++ s.nextPage cursor) where
  began := by
    rw [queried_summaries]
    exact h.queried_covers.1
  stored row hrow := by
    rw [queried_summaries]
    exact h.page_stored row hrow
  nodup := (h.page_sorted hids).imp fun hlt heq => hlt.ne (congrArg _ heq)
  covers row hrow := by
    obtain ⟨hmem, hacc | hafter⟩ := h.queried_covers.2 row hrow
    · exact List.mem_append_left _ hacc
    · rcases mem_pageAfter_or (indexed_sorted hids) (mem_indexed.2 hmem) hafter with hpage | hfull
      · exact List.mem_append_right _ hpage
      · exact absurd hfull.1 (not_le.2 hshort)

/-- After a full page the listing goes on from its last row. -/
theorem Listing.continue (h : Listing s i cursor acc)
    (hids : s.summaries.Pairwise fun a b => a.summaryId ≠ b.summaryId)
    {last : SummaryArtifact} (hlast : (s.nextPage cursor).getLast? = some last) :
    Listing (s.queried i cursor) i (some last.position) (acc ++ s.nextPage cursor) := by
  obtain ⟨init, hinit⟩ := List.getLast?_eq_some_iff.1 hlast
  have hmemLast : last ∈ s.nextPage cursor := by
    rw [hinit]
    simp
  have hend : ∀ row ∈ s.nextPage cursor, row.position ≤ last.position := by
    intro row hrow
    have hsorted : (s.nextPage cursor).Pairwise (·.position < ·.position) :=
      pageAfter_sorted (indexed_sorted hids) cursor
    rw [hinit] at hrow hsorted
    rcases List.mem_append.1 hrow with hrow | hrow
    · exact ((List.pairwise_append.1 hsorted).2.2 row hrow last (by simp)).le
    · rw [List.mem_singleton.1 hrow]
  constructor
  · rw [queried_summaries]
    exact h.queried_covers.1
  · rw [queried_summaries]
    exact h.page_stored
  · exact h.page_sorted hids
  · intro row hrow
    refine ⟨last.position, rfl, ?_⟩
    rcases List.mem_append.1 hrow with hrow | hrow
    · obtain ⟨prior, hprior, hle⟩ := h.upTo row hrow
      have hafter := (mem_pageAfter hmemLast).2
      rw [hprior] at hafter
      exact hle.trans (of_decide_eq_true hafter).le
    · exact hend row hrow
  · intro row hrow
    obtain ⟨hmem, hacc | hafter⟩ := h.queried_covers.2 row hrow
    · exact .inl (List.mem_append_left _ hacc)
    · rcases mem_pageAfter_or (indexed_sorted hids) (mem_indexed.2 hmem) hafter with hpage | hfull
      · exact .inl (List.mem_append_right _ hpage)
      · exact .inr (decide_eq_true (hfull.2 last hmemLast))

end page

/-! ### The calls together -/

omit [DecidableEq ι] in
/-- The rows are kept as they should be, and are only added to. -/
def protocol (ι : Type) (threadId : ThreadId) : Protocol (SummaryStore ι) where
  Inv s := Kept threadId s.summaries ∧ ∀ i, s.began i ≤ s.summaries.length
  Later s t := s.summaries <+: t.summaries
  refl _ := List.prefix_rfl
  trans hst htu := hst.trans htu

/-- A call begins only its own listing. -/
def role (threadId : ThreadId) (i : ι) : (protocol ι threadId).Role where
  Rely := Grows i
  Own s t := s.summaries <+: t.summaries ∧ ∀ j, j ≠ i → t.began j = s.began j
  refl _ := ⟨List.prefix_rfl, rfl⟩
  trans hst htu := ⟨hst.1.trans htu.1, htu.2.trans hst.2⟩
  rely_later h := h.1
  own_later h := h.1

omit [DecidableEq ι] in
theorem keeps_refl (hinv : (protocol ι threadId).Inv t) :
    (protocol ι threadId).Inv t ∧ (role threadId i).Own t t :=
  ⟨hinv, List.prefix_rfl, fun _ _ => rfl⟩

theorem keeps_queried (hinv : (protocol ι threadId).Inv t) (cursor : Option (ℕ ×ₗ ℕ)) :
    (protocol ι threadId).Inv (t.queried i cursor) ∧ (role threadId i).Own t (t.queried i cursor) := by
  unfold queried
  split
  next =>
    refine ⟨⟨hinv.1, fun j => ?_⟩, List.prefix_rfl, fun j hj => Function.update_of_ne hj _ _⟩
    by_cases hj : j = i
    · subst hj
      simp [beginListing]
    · simpa [beginListing, hj] using hinv.2 j
  next => exact keeps_refl hinv

section call

variable {steady : ι → Prop} {request : CreateSummaryArtifactRequest} {fuel : ℕ}
  {recordPath : SummaryArtifactId → String}

/-- What a listing of a call ends with: `total` pages were not enough, or the storage failed, or the
listing is complete. -/
def ListingEnds (steady : ι → Prop) (i : ι) (total : ℕ) :
    SummaryOutcome (List SummaryArtifact) → SummaryStore ι → Prop
  | none, t => total ≤ t.summaries.length
  | some (.error _), _ => ¬ steady i
  | some (.ok existing), t => Listed t i existing

theorem listPages_meets (used : ℕ) : ∀ {fuel : ℕ} {cursor : Option (ℕ ×ₗ ℕ)}
    {acc : List SummaryArtifact} {s : SummaryStore ι}, Listing s i cursor acc → used ≤ acc.length →
    Meets (fun s r => ServedSteadily steady s (i, r)) (role threadId i)
      (listPages threadId fuel cursor acc) s (ListingEnds steady i (used + fuel))
  | 0, cursor, acc, s, hlisting, hused => by
    refine Meets.pure fun t hgrows _ => ?_
    exact hused.trans (hlisting.later hgrows).length_le
  | fuel + 1, cursor, acc, s, hlisting, hused => by
    refine Meets.bind (Meets.request fun t hgrows hinv answer t' hserved => ?_)
    obtain ⟨⟨hserved, -⟩, hanswered⟩ := hserved
    have hlisting := hlisting.later hgrows
    cases hserved with
    | queryFails e =>
      obtain ⟨hinv', hown⟩ := keeps_refl (i := i) hinv
      refine ⟨hinv', hown, fun u _ _ => Meets.pure fun v _ _ hsteady => ?_⟩
      obtain ⟨entries, hentries⟩ := hanswered hsteady
      cases hentries
    | query =>
      have hids := hinv.1.ids
      obtain ⟨hinv', hown⟩ := keeps_queried (i := i) hinv cursor
      refine ⟨hinv', hown, fun u hgrowsU _ => ?_⟩
      -- every stored row is of this thread
      have hthread : (t.nextPage cursor).filter (·.threadId = threadId) = t.nextPage cursor := by
        refine List.filter_eq_self.2 fun row hrow => decide_eq_true ?_
        exact hinv.1.thread row (mem_indexed.1 (mem_pageAfter hrow).1)
      dsimp only
      rw [hthread]
      split
      next hshort =>
        refine Meets.pure fun v hgrowsV _ => ?_
        exact (((hlisting.finish hids hshort).later hgrowsU).later hgrowsV).sort _
      next hfull =>
        cases hlast : (t.nextPage cursor).getLast? with
        | none =>
          rw [List.getLast?_eq_none_iff.1 hlast] at hfull
          exact absurd (by decide) hfull
        | some last =>
          have hmore : used + 1 ≤ (acc ++ t.nextPage cursor).length := by
            have hlimit : 1 ≤ pageMaxLimit := by decide
            rw [List.length_append]
            omega
          rw [← Nat.add_assoc, Nat.add_right_comm]
          exact listPages_meets (used + 1) ((hlisting.continue hids hlast).later hgrowsU) hmore

/-- What a call ends with: a retry of a summary that was stored when the listing began is given
nothing else, and unless the storage fails or something else is in the way it is given that. -/
structure CallEnds (steady : ι → Prop) (fuel : ℕ) (request : CreateSummaryArtifactRequest) (i : ι)
    (result : SummaryOutcome SummaryArtifact) (t : SummaryStore ι) : Prop where
  fuelled : result = none → fuel ≤ t.summaries.length
  same : ∀ summary ∈ t.seen i, summary.RetriedBy request → request.modelContextPolicy ≠ none →
    ∀ artifact, result = some (.ok artifact) → artifact = summary
  answered : ∀ summary ∈ t.seen i, summary.RetriedBy request → request.modelContextPolicy ≠ none →
    steady i → summary.IsBarrier ∨ summary.AloneIn t.summaries → t.summaries.length < fuel →
    result = some (.ok summary)

omit [DecidableEq ι] in
theorem CallEnds.failed (hsteady : ¬ steady i) (e : SessionThreadError) :
    CallEnds steady fuel request i (some (.error e)) t where
  fuelled h := absurd h (Option.some_ne_none _)
  same _ _ _ _ artifact h := by cases h
  answered _ _ _ _ h := absurd h hsteady

omit [DecidableEq ι] in
theorem CallEnds.fresh (hfresh : ∀ summary ∈ t.seen i, summary.RetriedBy request →
    request.modelContextPolicy = none) (result : Except SessionThreadError SummaryArtifact) :
    CallEnds steady fuel request i (some result) t where
  fuelled h := absurd h (Option.some_ne_none _)
  same summary hseen hretry hpolicy := absurd (hfresh summary hseen hretry) hpolicy
  answered summary hseen hretry hpolicy := absurd (hfresh summary hseen hretry) hpolicy

variable {existing : List SummaryArtifact}

omit [DecidableEq ι] in
/-- A request that passed the test against a complete listing repeats nothing in it. -/
theorem Listed.fresh (hlisted : Listed t i existing) (hinv : (protocol ι threadId).Inv t)
    (hpass : findOverlappingSummary existing request request.content.text = .ok none) :
    ∀ summary ∈ t.seen i, summary.RetriedBy request → request.modelContextPolicy = none := by
  intro summary hseen hretry
  by_contra hpolicy
  have hrange := (hinv.1.ranges summary (List.mem_of_mem_take hseen)).2
  exact findOverlappingSummary_retry_ne (hlisted.covers summary hseen) hretry hpolicy hrange hpass

/-- What a call has to meet so that the summaries stay apart. -/
structure Checked (threadId : ThreadId) (request : CreateSummaryArtifactRequest) : Prop where
  thread : request.threadId = threadId
  policy : request.contextMode = some .cumulativeBarrier → request.modelContextPolicy ≠ none

/-- A put that takes effect finds what the call has listed. -/
theorem keeps_put {summaryId : SummaryArtifactId}
    {answer : Except PutError Unit} {t' : SummaryStore ι} (hchecked : Checked threadId request)
    (hrange : request.startSequence ≠ 0 ∧ request.startSequence ≤ request.endSequence)
    (hlisted : Listed t i existing)
    (hpass : findOverlappingSummary existing request request.content.text = .ok none)
    (hinv : (protocol ι threadId).Inv t)
    (hserved : ServedQuietly t (i, .putAbsent (request.artifact summaryId)) answer t') :
    (protocol ι threadId).Inv t' ∧ (role threadId i).Own t t' ∧ Grows i t t' := by
  obtain ⟨hserved, hquiet⟩ := hserved
  cases hserved with
  | putFails e => exact ⟨hinv, ⟨List.prefix_rfl, fun _ _ => rfl⟩, List.prefix_rfl, rfl⟩
  | put habsent hanswer =>
    have hinit : t.summaries <+: (t.store (request.artifact summaryId)).summaries :=
      List.prefix_append _ _
    have hunchanged : t.summaries.length = t.began i := by
      refine hquiet fun hsame => ?_
      have hlength := congrArg List.length hsame
      simp [store] at hlength
    have hall : ∀ row ∈ t.summaries, row ∈ existing := by
      intro row hrow
      refine hlisted.covers row ?_
      rw [seen, ← hunchanged, List.take_length]
      exact hrow
    refine ⟨⟨?_, fun j => (hinv.2 j).trans hinit.length_le⟩, ⟨hinit, fun _ _ => rfl⟩, hinit, rfl⟩
    exact hinv.1.store hchecked.thread hrange hchecked.policy hall hpass habsent

theorem putSummary_meets (hchecked : Checked threadId request)
    (hrange : request.startSequence ≠ 0 ∧ request.startSequence ≤ request.endSequence)
    (hlisted : Listed s i existing)
    (hpass : findOverlappingSummary existing request request.content.text = .ok none) :
    Meets (fun s r => ServedSteadily steady s (i, r)) (role threadId i) (putSummary recordPath request)
      s (CallEnds steady fuel request i) := by
  -- nothing that happens later adds to what the call has seen
  have hends : ∀ {t u : SummaryStore ι} (result : Except SessionThreadError SummaryArtifact),
      Listed t i existing → Grows i t u → (protocol ι threadId).Inv u →
      CallEnds steady fuel request i (some result) u :=
    fun result hlisted hgrows hinv => .fresh ((hlisted.later hgrows).fresh hinv hpass) result
  refine Meets.bind (Meets.request fun t hgrows hinv summaryId t' hserved => ?_)
  obtain ⟨⟨hserved, -⟩, -⟩ := hserved
  cases hserved with
  | newId summaryId =>
    obtain ⟨hinv', hown⟩ := keeps_refl (i := i) hinv
    refine ⟨hinv', hown, fun u hgrowsU _ => ?_⟩
    have hlisted := (hlisted.later hgrows).later hgrowsU
    split
    next => exact Meets.pure fun v hgrowsV hinv => hends _ hlisted hgrowsV hinv
    next =>
      refine Meets.bind (Meets.request fun v hgrowsV hinv answer v' hserved => ?_)
      have hlisted := hlisted.later hgrowsV
      obtain ⟨hinv', hown, hgrows'⟩ := keeps_put hchecked hrange hlisted hpass hinv hserved.1
      refine ⟨hinv', hown, fun w hgrowsW hinvW => ?_⟩
      have hlisted := (hlisted.later hgrows').later hgrowsW
      match answer with
      | .ok () => exact Meets.pure fun x hgrowsX hinv => hends _ hlisted hgrowsX hinv
      | .error .versionMismatch => exact Meets.pure fun x hgrowsX hinv => hends _ hlisted hgrowsX hinv
      | .error (.other e) => exact Meets.pure fun x hgrowsX hinv => hends _ hlisted hgrowsX hinv

omit [DecidableEq ι] in
/-- A call that is refused by the test: a retry is not, where nothing is in its way. -/
theorem Listed.refused {e : SessionThreadError}
    (hlisted : Listed t i existing) (hinv : (protocol ι threadId).Inv t)
    (hrefused : findOverlappingSummary existing request request.content.text = .error e) :
    CallEnds steady fuel request i (some (.error e)) t where
  fuelled h := absurd h (Option.some_ne_none _)
  same _ _ _ _ artifact h := by cases h
  answered summary hseen hretry hpolicy _ halone _ := by
    exfalso
    have hstored := List.mem_of_mem_take hseen
    have hrange := (hinv.1.ranges summary hstored).2
    have hway : (summary.IsBarrier ∧ summary.startSequence = 1) ∨
        (¬ summary.IsBarrier ∧ summary.AloneIn existing) := by
      by_cases hbarrier : summary.IsBarrier
      · exact .inl ⟨hbarrier, hinv.1.firsts summary hstored hbarrier.1⟩
      · have halone := halone.resolve_left hbarrier
        exact .inr ⟨hbarrier, fun row hrow => halone row (hlisted.stored row hrow)⟩
    obtain ⟨found, hfound⟩ := findOverlappingSummary_retry_answered hlisted.nodup
      (hlisted.covers summary hseen) hretry hpolicy hrange hway
    rw [hrefused] at hfound
    cases hfound

omit [DecidableEq ι] in
theorem Listed.replayed {found : SummaryArtifact}
    (hlisted : Listed t i existing) (hinv : (protocol ι threadId).Inv t)
    (hfound : findOverlappingSummary existing request request.content.text = .ok (some found)) :
    CallEnds steady fuel request i (some (.ok found)) t := by
  have hsame : ∀ summary ∈ t.seen i, summary.RetriedBy request →
      request.modelContextPolicy ≠ none → found = summary := by
    intro summary hseen hretry hpolicy
    have hrange := (hinv.1.ranges summary (List.mem_of_mem_take hseen)).2
    exact findOverlappingSummary_retry_found hinv.1.barriers hlisted.stored
      (hlisted.covers summary hseen) hretry hpolicy hrange hfound
  constructor
  · exact fun h => absurd h (Option.some_ne_none _)
  · intro summary hseen hretry hpolicy artifact hartifact
    cases hartifact
    exact hsame summary hseen hretry hpolicy
  · intro summary hseen hretry hpolicy _ _ _
    rw [hsame summary hseen hretry hpolicy]

theorem testAndPutSummary_meets (hchecked : Checked threadId request)
    (hrange : request.startSequence ≠ 0 ∧ request.startSequence ≤ request.endSequence) :
    Meets (fun s r => ServedSteadily steady s (i, r)) (role threadId i)
      (testAndPutSummary recordPath fuel request) s (CallEnds steady fuel request i) := by
  have hlist : Meets (fun s r => ServedSteadily steady s (i, r)) (role threadId i)
      (listThreadSummaries fuel request.threadId) s (ListingEnds steady i fuel) := by
    refine Meets.bind (Meets.request fun t hgrows hinv answer t' hserved => ?_)
    obtain ⟨⟨hserved, -⟩, hanswered⟩ := hserved
    cases hserved with
    | ensureIndexes answer =>
      obtain ⟨hinv', hown⟩ := keeps_refl (i := i) hinv
      refine ⟨hinv', hown, fun u hgrowsU hinvU => ?_⟩
      match answer with
      | .error e =>
        refine Meets.pure fun v _ _ hsteady => ?_
        cases (hanswered hsteady : Except.error e = Except.ok ())
      | .ok () =>
        have hstart : Listing u i none [] :=
          { began := hinvU.2 i
            stored := fun _ h => absurd h List.not_mem_nil
            sorted := List.Pairwise.nil
            upTo := fun _ h => absurd h List.not_mem_nil
            covers := fun _ _ => .inr rfl }
        rw [hchecked.thread]
        have hpages : Meets (fun s r => ServedSteadily steady s (i, r)) (role threadId i)
            (listPages threadId fuel none []) u (ListingEnds steady i (0 + fuel)) :=
          listPages_meets 0 hstart le_rfl
        rw [Nat.zero_add] at hpages
        exact hpages
  refine Meets.seq hlist fun outcome t _ hinv houtcome => ?_
  match outcome with
  | none =>
    refine Meets.pure fun u hgrows _ => ?_
    have hlong := le_trans houtcome hgrows.1.length_le
    refine ⟨fun _ => hlong, fun _ _ _ _ _ h => ?_, fun _ _ _ _ _ _ hlt => absurd hlong (not_le.2 hlt)⟩
    cases h
  | some (.error e) => exact Meets.pure fun u _ _ => .failed houtcome e
  | some (.ok existing) =>
    show Meets _ _ (putUnlessOverlapping recordPath request existing) t _
    unfold putUnlessOverlapping
    cases htest : findOverlappingSummary existing request request.content.text with
    | error e =>
      exact Meets.pure fun u hgrows hinv => (Listed.later houtcome hgrows).refused hinv htest
    | ok found =>
      cases found with
      | none => exact putSummary_meets hchecked hrange houtcome htest
      | some found =>
        exact Meets.pure fun u hgrows hinv => (Listed.later houtcome hgrows).replayed hinv htest

theorem createSummaryArtifact_meets (hchecked : Checked threadId request) :
    Meets (fun s r => ServedSteadily steady s (i, r)) (role threadId i)
      (createSummaryArtifact recordPath fuel request) s (CallEnds steady fuel request i) := by
  unfold createSummaryArtifact
  dsimp only
  split
  next hinvalid =>
    -- no stored summary has such a range
    refine Meets.pure fun t _ hinv => .fresh (fun summary hseen hretry => ?_) _
    obtain ⟨-, hstart, hend, -⟩ := isExact_iff.1 hretry.1
    have hvalid := hinv.1.ranges summary (List.mem_of_mem_take hseen)
    rw [hstart, hend] at hvalid
    omega
  next hvalid =>
    have hrange : request.startSequence ≠ 0 ∧ request.startSequence ≤ request.endSequence := by omega
    refine Meets.bind (Meets.request fun t hgrows hinv answer t' hserved => ?_)
    obtain ⟨⟨hserved, -⟩, hanswered⟩ := hserved
    cases hserved with
    | materialize answer =>
      obtain ⟨hinv', hown⟩ := keeps_refl (i := i) hinv
      refine ⟨hinv', hown, fun u _ _ => ?_⟩
      match answer with
      | .error e =>
        refine Meets.pure fun v _ _ => .failed (fun hsteady => ?_) e
        obtain ⟨messages, hmessages, -⟩ := hanswered hsteady
        cases hmessages
      | .ok messages =>
        dsimp only
        split
        next hmissing =>
          refine Meets.pure fun v _ _ => .failed (fun hsteady => ?_) _
          obtain ⟨found, hfound, ⟨first, hfirst, hfirstAt⟩, last, hlast, hlastAt⟩ := hanswered hsteady
          cases hfound
          rw [Nat.sub_add_cancel (Nat.pos_of_ne_zero hrange.1)] at hfirstAt
          rcases hmissing with hmissing | hmissing
          · exact of_decide_eq_true (List.all_eq_true.1 hmissing first hfirst) hfirstAt
          · exact of_decide_eq_true (List.all_eq_true.1 hmissing last hlast) hlastAt
        next => exact testAndPutSummary_meets hchecked hrange

end call

theorem sound_start {steady : ι → Prop} {recordPath : SummaryArtifactId → String} {fuel : ℕ}
    {calls : ι → CreateSummaryArtifactRequest} (hchecked : ∀ i, Checked threadId (calls i)) :
    Shared.Sound (ServedSteadily steady) (role threadId)
      (fun i => CallEnds steady fuel (calls i) i) (System.start recordPath fuel calls []) where
  apart hne hown := ⟨hown.1, hown.2 _ hne.symm⟩
  inv := ⟨Kept.nil threadId, fun _ => le_rfl⟩
  meets i := Meets.tag (createSummaryArtifact_meets (hchecked i))

/-- Along every run in which a summary is put only while the store is as the call has listed it, and
in which barriers are asked for with a policy: replacement summaries are disjoint, barriers end at
different messages, and a retry that names a policy is given the summary it repeats, and is given it
unless the storage fails or another replacement stands in the same range. -/
theorem summaries_stay_apart {steady : ι → Prop} {recordPath : SummaryArtifactId → String} {fuel : ℕ}
    {calls : ι → CreateSummaryArtifactRequest} {system : System ι}
    (hchecked : ∀ i, Checked threadId (calls i))
    (hreach : Shared.Reach (ServedSteadily steady) (System.start recordPath fuel calls []) system) :
    ReplacementsDisjoint system.state.summaries ∧ BarriersDiffer system.state.summaries ∧
      ∀ i result summary, system.task i = .done result → summary ∈ system.state.seen i →
        summary.RetriedBy (calls i) → (calls i).modelContextPolicy ≠ none →
        (∀ artifact, result = some (.ok artifact) → artifact = summary) ∧
        (steady i → summary.IsBarrier ∨ summary.AloneIn system.state.summaries →
          system.state.summaries.length < fuel → result = some (.ok summary)) := by
  have hsound := ((sound_start hchecked).reach hreach).1
  refine ⟨hsound.inv.1.disjoint, hsound.inv.1.barriers, ?_⟩
  intro i result summary hdone hseen hretry hpolicy
  have hends := hsound.result hdone
  exact ⟨hends.same summary hseen hretry hpolicy, hends.answered summary hseen hretry hpolicy⟩

/-! ### Two calls -/

section two

/-- A message at each of the ends of a range. -/
def endMessage (sequence : ℕ) : ThreadMessageRecord where
  messageId := ⟨BitVec.ofNat 128 sequence⟩
  threadId := ⟨"thread"⟩
  sequence := sequence
  kind := .user
  status := .accepted
  actorId := none
  sourceBindingId := none
  replyTargetBindingId := none
  turnId := none
  turnRunId := none
  toolResultRef := none
  toolResultProviderCall := none
  content := some "text"
  attachments := []
  redactionRef := none

/-- A store that does not fail; where `quiet`, it refuses a put after something else was put. -/
def serveTwo (quiet : Bool) (s : SummaryStore Bool) :
    (r : Bool × SummaryRequest) → r.2.Answer × SummaryStore Bool
  | (_, .materializeMessageRange after through) =>
    ((.ok [endMessage (after + 1), endMessage through] :
      Except SessionThreadError (List ThreadMessageRecord)), s)
  | (_, .ensureTranscriptIndexesMigrated) => ((.ok () : Except SessionThreadError Unit), s)
  | (i, .queryOrdered after) =>
    let page := match after, s.summaries with
      | none, [] => []
      | none, [row] => [row]
      | after, _ => s.nextPage after
    ((.ok page : Except SessionThreadError (List SummaryArtifact)), s.queried i after)
  | (i, .newSummaryId) => (SummaryArtifactId.mk (if i then 1 else 0), s)
  | (i, .putAbsent artifact) =>
    if s.summaries.all (·.summaryId ≠ artifact.summaryId) ∧
        (quiet = true → s.summaries.length = s.began i) then
      ((.ok () : Except PutError Unit), s.store artifact)
    else ((.error .versionMismatch : Except PutError Unit), s)

theorem serveTwo_served (quiet : Bool) (s : SummaryStore Bool) (r : Bool × SummaryRequest) :
    Served s r (serveTwo quiet s r).1 (serveTwo quiet s r).2 := by
  obtain ⟨i, r⟩ := r
  cases r with
  | materializeMessageRange after through => exact .materialize _
  | ensureTranscriptIndexesMigrated => exact .ensureIndexes _
  | queryOrdered after =>
    have hpage : (match after, s.summaries with
        | none, [] => []
        | none, [row] => [row]
        | after, _ => s.nextPage after) = s.nextPage after := by
      split
      next h => simp [nextPage, indexed, h, pageAfter]
      next row h => simp [nextPage, indexed, h, pageAfter, pageMaxLimit]
      next => rfl
    simp only [serveTwo, hpage]
    exact .query
  | newSummaryId => exact .newId _
  | putAbsent artifact =>
    simp only [serveTwo]
    split
    next h => exact .put (by simpa using h.1) (.inl rfl)
    next => exact .putFails _

theorem serveTwo_steadily (s : SummaryStore Bool) (r : Bool × SummaryRequest) :
    ServedSteadily (fun _ => True) s r (serveTwo true s r).1 (serveTwo true s r).2 := by
  refine ⟨⟨serveTwo_served true s r, fun hchanged => ?_⟩, fun _ => ?_⟩
  · obtain ⟨i, r⟩ := r
    cases r with
    | materializeMessageRange after through => exact absurd rfl hchanged
    | ensureTranscriptIndexesMigrated => exact absurd rfl hchanged
    | queryOrdered after => exact absurd (queried_summaries after) hchanged
    | newSummaryId => exact absurd rfl hchanged
    | putAbsent artifact =>
      simp only [serveTwo] at hchanged
      split at hchanged
      next h => exact h.2 trivial
      next => exact absurd rfl hchanged
  · obtain ⟨i, r⟩ := r
    cases r with
    | materializeMessageRange after through =>
      exact ⟨_, rfl, ⟨endMessage (after + 1), by simp, rfl⟩, endMessage through, by simp, rfl⟩
    | ensureTranscriptIndexesMigrated => exact rfl
    | queryOrdered after => exact ⟨_, rfl⟩
    | newSummaryId => trivial
    | putAbsent artifact => trivial

def rangeRequest (startSequence endSequence : ℕ) : CreateSummaryArtifactRequest where
  scope := ⟨⟨"tenant"⟩, ⟨"agent"⟩, none, none, none⟩
  threadId := ⟨"thread"⟩
  startSequence := startSequence
  endSequence := endSequence
  summaryKind := .compaction
  content := ⟨"summary", []⟩
  modelContextPolicy := some .replaceRangeWhenSelected
  contextMode := none

/-- One call asks for the messages 1 and 2, the other for 2 and 3. -/
def overlappingCalls (i : Bool) : CreateSummaryArtifactRequest :=
  if i then rangeRequest 2 3 else rangeRequest 1 2

def overlappingStart : System Bool := System.start (fun _ => "path") 3 overlappingCalls []

theorem lists_empty (quiet i : Bool) (began : Bool → ℕ) {request : CreateSummaryArtifactRequest}
    (h : request = rangeRequest 1 2 ∨ request = rangeRequest 2 3) :
    ((createSummaryArtifact (fun _ => "path") 3 request).tag i).runFor (serveTwo quiet) 3 ⟨[], began⟩ =
      ((putSummary (fun _ => "path") request).tag i, beginListing ⟨[], began⟩ i) := by
  have hlisted : ((createSummaryArtifact (fun _ => "path") 3 request).tag i).runFor (serveTwo quiet) 3
      ⟨[], began⟩ = ((putUnlessOverlapping (fun _ => "path") request
        (List.mergeSort [] SummaryArtifact.listedBefore)).tag i, beginListing ⟨[], began⟩ i) := by
    rcases h with rfl | rfl
    · rfl
    · rfl
  rw [hlisted, List.mergeSort_nil]
  rcases h with rfl | rfl
  · rfl
  · rfl

theorem overlapping_lists (i : Bool) (began : Bool → ℕ) :
    ((createSummaryArtifact (fun _ => "path") 3 (overlappingCalls i)).tag i).runFor (serveTwo false) 3
        ⟨[], began⟩ =
      ((putSummary (fun _ => "path") (overlappingCalls i)).tag i, beginListing ⟨[], began⟩ i) := by
  cases i
  · exact lists_empty false false began (.inl rfl)
  · exact lists_empty false true began (.inr rfl)

/-- Two callers list an empty thread, and then both of them put. -/
theorem concurrent_summaries_overlap : ∃ system : System Bool,
    Shared.Reach Served overlappingStart system ∧
      (∀ i, system.task i = .done (some (.ok ((overlappingCalls i).artifact ⟨if i then 1 else 0⟩)))) ∧
      ¬ ReplacementsDisjoint system.state.summaries := by
  have hserved := serveTwo_served false
  let first := overlappingStart.turn (serveTwo false) 3 false
  let second := first.turn (serveTwo false) 3 true
  let third := second.turn (serveTwo false) 2 false
  let last := third.turn (serveTwo false) 2 true
  have hfirst : first = ⟨beginListing ⟨[], fun _ => 0⟩ false, Function.update overlappingStart.task false
      ((putSummary (fun _ => "path") (overlappingCalls false)).tag false)⟩ := by
    simp only [first, Shared.turn, overlappingStart, System.start, overlapping_lists]
  have hsecond : second = ⟨beginListing (beginListing ⟨[], fun _ => 0⟩ false) true,
      fun i => (putSummary (fun _ => "path") (overlappingCalls i)).tag i⟩ := by
    have htask : Function.update overlappingStart.task false
          ((putSummary (fun _ => "path") (overlappingCalls false)).tag false) true =
        (createSummaryArtifact (fun _ => "path") 3 (overlappingCalls true)).tag true := rfl
    simp only [second, Shared.turn, hfirst, htask, beginListing, overlapping_lists]
    congr 1
    funext i
    cases i
    · rfl
    · rfl
  have hrows : last.state.summaries =
      [(overlappingCalls false).artifact ⟨0⟩, (overlappingCalls true).artifact ⟨1⟩] := by
    simp only [last, third, hsecond]
    rfl
  refine ⟨last, ?_, fun i => ?_, fun hdisjoint => ?_⟩
  · exact (Shared.reach_turn hserved false 3 _).trans ((Shared.reach_turn hserved true 3 _).trans
      ((Shared.reach_turn hserved false 2 _).trans (Shared.reach_turn hserved true 2 _)))
  · simp only [last, third, hsecond]
    cases i
    · rfl
    · rfl
  · rw [hrows] at hdisjoint
    have hpair := List.rel_of_pairwise_cons hdisjoint (List.mem_singleton_self _)
    exact hpair ⟨rfl, by decide⟩ ⟨rfl, by decide⟩ rfl

/-- Two calls with the same request. -/
def repeatedStart : System Bool := System.start (fun _ => "path") 3 (fun _ => rangeRequest 1 2) []

/-- The summary is stored by the first call, and given to the second. -/
theorem repeated_summary_is_found : ∃ system : System Bool,
    Shared.Reach (ServedSteadily fun _ => True) repeatedStart system ∧
      ReplacementsDisjoint system.state.summaries ∧
      system.task true = .done (some (.ok ((rangeRequest 1 2).artifact ⟨0⟩))) := by
  have hserved := serveTwo_steadily
  let first := repeatedStart.turn (serveTwo true) 3 false
  let second := first.turn (serveTwo true) 2 false
  let last := second.turn (serveTwo true) 3 true
  have hfirst : first = ⟨beginListing ⟨[], fun _ => 0⟩ false, Function.update repeatedStart.task false
      ((putSummary (fun _ => "path") (rangeRequest 1 2)).tag false)⟩ := by
    simp only [first, Shared.turn, repeatedStart, System.start, lists_empty true false _ (.inl rfl)]
  have hsecond : second.state = ⟨[(rangeRequest 1 2).artifact ⟨0⟩], Function.update (fun _ => 0) false 0⟩ ∧
      second.task true = (createSummaryArtifact (fun _ => "path") 3 (rangeRequest 1 2)).tag true := by
    simp only [second, hfirst]
    exact ⟨rfl, rfl⟩
  have hreach : Shared.Reach (ServedSteadily fun _ => True) repeatedStart last :=
    (Shared.reach_turn hserved false 3 _).trans ((Shared.reach_turn hserved false 2 _).trans
      (Shared.reach_turn hserved true 3 _))
  have hended : ∃ result, last.task true = .done result := by
    have hlisted : last.task true = (putUnlessOverlapping (fun _ => "path") (rangeRequest 1 2)
        (List.mergeSort [(rangeRequest 1 2).artifact ⟨0⟩] SummaryArtifact.listedBefore)).tag true := by
      simp only [last, Shared.turn, hsecond, Function.update_self]
      rfl
    rw [hlisted, List.mergeSort_singleton]
    exact ⟨_, rfl⟩
  have hrows : last.state.summaries = [(rangeRequest 1 2).artifact ⟨0⟩] ∧ last.state.began true = 1 := by
    simp only [last, Shared.turn, hsecond]
    exact ⟨rfl, rfl⟩
  obtain ⟨result, hdone⟩ := hended
  have hchecked : ∀ _ : Bool, Checked ⟨"thread"⟩ (rangeRequest 1 2) :=
    fun _ => ⟨rfl, fun h => absurd h (by decide)⟩
  obtain ⟨hdisjoint, -, hretry⟩ := summaries_stay_apart hchecked hreach
  have hseen : (rangeRequest 1 2).artifact ⟨0⟩ ∈ last.state.seen true := by
    rw [seen, hrows.1, hrows.2]
    exact List.mem_singleton_self _
  have halone : ((rangeRequest 1 2).artifact ⟨0⟩).AloneIn last.state.summaries := by
    rw [hrows.1]
    exact fun row hrow _ _ => List.mem_singleton.1 hrow
  have hshort : last.state.summaries.length < 3 := by
    rw [hrows.1]
    decide
  have hgiven := (hretry true result _ hdone hseen ⟨rfl, rfl⟩ (by decide)).2 trivial (.inr halone) hshort
  exact ⟨last, hreach, hdisjoint, hdone.trans (congrArg _ hgiven)⟩

end two

end SummaryStore

end Ironclaw.Threads
