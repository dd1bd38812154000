import Ironclaw.Lib.Saturating
import Mathlib.Algebra.Order.Group.Nat
import Mathlib.Algebra.Ring.Nat
import Mathlib.Data.List.Basic

/-! # Where a prompt is compacted

`ActiveTaskPreservingCompactionStrategy` of
`ironclaw_agent_loop/src/strategies/active_task_compaction.rs`, with the parts of `compaction.rs` it
calls. One pass from the newest entry of the prompt index to the oldest takes the first entry that
may be a cut and counts the messages at or before it; only then the count is tested.

`Eligible` says what the pass asks of an entry, from the entries behind it, and `LegalCut` adds the
count. The entries at or before a cut become fewer as the cut gets older, so a count that is too
small at the newest eligible entry is too small at each of them
(`cut_is_the_newest_legal_one`). -/

namespace Ironclaw.AgentLoop

abbrev U64 := Saturating 18446744073709551615

def u64 (n : ℕ) : U64 := ⟨min n 18446744073709551615, Nat.min_le_right _ _⟩

inductive IndexedMessageKind
  | user
  | assistant
  | toolResult
  | system
  | summary
  | other
deriving DecidableEq

structure MessageIndexEntry where
  sequence : U64
  kind : IndexedMessageKind
  estimatedTokens : U64

inductive CompactionInitiator
  | auto
  | windowEviction
  | capabilityResultOverflow
  | overflow
  | subagentScoped
deriving DecidableEq

structure DeferredCompactionWatermark where
  throughSeq : U64
  promptFingerprint : U64

/-- `LoopContextWindowTruncation`, by what the strategy reads: whether the omitted entry is of a
kind that may be a boundary, and its sequence. -/
structure WindowEviction where
  eligibleKind : Bool
  omittedThroughSequence : U64

/-- The parts of `LoopExecutionState` that the strategy reads; `fingerprint` is the fingerprint of
the prompt. -/
structure CompactionInput where
  messageIndex : List MessageIndexEntry
  observedPromptTokens : U64
  fingerprint : U64
  lastCompactedThroughSeq : Option U64
  lastDeferred : Option DeferredCompactionWatermark
  forceCompactOnNextIteration : Bool
  forceCompactInitiator : Option CompactionInitiator
  windowEviction : Option WindowEviction
  compactionCircuitOpen : Bool

inductive CompactionEffectivenessBaseline
  | preCompactionPromptTokens (tokens : U64)
  | triggerThresholdTokens (tokens : U64)

inductive CompactionDecision
  | skip
  | trigger (dropThroughSeq preserveTailTokens deadlineMs : U64)
      (effectivenessBaseline : CompactionEffectivenessBaseline)

/-- The default strategy with the two minima; `visibleTranscriptTokens` is that of its budget. -/
structure ActiveTaskStrategy where
  visibleTranscriptTokens : U64
  preserveTailTokens : U64
  deadlineMs : U64
  minimumCompactedMessages : U64
  minimumTailMessages : U64

section

variable (strategy : ActiveTaskStrategy) (state : CompactionInput)

def canEvaluate : Bool :=
  !state.messageIndex.isEmpty &&
    strategy.preserveTailTokens.val < strategy.visibleTranscriptTokens.val &&
    (state.forceCompactOnNextIteration ||
      (!state.compactionCircuitOpen &&
        strategy.visibleTranscriptTokens.val ≤ state.observedPromptTokens.val))

def triggerAt (sequence : U64) : CompactionDecision :=
  .trigger sequence strategy.preserveTailTokens strategy.deadlineMs <|
    if state.forceCompactOnNextIteration then
      .preCompactionPromptTokens state.observedPromptTokens
    else .triggerThresholdTokens strategy.visibleTranscriptTokens

/-- `Some(sequence) > last_compacted_through_seq`. -/
def afterLastCompacted (sequence : U64) : Bool :=
  state.lastCompactedThroughSeq.all fun last => last.val < sequence.val

def isEligibleUserBoundary (entry : MessageIndexEntry) : Bool :=
  entry.kind = .user && afterLastCompacted state entry.sequence &&
    !state.lastDeferred.any fun watermark =>
      watermark.throughSeq = entry.sequence && watermark.promptFingerprint = state.fingerprint

def eligibleWindowEvictionBoundary (beforeSequence : Option U64) : Option U64 := do
  let watermark ← state.windowEviction
  let before (sequence : U64) : Bool := beforeSequence.all fun bound => sequence.val < bound.val
  if !watermark.eligibleKind ||
      state.lastDeferred.any fun deferred => deferred.promptFingerprint = state.fingerprint then
    none
  else
    (state.messageIndex.reverse.find? fun entry =>
        (entry.kind = .user || entry.kind = .toolResult) && before entry.sequence &&
          afterLastCompacted state entry.sequence).map (·.sequence) <|>
      (some watermark.omittedThroughSequence).filter fun sequence =>
        afterLastCompacted state sequence && before sequence

def latestAdditionalUserSequence : Option U64 :=
  match state.messageIndex.reverse.filter (·.kind = .user) with
  | latest :: _ :: _ => some latest.sequence
  | _ => none

def isCompactionPrefixMessage (entry : MessageIndexEntry) : Bool :=
  entry.kind ≠ .system && entry.kind ≠ .summary

/-- The variables of the loop of `active_task_preserving_user_boundary`. -/
structure BoundaryScan where
  tailTokens : U64
  tailMessages : U64
  latestUserSeen : Bool
  candidateSequence : Option U64
  compactedPrefixMessages : U64

def BoundaryScan.start : BoundaryScan := ⟨.zero, .zero, false, none, .zero⟩

def BoundaryScan.step (entry : MessageIndexEntry) (scan : BoundaryScan) : BoundaryScan :=
  let isLatestUser := entry.kind = .user && !scan.latestUserSeen
  let candidate :=
    if scan.candidateSequence.isNone &&
        strategy.preserveTailTokens.val ≤ scan.tailTokens.val &&
        strategy.minimumTailMessages.val ≤ scan.tailMessages.val &&
        !isLatestUser && isEligibleUserBoundary state entry then some entry.sequence
    else scan.candidateSequence
  { tailTokens := scan.tailTokens.add entry.estimatedTokens
    tailMessages := scan.tailMessages.add (u64 1)
    latestUserSeen := scan.latestUserSeen || entry.kind = .user
    candidateSequence := candidate
    compactedPrefixMessages :=
      if candidate.isSome && isCompactionPrefixMessage entry then
        scan.compactedPrefixMessages.add (u64 1)
      else scan.compactedPrefixMessages }

def activeTaskPreservingUserBoundary : Option U64 :=
  let scan := state.messageIndex.reverse.foldl
    (fun scan entry => BoundaryScan.step strategy state entry scan) .start
  scan.candidateSequence.filter fun _ =>
    strategy.minimumCompactedMessages.val ≤ scan.compactedPrefixMessages.val

def shouldCompact : CompactionDecision :=
  if canEvaluate strategy state = false then .skip
  else if state.forceCompactInitiator = some .windowEviction then
    ((eligibleWindowEvictionBoundary state (latestAdditionalUserSequence state)).map
      (triggerAt strategy state)).getD .skip
  else
    ((activeTaskPreservingUserBoundary strategy state).map (triggerAt strategy state)).getD .skip

/-! ### Legal cuts -/

/-- What the pass asks of an entry, with the entries `later` behind it. -/
structure Eligible (entry : MessageIndexEntry) (later : List MessageIndexEntry) : Prop where
  boundary : isEligibleUserBoundary state entry = true
  not_latest : ∃ user ∈ later, user.kind = .user
  tokens : strategy.preserveTailTokens.val ≤ (later.map (·.estimatedTokens.val)).sum
  messages : strategy.minimumTailMessages.val ≤ later.length

/-- A cut the strategy may take: `entry`, with the entries `earlier` before it. -/
structure LegalCut (earlier : List MessageIndexEntry) (entry : MessageIndexEntry)
    (later : List MessageIndexEntry) : Prop extends Eligible strategy state entry later where
  splits : state.messageIndex = earlier ++ entry :: later
  compacted : strategy.minimumCompactedMessages.val ≤
    (earlier ++ [entry]).countP isCompactionPrefixMessage

/-- No entry of `part`, which ends the index, is eligible. -/
def NoneEligible (part : List MessageIndexEntry) : Prop :=
  ∀ earlier entry later, part = earlier ++ entry :: later → ¬ Eligible strategy state entry later

/-- What the variables say when `part`, which ends the index, has been passed. -/
structure Scanned (part : List MessageIndexEntry) (scan : BoundaryScan) : Prop where
  tokens : scan.tailTokens.val =
    min (part.map (·.estimatedTokens.val)).sum 18446744073709551615
  messages : scan.tailMessages.val = min part.length 18446744073709551615
  seen : scan.latestUserSeen = true ↔ ∃ user ∈ part, user.kind = .user
  candidate : (scan.candidateSequence = none ∧ scan.compactedPrefixMessages.val = 0 ∧
      NoneEligible strategy state part) ∨
    ∃ earlier entry later, part = earlier ++ entry :: later ∧ Eligible strategy state entry later ∧
      NoneEligible strategy state later ∧ scan.candidateSequence = some entry.sequence ∧
      scan.compactedPrefixMessages.val =
        min ((earlier ++ [entry]).countP isCompactionPrefixMessage) 18446744073709551615

variable {strategy state} {part : List MessageIndexEntry} {scan : BoundaryScan}
  {entry : MessageIndexEntry}

theorem NoneEligible.cons (h : NoneEligible strategy state part)
    (hentry : ¬ Eligible strategy state entry part) :
    NoneEligible strategy state (entry :: part) := by
  intro earlier other later heq
  cases earlier with
  | nil =>
    cases heq
    exact hentry
  | cons first earlier =>
    rw [List.cons_append, List.cons.injEq] at heq
    exact h earlier other later heq.2

/-- The test of the loop, by the entries behind the one it looks at. -/
theorem Scanned.test_iff (h : Scanned strategy state part scan) (entry : MessageIndexEntry) :
    (scan.candidateSequence.isNone && strategy.preserveTailTokens.val ≤ scan.tailTokens.val &&
        strategy.minimumTailMessages.val ≤ scan.tailMessages.val &&
        !(entry.kind = .user && !scan.latestUserSeen) && isEligibleUserBoundary state entry) = true ↔
      scan.candidateSequence = none ∧ Eligible strategy state entry part := by
  have htokens := strategy.preserveTailTokens.le_cap
  have hmessages := strategy.minimumTailMessages.le_cap
  have huser : isEligibleUserBoundary state entry = true → entry.kind = .user := by
    intro hboundary
    simp only [isEligibleUserBoundary, Bool.and_eq_true, decide_eq_true_eq] at hboundary
    exact hboundary.1.1
  rw [h.tokens, h.messages]
  simp only [Bool.and_eq_true, decide_eq_true_eq, le_min_iff, Option.isNone_iff_eq_none,
    Bool.not_eq_true', Bool.and_eq_false_iff, decide_eq_false_iff_not, Bool.not_eq_false']
  constructor
  · rintro ⟨⟨⟨⟨hnone, htail, -⟩, hcount, -⟩, hlatest⟩, hboundary⟩
    exact ⟨hnone, hboundary, h.seen.1 (hlatest.resolve_left (not_not_intro (huser hboundary))),
      htail, hcount⟩
  · rintro ⟨hnone, hboundary, hlatest, htail, hcount⟩
    exact ⟨⟨⟨⟨hnone, htail, htokens⟩, hcount, hmessages⟩, .inr (h.seen.2 hlatest)⟩, hboundary⟩

theorem scanned_start : Scanned strategy state [] .start where
  tokens := rfl
  messages := rfl
  seen := by simp [BoundaryScan.start]
  candidate := .inl ⟨rfl, rfl, by simp [NoneEligible]⟩

theorem Scanned.step (h : Scanned strategy state part scan) :
    Scanned strategy state (entry :: part) (scan.step strategy state entry) where
  tokens := by
    rw [BoundaryScan.step, Saturating.val_add, h.tokens, List.map_cons, List.sum_cons]
    omega
  messages := by
    rw [BoundaryScan.step, Saturating.val_add, h.messages, List.length_cons]
    simp only [u64]
    omega
  seen := by
    simp only [BoundaryScan.step, Bool.or_eq_true, decide_eq_true_eq, h.seen]
    simp [or_comm]
  candidate := by
    have htest := h.test_iff entry
    simp only [BoundaryScan.step]
    rcases h.candidate with ⟨hnone, hzero, hpart⟩ |
      ⟨earlier, cut, later, heq, hcut, hlater, hsome, hcount⟩
    · by_cases hentry : Eligible strategy state entry part
      -- the first eligible entry; it is a user message, so it is counted
      · have huser : isCompactionPrefixMessage entry = true := by
          have hboundary := hentry.boundary
          simp only [isEligibleUserBoundary, Bool.and_eq_true, decide_eq_true_eq] at hboundary
          simp [isCompactionPrefixMessage, hboundary.1.1]
        rw [if_pos (htest.2 ⟨hnone, hentry⟩)]
        refine .inr ⟨[], entry, part, rfl, hentry, hpart, rfl, ?_⟩
        simp [huser, hzero, u64]
      · rw [if_neg fun h => hentry (htest.1 h).2, hnone]
        exact .inl ⟨rfl, by simpa using hzero, hpart.cons hentry⟩
    · rw [if_neg fun h => absurd ((htest.1 h).1.symm.trans hsome) nofun]
      refine .inr ⟨entry :: earlier, cut, later, by rw [heq]; rfl, hcut, hlater, hsome, ?_⟩
      rw [List.cons_append, List.countP_cons, hsome]
      by_cases hcounted : isCompactionPrefixMessage entry = true
      · simp only [Option.isSome_some, hcounted, Bool.and_self, if_true, Saturating.val_add, hcount, u64]
        omega
      · simp [hcounted, hcount]

theorem scanned_index (part : List MessageIndexEntry) :
    Scanned strategy state part
      (part.reverse.foldl (fun scan entry => BoundaryScan.step strategy state entry scan) .start) := by
  rw [List.foldl_reverse]
  induction part with
  | nil => exact scanned_start
  | cons entry part ih => exact ih.step

/-- A legal cut lies at or before an entry behind which none is eligible. -/
theorem LegalCut.le_of_noneEligible {earlier earlier' later later' : List MessageIndexEntry}
    {entry' : MessageIndexEntry} (hsplit : state.messageIndex = earlier ++ entry :: later)
    (hlater : NoneEligible strategy state later)
    (h : LegalCut strategy state earlier' entry' later') :
    earlier' ++ [entry'] <+: earlier ++ [entry] := by
  have heq := hsplit.symm.trans h.splits
  rcases List.append_eq_append_iff.1 heq with ⟨between, rfl, hrest⟩ | ⟨between, rfl, hrest⟩
  · cases between with
    | nil =>
      cases hrest
      simp
    | cons first between =>
      rw [List.cons_append, List.cons.injEq] at hrest
      exact absurd h.toEligible (hlater between entry' later' hrest.2)
  · cases between with
    | nil =>
      cases hrest
      simp
    | cons first between =>
      cases hrest
      exact ⟨between ++ [entry], by simp⟩

/-- The boundary is the newest legal cut, and there is none where there is no legal cut. -/
theorem activeTaskPreservingUserBoundary_spec (strategy : ActiveTaskStrategy) (state : CompactionInput)
    (hsorted : state.messageIndex.Pairwise (·.sequence.val < ·.sequence.val)) :
    match activeTaskPreservingUserBoundary strategy state with
    | none => ∀ earlier entry later, ¬ LegalCut strategy state earlier entry later
    | some sequence => ∃ earlier entry later, LegalCut strategy state earlier entry later ∧
        entry.sequence = sequence ∧ ∀ earlier' entry' later',
          LegalCut strategy state earlier' entry' later' → entry'.sequence.val ≤ sequence.val := by
  have hscan := @scanned_index strategy state state.messageIndex
  have hminimum := strategy.minimumCompactedMessages.le_cap
  rw [activeTaskPreservingUserBoundary]
  rcases hscan.candidate with ⟨hnone, -, hall⟩ | ⟨earlier, cut, later, hsplit, hcut, hlater, hsome, hcount⟩
  · rw [hnone]
    exact fun earlier entry later hlegal => hall earlier entry later hlegal.splits hlegal.toEligible
  simp only [hsome, hcount, le_min_iff, hminimum, and_true, Option.filter_some]
  by_cases hfew : strategy.minimumCompactedMessages.val ≤
      (earlier ++ [cut]).countP isCompactionPrefixMessage
  · rw [if_pos (decide_eq_true hfew)]
    refine ⟨earlier, cut, later, ⟨hcut, hsplit, hfew⟩, rfl, fun earlier' entry' later' hlegal => ?_⟩
    have hmem : entry' ∈ earlier ++ [cut] := (hlegal.le_of_noneEligible hsplit hlater).subset (by simp)
    rcases List.mem_append.1 hmem with hmem | hmem
    · rw [hsplit, List.pairwise_append] at hsorted
      exact (hsorted.2.2 entry' hmem cut List.mem_cons_self).le
    · rw [List.mem_singleton.1 hmem]
  · rw [if_neg fun h => hfew (of_decide_eq_true h)]
    intro earlier' entry' later' hlegal
    -- an older cut leaves no more entries before it
    exact hfew (hlegal.compacted.trans (hlegal.le_of_noneEligible hsplit hlater).sublist.countP_le)

/-- A triggered cut is the newest legal one, and compaction is skipped only without a legal cut. -/
theorem cut_is_the_newest_legal_one (strategy : ActiveTaskStrategy) (state : CompactionInput)
    (hsorted : state.messageIndex.Pairwise (·.sequence.val < ·.sequence.val))
    (hevaluate : canEvaluate strategy state = true)
    (hinitiator : state.forceCompactInitiator ≠ some .windowEviction) :
    (∀ sequence tail deadline baseline,
      shouldCompact strategy state = .trigger sequence tail deadline baseline →
      ∃ earlier entry later, LegalCut strategy state earlier entry later ∧
        entry.sequence = sequence ∧ ∀ earlier' entry' later',
          LegalCut strategy state earlier' entry' later' → entry'.sequence.val ≤ sequence.val) ∧
    (shouldCompact strategy state = .skip →
      ∀ earlier entry later, ¬ LegalCut strategy state earlier entry later) := by
  have hspec := activeTaskPreservingUserBoundary_spec strategy state hsorted
  rw [shouldCompact, if_neg (by simp [hevaluate]), if_neg hinitiator]
  cases hboundary : activeTaskPreservingUserBoundary strategy state with
  | none =>
    rw [hboundary] at hspec
    refine ⟨fun _ _ _ _ h => ?_, fun _ => hspec⟩
    cases h
  | some sequence =>
    rw [hboundary] at hspec
    constructor
    · intro cut _ _ _ h
      cases h
      exact hspec
    · intro h
      cases h

end

def sampleStrategy : ActiveTaskStrategy := ⟨u64 10, u64 1, u64 0, u64 1, u64 1⟩

/-- Two messages of the user; the first may be compacted. -/
def sampleInput : CompactionInput where
  messageIndex := [⟨u64 1, .user, u64 5⟩, ⟨u64 2, .user, u64 5⟩]
  observedPromptTokens := u64 10
  fingerprint := u64 0
  lastCompactedThroughSeq := none
  lastDeferred := none
  forceCompactOnNextIteration := false
  forceCompactInitiator := none
  windowEviction := none
  compactionCircuitOpen := false

theorem first_of_two_is_cut :
    ∃ earlier entry later, LegalCut sampleStrategy sampleInput earlier entry later ∧
      entry.sequence = u64 1 ∧ ∀ earlier' entry' later',
        LegalCut sampleStrategy sampleInput earlier' entry' later' →
          entry'.sequence.val ≤ (u64 1).val :=
  (cut_is_the_newest_legal_one sampleStrategy sampleInput (by decide) rfl nofun).1 (u64 1) (u64 1)
    (u64 0) (.triggerThresholdTokens (u64 10)) rfl

end Ironclaw.AgentLoop
