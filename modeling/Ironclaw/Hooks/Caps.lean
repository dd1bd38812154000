import Ironclaw.Hooks.Buckets
import Ironclaw.Hooks.Evaluator
import Ironclaw.Lib.Run

/-! # Invocation caps

An invocation cap holds in every window: of the events that were first evaluated in an interval as
long as the window, no more than the limit were let through in it (`caps_hold`). A let-through event
stays in its bucket while its window lasts, so that the answer that lets the last of them through has
counted all of them (`Tracks`).

The window of a bucket reaches back from the clock as far as it is long only where the difference is
in the range of the time library (`Fits`); a longer window is as good as none (`oversized_window`). -/

namespace Ironclaw.Hooks

/-! ### Evaluations of a key -/

section Machine

variable {D : Type} [Zero D] [Add D] [Sub D] [LT D] [DecidableLT D]

/-- One evaluation over the in-memory backend; it never fails. -/
def evaluate (parseDecimal : String → Option D) (s : InMemoryPredicateStateBackend D)
    (e : Evaluation D) : Except Empty (EvaluatorDecision × InMemoryPredicateStateBackend D) :=
  .ok (e.evaluateAt (inMemoryBackend D) s parseDecimal)

/-- Runs of evaluations; between two of them the maps may be enumerated in another order. -/
abbrev EvaluationRun (parseDecimal : String → Option D) :=
  Run InMemoryPredicateStateBackend.Same (evaluate parseDecimal)

/-- What an evaluation answered. -/
structure Answer where
  now : Timestamp
  eventId : PredicateEventId
  decision : EvaluatorDecision

def answerOf (parseDecimal : String → Option D)
    (x : Step (InMemoryPredicateStateBackend D) (Evaluation D)) : Answer where
  now := x.command.now
  eventId := x.command.eventId
  decision := (x.command.evaluateAt (inMemoryBackend D) x.pre parseDecimal).1

/-- The answers to the evaluations of a key, oldest first. -/
def answers (parseDecimal : String → Option D) (key : InvocationKey)
    (history : List (Step (InMemoryPredicateStateBackend D) (Evaluation D))) : List Answer :=
  (history.filter fun x => x.command.invocationKey = key).map (answerOf parseDecimal)

end Machine

/-- An event was first evaluated from `start` to `finish`. -/
def FirstEvaluatedIn (answers : List Answer) (start finish : Timestamp)
    (eventId : PredicateEventId) : Prop :=
  ∃ x, answers.find? (fun x => x.eventId = eventId) = some x ∧ start ≤ x.now ∧ x.now ≤ finish

/-- An event was let through from `start` to `finish`. -/
def LetThroughIn (answers : List Answer) (start finish : Timestamp)
    (eventId : PredicateEventId) : Prop :=
  ∃ x ∈ answers, x.eventId = eventId ∧ x.decision = .allow ∧ start ≤ x.now ∧ x.now ≤ finish

instance (answers : List Answer) (start finish : Timestamp) (eventId : PredicateEventId) :
    Decidable (FirstEvaluatedIn answers start finish eventId) :=
  inferInstanceAs (Decidable (∃ x ∈ answers.find? fun x => x.eventId = eventId,
    start ≤ x.now ∧ x.now ≤ finish))

instance (answers : List Answer) (start finish : Timestamp) (eventId : PredicateEventId) :
    Decidable (LetThroughIn answers start finish eventId) :=
  inferInstanceAs (Decidable (∃ x ∈ answers, _))

/-- In every interval of the length of the window no more than `max` events are let through, of those
that were first evaluated in it. -/
def Capped (max : ℕ) (window : ℤ) (answers : List Answer) : Prop :=
  ∀ (start : Timestamp) (ids : Finset PredicateEventId),
    (∀ id ∈ ids, FirstEvaluatedIn answers start (start + window) id ∧
      LetThroughIn answers start (start + window) id) → ids.card ≤ max

/-- The window reaches back from the clock as far as it is long. -/
def Fits (now : Timestamp) (window : ℤ) : Prop := window ≤ maxDuration ∧ minUtc ≤ now - window

/-! ### One evaluation -/

section Evaluating

variable {D : Type} [LT D] [DecidableLT D]
  {e : Evaluation D} {key : InvocationKey}

/-- The decision on what a backend says of an invocation. -/
def decisionOn (max : ℕ) (onExceeded : OnExceededAction) :
    Except PredicateBackendError ℕ → EvaluatorDecision
  | .error _ => restrictiveAction onExceeded
  | .ok count => if max < count then restrictiveAction onExceeded else .allow

/-- An evaluation of an invocation cap is one recording. -/
theorem evaluateAt_invocationCount {σ : Type} (backend : PredicateStateBackend σ D) (s : σ)
    (parseDecimal : String → Option D)
    {condition : CapabilityPredicate} {max : ℕ} {window : String} {duration : ℤ}
    {onExceeded : OnExceededAction}
    (hspec : e.spec = .rateOrValueCap condition (.invocationCount max window) onExceeded)
    (hmatches : predicateMatches e.ctx.capabilityName condition = true)
    (hwindow : parseWindow window = some duration) :
    e.evaluateAt backend s parseDecimal =
      (decisionOn max onExceeded
          (backend.recordInvocation s e.invocationKey e.eventId e.now duration).1,
        (backend.recordInvocation s e.invocationKey e.eventId e.now duration).2) := by
  rw [Evaluation.evaluateAt, hspec]
  dsimp only
  rw [hmatches, if_neg nofun, Evaluation.evaluateInvocationCount, hwindow]
  dsimp only
  rcases backend.recordInvocation s e.invocationKey e.eventId e.now duration with ⟨_ | _, _⟩
  · rfl
  · rfl

/-- An evaluation leaves the buckets of other keys alone, or drops them. -/
theorem get_evaluateAt_of_ne [Zero D] [Add D] [Sub D] {s : InMemoryPredicateStateBackend D}
    (parseDecimal : String → Option D) (hne : e.invocationKey ≠ key) :
    (e.evaluateAt (inMemoryBackend D) s parseDecimal).2.invocationHistory.get key =
        s.invocationHistory.get key ∨
      (e.evaluateAt (inMemoryBackend D) s parseDecimal).2.invocationHistory.get key = none := by
  unfold Evaluation.evaluateAt
  split
  · exact .inl rfl
  · exact .inl rfl
  split
  · exact .inl rfl
  split
  · unfold Evaluation.evaluateInvocationCount
    split
    · exact .inl rfl
    · rename_i duration _
      have hrecord := s.get_recordInvocation_of_ne hne e.eventId e.now duration
      split
      · rename_i hresult
        exact (congrArg Prod.snd hresult) ▸ hrecord
      · rename_i hresult
        exact (congrArg Prod.snd hresult) ▸ hrecord
  · rename_i field window _
    unfold Evaluation.evaluateNumericSum
    split
    · rename_i maxValue duration value _ _ _ _
      have hrecord := s.shrinks_recordValue (e.valueKey field) e.eventId e.now value duration key
      split
      · rename_i hresult
        exact (congrArg Prod.snd hresult) ▸ hrecord
      · rename_i hresult
        exact (congrArg Prod.snd hresult) ▸ hrecord
    · exact .inl rfl

end Evaluating

instance (now : Timestamp) (window : ℤ) : Decidable (Fits now window) :=
  inferInstanceAs (Decidable (_ ∧ _))

theorem windowCutoff_of_fits {now : Timestamp} {window : ℤ} (h : Fits now window) :
    windowCutoff now window = now - window := by
  rw [windowCutoff, if_pos h.1, if_pos h.2]

/-! ### The answers so far -/

section Answers

variable {given : List Answer} {y : Answer} {start finish : Timestamp} {id : PredicateEventId}
  {max : ℕ} {window : ℤ}

/-- Where clocks do not go back, no answer about an event is older than the first one. -/
theorem le_of_first (hsorted : given.Pairwise fun a b => a.now ≤ b.now) {first x : Answer}
    (hfirst : given.find? (fun x => x.eventId = id) = some first) (hx : x ∈ given)
    (hid : x.eventId = id) : first.now ≤ x.now := by
  induction given with
  | nil => exact absurd hx List.not_mem_nil
  | cons a rest ih =>
    rw [List.pairwise_cons] at hsorted
    rw [List.find?_cons] at hfirst
    by_cases ha : a.eventId = id
    · simp only [ha, decide_true, Option.some.injEq] at hfirst
      subst hfirst
      rcases List.mem_cons.1 hx with rfl | hx
      · exact le_rfl
      · exact hsorted.1 x hx
    · simp only [ha, decide_false] at hfirst
      have hne : x ≠ a := by
        rintro rfl
        exact ha hid
      exact ih hsorted.2 hfirst ((List.mem_cons.1 hx).resolve_left hne)

theorem find?_isSome_of_mem {x : Answer} (hx : x ∈ given) (hid : x.eventId = id) :
    (given.find? fun x => x.eventId = id).isSome := by
  rw [List.find?_isSome]
  exact ⟨x, hx, by simpa using hid⟩

theorem find?_append_of_mem {x : Answer} (hx : x ∈ given) (hid : x.eventId = id) :
    (given ++ [y]).find? (fun x => x.eventId = id) = given.find? fun x => x.eventId = id := by
  rw [List.find?_append]
  exact Option.or_of_isSome (find?_isSome_of_mem hx hid)

theorem FirstEvaluatedIn.of_append (h : FirstEvaluatedIn (given ++ [y]) start finish id)
    (hlate : finish < y.now) : FirstEvaluatedIn given start finish id := by
  obtain ⟨x, hx, hstart, hfinish⟩ := h
  rw [List.find?_append, Option.or_eq_some_iff] at hx
  rcases hx with hx | ⟨-, hx⟩
  · exact ⟨x, hx, hstart, hfinish⟩
  · have hxy : x = y := by simpa using List.mem_of_find?_eq_some hx
    rw [hxy] at hfinish
    exact absurd hfinish (not_le.2 hlate)

theorem LetThroughIn.of_append (h : LetThroughIn (given ++ [y]) start finish id)
    (hnot : finish < y.now ∨ y.decision ≠ .allow) : LetThroughIn given start finish id := by
  obtain ⟨x, hx, hid, hallow, hstart, hfinish⟩ := h
  rcases List.mem_append.1 hx with hx | hx
  · exact ⟨x, hx, hid, hallow, hstart, hfinish⟩
  · rw [List.mem_singleton.1 hx] at hallow hfinish
    rcases hnot with hlate | hdenied
    · exact absurd hfinish (not_le.2 hlate)
    · exact absurd hallow hdenied

/-- Only an answer that lets something through can break the cap, in the intervals that it is in. -/
theorem Capped.append (h : Capped max window given)
    (hallowed : y.decision = .allow → ∀ start, y.now ≤ start + window →
      ∀ ids : Finset PredicateEventId,
        (∀ id ∈ ids, FirstEvaluatedIn (given ++ [y]) start (start + window) id ∧
          LetThroughIn (given ++ [y]) start (start + window) id) → ids.card ≤ max) :
    Capped max window (given ++ [y]) := by
  intro start ids hids
  rcases lt_or_ge (start + window) y.now with hlate | hin
  · refine h start ids fun id hid => ?_
    exact ⟨(hids id hid).1.of_append hlate, (hids id hid).2.of_append (.inl hlate)⟩
  by_cases hallow : y.decision = .allow
  · exact hallowed hallow start hin ids hids
  · refine h start ids fun id hid => ?_
    obtain ⟨x, hx, hxid, hrest⟩ := (hids id hid).2.of_append (.inr hallow)
    obtain ⟨first, hfirst, hrange⟩ := (hids id hid).1
    rw [find?_append_of_mem hx hxid] at hfirst
    exact ⟨⟨first, hfirst, hrange⟩, x, hx, hxid, hrest⟩

end Answers

/-! ### The bucket and the answers -/

/-- What links the bucket of a key to the answers that were given for it. -/
structure Tracks (max : ℕ) (window : ℤ) (given : List Answer) (bucket : Bucket Unit) : Prop where
  wellFormed : bucket.WellFormed
  sorted : bucket.entries.Pairwise fun a b => a.timestamp ≤ b.timestamp
  /-- A sample was recorded by an answer about its event. -/
  stems : ∀ entry ∈ bucket.entries, ∃ x ∈ given,
    x.now = entry.timestamp ∧ x.eventId = entry.eventId
  /-- An event that was let through is in the bucket while the window of its first evaluation
  lasts. -/
  kept : ∀ start, (∀ x ∈ given, x.now ≤ start + window) → ∀ x ∈ given, x.decision = .allow →
    (∀ first, given.find? (fun z => z.eventId = x.eventId) = some first → start ≤ first.now) →
    ∃ entry ∈ bucket.entries, entry.eventId = x.eventId
  capped : Capped max window given

namespace Tracks

open InMemoryPredicateStateBackend

variable {max : ℕ} {window : ℤ} {given : List Answer} {bucket bucket' : Bucket Unit} {y : Answer}
  {result : Except PredicateBackendError ℕ} {onExceeded : OnExceededAction}

theorem start : Tracks max window [] .empty where
  wellFormed := .empty
  sorted := .nil
  stems := List.forall_mem_nil _
  kept := fun _ _ => List.forall_mem_nil _
  capped := by
    intro start ids hids
    have hempty : ids = ∅ := by
      refine Finset.eq_empty_of_forall_notMem fun id hid => ?_
      obtain ⟨x, hx, -⟩ := (hids id hid).2
      exact List.not_mem_nil hx
    rw [hempty]
    exact Nat.zero_le max

/-- A recording keeps what was let through in the window. -/
theorem kept_recorded (h : Tracks max window given bucket)
    (hclocks : (given ++ [y]).Pairwise fun a b => a.now ≤ b.now)
    (hrec : Recorded (bucket.trim (y.now - window)) ⟨y.now, (), y.eventId⟩ result bucket')
    (hdecision : y.decision = decisionOn max onExceeded result) (start : Timestamp)
    (hopen : ∀ x ∈ given ++ [y], x.now ≤ start + window) (x : Answer) (hx : x ∈ given ++ [y])
    (hallow : x.decision = .allow)
    (hfirst : ∀ first, (given ++ [y]).find? (fun z => z.eventId = x.eventId) = some first →
      start ≤ first.now) :
    ∃ entry ∈ bucket'.entries, entry.eventId = x.eventId := by
  have hwf : (bucket.trim (y.now - window)).WellFormed := h.wellFormed.trimRounds _
  rcases List.mem_append.1 hx with hx | hx
  · -- the sample of an earlier answer is not older than the first evaluation of its event
    rw [find?_append_of_mem hx rfl] at hfirst
    obtain ⟨entry, hentry, hid⟩ := h.kept start
      (fun z hz => hopen z (List.mem_append_left _ hz)) x hx hallow hfirst
    refine ⟨entry, hrec.subset (Bucket.mem_trim hentry ?_), hid⟩
    obtain ⟨z, hz, hnow, hzid⟩ := h.stems entry hentry
    obtain ⟨first, hfound⟩ := Option.isSome_iff_exists.1 (find?_isSome_of_mem hx rfl)
    have hle := le_of_first (List.pairwise_append.1 hclocks).1 hfound hz (hzid.trans hid)
    calc y.now - window ≤ start :=
          sub_le_iff_le_add.2 (hopen y (List.mem_append_right _ List.mem_cons_self))
      _ ≤ first.now := hfirst first hfound
      _ ≤ z.now := hle
      _ = entry.timestamp := hnow
  · rw [List.mem_singleton.1 hx] at hallow ⊢
    rw [hdecision] at hallow
    cases hresult : result with
    | error error =>
      rw [hresult] at hallow
      exact absurd hallow (restrictiveAction_ne_allow onExceeded)
    | ok count => exact (hrec.of_ok hwf hresult).2

/-- An evaluation of the key keeps the invariant. -/
theorem step (h : Tracks max window given bucket)
    (hclocks : (given ++ [y]).Pairwise fun a b => a.now ≤ b.now)
    (hrec : Recorded (bucket.trim (y.now - window)) ⟨y.now, (), y.eventId⟩ result bucket')
    (hdecision : y.decision = decisionOn max onExceeded result) :
    Tracks max window (given ++ [y]) bucket' := by
  have hwf : (bucket.trim (y.now - window)).WellFormed := h.wellFormed.trimRounds _
  have hkept := h.kept_recorded hclocks hrec hdecision
  have htrim : (bucket.trim (y.now - window)).entries.Sublist bucket.entries := by
    rw [Bucket.entries_trim]
    exact List.dropWhile_sublist _
  have helapsed : ∀ entry ∈ bucket.entries, entry.timestamp ≤ y.now := by
    intro entry hentry
    obtain ⟨x, hx, hnow, -⟩ := h.stems entry hentry
    rw [← hnow]
    exact (List.pairwise_append.1 hclocks).2.2 x hx y List.mem_cons_self
  refine ⟨hrec.wellFormed hwf, ?_, ?_, hkept, ?_⟩
  · rcases hrec.entries with hentries | hentries
    · rw [hentries]
      exact h.sorted.sublist htrim
    · rw [hentries]
      refine List.pairwise_append.2 ⟨h.sorted.sublist htrim, List.pairwise_singleton _ _, ?_⟩
      intro a ha b hb
      rw [List.mem_singleton.1 hb]
      exact helapsed a (htrim.subset ha)
  · intro entry hentry
    have hold : entry ∈ (bucket.trim (y.now - window)).entries ∨ entry = ⟨y.now, (), y.eventId⟩ := by
      rcases hrec.entries with hentries | hentries
      · exact .inl (hentries ▸ hentry)
      · rw [hentries, List.mem_append, List.mem_singleton] at hentry
        exact hentry
    rcases hold with hold | rfl
    · obtain ⟨x, hx, hstem⟩ := h.stems entry (htrim.subset hold)
      exact ⟨x, List.mem_append_left _ hx, hstem⟩
    · exact ⟨y, List.mem_append_right _ List.mem_cons_self, rfl, rfl⟩
  · refine h.capped.append fun hallow start hin ids hids => ?_
    -- all of the events are in the bucket that the answer has counted
    have hcount : bucket'.entries.length ≤ max := by
      rw [hdecision] at hallow
      cases hresult : result with
      | error error =>
        rw [hresult] at hallow
        exact absurd hallow (restrictiveAction_ne_allow onExceeded)
      | ok count =>
        rw [hresult, decisionOn] at hallow
        rw [← (hrec.of_ok hwf hresult).1]
        by_contra hover
        rw [if_pos (not_le.1 hover)] at hallow
        exact absurd hallow (restrictiveAction_ne_allow onExceeded)
    have hsub : ids ⊆ (bucket'.entries.map Sample.eventId).toFinset := by
      intro id hid
      obtain ⟨first, hfirst, hstart, -⟩ := (hids id hid).1
      obtain ⟨x, hx, rfl, hxallow, -, -⟩ := (hids id hid).2
      have hopen : ∀ z ∈ given ++ [y], z.now ≤ start + window := by
        intro z hz
        rcases List.mem_append.1 hz with hz | hz
        · exact ((List.pairwise_append.1 hclocks).2.2 z hz y List.mem_cons_self).trans hin
        · rw [List.mem_singleton.1 hz]
          exact hin
      obtain ⟨entry, hentry, hentryId⟩ := hkept start hopen x hx hxallow (by
        intro other hother
        rw [hfirst, Option.some.injEq] at hother
        exact hother ▸ hstart)
      rw [List.mem_toFinset, List.mem_map]
      exact ⟨entry, hentry, hentryId⟩
    calc ids.card ≤ (bucket'.entries.map Sample.eventId).toFinset.card := Finset.card_le_card hsub
      _ ≤ (bucket'.entries.map Sample.eventId).length := List.toFinset_card_le _
      _ = bucket'.entries.length := List.length_map _
      _ ≤ max := hcount

end Tracks

/-! ### Runs -/

section Runs

variable {D : Type} [Zero D] [Add D] [Sub D] [LT D] [DecidableLT D]
  {parseDecimal : String → Option D} {init s : InMemoryPredicateStateBackend D}
  {history : List (Step (InMemoryPredicateStateBackend D) (Evaluation D))}
  {x : Step (InMemoryPredicateStateBackend D) (Evaluation D)} {key : InvocationKey}
  {condition : CapabilityPredicate} {max : ℕ} {window : String} {duration : ℤ}
  {onExceeded : OnExceededAction}

/-- The evaluations of a key are those of one invocation cap, at clocks that do not go back, and its
bucket is not evicted. -/
structure CapOnly (key : InvocationKey) (spec : HookPredicateSpec)
    (history : List (Step (InMemoryPredicateStateBackend D) (Evaluation D))) : Prop where
  spec_eq : ∀ x ∈ history, x.command.invocationKey = key → x.command.spec = spec
  clocks : ((history.filter fun x => x.command.invocationKey = key).map
    fun x => x.command.now).Pairwise (· ≤ ·)
  not_evicted : ∀ x ∈ history, (x.pre.invocationHistory.get key).isSome →
    (x.post.invocationHistory.get key).isSome

/-- Every evaluation of the key reaches back over its whole window. -/
def AllFit (key : InvocationKey) (duration : ℤ)
    (history : List (Step (InMemoryPredicateStateBackend D) (Evaluation D))) : Prop :=
  ∀ x ∈ history, x.command.invocationKey = key → Fits x.command.now duration

instance (key : InvocationKey) (duration : ℤ)
    (history : List (Step (InMemoryPredicateStateBackend D) (Evaluation D))) :
    Decidable (AllFit key duration history) :=
  inferInstanceAs (Decidable (∀ x ∈ history, _))

omit [Zero D] [Add D] [Sub D] [LT D] [DecidableLT D] in
theorem CapOnly.of_append {spec : HookPredicateSpec} (h : CapOnly key spec (history ++ [x])) :
    CapOnly key spec history where
  spec_eq := fun y hy => h.spec_eq y (List.mem_append_left _ hy)
  clocks := by
    have := h.clocks
    rw [List.filter_append, List.map_append, List.pairwise_append] at this
    exact this.1
  not_evicted := fun y hy => h.not_evicted y (List.mem_append_left _ hy)

def inWindow (bucket : Bucket Unit) (now : Timestamp) (duration : ℤ) : List (Sample Unit) :=
  bucket.entries.filter fun entry => decide (now - duration ≤ entry.timestamp)

theorem answers_append_of_ne (hne : x.command.invocationKey ≠ key) :
    answers parseDecimal key (history ++ [x]) = answers parseDecimal key history := by
  rw [answers, List.filter_append, List.filter_cons_of_neg (by simpa using hne),
    List.filter_nil, List.append_nil, answers]

theorem answers_append_of_eq (heq : x.command.invocationKey = key) :
    answers parseDecimal key (history ++ [x]) =
      answers parseDecimal key history ++ [answerOf parseDecimal x] := by
  rw [answers, List.filter_append, List.filter_cons_of_pos (by simpa using heq),
    List.filter_nil, List.map_append, List.map_singleton, answers]

theorem answers_pairwise (parseDecimal : String → Option D) (h : ((history.filter fun x => x.command.invocationKey = key).map
      fun x => x.command.now).Pairwise (· ≤ ·)) :
    (answers parseDecimal key history).Pairwise fun a b => a.now ≤ b.now := by
  rw [List.pairwise_map] at h
  rw [answers, List.pairwise_map]
  exact h

omit [Zero D] [Add D] [Sub D] [LT D] [DecidableLT D] in
theorem bucketOf_congr {t : InMemoryPredicateStateBackend D}
    (h : t.invocationHistory.get key = s.invocationHistory.get key) :
    t.invocationHistory.bucketOf key = s.invocationHistory.bucketOf key := by
  rw [History.bucketOf, h, History.bucketOf]

/-- An evaluation of the key is a recording in its bucket. -/
theorem CapOnly.evaluateAt_eq
    (hcap : CapOnly key (.rateOrValueCap condition (.invocationCount max window) onExceeded) history)
    (parseDecimal : String → Option D) (hwindow : parseWindow window = some duration)
    (hmatches : predicateMatches key.capability condition = true) (hx : x ∈ history)
    (hkey : x.command.invocationKey = key) :
    x.command.evaluateAt (inMemoryBackend D) x.pre parseDecimal =
      (decisionOn max onExceeded
          (x.pre.recordInvocation key x.command.eventId x.command.now duration).1,
        (x.pre.recordInvocation key x.command.eventId x.command.now duration).2) := by
  have hcapability : x.command.ctx.capabilityName = key.capability := by rw [← hkey]; rfl
  have heval := evaluateAt_invocationCount (inMemoryBackend D) x.pre parseDecimal
    (hcap.spec_eq x hx hkey) (hcapability ▸ hmatches) hwindow
  rw [hkey] at heval
  exact heval

theorem Tracks.entries_trim {given : List Answer} {bucket : Bucket Unit} {now : Timestamp}
    (h : Tracks max duration given bucket) (hfits : Fits now duration) :
    (bucket.trim (windowCutoff now duration)).entries = inWindow bucket now duration := by
  rw [windowCutoff_of_fits hfits, Bucket.entries_trim_of_sorted h.sorted, inWindow]

/-- The bucket of a key tracks its answers in every run. -/
theorem tracks_of_run (run : EvaluationRun parseDecimal init history s)
    (hinit : init.invocationHistory.get key = none) (hwindow : parseWindow window = some duration)
    (hmatches : predicateMatches key.capability condition = true)
    (hcap : CapOnly key (.rateOrValueCap condition (.invocationCount max window) onExceeded) history)
    (hfits : AllFit key duration history) :
    Tracks max duration (answers parseDecimal key history) (s.invocationHistory.bucketOf key) ∧
      ∀ x ∈ history, x.command.invocationKey = key →
        ∃ given, Tracks max duration given (x.pre.invocationHistory.bucketOf key) := by
  have key_step := run.induct_history
    (I := fun history s =>
      CapOnly key (.rateOrValueCap condition (.invocationCount max window) onExceeded) history →
      AllFit key duration history →
      Tracks max duration (answers parseDecimal key history) (s.invocationHistory.bucketOf key) ∧
      ∀ x ∈ history, x.command.invocationKey = key →
        ∃ given, Tracks max duration given (x.pre.invocationHistory.bucketOf key))
    (A := fun _ => True) ?_ ?_ ?_ (fun _ _ => trivial)
  · exact key_step hcap hfits
  · intro _ _
    rw [History.bucketOf, hinit]
    exact ⟨Tracks.start, List.forall_mem_nil _⟩
  · intro history s t hsame h hcap hfits
    rw [bucketOf_congr (hsame.invocations.get_eq key).symm]
    exact h hcap hfits
  · intro history s e _ h hcap hfits
    obtain ⟨htracks, hpre⟩ := h hcap.of_append fun x hx => hfits x (List.mem_append_left _ hx)
    have hlast : (⟨s, e, advance (evaluate parseDecimal) s e⟩ :
        Step (InMemoryPredicateStateBackend D) (Evaluation D)) ∈
        history ++ [⟨s, e, advance (evaluate parseDecimal) s e⟩] :=
      List.mem_append_right _ List.mem_cons_self
    by_cases hkey : e.invocationKey = key
    · have heval := hcap.evaluateAt_eq parseDecimal hwindow hmatches hlast hkey
      dsimp only at heval
      have hrec := InMemoryPredicateStateBackend.recorded_recordInvocation key e.eventId e.now
        duration htracks.wellFormed
      rw [windowCutoff_of_fits (hfits _ hlast hkey)] at hrec
      have hpost : advance (evaluate parseDecimal) s e =
          (s.recordInvocation key e.eventId e.now duration).2 := by
        rw [advance, evaluate, heval]
      have hclocks := answers_pairwise parseDecimal hcap.clocks
      rw [answers_append_of_eq hkey] at hclocks ⊢
      constructor
      · rw [hpost]
        exact htracks.step hclocks hrec (congrArg Prod.fst heval)
      · intro x hx hxkey
        rcases List.mem_append.1 hx with hx | hx
        · exact hpre x hx hxkey
        · rw [List.mem_singleton.1 hx]
          exact ⟨_, htracks⟩
    · have hget : (advance (evaluate parseDecimal) s e).invocationHistory.get key =
          s.invocationHistory.get key := by
        have hkept := hcap.not_evicted _ hlast
        rcases get_evaluateAt_of_ne (s := s) parseDecimal hkey with hget | hget
        · exact hget
        · cases hold : s.invocationHistory.get key with
          | none => exact hget
          | some row =>
            have hsome := hkept (by rw [hold]; rfl)
            rw [show (advance (evaluate parseDecimal) s e).invocationHistory.get key = none
              from hget] at hsome
            exact absurd hsome Bool.false_ne_true
      constructor
      · rw [answers_append_of_ne hkey, bucketOf_congr hget]
        exact htracks
      · intro x hx hxkey
        rcases List.mem_append.1 hx with hx | hx
        · exact hpre x hx hxkey
        · rw [List.mem_singleton.1 hx] at hxkey
          exact absurd hxkey hkey

/-- Where all windows fit, an invocation cap holds in every interval of the length of its window; an
event that is still in the window is not counted again; and an error of a backend, or a window that
is full, restricts. -/
theorem caps_hold (run : EvaluationRun parseDecimal init history s)
    (hinit : init.invocationHistory.get key = none) (hwindow : parseWindow window = some duration)
    (hmatches : predicateMatches key.capability condition = true)
    (hcap : CapOnly key (.rateOrValueCap condition (.invocationCount max window) onExceeded) history)
    (hfits : AllFit key duration history) :
    Capped max duration (answers parseDecimal key history) ∧
      (∀ x ∈ history, x.command.invocationKey = key →
        (∃ entry ∈ inWindow (x.pre.invocationHistory.bucketOf key) x.command.now duration,
          entry.eventId = x.command.eventId) →
        (x.pre.recordInvocation key x.command.eventId x.command.now duration).1 =
            .ok (inWindow (x.pre.invocationHistory.bucketOf key) x.command.now duration).length ∧
          (x.post.invocationHistory.bucketOf key).entries =
            inWindow (x.pre.invocationHistory.bucketOf key) x.command.now duration) ∧
      (∀ x ∈ history, x.command.invocationKey = key →
        (∀ entry ∈ inWindow (x.pre.invocationHistory.bucketOf key) x.command.now duration,
          entry.eventId ≠ x.command.eventId) →
        maxSamplesPerKey ≤
          (inWindow (x.pre.invocationHistory.bucketOf key) x.command.now duration).length →
        (answerOf parseDecimal x).decision = restrictiveAction onExceeded) ∧
      (∀ (σ : Type) (backend : PredicateStateBackend σ D) (t t' : σ) (e : Evaluation D)
          (error : PredicateBackendError),
        e.invocationKey = key →
        e.spec = .rateOrValueCap condition (.invocationCount max window) onExceeded →
        backend.recordInvocation t key e.eventId e.now duration = (.error error, t') →
        e.evaluateAt backend t parseDecimal = (restrictiveAction onExceeded, t')) ∧
      restrictiveAction onExceeded ≠ .allow := by
  obtain ⟨htracks, hpre⟩ := tracks_of_run run hinit hwindow hmatches hcap hfits
  refine ⟨htracks.capped, ?_, ?_, ?_, restrictiveAction_ne_allow onExceeded⟩
  · intro x hx hkey ⟨entry, hentry, hid⟩
    obtain ⟨given, hgiven⟩ := hpre x hx hkey
    have htrim := hgiven.entries_trim (hfits x hx hkey)
    have hrec := InMemoryPredicateStateBackend.recorded_recordInvocation key x.command.eventId
      x.command.now duration hgiven.wellFormed
    obtain ⟨hresult, hbucket⟩ := hrec.of_mem
      ((hgiven.wellFormed.trimRounds _).mem_dedupIds.2 ⟨entry, htrim ▸ hentry, hid⟩)
    rw [run.post_eq x hx, advance, evaluate,
      hcap.evaluateAt_eq parseDecimal hwindow hmatches hx hkey]
    exact ⟨htrim ▸ hresult, (congrArg Bucket.entries hbucket).trans htrim⟩
  · intro x hx hkey hnew hfull
    obtain ⟨given, hgiven⟩ := hpre x hx hkey
    have htrim := hgiven.entries_trim (hfits x hx hkey)
    have hrec := InMemoryPredicateStateBackend.recorded_recordInvocation key x.command.eventId
      x.command.now duration hgiven.wellFormed
    have hnot : x.command.eventId ∉
        ((x.pre.invocationHistory.bucketOf key).trim (windowCutoff x.command.now duration)).dedupIds := by
      intro hold
      obtain ⟨entry, hentry, hid⟩ := (hgiven.wellFormed.trimRounds _).mem_dedupIds.1 hold
      exact hnew entry (htrim ▸ hentry) hid
    obtain ⟨error, herror⟩ := hrec.of_full hnot (htrim ▸ hfull)
    rw [answerOf, hcap.evaluateAt_eq parseDecimal hwindow hmatches hx hkey, herror]
    rfl
  · intro σ backend t t' e error hkey hspec herror
    have hcapability : e.ctx.capabilityName = key.capability := by rw [← hkey]; rfl
    rw [evaluateAt_invocationCount backend t parseDecimal hspec (hcapability ▸ hmatches) hwindow,
      hkey, herror]
    rfl

end Runs

/-! ### A cap of one invocation -/

section Samples

def sampleKey : InvocationKey := ⟨⟨1⟩, ⟨"tenant"⟩, "shell"⟩

def sampleCap (window : String) : HookPredicateSpec :=
  .rateOrValueCap .always (.invocationCount 1 window) (.deny "one at a time")

/-- An evaluation of the cap, some seconds after an instant of the year 2023. -/
def sampleEvaluation (window eventId : String) (seconds : ℤ) : Evaluation ℤ where
  hookId := sampleKey.hookId
  spec := sampleCap window
  ctx := ⟨sampleKey.tenantId, sampleKey.capability, ⟨true, fun _ => none⟩, some ⟨eventId⟩⟩
  synthesized := ⟨""⟩
  now := (1700000000 + seconds) * 1000000000

def sampleEvaluations (window : String) : List (Evaluation ℤ) :=
  [sampleEvaluation window "first" 0, sampleEvaluation window "second" 1]

/-- The two evaluations over an empty backend. -/
def sampleTrace (window : String) : List (Step (InMemoryPredicateStateBackend ℤ) (Evaluation ℤ)) :=
  Run.trace (evaluate fun _ => none) .new (sampleEvaluations window)

theorem sampleTrace_run (window : String) :
    EvaluationRun (fun _ => none) .new (sampleTrace window)
      ((sampleEvaluations window).foldl (advance (evaluate fun _ => none)) .new) :=
  Run.of_commands InMemoryPredicateStateBackend.Same.refl _ _

theorem sampleTrace_spec (window : String) :
    ∀ x ∈ sampleTrace window, x.command.invocationKey = sampleKey →
      x.command.spec = sampleCap window := by
  refine Run.trace_forall (A := fun e : Evaluation ℤ => e.invocationKey = sampleKey → e.spec = sampleCap window)
    _ _ ?_
  intro e he _
  rcases List.mem_cons.1 he with rfl | he
  · rfl
  · rw [List.mem_singleton.1 he]
    rfl

theorem caps_hold_sample :
    Capped 1 60000000000 (answers (fun _ => none) sampleKey (sampleTrace "1m")) := by
  have hcap : CapOnly sampleKey
      (.rateOrValueCap .always (.invocationCount 1 "1m") (.deny "one at a time"))
      (sampleTrace "1m") :=
    ⟨sampleTrace_spec "1m", by decide +kernel, by decide +kernel⟩
  exact (caps_hold (sampleTrace_run "1m") rfl (by decide +kernel) (by decide) hcap
    (by decide +kernel)).1

/-- A window that is too long for the time library counts for nothing: it lets two invocations through
in a second where one is allowed. -/
theorem oversized_window :
    ¬ ∀ (init s : InMemoryPredicateStateBackend ℤ)
      (history : List (Step (InMemoryPredicateStateBackend ℤ) (Evaluation ℤ))) (key : InvocationKey)
      (condition : CapabilityPredicate) (max : ℕ) (window : String) (duration : ℤ)
      (onExceeded : OnExceededAction),
      EvaluationRun (fun _ => none) init history s →
      init.invocationHistory.get key = none →
      parseWindow window = some duration →
      predicateMatches key.capability condition = true →
      CapOnly key (.rateOrValueCap condition (.invocationCount max window) onExceeded) history →
      Capped max duration (answers (fun _ => none) key history) := by
  intro h
  have hcapped := h .new _ (sampleTrace "1000000000d") sampleKey .always 1 "1000000000d"
    86400000000000000000000 (.deny "one at a time") (sampleTrace_run _) rfl (by decide +kernel) rfl
    ⟨sampleTrace_spec _, by decide +kernel, by decide +kernel⟩
  have hboth : ∀ id ∈ ([⟨"first"⟩, ⟨"second"⟩] : List PredicateEventId),
      FirstEvaluatedIn (answers (fun _ => none) sampleKey (sampleTrace "1000000000d")) 0
        (0 + 86400000000000000000000) id ∧
      LetThroughIn (answers (fun _ => none) sampleKey (sampleTrace "1000000000d")) 0
        (0 + 86400000000000000000000) id := by
    decide +kernel
  have hcard := hcapped 0 {⟨"first"⟩, ⟨"second"⟩} (by simpa using hboth)
  exact absurd hcard (by decide)

end Samples

end Ironclaw.Hooks
