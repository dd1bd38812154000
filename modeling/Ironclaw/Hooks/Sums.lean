import Ironclaw.Hooks.Caps
import Ironclaw.Lib.Scaled

/-! # Sums of a window

A bucket keeps the sum of its values by adding what comes and subtracting what goes. The numbers are
those of `rust_decimal`, which is not part of the repository: a sum or difference that is in the range
of the library is exact, another one is rounded or panics (`DecimalCrate.Documented`). `Checked` is
a number or a panic on the way to it, and the backend of `PredicateState` is run with it.

Two large values panic, and a small value beside a large one is lost and stays lost when the large
one has left the window (`sums_overflow_and_round`). -/

namespace Ironclaw.Hooks

theorem Bucket.suffix_trimRounds {V : Type} [Sub V] (cutoff : Timestamp) (rounds : ℕ)
    (bucket : Bucket V) : (bucket.trimRounds cutoff rounds).entries <:+ bucket.entries := by
  induction rounds generalizing bucket with
  | zero => exact List.suffix_refl _
  | succ rounds ih =>
    unfold Bucket.trimRounds
    cases hentries : bucket.entries with
    | nil => simp [hentries]
    | cons front rest =>
      simp only
      split_ifs
      · have hpop : bucket.popFront.entries = rest := by
          rw [Bucket.popFront, hentries]
        have hrest := ih bucket.popFront
        rw [hpop] at hrest
        exact hrest.trans (List.suffix_cons _ _)
      · rw [hentries]

/-! ### Decimals -/

/-- What the backend uses of `rust_decimal`; an operation that panics has no result. -/
structure DecimalCrate where
  Decimal : Type
  value : Decimal → ℚ
  zero : Decimal
  add : Decimal → Decimal → Option Decimal
  sub : Decimal → Decimal → Option Decimal

namespace DecimalCrate

/-- A number that the library can hold. -/
def Representable (crate : DecimalCrate) (number : ℚ) : Prop := ∃ d, crate.value d = number

/-- The documented behaviour: what can be held is exact. -/
structure Documented (crate : DecimalCrate) : Prop where
  value_zero : crate.value crate.zero = 0
  add_exact : ∀ a b, crate.Representable (crate.value a + crate.value b) →
    ∃ c, crate.add a b = some c ∧ crate.value c = crate.value a + crate.value b
  sub_exact : ∀ a b, crate.Representable (crate.value a - crate.value b) →
    ∃ c, crate.sub a b = some c ∧ crate.value c = crate.value a - crate.value b

/-- A number, or a panic on the way to it. -/
def Checked (crate : DecimalCrate) : Type := Option crate.Decimal

variable {crate : DecimalCrate}

instance : Zero crate.Checked := ⟨some crate.zero⟩

instance : Add crate.Checked := ⟨fun a b => Option.bind a fun x => Option.bind b (crate.add x)⟩

instance : Sub crate.Checked := ⟨fun a b => Option.bind a fun x => Option.bind b (crate.sub x)⟩

/-- The number; a panic has none. -/
def amount (crate : DecimalCrate) : crate.Checked → ℚ
  | some d => crate.value d
  | none => 0

/-- The exact sum of samples. -/
def total (crate : DecimalCrate) (entries : List (Sample crate.Checked)) : ℚ :=
  (entries.map fun entry => crate.amount entry.value).sum

/-- A bucket that has not panicked and whose sum is that of its samples. -/
structure Exact (crate : DecimalCrate) (bucket : Bucket crate.Checked) : Prop where
  sum : ∃ d, bucket.runningSum = some d ∧ crate.value d = crate.total bucket.entries
  values : ∀ entry ∈ bucket.entries, ∃ d, entry.value = some d

theorem Exact.empty (h : crate.Documented) : crate.Exact .empty :=
  ⟨⟨crate.zero, rfl, h.value_zero⟩, List.forall_mem_nil _⟩

variable {bucket : Bucket crate.Checked}

theorem Exact.popFront (hcrate : crate.Documented)
    {front : Sample crate.Checked} {rest : List (Sample crate.Checked)} (h : crate.Exact bucket)
    (hentries : bucket.entries = front :: rest) (hrest : crate.Representable (crate.total rest)) :
    crate.Exact bucket.popFront := by
  obtain ⟨⟨d, hsum, hvalue⟩, hvalues⟩ := h
  obtain ⟨v, hv⟩ := hvalues front (hentries ▸ List.mem_cons_self)
  have hdiff : crate.value d - crate.value v = crate.total rest := by
    rw [hvalue, hentries, total, List.map_cons, List.sum_cons, hv, amount, add_sub_cancel_left, total]
  obtain ⟨c, hc, hcvalue⟩ := hcrate.sub_exact d v (hdiff.symm ▸ hrest)
  have hpop : bucket.popFront.runningSum = some c ∧ bucket.popFront.entries = rest := by
    rw [Bucket.popFront, hentries]
    refine ⟨?_, rfl⟩
    show bucket.runningSum - front.value = some c
    rw [hsum, hv]
    exact hc
  refine ⟨⟨c, hpop.1, ?_⟩, ?_⟩
  · rw [hcvalue, hdiff, hpop.2]
  · rw [hpop.2]
    exact fun entry hentry => hvalues entry (hentries ▸ List.mem_cons_of_mem _ hentry)

/-- The samples that are too old go, one after another. -/
theorem Exact.trimRounds (hcrate : crate.Documented) {cutoff : Timestamp} (rounds : ℕ)
    (h : crate.Exact bucket)
    (hsums : ∀ rest, rest <:+ bucket.entries → (bucket.trimRounds cutoff rounds).entries <:+ rest →
      crate.Representable (crate.total rest)) : crate.Exact (bucket.trimRounds cutoff rounds) := by
  induction rounds generalizing bucket with
  | zero => exact h
  | succ rounds ih =>
    unfold Bucket.trimRounds at hsums ⊢
    cases hentries : bucket.entries with
    | nil => simpa only [hentries] using h
    | cons front rest =>
      simp only [hentries] at hsums ⊢
      split_ifs at hsums ⊢ with hold
      · have hpop : bucket.popFront.entries = rest := by
          rw [Bucket.popFront, hentries]
        have hsuffix : (bucket.popFront.trimRounds cutoff rounds).entries <:+ rest := by
          rw [← hpop]
          exact Bucket.suffix_trimRounds _ _ _
        have hrest := hsums rest (List.suffix_cons _ _) hsuffix
        refine ih (h.popFront hcrate hentries hrest) ?_
        intro tail htail hend
        rw [hpop] at htail
        exact hsums tail (htail.trans (List.suffix_cons _ _)) hend
      · exact h

theorem Exact.pushBack (hcrate : crate.Documented)
    {entry : Sample crate.Checked} {v : crate.Decimal} (h : crate.Exact bucket)
    (hv : entry.value = some v)
    (hsum : crate.Representable (crate.total bucket.entries + crate.value v)) :
    crate.Exact (bucket.pushBack entry) := by
  obtain ⟨⟨d, hd, hvalue⟩, hvalues⟩ := h
  obtain ⟨c, hc, hcvalue⟩ := hcrate.add_exact d v (hvalue.symm ▸ hsum)
  refine ⟨⟨c, ?_, ?_⟩, ?_⟩
  · show bucket.runningSum + entry.value = some c
    rw [hd, hv]
    exact hc
  · rw [hcvalue, hvalue, Bucket.pushBack, total, total, List.map_append, List.sum_append,
      List.map_singleton, List.sum_singleton, hv, amount]
  · intro x hx
    rcases List.mem_append.1 hx with hx | hx
    · exact hvalues x hx
    · rw [List.mem_singleton.1 hx]
      exact ⟨v, hv⟩

end DecimalCrate

/-! ### What a window counts -/

/-- The samples that are not older than the window. -/
def live {V : Type} (now : Timestamp) (window : ℤ) (samples : List (Sample V)) : List (Sample V) :=
  samples.filter fun entry => decide (now - window ≤ entry.timestamp)

/-- An event counts unless it is still in the window or the window is full. -/
def takeIn {V : Type} (window : ℤ) (samples : List (Sample V)) (entry : Sample V) : List (Sample V) :=
  if entry.eventId ∈ (live entry.timestamp window samples).map Sample.eventId ∨
      maxSamplesPerKey ≤ (live entry.timestamp window samples).length then samples
  else samples ++ [entry]

/-- The samples that count, of those that were given. -/
def distinct {V : Type} (window : ℤ) (given : List (Sample V)) : List (Sample V) :=
  given.foldl (takeIn window) []

theorem distinct_append {V : Type} (window : ℤ) (given : List (Sample V)) (entry : Sample V) :
    distinct window (given ++ [entry]) = takeIn window (distinct window given) entry := by
  rw [distinct, List.foldl_append, List.foldl_cons, List.foldl_nil, distinct]

theorem live_live {V : Type} {earlier now : Timestamp} (h : earlier ≤ now) (window : ℤ)
    (samples : List (Sample V)) :
    live now window (live earlier window samples) = live now window samples := by
  rw [live, live, List.filter_filter]
  refine List.filter_congr fun entry _ => ?_
  rw [Bool.and_eq_left_iff_imp, decide_eq_true_eq, decide_eq_true_eq]
  exact fun hlive => le_trans (sub_le_sub_right h window) hlive

/-! ### Recording a value -/

namespace InMemoryPredicateStateBackend

variable {D : Type} [Zero D] [Add D] [Sub D] {s : InMemoryPredicateStateBackend D} {key : ValueKey}

/-- The outcomes of recording a value: the event is still in the window, the window is full, or the
event is new. -/
inductive ValueRecorded (trimmed : Bucket D) (entry : Sample D) :
    Except PredicateBackendError D → Bucket D → Prop
  | again (hold : entry.eventId ∈ trimmed.dedupIds) :
      ValueRecorded trimmed entry (.ok trimmed.runningSum) trimmed
  | full (label : String) (hnew : entry.eventId ∉ trimmed.dedupIds)
      (hfull : maxSamplesPerKey ≤ trimmed.entries.length) :
      ValueRecorded trimmed entry (.error (.windowOverflow label maxSamplesPerKey)) trimmed
  | fresh (hnew : entry.eventId ∉ trimmed.dedupIds)
      (hroom : trimmed.entries.length < maxSamplesPerKey) :
      ValueRecorded trimmed entry (.ok (trimmed.pushBack entry).runningSum) (trimmed.pushBack entry)

theorem recorded_recordValue (eventId : PredicateEventId) (now : Timestamp) (value : D) (window : ℤ)
    (h : (s.valueHistory.bucketOf key).WellFormed) :
    ValueRecorded ((s.valueHistory.bucketOf key).trim (windowCutoff now window))
      ⟨now, value, eventId⟩ (s.recordValue key eventId now value window).1
      ((s.recordValue key eventId now value window).2.valueHistory.bucketOf key) := by
  have hroom : (s.roomForValue key).valueHistory.bucketOf key = s.valueHistory.bucketOf key := by
    rw [History.bucketOf, get_roomForValue, History.bucketOf]
  unfold recordValue
  dsimp only
  change ValueRecorded _ _ ((sample (s.roomForValue key).valueHistory _ _ _ _).1.map _)
    (History.bucketOf (sample (s.roomForValue key).valueHistory _ _ _ _).2 key)
  rcases sample_cases (hroom ▸ h) with ⟨hold, heq⟩ | ⟨hnew, hfull, heq⟩ | ⟨hnew, hlt, heq⟩
  · rw [heq, bucketOf_put]
    rw [hroom] at hold ⊢
    exact .again hold
  · rw [heq, bucketOf_put]
    rw [hroom] at hnew hfull ⊢
    exact .full _ hnew hfull
  · rw [heq, bucketOf_put]
    rw [hroom] at hnew hlt ⊢
    exact .fresh hnew hlt

theorem get_recordValue_of_ne {other : ValueKey} (hne : key ≠ other) (eventId : PredicateEventId)
    (now : Timestamp) (value : D) (window : ℤ) :
    (s.recordValue key eventId now value window).2.valueHistory.get other =
        s.valueHistory.get other ∨
      (s.recordValue key eventId now value window).2.valueHistory.get other = none := by
  have hsample := get_sample_of_ne (s.roomForValue key).valueHistory hne
    (key.tenantId.asStr ++ "/" ++ key.capability ++ "#" ++ key.field) (windowCutoff now window)
    ⟨now, value, eventId⟩
  rcases (s.evicts_roomForValue key).values other with hget | hget
  · exact .inl (hsample.trans hget)
  · exact .inr (hsample.trans hget)

end InMemoryPredicateStateBackend

/-! ### Runs -/

/-- A call on the backend; a window is a duration, in nanoseconds. -/
inductive Recording (crate : DecimalCrate) where
  | invocation (key : InvocationKey) (eventId : PredicateEventId) (now : Timestamp) (window : ℕ)
  | value (key : ValueKey) (eventId : PredicateEventId) (now : Timestamp) (value : crate.Decimal)
      (window : ℕ)

abbrev CrateBackend (crate : DecimalCrate) := InMemoryPredicateStateBackend crate.Checked

section Runs

variable {crate : DecimalCrate}

def record (crate : DecimalCrate) (s : CrateBackend crate) :
    Recording crate → Except Empty (Unit × CrateBackend crate)
  | .invocation key eventId now window =>
    .ok ((), (s.recordInvocation key eventId now window).2)
  | .value key eventId now value window =>
    .ok ((), (s.recordValue key eventId now (some value) window).2)

abbrev RecordingRun (crate : DecimalCrate) :=
  Run InMemoryPredicateStateBackend.Same (record crate)

/-- The sample of a key that a call records, with its window. -/
def Recording.sampleOf (key : ValueKey) : Recording crate → Option (Sample crate.Checked × ℕ)
  | .value key' eventId now number window =>
    if key' = key then some (⟨now, some number, eventId⟩, window) else none
  | .invocation _ _ _ _ => none

/-- The samples that were given for a key, oldest first. -/
def given (key : ValueKey) (history : List (Step (CrateBackend crate) (Recording crate))) :
    List (Sample crate.Checked) :=
  history.filterMap fun x => (x.command.sampleOf key).map Prod.fst

/-- Every sum that a recording takes a bucket through is in range: those that are left as the samples
that are too old go, and the one with the new value. -/
structure SumsFit (bucket : Bucket crate.Checked) (cutoff : Timestamp)
    (entry : Sample crate.Checked) : Prop where
  dropping : ∀ rest, rest <:+ bucket.entries → (bucket.trim cutoff).entries <:+ rest →
    crate.Representable (crate.total rest)
  adding : entry.eventId ∉ (bucket.trim cutoff).dedupIds →
    (bucket.trim cutoff).entries.length < maxSamplesPerKey →
    crate.Representable (crate.total (bucket.trim cutoff).entries + crate.amount entry.value)

/-- The values of a key are those of one predicate, at clocks that do not go back; its bucket is not
evicted, and its window reaches back as far as it is long. -/
structure ValueRun (key : ValueKey) (window : ℕ)
    (history : List (Step (CrateBackend crate) (Recording crate))) : Prop where
  window_eq : ∀ x ∈ history, ∀ entry ∈ x.command.sampleOf key, entry.2 = window
  clocks : (given key history).Pairwise fun a b => a.timestamp ≤ b.timestamp
  not_evicted : ∀ x ∈ history, (x.pre.valueHistory.get key).isSome →
    (x.post.valueHistory.get key).isSome
  fits : ∀ x ∈ history, ∀ entry ∈ x.command.sampleOf key, Fits entry.1.timestamp window

/-- And its sums are in range. -/
structure SumOnly (key : ValueKey) (window : ℕ)
    (history : List (Step (CrateBackend crate) (Recording crate))) : Prop
    extends ValueRun key window history where
  sums : ∀ x ∈ history, ∀ entry ∈ x.command.sampleOf key,
    SumsFit (x.pre.valueHistory.bucketOf key) (entry.1.timestamp - window) entry.1

/-- What links the bucket of a key to the samples that were given for it. -/
structure Counts (window : ℤ) (samples : List (Sample crate.Checked)) (bucket : Bucket crate.Checked) :
    Prop where
  wellFormed : bucket.WellFormed
  exact : crate.Exact bucket
  entries : ∀ now, (∀ entry ∈ samples, entry.timestamp ≤ now) →
    live now window bucket.entries = live now window (distinct window samples)
  sorted : bucket.entries.Pairwise fun a b => a.timestamp ≤ b.timestamp
  stems : bucket.entries ⊆ samples

namespace Counts

open InMemoryPredicateStateBackend

variable {window : ℤ} {samples : List (Sample crate.Checked)} {bucket bucket' : Bucket crate.Checked}
  {entry : Sample crate.Checked} {result : Except PredicateBackendError crate.Checked}

theorem start (hcrate : crate.Documented) : Counts window [] (.empty : Bucket crate.Checked) where
  wellFormed := .empty
  exact := .empty hcrate
  entries := fun _ _ => rfl
  sorted := .nil
  stems := List.Subset.refl _

theorem entries_trim (h : Counts window samples bucket)
    (hlatest : ∀ x ∈ samples, x.timestamp ≤ entry.timestamp) :
    (bucket.trim (entry.timestamp - window)).entries =
      live entry.timestamp window (distinct window samples) := by
  rw [Bucket.entries_trim_of_sorted h.sorted]
  exact h.entries entry.timestamp hlatest

theorem kept (h : Counts window samples bucket)
    (hlatest : ∀ x ∈ samples, x.timestamp ≤ entry.timestamp)
    (hexact : crate.Exact (bucket.trim (entry.timestamp - window)))
    (htakeIn : takeIn window (distinct window samples) entry = distinct window samples) :
    Counts window (samples ++ [entry]) (bucket.trim (entry.timestamp - window)) where
  wellFormed := h.wellFormed.trimRounds _
  exact := hexact
  entries := by
    intro now hnow
    rw [h.entries_trim hlatest, distinct_append, htakeIn]
    exact live_live (hnow entry (List.mem_append_right _ List.mem_cons_self)) window _
  sorted := by
    rw [Bucket.entries_trim]
    exact h.sorted.sublist (List.dropWhile_sublist _)
  stems := fun x hx => List.mem_append_left _ (h.stems (Bucket.mem_of_mem_trim hx))

theorem added (h : Counts window samples bucket)
    (hlatest : ∀ x ∈ samples, x.timestamp ≤ entry.timestamp)
    (hexact : crate.Exact ((bucket.trim (entry.timestamp - window)).pushBack entry))
    (hnew : entry.eventId ∉ (bucket.trim (entry.timestamp - window)).dedupIds)
    (htakeIn : takeIn window (distinct window samples) entry = distinct window samples ++ [entry]) :
    Counts window (samples ++ [entry])
      ((bucket.trim (entry.timestamp - window)).pushBack entry) where
  wellFormed := (h.wellFormed.trimRounds _).pushBack hnew
  exact := hexact
  entries := by
    intro now hnow
    have hlive := live_live (hnow entry (List.mem_append_right _ List.mem_cons_self)) window
      (distinct window samples)
    rw [Bucket.pushBack, h.entries_trim hlatest, distinct_append, htakeIn]
    unfold live at hlive ⊢
    rw [List.filter_append, List.filter_append, hlive]
  sorted := by
    rw [Bucket.pushBack, Bucket.entries_trim]
    refine List.pairwise_append.2 ⟨h.sorted.sublist (List.dropWhile_sublist _),
      List.pairwise_singleton _ _, ?_⟩
    intro a ha b hb
    rw [List.mem_singleton.1 hb]
    exact hlatest a (h.stems ((List.dropWhile_sublist _).subset ha))
  stems := by
    intro x hx
    rcases List.mem_append.1 hx with hx | hx
    · exact List.mem_append_left _ (h.stems (Bucket.mem_of_mem_trim hx))
    · exact List.mem_append_right _ hx

/-- A recording keeps the link, and the sum that it returns is that of the live samples. -/
theorem step (hcrate : crate.Documented) (hwindow : 0 ≤ window) (h : Counts window samples bucket)
    (hlatest : ∀ x ∈ samples, x.timestamp ≤ entry.timestamp) (hvalue : ∃ v, entry.value = some v)
    (hsums : SumsFit bucket (entry.timestamp - window) entry)
    (hrec : ValueRecorded (bucket.trim (entry.timestamp - window)) entry result bucket') :
    Counts window (samples ++ [entry]) bucket' ∧
      ∀ sum, result = .ok sum → sum = bucket'.runningSum ∧
        bucket'.entries = live entry.timestamp window (distinct window (samples ++ [entry])) := by
  have hwf : (bucket.trim (entry.timestamp - window)).WellFormed := h.wellFormed.trimRounds _
  have htrim := h.entries_trim hlatest
  have hexact : crate.Exact (bucket.trim (entry.timestamp - window)) :=
    h.exact.trimRounds hcrate _ hsums.dropping
  have hids : entry.eventId ∈ (bucket.trim (entry.timestamp - window)).dedupIds ↔
      entry.eventId ∈ (live entry.timestamp window (distinct window samples)).map Sample.eventId := by
    rw [hwf.ids, List.mem_toFinset, htrim]
  cases hrec with
  | again hold =>
    have htakeIn : takeIn window (distinct window samples) entry = distinct window samples :=
      if_pos (.inl (hids.1 hold))
    refine ⟨h.kept hlatest hexact htakeIn, fun sum hsum => ⟨(Except.ok.inj hsum).symm, ?_⟩⟩
    rw [htrim, distinct_append, htakeIn]
  | full label hnew hfull =>
    rw [htrim] at hfull
    exact ⟨h.kept hlatest hexact (if_pos (.inr hfull)), fun sum hsum => absurd hsum (by simp)⟩
  | fresh hnew hroom =>
    obtain ⟨v, hv⟩ := hvalue
    have hpushed : crate.Exact ((bucket.trim (entry.timestamp - window)).pushBack entry) := by
      refine hexact.pushBack hcrate hv ?_
      have hadding := hsums.adding hnew hroom
      rw [hv] at hadding
      exact hadding
    have htakeIn : takeIn window (distinct window samples) entry =
        distinct window samples ++ [entry] := by
      refine if_neg (not_or.2 ⟨mt hids.2 hnew, ?_⟩)
      rw [htrim] at hroom
      exact not_le.2 hroom
    refine ⟨h.added hlatest hpushed hnew htakeIn, fun sum hsum => ⟨(Except.ok.inj hsum).symm, ?_⟩⟩
    have hself : [entry].filter (fun x => decide (entry.timestamp - window ≤ x.timestamp)) =
        [entry] := by
      simpa using hwindow
    rw [distinct_append, htakeIn, Bucket.pushBack, htrim]
    unfold live
    rw [List.filter_append, hself]

end Counts

variable {key : ValueKey} {window : ℕ} {init s : CrateBackend crate}
  {history : List (Step (CrateBackend crate) (Recording crate))}
  {x : Step (CrateBackend crate) (Recording crate)}

theorem given_append (key : ValueKey) (history : List (Step (CrateBackend crate) (Recording crate)))
    (x : Step (CrateBackend crate) (Recording crate)) :
    given key (history ++ [x]) =
      given key history ++ ((x.command.sampleOf key).map Prod.fst).toList := by
  rw [given, List.filterMap_append, given]
  congr 1

theorem SumOnly.of_append (h : SumOnly key window (history ++ [x])) : SumOnly key window history where
  window_eq := fun y hy => h.window_eq y (List.mem_append_left _ hy)
  clocks := by
    have hclocks := h.clocks
    rw [given_append, List.pairwise_append] at hclocks
    exact hclocks.1
  not_evicted := fun y hy => h.not_evicted y (List.mem_append_left _ hy)
  fits := fun y hy => h.fits y (List.mem_append_left _ hy)
  sums := fun y hy => h.sums y (List.mem_append_left _ hy)

theorem get_record_of_none {command : Recording crate} (h : command.sampleOf key = none) :
    (advance (record crate) s command).valueHistory.get key = s.valueHistory.get key ∨
      (advance (record crate) s command).valueHistory.get key = none := by
  cases command with
  | invocation key' eventId now window => exact (s.evicts_roomForInvocation key').values key
  | value key' eventId now number window =>
    have hne : key' ≠ key := by
      intro hsame
      rw [Recording.sampleOf, if_pos hsame] at h
      exact absurd h (Option.some_ne_none _)
    exact InMemoryPredicateStateBackend.get_recordValue_of_ne (s := s) hne eventId now (some number)
      window

theorem Counts.record (hcrate : crate.Documented)
    (h : Counts window (given key history) (s.valueHistory.bucketOf key))
    {eventId : PredicateEventId} {now : Timestamp} {number : crate.Decimal}
    (hx : x.command = .value key eventId now number window) (hpre : x.pre = s)
    (hsum : SumOnly key window (history ++ [x])) :
    Counts window (given key (history ++ [x]))
        ((s.recordValue key eventId now (some number) window).2.valueHistory.bucketOf key) ∧
      ∀ sum, (s.recordValue key eventId now (some number) window).1 = .ok sum →
        sum = ((s.recordValue key eventId now (some number) window).2.valueHistory.bucketOf
            key).runningSum ∧
          ((s.recordValue key eventId now (some number) window).2.valueHistory.bucketOf
            key).entries = live now window (distinct window (given key (history ++ [x]))) := by
  have hsample : x.command.sampleOf key = some (⟨now, some number, eventId⟩, window) := by
    rw [hx, Recording.sampleOf, if_pos rfl]
  have hlast : x ∈ history ++ [x] := List.mem_append_right _ List.mem_cons_self
  have hgiven : given key (history ++ [x]) = given key history ++ [⟨now, some number, eventId⟩] := by
    rw [given_append, hsample]
    rfl
  have hlatest : ∀ y ∈ given key history, y.timestamp ≤ now := by
    have hclocks := hsum.clocks
    rw [hgiven, List.pairwise_append] at hclocks
    exact fun y hy => hclocks.2.2 y hy _ List.mem_cons_self
  have hrec := InMemoryPredicateStateBackend.recorded_recordValue (s := s) eventId now (some number)
    window h.wellFormed
  rw [windowCutoff_of_fits (hsum.fits x hlast _ hsample)] at hrec
  have hsums := hsum.sums x hlast _ hsample
  rw [hpre] at hsums
  rw [hgiven]
  exact h.step hcrate (Int.natCast_nonneg window) hlatest ⟨number, rfl⟩ hsums hrec

/-- The bucket of a key counts its samples in every run. -/
theorem counts_of_run (hcrate : crate.Documented) (run : RecordingRun crate init history s)
    (hinit : init.valueHistory.get key = none) (hsum : SumOnly key window history) :
    Counts window (given key history) (s.valueHistory.bucketOf key) := by
  refine run.induct_history
    (I := fun history s => SumOnly key window history →
      Counts window (given key history) (s.valueHistory.bucketOf key))
    (A := fun _ => True) ?_ ?_ ?_ (fun _ _ => trivial) hsum
  · intro _
    rw [History.bucketOf, hinit]
    exact Counts.start hcrate
  · intro history s t hsame h hsum
    have hget := hsame.values.get_eq key
    rw [History.bucketOf, ← hget]
    exact h hsum
  · intro history s command _ h hsum
    have hcounts := h hsum.of_append
    have hlast : (⟨s, command, advance (Hooks.record crate) s command⟩ :
        Step (CrateBackend crate) (Recording crate)) ∈
        history ++ [⟨s, command, advance (Hooks.record crate) s command⟩] :=
      List.mem_append_right _ List.mem_cons_self
    cases hsample : command.sampleOf key with
    | none =>
      have hget : (advance (Hooks.record crate) s command).valueHistory.get key =
          s.valueHistory.get key := by
        rcases get_record_of_none hsample with hget | hget
        · exact hget
        · cases hold : s.valueHistory.get key with
          | none => exact hget
          | some row =>
            have hkept := hsum.not_evicted _ hlast (by simp [hold])
            replace hkept : ((advance (Hooks.record crate) s command).valueHistory.get
              key).isSome = true := hkept
            rw [hget] at hkept
            exact absurd hkept Bool.false_ne_true
      have hbucket : (advance (Hooks.record crate) s command).valueHistory.bucketOf key =
          s.valueHistory.bucketOf key := by
        rw [History.bucketOf, hget, History.bucketOf]
      rw [given_append, hsample, hbucket]
      simpa using hcounts
    | some entry =>
      cases command with
      | invocation => exact absurd hsample (by simp [Recording.sampleOf])
      | value key' eventId now number window' =>
        have hkey : key' = key := by
          by_contra hne
          rw [Recording.sampleOf, if_neg hne] at hsample
          exact absurd hsample.symm (Option.some_ne_none _)
        subst hkey
        have hwindow : window' = window :=
          hsum.window_eq _ hlast (⟨now, some number, eventId⟩, window')
            (by simp [Recording.sampleOf])
        subst hwindow
        exact (hcounts.record hcrate rfl rfl hsum).1

/-- Where the sums of a key are in range, no recording of its values panics, and the sum that it
returns is the exact sum of the events that are live in its window. -/
theorem sums_exact (hcrate : crate.Documented) (run : RecordingRun crate init (history ++ [x]) s)
    (hinit : init.valueHistory.get key = none) (hsum : SumOnly key window (history ++ [x]))
    {eventId : PredicateEventId} {now : Timestamp} {number : crate.Decimal}
    (hx : x.command = .value key eventId now number window) :
    (x.post.valueHistory.bucketOf key).runningSum ≠ none ∧
      ∀ sum, (x.pre.recordValue key eventId now (some number) window).1 = .ok sum →
        ∃ d, sum = some d ∧
          crate.value d = crate.total (live now window (distinct window
            (given key (history ++ [x])))) := by
  obtain ⟨mid, hbefore, hlast⟩ := run.split
  obtain ⟨hsame, -⟩ := hlast.singleton
  have hcounts : Counts window (given key history) (x.pre.valueHistory.bucketOf key) := by
    have hmid := counts_of_run hcrate hbefore hinit hsum.of_append
    have hget := hsame.values.get_eq key
    rw [History.bucketOf, ← hget]
    exact hmid
  obtain ⟨hafter, hresult⟩ := hcounts.record hcrate hx rfl hsum
  have hpost : x.post = (x.pre.recordValue key eventId now (some number) window).2 := by
    rw [run.post_eq x (List.mem_append_right _ List.mem_cons_self), hx]
    rfl
  rw [← hpost] at hafter hresult
  obtain ⟨d, hd, hvalue⟩ := hafter.exact.sum
  refine ⟨by rw [hd]; exact Option.some_ne_none d, fun sum hok => ?_⟩
  obtain ⟨hsumEq, hentries⟩ := hresult sum hok
  exact ⟨d, hsumEq.trans hd, by rw [hvalue, hentries]⟩

end Runs

/-! ### Values at the limits -/

section Samples

/-- The numbers of the crate: 96 bits of mantissa and up to 28 decimals. -/
def rustDecimal : DecimalCrate where
  Decimal := Scaled 79228162514264337593543950336 28
  value := Scaled.value
  zero := Scaled.zero (Nat.zero_lt_succ _)
  add := Scaled.add
  sub := Scaled.sub

instance : DecidableEq rustDecimal.Decimal :=
  inferInstanceAs (DecidableEq (Scaled 79228162514264337593543950336 28))

theorem rustDecimal_documented : rustDecimal.Documented where
  value_zero := by simp [rustDecimal, Scaled.value, Scaled.zero]
  add_exact := by
    rintro a b ⟨d, hd⟩
    exact Scaled.add_exact hd
  sub_exact := by
    rintro a b ⟨d, hd⟩
    exact Scaled.sub_exact hd

def sumKey : ValueKey := ⟨⟨1⟩, ⟨"tenant"⟩, "pay", "amount"⟩

/-- A minute. -/
def sumWindow : ℕ := 60000000000

/-- A value, some seconds after an instant of the year 2023. -/
def sampleValue (eventId : String) (seconds : ℤ) (number : rustDecimal.Decimal) :
    Recording rustDecimal :=
  .value sumKey ⟨eventId⟩ ((1700000000 + seconds) * 1000000000) number sumWindow

/-- The values over an empty backend. -/
def sumTrace (values : List (Recording rustDecimal)) :
    List (Step (CrateBackend rustDecimal) (Recording rustDecimal)) :=
  Run.trace (record rustDecimal) .new values

/-- The number `mantissa / 10 ^ scale`. -/
def decimal (mantissa : ℤ) (scale : ℕ) : rustDecimal.Decimal :=
  if h : mantissa.natAbs < 79228162514264337593543950336 ∧ scale ≤ 28 then
    ⟨mantissa, scale, h.1, h.2⟩
  else rustDecimal.zero

theorem valueRun_sumTrace {values : List (Recording rustDecimal)}
    (hvalues : ∀ command ∈ values, ∃ eventId seconds number, 0 ≤ seconds ∧
      command = sampleValue eventId seconds number)
    (hclocks : (given sumKey (sumTrace values)).Pairwise fun a b => a.timestamp ≤ b.timestamp)
    (hkept : ∀ x ∈ sumTrace values, (x.pre.valueHistory.get sumKey).isSome →
      (x.post.valueHistory.get sumKey).isSome) :
    ValueRun sumKey sumWindow (sumTrace values) where
  window_eq := by
    refine Run.trace_forall (A := fun command : Recording rustDecimal =>
      ∀ entry ∈ command.sampleOf sumKey, entry.2 = sumWindow) values _ ?_
    intro command hcommand entry hentry
    obtain ⟨eventId, seconds, number, -, rfl⟩ := hvalues command hcommand
    simp only [sampleValue, Recording.sampleOf, if_true, Option.mem_def, Option.some.injEq] at hentry
    rw [← hentry]
  clocks := hclocks
  not_evicted := hkept
  fits := by
    refine Run.trace_forall (A := fun command : Recording rustDecimal =>
      ∀ entry ∈ command.sampleOf sumKey, Fits entry.1.timestamp sumWindow) values _ ?_
    intro command hcommand entry hentry
    obtain ⟨eventId, seconds, number, hseconds, rfl⟩ := hvalues command hcommand
    simp only [sampleValue, Recording.sampleOf, if_true, Option.mem_def, Option.some.injEq] at hentry
    rw [← hentry]
    refine ⟨by decide, ?_⟩
    simp only [minUtc, sumWindow]
    omega

/-- Two values of a half and a quarter. -/
def smallValues : List (Recording rustDecimal) :=
  [sampleValue "first" 0 (decimal 5 1), sampleValue "second" 1 (decimal 25 2)]

theorem sumsFit_of_kept {crate : DecimalCrate} {bucket : Bucket crate.Checked} {cutoff : Timestamp}
    {entry : Sample crate.Checked} (hkept : (bucket.trim cutoff).entries = bucket.entries)
    (hsum : crate.Representable (crate.total bucket.entries))
    (hnext : crate.Representable (crate.total bucket.entries + crate.amount entry.value)) :
    SumsFit bucket cutoff entry where
  dropping := by
    intro rest hrest hend
    rw [hkept] at hend
    rw [hrest.eq_of_length (Nat.le_antisymm hrest.length_le hend.length_le)]
    exact hsum
  adding := by
    intro _ _
    rw [hkept]
    exact hnext

theorem sumOnly_smallValues : SumOnly sumKey sumWindow (sumTrace smallValues) where
  toValueRun := by
    refine valueRun_sumTrace ?_ (by decide +kernel) (by decide +kernel)
    intro command hcommand
    simp only [smallValues, List.mem_cons, List.not_mem_nil, or_false] at hcommand
    rcases hcommand with rfl | rfl
    · exact ⟨"first", 0, decimal 5 1, by decide, rfl⟩
    · exact ⟨"second", 1, decimal 25 2, by decide, rfl⟩
  sums := by
    intro x hx entry hentry
    simp only [sumTrace, smallValues, Run.trace, List.mem_cons, List.not_mem_nil, or_false] at hx
    rcases hx with rfl | rfl
    · simp only [sampleValue, Recording.sampleOf, if_true, Option.mem_def, Option.some.injEq] at hentry
      subst hentry
      refine sumsFit_of_kept (by rfl) ⟨rustDecimal.zero, by decide +kernel⟩
        ⟨decimal 5 1, by decide +kernel⟩
    · simp only [sampleValue, Recording.sampleOf, if_true, Option.mem_def, Option.some.injEq] at hentry
      subst hentry
      refine sumsFit_of_kept (by rfl) ⟨decimal 5 1, by decide +kernel⟩
        ⟨decimal 75 2, by decide +kernel⟩

def secondSmall : Step (CrateBackend rustDecimal) (Recording rustDecimal) :=
  let before := advance (record rustDecimal) .new (sampleValue "first" 0 (decimal 5 1))
  ⟨before, sampleValue "second" 1 (decimal 25 2),
    advance (record rustDecimal) before (sampleValue "second" 1 (decimal 25 2))⟩

theorem sums_exact_small : ∃ d, (secondSmall.pre.recordValue sumKey ⟨"second"⟩
      ((1700000000 + 1) * 1000000000) (some (decimal 25 2)) sumWindow).1 = .ok (some d) ∧
    rustDecimal.value d = rustDecimal.total (live ((1700000000 + 1) * 1000000000) sumWindow
      (distinct sumWindow (given sumKey (sumTrace smallValues)))) ∧
    rustDecimal.total (live ((1700000000 + 1) * 1000000000) sumWindow
      (distinct sumWindow (given sumKey (sumTrace smallValues)))) = 3 / 4 := by
  have hrun : RecordingRun rustDecimal .new (sumTrace smallValues)
      (smallValues.foldl (advance (record rustDecimal)) .new) :=
    Run.of_commands InMemoryPredicateStateBackend.Same.refl _ _
  have hsplit : sumTrace smallValues = (sumTrace smallValues).take 1 ++ [secondSmall] := rfl
  have hsum := sumOnly_smallValues
  rw [hsplit] at hrun hsum
  have hexact := (sums_exact rustDecimal_documented hrun rfl hsum rfl).2
  have hok : ∃ sum, (secondSmall.pre.recordValue sumKey ⟨"second"⟩
      ((1700000000 + 1) * 1000000000) (some (decimal 25 2)) sumWindow).1 = .ok sum := by
    have hisOk : (secondSmall.pre.recordValue sumKey ⟨"second"⟩ ((1700000000 + 1) * 1000000000)
      (some (decimal 25 2)) sumWindow).1.isOk = true := by decide +kernel
    cases hresult : (secondSmall.pre.recordValue sumKey ⟨"second"⟩
        ((1700000000 + 1) * 1000000000) (some (decimal 25 2)) sumWindow).1 with
    | ok sum => exact ⟨sum, rfl⟩
    | error error =>
      rw [hresult] at hisOk
      exact absurd hisOk Bool.false_ne_true
  obtain ⟨sum, hsumOk⟩ := hok
  obtain ⟨d, rfl, hvalue⟩ := hexact sum hsumOk
  exact ⟨d, hsumOk, hvalue, by decide +kernel⟩

/-- The largest number twice. -/
def largestValues : List (Recording rustDecimal) :=
  [sampleValue "first" 0 (decimal 79228162514264337593543950335 0),
    sampleValue "second" 0 (decimal 79228162514264337593543950335 0)]

/-- A large number, and a tenth before and after it leaves the window. -/
def mixedValues : List (Recording rustDecimal) :=
  [sampleValue "large" 0 (decimal 70000000000000000000000000000 0),
    sampleValue "small" 1 (decimal 1 1), sampleValue "later" 61 (decimal 1 1)]

/-- The largest number cannot be recorded twice; and when the large number has left the window, the
sum of the two tenths in it is one tenth. -/
theorem sums_overflow_and_round :
    (ValueRun sumKey sumWindow (sumTrace largestValues) ∧
      ∃ x ∈ sumTrace largestValues, (x.post.valueHistory.bucketOf sumKey).runningSum = none) ∧
    ValueRun sumKey sumWindow (sumTrace mixedValues) ∧
      ∃ x ∈ sumTrace mixedValues, ∃ d, (x.post.valueHistory.bucketOf sumKey).runningSum = some d ∧
        rustDecimal.value d = 1 / 10 ∧
        rustDecimal.total (live ((1700000000 + 61) * 1000000000) sumWindow
          (distinct sumWindow (given sumKey (sumTrace mixedValues)))) = 2 / 10 := by
  refine ⟨⟨valueRun_sumTrace ?_ (by decide +kernel) (by decide +kernel),
    (sumTrace largestValues).get ⟨1, by decide⟩, List.get_mem _ _, ?_⟩,
    valueRun_sumTrace ?_ (by decide +kernel) (by decide +kernel),
    (sumTrace mixedValues).get ⟨2, by decide⟩, List.get_mem _ _, decimal 1 1, ?_,
    by decide +kernel, by decide +kernel⟩
  rotate_left
  · exact Option.isNone_iff_eq_none.1 (by decide +kernel)
  rotate_left
  · have hget : Option.get (((sumTrace mixedValues).get
        ⟨2, by decide⟩).post.valueHistory.bucketOf sumKey).runningSum (by decide +kernel) =
          decimal 1 1 := by
      decide +kernel
    rw [← hget]
    exact (Option.some_get _).symm
  · intro command hcommand
    simp only [largestValues, List.mem_cons, List.not_mem_nil, or_false] at hcommand
    rcases hcommand with rfl | rfl
    · exact ⟨"first", 0, _, by decide, rfl⟩
    · exact ⟨"second", 0, _, by decide, rfl⟩
  · intro command hcommand
    simp only [mixedValues, List.mem_cons, List.not_mem_nil, or_false] at hcommand
    rcases hcommand with rfl | rfl | rfl
    · exact ⟨"large", 0, _, by decide, rfl⟩
    · exact ⟨"small", 1, _, by decide, rfl⟩
    · exact ⟨"later", 61, _, by decide, rfl⟩

end Samples

end Ironclaw.Hooks
