import Ironclaw.Processes.Cursors
import Ironclaw.Processes.Observer

/-! # The stored cursor of an observer

Three paths advance the same cursor: batches delivered from memory, batches folded together on
the way, and pages of a replay. Each of them writes a cursor `c` over a cursor `a` that it
believes stored, once the observer has been handed every commit in between: `Extends` says so of
the journal, and `Tracks` says that the belief is right as long as the version is. -/

namespace Ironclaw.Processes

theorem InCursorOrder.past {journal more : List ProcessJournalEntry}
    (h : InCursorOrder (journal ++ more)) :
    ∀ entry ∈ journal, ∀ new ∈ more, entry.cursor < new.cursor :=
  (List.pairwise_append.mp h.increasing).2.2

/-! ### What a delivery hands over -/

/-- An observer that knows everything up to `a` knows, with the given commits, everything up to
`c`, which is the cursor of an event. -/
structure Extends (journal : List ProcessJournalEntry) (a c : ProcessJournalCursor)
    (commits : List ProcessJournalCommit) : Prop where
  le : a ≤ c
  ends : ∃ entry ∈ journal, entry.cursor = c
  covers : ∀ entry ∈ journal, a < entry.cursor → entry.cursor ≤ c →
    ∀ commit, entry.commit = some commit → commit ∈ commits

namespace Extends

variable {journal more : List ProcessJournalEntry} {a b c : ProcessJournalCursor}
  {commits others : List ProcessJournalCommit}

theorem mono (h : Extends journal a c commits) (hsub : ∀ commit ∈ commits, commit ∈ others) :
    Extends journal a c others :=
  ⟨h.le, h.ends, fun entry he ha hc commit hcommit => hsub _ (h.covers entry he ha hc commit hcommit)⟩

theorem append (h : Extends journal a c commits) (horder : InCursorOrder (journal ++ more)) :
    Extends (journal ++ more) a c commits := by
  obtain ⟨last, hlast, rfl⟩ := h.ends
  refine ⟨h.le, ⟨last, List.mem_append_left _ hlast, rfl⟩, fun entry he ha hc => ?_⟩
  rcases List.mem_append.mp he with hold | hnew
  · exact h.covers entry hold ha hc
  · exact absurd (horder.past last hlast entry hnew) (Nat.not_lt.mpr hc)

end Extends

/-- The commits of a batch are those of the events between its first and its last cursor. -/
structure CommittedBatch.Covers (journal : List ProcessJournalEntry) (batch : CommittedBatch) :
    Prop where
  ordered : batch.first ≤ batch.last
  positive : 0 < batch.first
  ends : ∃ entry ∈ journal, entry.cursor = batch.last
  covers : ∀ entry ∈ journal, batch.first ≤ entry.cursor → entry.cursor ≤ batch.last →
    ∀ commit, entry.commit = some commit → commit ∈ batch.commits

namespace CommittedBatch.Covers

variable {journal more : List ProcessJournalEntry} {batch next : CommittedBatch}

theorem append (h : batch.Covers journal) (horder : InCursorOrder (journal ++ more)) :
    batch.Covers (journal ++ more) := by
  obtain ⟨last, hlast, heq⟩ := h.ends
  refine ⟨h.ordered, h.positive, ⟨last, List.mem_append_left _ hlast, heq⟩, fun entry he ha hc => ?_⟩
  rcases List.mem_append.mp he with hold | hnew
  · exact h.covers entry hold ha hc
  · rw [← heq] at hc
    exact absurd (horder.past last hlast entry hnew) (Nat.not_lt.mpr hc)

/-- The events a transaction has just appended make up its batch. -/
theorem committed (horder : InCursorOrder (journal ++ more))
    (h : committedBatch more = some batch) : batch.Covers (journal ++ more) := by
  cases more with
  | nil => cases h
  | cons first rest =>
    have hlast := List.getLast?_eq_some_getLast (List.cons_ne_nil first rest)
    rw [committedBatch, hlast] at h
    simp only [List.head?_cons, Option.bind_eq_bind, Option.bind_some, pure,
      Option.some.injEq] at h
    subst h
    have hmem : (first :: rest).getLast (List.cons_ne_nil first rest) ∈ first :: rest :=
      List.getLast_mem _
    have hrest := (List.pairwise_append.mp horder.increasing).2.1
    refine ⟨?_, ?_, ⟨_, List.mem_append_right _ hmem, rfl⟩, fun entry he hle _ commit hc => ?_⟩
    · rcases List.mem_cons.mp hmem with heq | hmem
      · exact le_of_eq (congrArg ProcessJournalEntry.cursor heq.symm)
      · exact le_of_lt ((List.pairwise_cons.mp hrest).1 _ hmem)
    · exact (horder.numbered first (List.mem_append_right _ List.mem_cons_self)).1
    · rcases List.mem_append.mp he with hold | hnew
      · exact absurd (horder.past entry hold first List.mem_cons_self) (Nat.not_lt.mpr hle)
      · exact List.mem_filterMap.mpr ⟨entry, hnew, hc⟩

/-- A batch that starts where another ends may be folded into it. -/
theorem absorb (horder : InCursorOrder journal) (h : batch.Covers journal)
    (hnext : next.Covers journal) (hp : batch.precedes next = true) :
    (batch.absorb next).Covers journal := by
  have hfirst : saturatingAdd batch.last 1 = next.first := by simpa [precedes] using hp
  obtain ⟨last, hlast, heq⟩ := h.ends
  have hbound : batch.last ≤ u64Max := heq ▸ (horder.numbered last hlast).2
  have hle : batch.last ≤ next.first := by
    rw [← hfirst]
    exact Nat.le_min.mpr ⟨Nat.le_succ _, hbound⟩
  refine ⟨h.ordered.trans (hle.trans hnext.ordered), h.positive, hnext.ends,
    fun entry he ha hc commit hcommit => List.mem_append.mpr ?_⟩
  by_cases hold : entry.cursor ≤ batch.last
  · exact .inl (h.covers entry he ha hold commit hcommit)
  · have hge : next.first ≤ entry.cursor := by
      rw [← hfirst]
      exact saturatingAdd_one_le (Nat.not_le.mp hold)
    exact .inr (hnext.covers entry he hge hc commit hcommit)

theorem reaches (h : batch.Covers journal) {a : ProcessJournalCursor} (ha : a ≤ u64Max)
    (hfirst : saturatingAdd a 1 = batch.first) : Extends journal a batch.last batch.commits := by
  have hle : a ≤ batch.first := by
    rw [← hfirst]
    exact Nat.le_min.mpr ⟨Nat.le_succ _, ha⟩
  refine ⟨hle.trans h.ordered, h.ends, fun entry he hlt hc commit hcommit => ?_⟩
  have hge : batch.first ≤ entry.cursor := by
    rw [← hfirst]
    exact saturatingAdd_one_le hlt
  exact h.covers entry he hge hc commit hcommit

end CommittedBatch.Covers

/-! ### Pages -/

theorem untilTarget_initial (target : Option ProcessJournalCursor) :
    ∀ entries, (untilTarget target entries).1 <+: entries
  | [] => List.prefix_rfl
  | entry :: rest => by
    unfold untilTarget
    split_ifs
    · exact ⟨rest, rfl⟩
    · obtain ⟨more, hmore⟩ := untilTarget_initial target rest
      exact ⟨more, congrArg (entry :: ·) hmore⟩

theorem untilTarget_missed {target : Option ProcessJournalCursor} :
    ∀ {entries}, (untilTarget target entries).2 = false → (untilTarget target entries).1 = entries
  | [], _ => rfl
  | entry :: rest, h => by
    unfold untilTarget at h ⊢
    split_ifs at h ⊢
    exact congrArg (entry :: ·) (untilTarget_missed h)

variable {d : MaterializedRows}

/-- A journal in the order of its cursors is read as it is. -/
theorem InCursorOrder.journalAfter (h : InCursorOrder d.journal) (after : ProcessJournalCursor) :
    d.journalAfter after = d.journal.filter fun entry => after < entry.cursor := by
  unfold MaterializedRows.journalAfter
  have hfilter : (d.journal.filter fun entry => after = 0 ∨ after < entry.cursor) =
      d.journal.filter fun entry => after < entry.cursor := by
    refine List.filter_congr fun entry he => ?_
    have hpos := (h.numbered entry he).1
    by_cases hafter : after = 0
    · simp [hafter, hpos]
    · simp [hafter]
  rw [hfilter]
  refine List.Pairwise.insertionSort_eq ((h.increasing.filter _).imp fun hlt => ?_)
  exact Nat.le_of_lt hlt

theorem InCursorOrder.extends_initial {journal delivered : List ProcessJournalEntry}
    (h : InCursorOrder journal) {a : ProcessJournalCursor} {last : ProcessJournalEntry}
    (hinitial : delivered <+: journal.filter fun entry => a < entry.cursor)
    (hlast : delivered.getLast? = some last) :
    Extends journal a last.cursor (journalCommits delivered) := by
  obtain ⟨rest, hrest⟩ := hinitial
  have hsorted := h.increasing.filter fun entry => a < entry.cursor
  rw [← hrest] at hsorted
  have hcross := (List.pairwise_append.mp hsorted).2.2
  have hmem := List.mem_of_getLast? hlast
  have hfilter : last ∈ journal.filter fun entry => a < entry.cursor := by
    rw [← hrest]
    exact List.mem_append_left _ hmem
  rw [List.mem_filter, decide_eq_true_eq] at hfilter
  refine ⟨le_of_lt hfilter.2, ⟨last, hfilter.1, rfl⟩, fun entry he ha hc commit hcommit => ?_⟩
  have hin : entry ∈ delivered ++ rest := by
    rw [hrest, List.mem_filter, decide_eq_true_eq]
    exact ⟨he, ha⟩
  rcases List.mem_append.mp hin with hdelivered | hlater
  · exact List.mem_filterMap.mpr ⟨entry, hdelivered, hcommit⟩
  · exact absurd (hcross last hmem entry hlater) (Nat.not_lt.mpr hc)

/-- What a page delivers ends in the event `last`, and the next page starts there. -/
structure Delivers (target : Option ProcessJournalCursor) (page : ProcessJournalPage)
    (last : ProcessJournalEntry) : Prop where
  ends : (untilTarget target page.entries).1.getLast? = some last
  next : (untilTarget target page.entries).2 = false → page.nextCursor = last.cursor

/-- A page that delivers anything extends the cursor it was read from. -/
theorem InCursorOrder.readJournalPage (h : InCursorOrder d.journal)
    {after : Option ProcessJournalCursor} {limit : ℕ} {target : Option ProcessJournalCursor}
    (hne : (untilTarget target (d.readJournalPage after limit).entries).1 ≠ []) :
    ∃ last, Delivers target (d.readJournalPage after limit) last ∧
      Extends d.journal (after.getD 0) last.cursor
        (journalCommits (untilTarget target (d.readJournalPage after limit).entries).1) := by
  have hinitial : (d.readJournalPage after limit).entries <+:
      d.journal.filter fun entry => after.getD 0 < entry.cursor := by
    rw [← h.journalAfter]
    exact (List.take_prefix _ _).trans (List.take_prefix _ _)
  obtain ⟨last, hlast⟩ := Option.isSome_iff_exists.mp (List.getLast?_isSome.mpr hne)
  refine ⟨last, ⟨hlast, fun hmissed => ?_⟩,
    h.extends_initial ((untilTarget_initial _ _).trans hinitial) hlast⟩
  rw [untilTarget_missed hmissed] at hlast
  unfold MaterializedRows.readJournalPage at hlast ⊢
  simp only at hlast ⊢
  rw [hlast]
  rfl

/-! ### The invariant -/

/-- Versions of the cursor row in the order of its writes; an absent row comes first. -/
def age (version : Option ℕ) : ℕ := version.elim 0 (· + 1)

/-- The cached view of the cursor row is right as long as its version is, and a version that has
passed does not come back. -/
structure ObserverDeliveryState.Tracks (row : Option CursorRow) (delivery : ObserverDeliveryState) :
    Prop where
  older : age delivery.version ≤ age (row.map (·.version))
  bounded : ∀ a, delivery.acknowledged = some a → a ≤ u64Max
  current : ∀ a, delivery.acknowledged = some a → delivery.version = row.map (·.version) →
    a = (row.map (·.cursor)).getD 0

/-- What the holder of the delivery lock has established before its next call. -/
def TaskSound (journal : List ProcessJournalEntry) (handed : List ProcessJournalCommit)
    (delivery : ObserverDeliveryState) : DeliveryTask → Prop
  | .free | .readCursor _ _ => True
  | .observeBatch batch => ∃ a, delivery.acknowledged = some a ∧
      Extends journal a batch.last batch.commits
  | .acknowledgeBatch batch => ∃ a, delivery.acknowledged = some a ∧
      Extends journal a batch.last handed
  | .readPage _ after _ => delivery.acknowledged = some (after.getD 0)
  | .observePage target page _ => ∃ a last, delivery.acknowledged = some a ∧
      Delivers target page last ∧
      Extends journal a last.cursor (journalCommits (untilTarget target page.entries).1)
  | .acknowledgePage target page _ => ∃ a last, delivery.acknowledged = some a ∧
      Delivers target page last ∧ Extends journal a last.cursor handed

/-- What holds of an instance between two tasks. -/
structure StoreInstance.Ready (journal : List ProcessJournalEntry) (row : Option CursorRow)
    (inst : StoreInstance) : Prop where
  tracks : inst.delivery.Tracks row
  deliveries : ∀ batch ∈ inst.deliveries, batch.Covers journal
  batch : ∀ batch, inst.batch = some batch → batch.Covers journal

structure StoreInstance.Sound (journal : List ProcessJournalEntry) (row : Option CursorRow)
    (handed : List ProcessJournalCommit) (inst : StoreInstance) : Prop
    extends inst.Ready journal row where
  task : TaskSound journal handed inst.delivery inst.task

structure ObserverSystem.Sound (s : ObserverSystem) : Prop where
  order : InCursorOrder s.rows.journal
  reached : ∀ row, s.cursorRow = some row → ∃ entry ∈ s.rows.journal, entry.cursor = row.cursor
  handed : ∀ entry ∈ s.rows.journal, entry.cursor ≤ s.cursor →
    ∀ commit, entry.commit = some commit → commit ∈ s.handed
  instances : ∀ i, (s.instances i).Sound s.rows.journal s.cursorRow s.handed

variable {delivery : ObserverDeliveryState}

/-- A page read from the acknowledged cursor may be delivered. -/
theorem InCursorOrder.pageTask (h : InCursorOrder d.journal) {handed : List ProcessJournalCommit}
    {target after : Option ProcessJournalCursor} {limit conflicts : ℕ}
    (hack : delivery.acknowledged = some (after.getD 0)) :
    TaskSound d.journal handed delivery
      (pageTask target (d.readJournalPage after limit) conflicts) := by
  unfold Processes.pageTask
  simp only
  split_ifs with hcommits hdelivered
  · have hne : (untilTarget target (d.readJournalPage after limit).entries).1 ≠ [] := by
      intro hnil
      rw [hnil] at hcommits
      exact hcommits rfl
    obtain ⟨last, hpage, hext⟩ := h.readJournalPage hne
    exact ⟨_, last, hack, hpage, hext⟩
  · obtain ⟨last, hpage, hext⟩ := h.readJournalPage hdelivered
    rw [not_ne_iff] at hcommits
    rw [hcommits] at hext
    exact ⟨_, last, hack, hpage, hext.mono fun _ hm => absurd hm List.not_mem_nil⟩
  · trivial

theorem TaskSound.mono {journal : List ProcessJournalEntry}
    {handed more : List ProcessJournalCommit}
    {task : DeliveryTask} (h : TaskSound journal handed delivery task) :
    TaskSound journal (handed ++ more) delivery task := by
  have hsub : ∀ commit ∈ handed, commit ∈ handed ++ more :=
    fun _ hm => List.mem_append_left _ hm
  cases task with
  | free | readCursor | observeBatch | readPage | observePage => exact h
  | acknowledgeBatch batch =>
    obtain ⟨a, hack, hext⟩ := h
    exact ⟨a, hack, hext.mono hsub⟩
  | acknowledgePage target page conflicts =>
    obtain ⟨a, last, hack, hpage, hext⟩ := h
    exact ⟨a, last, hack, hpage, hext.mono hsub⟩

theorem TaskSound.append {journal more : List ProcessJournalEntry}
    {handed : List ProcessJournalCommit} {task : DeliveryTask}
    (h : TaskSound journal handed delivery task) (horder : InCursorOrder (journal ++ more)) :
    TaskSound (journal ++ more) handed delivery task := by
  cases task with
  | free | readCursor | readPage => exact h
  | observeBatch batch | acknowledgeBatch batch =>
    obtain ⟨a, hack, hext⟩ := h
    exact ⟨a, hack, hext.append horder⟩
  | observePage target page conflicts | acknowledgePage target page conflicts =>
    obtain ⟨a, last, hack, hpage, hext⟩ := h
    exact ⟨a, last, hack, hpage, hext.append horder⟩

namespace StoreInstance.Sound

variable {journal more : List ProcessJournalEntry} {row : Option CursorRow}
  {handed : List ProcessJournalCommit} {inst : StoreInstance}

theorem idle : ({} : StoreInstance).Sound journal row handed where
  tracks := ⟨Nat.zero_le _, by simp, by simp⟩
  deliveries := by simp
  batch := by simp
  task := trivial

theorem begin {next : StoreInstance} (h : inst.Ready journal row)
    (hview : next.delivery = inst.delivery) (hqueue : next.deliveries = inst.deliveries)
    (hbatch : next.batch = inst.batch) (htask : TaskSound journal handed inst.delivery next.task) :
    next.Sound journal row handed where
  tracks := by rw [hview]; exact h.tracks
  deliveries := by rw [hqueue]; exact h.deliveries
  batch := by rw [hbatch]; exact h.batch
  task := by rw [hview]; exact htask

theorem fail (h : inst.Ready journal row) : inst.fail.Sound journal row handed :=
  begin h rfl rfl rfl trivial

variable (h : inst.Sound journal row handed)
include h

/-- A batch is delivered from memory if it comes directly after the acknowledged cursor. -/
theorem deliver {batch : CommittedBatch}
    (hbatch : batch.Covers journal) (hfree : inst.task = .free) :
    (inst.deliverCommittedBatch batch).Sound journal row handed := by
  unfold deliverCommittedBatch
  split_ifs with hcontiguous
  · refine ⟨⟨h.tracks, h.deliveries, by simp⟩, ?_⟩
    obtain ⟨a, hack, hfirst⟩ : ∃ a, inst.delivery.acknowledged = some a ∧
        saturatingAdd a 1 = batch.first := by simpa [Option.any_eq_true] using hcontiguous
    have hext := hbatch.reaches (h.tracks.bounded a hack) hfirst
    show TaskSound _ _ _ (batchTask batch)
    unfold batchTask
    split_ifs with hempty
    · rw [hempty] at hext
      exact ⟨a, hack, hext.mono fun _ hm => absurd hm List.not_mem_nil⟩
    · exact ⟨a, hack, hext⟩
  · exact ⟨⟨h.tracks, h.deliveries, by simp⟩, hfree ▸ trivial⟩

theorem mono (others : List ProcessJournalCommit) : inst.Sound journal row (handed ++ others) :=
  ⟨h.toReady, h.task.mono⟩

theorem append (horder : InCursorOrder (journal ++ more)) :
    inst.Sound (journal ++ more) row handed where
  tracks := h.tracks
  deliveries := fun batch hb => (h.deliveries batch hb).append horder
  batch := fun batch hb => (h.batch batch hb).append horder
  task := h.task.append horder

/-- A write of the cursor row leaves every view right or out of date. -/
theorem write {next : CursorRow} (hage : age (row.map (·.version)) < age (some next.version)) :
    inst.Sound journal (some next) handed where
  tracks :=
    { older := h.tracks.older.trans (le_of_lt hage)
      bounded := h.tracks.bounded
      current := fun a _ hversion => by
        have hlt := h.tracks.older.trans_lt hage
        rw [hversion] at hlt
        exact absurd hlt (Nat.lt_irrefl _) }
  deliveries := h.deliveries
  batch := h.batch
  task := h.task

omit h

end StoreInstance.Sound

namespace ObserverSystem

variable {s s' : ObserverSystem} {i : ℕ} {c : ProcessJournalCursor}

theorem putCursor_some {expected : Option ℕ} {row : CursorRow}
    (h : s.putCursor c expected = some row) :
    s.cursorRow.map (·.version) = expected ∧ row.cursor = c ∧
      age expected < age (some row.version) := by
  unfold putCursor at h
  split_ifs at h with hversion
  rw [Option.some.injEq] at h
  subst h
  refine ⟨hversion, rfl, ?_⟩
  cases expected with
  | none => exact Nat.zero_lt_succ _
  | some v => exact Nat.lt_succ_self _

namespace Sound

variable (h : s.Sound)
include h

theorem cursor_le : s.cursor ≤ u64Max := by
  unfold cursor
  cases hrow : s.cursorRow with
  | none => exact Nat.zero_le _
  | some row =>
    obtain ⟨entry, hentry, heq⟩ := h.reached row hrow
    show row.cursor ≤ u64Max
    rw [← heq]
    exact (h.order.numbered entry hentry).2

theorem cursor_lt {more : List ProcessJournalEntry}
    (horder : InCursorOrder (s.rows.journal ++ more)) {entry : ProcessJournalEntry}
    (hentry : entry ∈ more) : s.cursor < entry.cursor := by
  unfold cursor
  cases hrow : s.cursorRow with
  | none => exact (horder.numbered entry (List.mem_append_right _ hentry)).1
  | some row =>
    obtain ⟨last, hlast, heq⟩ := h.reached row hrow
    show row.cursor < entry.cursor
    rw [← heq]
    exact horder.past last hlast entry hentry

theorem set {inst : StoreInstance}
    (hinst : inst.Sound s.rows.journal s.cursorRow s.handed) : (s.setInstance i inst).Sound where
  order := h.order
  reached := h.reached
  handed := h.handed
  instances := fun j => by
    show (if j = i then inst else s.instances j).Sound _ _ _
    split_ifs
    · exact hinst
    · exact h.instances j

theorem hand (commits : List ProcessJournalCommit) :
    { s with handed := s.handed ++ commits }.Sound where
  order := h.order
  reached := h.reached
  handed := fun entry he hle commit hc => List.mem_append_left _ (h.handed entry he hle commit hc)
  instances := fun j => (h.instances j).mono commits

/-- A write of the cursor over the one it extends. -/
theorem write {a : ProcessJournalCursor} {row : CursorRow}
    (hack : (s.instances i).delivery.acknowledged = some a)
    (hput : s.putCursor c (s.instances i).delivery.version = some row)
    (hext : Extends s.rows.journal a c s.handed) :
    { s with cursorRow := some row }.Sound ∧ s.cursor ≤ row.cursor := by
  obtain ⟨hversion, hcursor, hage⟩ := putCursor_some hput
  have ha : a = s.cursor := (h.instances i).tracks.current a hack hversion.symm
  subst hcursor
  refine ⟨⟨h.order, ?_, ?_, fun j => (h.instances j).write (hversion ▸ hage)⟩, ha ▸ hext.le⟩
  · intro row' hrow'
    rw [Option.some.injEq] at hrow'
    subst hrow'
    exact hext.ends
  · intro entry he hle commit hc
    by_cases hold : entry.cursor ≤ a
    · exact h.handed entry he (ha ▸ hold) commit hc
    · exact hext.covers entry he (Nat.not_le.mp hold) hle commit hc

/-- The write of the cursor by the holder of the lock, however it ends. -/
theorem acknowledge {a : ProcessJournalCursor}
    (hack : (s.instances i).delivery.acknowledged = some a)
    (hext : Extends s.rows.journal a c s.handed) {landed conflict : StoreInstance → StoreInstance}
    (hlanded : ∀ row x, x.delivery.acknowledged = some c → x.Ready s.rows.journal row →
      (landed x).Sound s.rows.journal row s.handed)
    (hconflict : ∀ x, x.Ready s.rows.journal s.cursorRow →
      (conflict x).Sound s.rows.journal s.cursorRow s.handed) (outcome : CallOutcome) :
    (s.acknowledgeObserverCursor i c landed conflict outcome).Sound ∧
      s.cursor ≤ (s.acknowledgeObserverCursor i c landed conflict outcome).cursor := by
  have hbound : c ≤ u64Max := by
    obtain ⟨entry, hentry, rfl⟩ := hext.ends
    exact (h.order.numbered entry hentry).2
  have hinst := h.instances i
  cases outcome with
  | error => exact ⟨h.set (.fail hinst.toReady), le_rfl⟩
  | ok =>
    unfold acknowledgeObserverCursor
    cases hput : s.putCursor c (s.instances i).delivery.version with
    | none =>
      exact ⟨h.set (hconflict _ ⟨⟨Nat.zero_le _, by simp, by simp⟩, hinst.deliveries,
        hinst.batch⟩), le_rfl⟩
    | some row =>
      obtain ⟨hwritten, hle⟩ := h.write hack hput hext
      have hcursor : row.cursor = c := (putCursor_some hput).2.1
      refine ⟨hwritten.set (hlanded _ _ rfl ⟨⟨le_rfl, ?_, ?_⟩, hinst.deliveries,
        hinst.batch⟩), hle⟩
      · rintro a' ⟨⟩
        exact hbound
      · rintro a' ⟨⟩ -
        exact hcursor.symm
  | lost =>
    unfold acknowledgeObserverCursor
    cases hput : s.putCursor c (s.instances i).delivery.version with
    | none => exact ⟨h.set (.fail hinst.toReady), le_rfl⟩
    | some row =>
      obtain ⟨hwritten, hle⟩ := h.write hack hput hext
      exact ⟨hwritten.set (.fail (hwritten.instances i).toReady), hle⟩

theorem proceed {outcome : CallOutcome} (hs : s.proceed i outcome = some s') :
    s'.Sound ∧ s.cursor ≤ s'.cursor := by
  have hinst := h.instances i
  have htask := hinst.task
  have hfail : (s.setInstance i (s.instances i).fail).Sound := h.set (.fail hinst.toReady)
  unfold ObserverSystem.proceed at hs
  generalize hcurrent : (s.instances i).task = task at hs htask
  cases task with
  | free => cases hs
  | observeBatch batch =>
    obtain ⟨a, hack, hext⟩ := htask
    cases outcome with
    | ok =>
      rw [Option.some.injEq] at hs
      subst hs
      have hhanded := h.hand batch.commits
      refine ⟨hhanded.set (.begin (hhanded.instances i).toReady rfl rfl rfl ⟨a, hack, ?_⟩),
        le_rfl⟩
      exact hext.mono fun _ hm => List.mem_append_right _ hm
    | error | lost =>
      rw [Option.some.injEq] at hs
      subst hs
      exact ⟨hfail, le_rfl⟩
  | acknowledgeBatch batch =>
    obtain ⟨a, hack, hext⟩ := htask
    rw [Option.some.injEq] at hs
    subst hs
    refine h.acknowledge hack hext (fun _ _ _ hx => ?_) (fun _ hx => ?_) outcome
    · exact .begin hx rfl rfl rfl trivial
    · exact .begin hx rfl rfl rfl trivial
  | readCursor target conflicts =>
    cases outcome with
    | ok =>
      rw [Option.some.injEq] at hs
      subst hs
      refine ⟨h.set ⟨⟨⟨le_rfl, ?_, ?_⟩, hinst.deliveries, hinst.batch⟩, rfl⟩, le_rfl⟩
      · rintro a ⟨⟩
        exact h.cursor_le
      · rintro a ⟨⟩ -
        rfl
    | error | lost =>
      rw [Option.some.injEq] at hs
      subst hs
      exact ⟨hfail, le_rfl⟩
  | readPage target after conflicts =>
    simp only at hs
    split_ifs at hs
    · rw [Option.some.injEq] at hs
      subst hs
      exact ⟨h.set (.begin hinst.toReady rfl rfl rfl trivial), le_rfl⟩
    · cases outcome with
      | ok =>
        rw [Option.some.injEq] at hs
        subst hs
        refine ⟨h.set (.begin hinst.toReady rfl rfl rfl ?_), le_rfl⟩
        exact h.order.pageTask htask
      | error | lost =>
        rw [Option.some.injEq] at hs
        subst hs
        exact ⟨hfail, le_rfl⟩
  | observePage target page conflicts =>
    obtain ⟨a, last, hack, hpage, hext⟩ := htask
    cases outcome with
    | ok =>
      rw [Option.some.injEq] at hs
      subst hs
      have hhanded := h.hand (journalCommits (untilTarget target page.entries).1)
      refine ⟨hhanded.set (.begin (hhanded.instances i).toReady rfl rfl rfl
        ⟨a, last, hack, hpage, ?_⟩), le_rfl⟩
      exact hext.mono fun _ hm => List.mem_append_right _ hm
    | error | lost =>
      rw [Option.some.injEq] at hs
      subst hs
      exact ⟨hfail, le_rfl⟩
  | acknowledgePage target page conflicts =>
    obtain ⟨a, last, hack, hpage, hext⟩ := htask
    simp only [hpage.ends, Option.some.injEq] at hs
    subst hs
    refine h.acknowledge hack hext (fun _ x hcached hx => ?_) (fun x hx => ?_) outcome
    · refine .begin hx rfl rfl rfl ?_
      show TaskSound _ _ _ (afterPage target page)
      unfold afterPage
      split_ifs with hdone
      · trivial
      · rw [Bool.or_eq_true, not_or, Bool.not_eq_true] at hdone
        rw [hpage.next hdone.1]
        exact hcached
    · show (afterConflict target conflicts x).Sound _ _ _
      unfold afterConflict
      split_ifs
      · exact .fail hx
      · exact .begin hx rfl rfl rfl trivial

theorem commit {batch : List StoredProcessCommand} {answers : List CommandAnswer}
    {rows : MaterializedRows} (hcommit : s.rows.commitPending batch = .ok (answers, rows))
    (horder : InCursorOrder rows.journal) {delivery : Option CommittedBatch}
    (hdelivery : ∀ b, delivery = some b → committedBatch (s.rows.recorded batch) = some b) :
    ({ s with rows }.setInstance i { s.instances i with
      deliveries := (s.instances i).deliveries ++ delivery.toList }).Sound := by
  have hjournal : rows.journal = s.rows.journal ++ s.rows.recorded batch :=
    MaterializedRows.commitPending_journal hcommit
  rw [hjournal] at horder
  have hsound : { s with rows }.Sound := by
    refine ⟨hjournal ▸ horder, fun row hrow => ?_, fun entry he hle => ?_, fun j => ?_⟩
    · obtain ⟨entry, hentry, heq⟩ := h.reached row hrow
      exact ⟨entry, hjournal ▸ List.mem_append_left _ hentry, heq⟩
    · rcases List.mem_append.mp (hjournal ▸ he) with hold | hnew
      · exact h.handed entry hold hle
      · -- the cursor stands at an event that was there before
        exact absurd hle (Nat.not_le.mpr (h.cursor_lt horder hnew))
    · show (s.instances j).Sound rows.journal s.cursorRow s.handed
      rw [hjournal]
      exact (h.instances j).append horder
  have hinst := hsound.instances i
  refine hsound.set ⟨⟨hinst.tracks, fun b hb => ?_, hinst.batch⟩, hinst.task⟩
  rcases List.mem_append.mp hb with hold | hnew
  · exact hinst.deliveries b hold
  · rw [Option.mem_toList] at hnew
    show b.Covers rows.journal
    rw [hjournal]
    exact .committed horder (hdelivery b hnew)

/-- Every event keeps the invariant, and the stored cursor does not decrease. -/
theorem next {event : ObserverEvent} (hs : s.next event = some s')
    (horder : InCursorOrder s'.rows.journal) : s'.Sound ∧ s.cursor ≤ s'.cursor := by
  cases event with
  | commit i batch observed =>
    simp only [ObserverSystem.next] at hs
    split at hs
    · cases hs
    · next answers rows hcommit =>
        rw [Option.some.injEq] at hs
        subst hs
        refine ⟨h.commit hcommit horder fun b hb => ?_, le_rfl⟩
        cases observed with
        | true => exact hb
        | false => cases hb
  | receive i =>
    have hinst := h.instances i
    simp only [ObserverSystem.next] at hs
    split at hs
    · next batch rest hnone hqueue =>
        rw [Option.some.injEq] at hs
        subst hs
        refine ⟨h.set ⟨⟨hinst.tracks, fun b hb => ?_, ?_⟩, hinst.task⟩, le_rfl⟩
        · exact hinst.deliveries b (hqueue ▸ List.mem_cons_of_mem _ hb)
        · rintro b ⟨⟩
          exact hinst.deliveries batch (hqueue ▸ List.mem_cons_self)
    · cases hs
  | absorb i =>
    have hinst := h.instances i
    simp only [ObserverSystem.next] at hs
    split at hs
    · next batch following rest hbatch hqueue =>
        split_ifs at hs with hp
        rw [Option.some.injEq] at hs
        subst hs
        refine ⟨h.set ⟨⟨hinst.tracks, fun b hb => ?_, ?_⟩, hinst.task⟩, le_rfl⟩
        · exact hinst.deliveries b (hqueue ▸ List.mem_cons_of_mem _ hb)
        · rintro b ⟨⟩
          exact (hinst.batch batch hbatch).absorb h.order
            (hinst.deliveries following (hqueue ▸ List.mem_cons_self)) hp
    · cases hs
  | deliver i =>
    have hinst := h.instances i
    simp only [ObserverSystem.next] at hs
    split at hs
    · next batch htask hbatch =>
        rw [Option.some.injEq] at hs
        subst hs
        exact ⟨h.set (hinst.deliver (hinst.batch batch hbatch) htask), le_rfl⟩
    · cases hs
  | subscribe i =>
    rw [ObserverSystem.next, Option.some.injEq] at hs
    subst hs
    exact ⟨h.set (.begin (h.instances i).toReady rfl rfl rfl (h.instances i).task), le_rfl⟩
  | replay i target =>
    simp only [ObserverSystem.next] at hs
    split_ifs at hs
    rw [Option.some.injEq] at hs
    subst hs
    exact ⟨h.set (.begin (h.instances i).toReady rfl rfl rfl trivial), le_rfl⟩
  | giveUp i target =>
    rw [ObserverSystem.next, Option.some.injEq] at hs
    subst hs
    exact ⟨h.set (.begin (h.instances i).toReady rfl rfl rfl (h.instances i).task), le_rfl⟩
  | proceed i outcome => exact h.proceed hs
  | restart i =>
    rw [ObserverSystem.next, Option.some.injEq] at hs
    subst hs
    exact ⟨h.set .idle, le_rfl⟩

omit h

theorem start {d : MaterializedRows} (hd : InCursorOrder d.journal) : (start d).Sound where
  order := hd
  reached := by simp [ObserverSystem.start]
  handed := fun entry he hle => absurd hle (Nat.not_le.mpr (hd.numbered entry he).1)
  instances := fun _ => .idle

end Sound

theorem advance_step (s : ObserverSystem) (event : ObserverEvent) :
    advance step s event = (s.next event).getD s := by
  unfold advance step
  cases s.next event <;> rfl

end ObserverSystem

def ObserverEvent.commands : ObserverEvent → List StoredProcessCommand
  | .commit _ batch _ => batch
  | _ => []

namespace ObserverSystem

variable {s s' : ObserverSystem}

theorem acknowledgeObserverCursor_rows (s : ObserverSystem) (i : ℕ) (c : ProcessJournalCursor)
    (landed conflict : StoreInstance → StoreInstance) (outcome : CallOutcome) :
    (s.acknowledgeObserverCursor i c landed conflict outcome).rows = s.rows := by
  cases outcome with
  | ok =>
    unfold acknowledgeObserverCursor
    cases s.putCursor c (s.instances i).delivery.version <;> rfl
  | error | lost => rfl

theorem proceed_rows {i : ℕ} {outcome : CallOutcome} (h : s.proceed i outcome = some s') :
    s'.rows = s.rows := by
  unfold proceed at h
  split at h
  · cases h
  · split at h <;> exact Option.some.inj h ▸ rfl
  · exact Option.some.inj h ▸ acknowledgeObserverCursor_rows _ _ _ _ _ _
  · split at h <;> exact Option.some.inj h ▸ rfl
  · split at h
    · exact Option.some.inj h ▸ rfl
    · split at h <;> exact Option.some.inj h ▸ rfl
  · split at h <;> exact Option.some.inj h ▸ rfl
  · split at h
    · cases h
    · exact Option.some.inj h ▸ acknowledgeObserverCursor_rows _ _ _ _ _ _

/-- An event changes the stored rows by committing its commands, if at all. -/
theorem next_rows {event : ObserverEvent} (h : s.next event = some s') :
    s'.rows = s.rows ∨ ∃ answers, s.rows.commitPending event.commands = .ok (answers, s'.rows) := by
  cases event with
  | commit i batch observed =>
    simp only [next] at h
    split at h
    · cases h
    · next answers rows hcommit =>
        rw [Option.some.injEq] at h
        subst h
        exact .inr ⟨answers, hcommit⟩
  | proceed i outcome => exact .inl (proceed_rows h)
  | receive i | deliver i =>
    simp only [next] at h
    split at h
    · exact .inl (Option.some.inj h ▸ rfl)
    · cases h
  | absorb i =>
    simp only [next] at h
    split at h
    · split_ifs at h
      exact .inl (Option.some.inj h ▸ rfl)
    · cases h
  | replay i target =>
    simp only [next] at h
    split_ifs at h
    exact .inl (Option.some.inj h ▸ rfl)
  | subscribe i | giveUp i target | restart i => exact .inl (Option.some.inj h ▸ rfl)

/-- Without imports, events become visible in the order of their cursors. -/
theorem run_visible {d : MaterializedRows} {history : List ObserverStep}
    (run : ObserverRun d history s) (hd : d.CursorsInOrder)
    (hall : ∀ x ∈ history, ∀ c ∈ x.command.commands, c.isImport = false) :
    ∀ x ∈ history, InCursorOrder x.post.rows.journal := by
  have h := run.induct_history (I := fun history s => s.rows.CursorsInOrder ∧
      ∀ x ∈ history, InCursorOrder x.post.rows.journal)
    (A := fun event => ∀ c ∈ event.commands, c.isImport = false) ⟨hd, by simp⟩ ?_ ?_ hall
  · exact h.2
  · rintro history s _ rfl h
    exact h
  · intro history s event hevent h
    have hnew : (advance step s event).rows.CursorsInOrder := by
      rw [advance_step]
      cases hnext : s.next event with
      | none => exact h.1
      | some s' =>
        show s'.rows.CursorsInOrder
        rcases next_rows hnext with hsame | ⟨answers, hcommit⟩
        · rw [hsame]
          exact h.1
        · rw [← advance_of_ok hcommit]
          exact h.1.afterBatch hevent
    simp only [List.forall_mem_append, List.forall_mem_singleton]
    exact ⟨hnew, h.2, hnew.order⟩

end ObserverSystem

/-- **Durable delivery.**  In every run in which events become visible in the order of their
cursors, the stored cursor never decreases, and every event at or below it that carries committed
state has been handed to the observer by a callback that succeeded. Every event that a batch
without imports has recorded carries it, with the cursor of the event. -/
theorem observer_cursor_sound {d : MaterializedRows} {history : List ObserverStep}
    {s : ObserverSystem} (run : ObserverRun d history s) (hstart : InCursorOrder d.journal)
    (hvisible : ∀ x ∈ history, InCursorOrder x.post.rows.journal) :
    (∀ x ∈ history, x.pre.cursor ≤ x.post.cursor) ∧
    (∀ entry ∈ s.rows.journal, entry.cursor ≤ s.cursor →
      ∀ commit, entry.commit = some commit → commit ∈ s.handed) ∧
    ((∀ x ∈ history, ∀ c ∈ x.command.commands, c.isImport = false) →
      ∀ entry ∈ s.rows.journal, entry ∈ d.journal ∨ ∃ commit, entry.commit = some commit ∧
        commit.state.journalCursor = entry.cursor) := by
  suffices h : (∀ x ∈ history, x.pre.cursor ≤ x.post.cursor) ∧ s.Sound ∧
      ((∀ x ∈ history, ∀ c ∈ x.command.commands, c.isImport = false) →
        ∀ entry ∈ s.rows.journal, entry ∈ d.journal ∨ ∃ commit, entry.commit = some commit ∧
          commit.state.journalCursor = entry.cursor) from ⟨h.1, h.2.1.handed, h.2.2⟩
  induction run with
  | nil => exact ⟨by simp, .start hstart, fun _ entry he => .inl he⟩
  | @snoc history s s₀ event hrun hsame ih =>
    subst hsame
    simp only [List.forall_mem_append, List.forall_mem_singleton] at hvisible ⊢
    obtain ⟨hmono, hsound, hstates⟩ := ih hvisible.1
    rw [ObserverSystem.advance_step] at hvisible ⊢
    cases hnext : s.next event with
    | none =>
      refine ⟨⟨hmono, le_rfl⟩, hsound, fun hall => ?_⟩
      exact hstates hall.1
    | some s' =>
      rw [hnext] at hvisible
      obtain ⟨hsound', hle⟩ := hsound.next hnext hvisible.2
      refine ⟨⟨hmono, hle⟩, hsound', fun hall entry he => ?_⟩
      rcases ObserverSystem.next_rows hnext with hrows | ⟨answers, hcommit⟩
      · exact hstates hall.1 entry (hrows ▸ he)
      · rw [show (some s').getD s = s' from rfl,
          MaterializedRows.commitPending_journal hcommit] at he
        rcases List.mem_append.mp he with hold | hnew
        · exact hstates hall.1 entry hold
        · obtain ⟨state, hstate, hcursor⟩ :=
            MaterializedRows.recorded_states hall.2 entry hnew
          exact .inr ⟨_, congrArg _ hstate, hcursor⟩

namespace Sample

/-- The instance 0 replays the empty journal, commits a process and delivers it from memory. -/
def deliveredFromMemory : List ObserverEvent :=
  [.subscribe 0, .replay 0 none, .proceed 0 .ok, .proceed 0 .ok,
    .commit 0 [.submit (submission 1)] true, .receive 0, .deliver 0, .proceed 0 .ok, .proceed 0 .ok]

/-- An event of an older journal, without the state committed with it. -/
def olderEntry : ProcessJournalEntry :=
  { ProcessJournalEntry.fromSnapshot (queuedSnapshot (submission 1) 1) 1 .submitted with
    committedState := none }

/-- A store that was initialized from the older journal. -/
def olderRows : MaterializedRows :=
  { MaterializedRows.empty with journal := [olderEntry], sequence := 1 }

/-- An instance that comes up and replays the journal. -/
def replayed : List ObserverEvent :=
  [.subscribe 0, .replay 0 none, .proceed 0 .ok, .proceed 0 .ok, .proceed 0 .ok]

end Sample

open Sample

theorem delivered_from_memory :
    let s := deliveredFromMemory.foldl (advance ObserverSystem.step) (.start .empty)
    s.cursor = 1 ∧ ∀ entry ∈ s.rows.journal, ∃ commit, entry.commit = some commit ∧
      commit ∈ s.handed := by
  intro s
  have run : ObserverRun .empty _ s := Run.of_commands (fun _ => rfl) deliveredFromMemory _
  have hall : ∀ x ∈ Run.trace ObserverSystem.step (.start .empty) deliveredFromMemory,
      ∀ c ∈ x.command.commands, c.isImport = false :=
    Run.trace_forall (A := fun event : ObserverEvent => ∀ c ∈ event.commands, c.isImport = false) _ _
      (by simp [deliveredFromMemory, ObserverEvent.commands, StoredProcessCommand.isImport])
  have hvisible := ObserverSystem.run_visible run MaterializedRows.cursorsInOrder_empty hall
  obtain ⟨-, hhanded, hstates⟩ :=
    observer_cursor_sound run MaterializedRows.cursorsInOrder_empty.order hvisible
  refine ⟨by decide, fun entry he => ?_⟩
  have hle : ∀ entry ∈ s.rows.journal, entry.cursor ≤ s.cursor := by decide
  rcases hstates hall entry he with hnone | ⟨commit, hcommit, -⟩
  · cases hnone
  · exact ⟨commit, hcommit, hhanded entry he (hle entry he) commit hcommit⟩

/-- The replay of an older journal moves the cursor past an event that nobody is handed. -/
theorem older_entry_passed_over : ∃ d history s, ObserverRun d history s ∧
    InCursorOrder d.journal ∧ (∀ x ∈ history, InCursorOrder x.post.rows.journal) ∧
    ∃ entry ∈ s.rows.journal, entry.cursor ≤ s.cursor ∧ s.handed = [] := by
  have horder : InCursorOrder [olderEntry] := ⟨List.pairwise_singleton _ _, by decide⟩
  have hrows : ∀ x ∈ Run.trace ObserverSystem.step (.start olderRows) replayed,
      x.post.rows.journal = [olderEntry] := by decide
  refine ⟨olderRows, _, _, Run.of_commands (fun _ => rfl) replayed _, horder, fun x hx => ?_,
    olderEntry, ?_, ?_, ?_⟩
  · rw [hrows x hx]
    exact horder
  · decide
  · decide
  · decide

end Ironclaw.Processes
