import Ironclaw.Lib.Paging
import Ironclaw.Events.Appends
import Ironclaw.Events.InMemoryLog

/-! # Replay

Both logs read a stream by passing over it once, the filesystem log page by page (`readPages_eq`).
They differ in the cursor they return after trailing records that do not match, and in what they
hold: the in-memory log the event as it was given, the filesystem log its redacted form. -/

namespace Ironclaw.Events

open Ironclaw.Filesystem

/-- The entries a reader with the filter sees. -/
def visible (filter : ReadScope) (entry : EventLogEntry RuntimeEvent) : Bool :=
  filter.matchesEvent entry.record

/-! ### The filesystem log -/

/-- The entry that a stored record is read as. -/
def entryOf (record : EventRecord) : EventLogEntry RuntimeEvent :=
  ⟨record.seq, record.payload.redact⟩

/-- The backend holds the cursor. -/
def Representable (backend : EventBackend) (cursor : ℕ) : Prop :=
  backend = .inMemory ∨ cursor ≤ EventTable.i64Max

theorem cursorInRange_eq_ok {backend : EventBackend} {path : VirtualPath}
    {operation : FilesystemOperation} {cursor : ℕ} :
    EventTable.cursorInRange backend path operation cursor = .ok () ↔ Representable backend cursor := by
  cases backend <;> simp [EventTable.cursorInRange, Representable]

theorem cursorInRange_eq_error {backend : EventBackend} {path : VirtualPath}
    {operation : FilesystemOperation} {cursor : ℕ} (h : ¬ Representable backend cursor) :
    ∃ reason, EventTable.cursorInRange backend path operation cursor =
      .error (.backend path operation reason) := by
  obtain ⟨hbackend, hlarge⟩ := not_or.1 h
  cases backend with
  | inMemory => exact absurd rfl hbackend
  | libSql => exact ⟨_, rejectIf_eq_error.2 ⟨not_le.1 hlarge, rfl⟩⟩
  | postgres => exact ⟨_, rejectIf_eq_error.2 ⟨not_le.1 hlarge, rfl⟩⟩

/-- The records of a path after a sequence number. -/
def recordsAfter (log : FilesystemDurableEventLog) (target : VirtualPath) (start : ℕ) :
    List EventRecord :=
  (log.table.recordsAt target).filter fun record => decide (start < record.seq)

namespace FilesystemDurableEventLog

def entriesAt (log : FilesystemDurableEventLog) (target : VirtualPath) :
    List (EventLogEntry RuntimeEvent) :=
  (log.table.recordsAt target).map entryOf

/-- What a stream needs to be read: its path leads to `target`, and its records decode. -/
structure Readable (log : FilesystemDurableEventLog) (path : ScopedPath) (target : VirtualPath) :
    Prop where
  resolves : resolveWithPermissionView eventsView path .tail = .ok target
  decodes : ∀ record ∈ log.table.recordsAt target, record.payload.revalidate = .ok ()
  sorted : (log.table.recordsAt target).Pairwise fun a b => a.seq < b.seq
  fits : ∀ record ∈ log.table.recordsAt target, Representable log.backend record.seq

variable {log : FilesystemDurableEventLog} {path : ScopedPath} {target : VirtualPath}
  {filter : ReadScope} {limit : ℕ}

theorem entriesAt_after (start : ℕ) :
    (log.entriesAt target).filter (fun entry => decide (start < entry.cursor)) =
      (recordsAfter log target start).map entryOf := by
  rw [entriesAt, List.filter_map]
  rfl

theorem entriesAt_sorted (h : Readable log path target) :
    (log.entriesAt target).Pairwise (·.cursor < ·.cursor) :=
  List.pairwise_map.2 h.sorted

theorem tail_eq (h : Readable log path target) {start maxRecords : ℕ}
    (hstart : Representable log.backend start) (hmax : 0 < maxRecords) :
    log.tail path start maxRecords = .ok ((recordsAfter log target start).take maxRecords) := by
  rw [tail, h.resolves]
  dsimp only
  rw [EventTable.tailBounded, if_neg hmax.ne', cursorInRange_eq_ok.2 hstart]
  rfl

theorem scanPage_eq : ∀ (records : List EventRecord)
    (acc : List (EventLogEntry RuntimeEvent) × EventCursor),
    (∀ record ∈ records, record.payload.revalidate = .ok ()) →
    scanPage filter limit records acc =
      .ok (scan EventLogEntry.cursor (visible filter) limit (records.map entryOf) acc)
  | [], _, _ => rfl
  | record :: rest, (entries, last), h => by
    obtain ⟨hfirst, hrest⟩ := List.forall_mem_cons.1 h
    have hdecoded : runtimeEventFromTrustedJson record.payload = .ok record.payload.redact := by
      rw [runtimeEventFromTrustedJson, hfirst]
      rfl
    rw [scanPage, hdecoded, List.map_cons, scan]
    dsimp only
    by_cases hmatch : visible filter (entryOf record) = true
    · rw [if_pos hmatch, if_pos (show filter.matchesEvent record.payload.redact = true from hmatch)]
      by_cases hfull : limit ≤ (entries ++ [entryOf record]).length
      · rw [if_pos hfull]
        exact if_pos hfull
      · rw [if_neg hfull, ← scanPage_eq rest _ hrest]
        exact if_neg hfull
    · rw [if_neg hmatch, if_neg (show ¬ filter.matchesEvent record.payload.redact = true from hmatch)]
      exact scanPage_eq rest _ hrest

/-- The records after the last one of a page are the rest. -/
theorem recordsAfter_last (h : Readable log path target) {start : ℕ} {page rest : List EventRecord}
    {last : EventRecord} (hsplit : recordsAfter log target start = page ++ [last] ++ rest) :
    recordsAfter log target last.seq = rest := by
  have hsorted : (page ++ [last] ++ rest).Pairwise fun a b => a.seq < b.seq := by
    rw [← hsplit]
    exact h.sorted.filter _
  have hlast : start < last.seq := by
    have hmem : last ∈ recordsAfter log target start := by rw [hsplit]; simp
    exact of_decide_eq_true (List.mem_filter.1 hmem).2
  have hagain : recordsAfter log target last.seq =
      (recordsAfter log target start).filter fun record => decide (last.seq < record.seq) := by
    rw [recordsAfter, recordsAfter, List.filter_filter]
    refine List.filter_congr fun record _ => ?_
    rw [Bool.eq_iff_iff, Bool.and_eq_true, decide_eq_true_iff, decide_eq_true_iff]
    exact ⟨fun hlt => ⟨hlt, hlast.trans hlt⟩, And.left⟩
  rw [hagain, hsplit]
  exact filter_after_eq hsorted

theorem tailScanPageLimit_pos (remaining : ℕ) : 0 < tailScanPageLimit remaining :=
  lt_of_lt_of_le (by decide) (le_max_right _ eventTailScanPageMin)

theorem readPages_of_nil (h : Readable log path target) {after fuel : ℕ}
    (hrange : Representable log.backend after) (hpositive : 0 < after)
    (hnil : recordsAfter log target after = []) :
    log.readPages path filter after limit (fuel + 1) true ([], after) = log.probeHead path after := by
  rw [readPages]
  dsimp only
  rw [tail_eq h hrange (tailScanPageLimit_pos _), hnil, List.take_nil]
  dsimp only
  rw [decide_eq_true hpositive, Bool.and_true, if_pos rfl]

/-- The pages together are one pass over the records after the cursor. -/
theorem readPages_eq (h : Readable log path target) (after : EventCursor) :
    ∀ (fuel : ℕ) (firstScan : Bool) (acc : List (EventLogEntry RuntimeEvent) × EventCursor),
      Representable log.backend acc.2 → acc.1.length < limit →
      (recordsAfter log target acc.2).length < fuel →
      (firstScan = true → 0 < after → recordsAfter log target acc.2 ≠ []) →
      log.readPages path filter after limit fuel firstScan acc =
        .ok (finish (scan EventLogEntry.cursor (visible filter) limit
          ((recordsAfter log target acc.2).map entryOf) acc))
  | 0, _, _, _, _, hfuel, _ => absurd hfuel (Nat.not_lt_zero _)
  | fuel + 1, firstScan, acc, hrange, hroom, hfuel, hfirst => by
    have hpositive := tailScanPageLimit_pos (limit - acc.1.length)
    rw [readPages, tail_eq h hrange hpositive]
    generalize tailScanPageLimit (limit - acc.1.length) = pageLimit at hpositive ⊢
    have hsplit := List.take_append_drop pageLimit (recordsAfter log target acc.2)
    cases hpage : (recordsAfter log target acc.2).take pageLimit with
    | nil =>
      have hnil : recordsAfter log target acc.2 = [] :=
        (List.take_eq_nil_iff.1 hpage).resolve_left hpositive.ne'
      have hskip : (firstScan && decide (0 < after)) = false := by
        rw [← Bool.not_eq_true, Bool.and_eq_true, decide_eq_true_iff]
        exact fun ⟨hscan, hafter⟩ => hfirst hscan hafter hnil
      dsimp only
      rw [hskip, hnil]
      rfl
    | cons record more =>
      have hdecodes : ∀ other ∈ record :: more, other.payload.revalidate = .ok () := by
        intro other hother
        rw [← hpage] at hother
        exact h.decodes other (List.mem_of_mem_filter (List.mem_of_mem_take hother))
      dsimp only
      rw [scanPage_eq _ _ hdecodes]
      dsimp only
      rw [hpage] at hsplit
      obtain ⟨found, reachedTo⟩ := acc
      obtain ⟨passed, rest, hpassed⟩ := @exists_passed _ EventLogEntry.cursor (visible filter) limit
        ((record :: more).map entryOf) found reachedTo hroom
      have hwhole := @scan_append _ EventLogEntry.cursor (visible filter) limit
        ((record :: more).map entryOf)
        (((recordsAfter log target reachedTo).drop pageLimit).map entryOf) found reachedTo hroom
      rw [← List.map_append, hsplit] at hwhole
      rw [hwhole]
      generalize hout : scan EventLogEntry.cursor (visible filter) limit
        ((record :: more).map entryOf) (found, reachedTo) = out at hpassed ⊢
      by_cases hfull : limit ≤ out.1.length
      · rw [if_pos (.inl hfull), if_pos hfull]
      · rw [if_neg hfull]
        by_cases hshort : (record :: more).length < pageLimit
        · -- a short page is the last one
          have hdone : (recordsAfter log target reachedTo).drop pageLimit = [] := by
            rw [← hpage, List.length_take] at hshort
            exact List.drop_eq_nil_of_le (min_lt_iff.1 hshort |>.resolve_left (lt_irrefl _)).le
          rw [if_pos (.inr hshort), hdone, List.map_nil, scan]
        · rw [if_neg (not_or.2 ⟨hfull, hshort⟩)]
          obtain ⟨page, last, hlast⟩ := List.eq_nil_or_concat (record :: more) |>.resolve_left
            (List.cons_ne_nil _ _)
          rw [List.concat_eq_append] at hlast
          have hreached : out.2 = last.seq := by
            obtain rfl := hpassed.all (not_le.1 hfull)
            have hall := hpassed.split
            rw [List.append_nil, hlast, List.map_append, List.map_singleton] at hall
            rw [hpassed.reached_eq, ← hall, reached_append_singleton]
            rfl
          rw [hlast] at hsplit
          have hrest := recordsAfter_last h hsplit.symm
          have hmem : last ∈ log.table.recordsAt target := by
            have : last ∈ recordsAfter log target reachedTo := by rw [← hsplit]; simp
            exact List.mem_of_mem_filter this
          have hnext := readPages_eq h after fuel false out (hreached ▸ h.fits last hmem)
            (not_le.1 hfull)
          rw [hreached, hrest] at hnext
          have hlength := congrArg List.length hsplit
          rw [List.length_append, List.length_append, List.length_singleton] at hlength
          exact hnext (by omega) fun hscan => by cases hscan

/-- What a read of the stream passes over. -/
def scanned (log : FilesystemDurableEventLog) (target : VirtualPath) (filter : ReadScope)
    (after limit : ℕ) : List (EventLogEntry RuntimeEvent) × EventCursor :=
  scan EventLogEntry.cursor (visible filter) limit
    ((log.entriesAt target).filter fun entry => decide (after < entry.cursor)) ([], after)

theorem scanned_spec (h : Readable log path target) (hlimit : 0 < limit) (after : EventCursor) :
    Scanned EventLogEntry.cursor (visible filter) (log.entriesAt target) after
      (log.scanned target filter after limit).1 (log.scanned target filter after limit).2 := by
  obtain ⟨passed, rest, hpassed⟩ := @exists_passed _ EventLogEntry.cursor (visible filter) limit
    ((log.entriesAt target).filter fun entry => decide (after < entry.cursor)) [] after hlimit
  exact hpassed.scanned (entriesAt_sorted h) hlimit

/-- The cursor of a replay is the last one passed over. -/
theorem finish_scanned (h : Readable log path target) (hlimit : 0 < limit) (after : EventCursor) :
    finish (log.scanned target filter after limit) =
      ⟨(log.scanned target filter after limit).1, (log.scanned target filter after limit).2⟩ := by
  have hspec := @scanned_spec log path target filter limit h hlimit after
  rw [finish]
  cases hlast : (log.scanned target filter after limit).1.getLast? with
  | none => rfl
  | some entry =>
    have hmem := List.mem_of_getLast? hlast
    rw [hspec.page_eq, List.mem_filter, Bool.and_eq_true, Bool.and_eq_true, decide_eq_true_iff,
      decide_eq_true_iff] at hmem
    congr 1
    dsimp only
    split
    · rfl
    · rename_i hnot
      exact le_antisymm hmem.2.1.2 (not_lt.1 hnot)

theorem recordsAfter_length_lt (start : ℕ) :
    (recordsAfter log target start).length < log.table.length + 1 := by
  refine Nat.lt_succ_of_le ((List.length_filter_le _ _).trans ?_)
  rw [EventTable.recordsAt, List.length_map]
  exact List.length_filter_le _ _

variable {stream : EventStreamKey} {after : EventCursor}

/-- A cursor that is not past the head is answered with one pass over what follows it. -/
theorem readAfterCursor_of_notPast (h : Readable log path target)
    (hstream : streamPath .runtime stream = .ok path) (hlimit : 0 < limit)
    (hafter : NotPast EventLogEntry.cursor (log.entriesAt target) after) :
    log.readAfterCursor stream filter (some after) limit =
      .ok ⟨(log.scanned target filter after limit).1,
        (log.scanned target filter after limit).2⟩ := by
  have hrange : Representable log.backend after := by
    rcases hafter with rfl | ⟨entry, hentry, hle⟩
    · exact .inr (Nat.zero_le _)
    · obtain ⟨record, hrecord, rfl⟩ := List.mem_map.1 hentry
      exact (h.fits record hrecord).imp_right hle.trans
  rw [readAfterCursor, Option.getD_some, if_neg hlimit.ne', hstream]
  dsimp only
  by_cases hnil : 0 < after ∧ recordsAfter log target after = []
  · -- the head itself: the probe one step back finds it
    obtain ⟨hpositive, hnil⟩ := hnil
    obtain ⟨entry, hentry, hle⟩ := hafter.resolve_left hpositive.ne'
    obtain ⟨record, hrecord, rfl⟩ := List.mem_map.1 hentry
    have hfound : recordsAfter log target (after - 1) ≠ [] := by
      refine List.ne_nil_of_mem (List.mem_filter.2 ⟨hrecord, decide_eq_true ?_⟩)
      have hle : after ≤ record.seq := hle
      exact lt_of_lt_of_le (Nat.sub_lt hpositive Nat.one_pos) hle
    have hprobe : Representable log.backend (after - 1) :=
      hrange.imp_right (Nat.sub_le _ _).trans
    have hempty : log.scanned target filter after limit = ([], after) := by
      rw [scanned, entriesAt_after, hnil]
      rfl
    rw [readPages_of_nil h hrange hpositive hnil, probeHead, tail_eq h hprobe Nat.one_pos, hempty]
    cases hcase : recordsAfter log target (after - 1) with
    | nil => exact absurd hcase hfound
    | cons first rest => rfl
  · rw [not_and] at hnil
    rw [readPages_eq h after _ true ([], after) hrange hlimit (recordsAfter_length_lt after)
      fun _ hpositive => hnil hpositive, ← entriesAt_after]
    exact congrArg Except.ok (finish_scanned h hlimit after)

/-- A cursor past the head that the backend holds is answered with a gap. -/
theorem readAfterCursor_of_past (h : Readable log path target)
    (hstream : streamPath .runtime stream = .ok path) (hlimit : 0 < limit)
    (hafter : ¬ NotPast EventLogEntry.cursor (log.entriesAt target) after)
    (hrange : Representable log.backend after) :
    log.readAfterCursor stream filter (some after) limit = .error (.replayGap after 0) := by
  obtain ⟨hpositive, hpast⟩ := not_or.1 hafter
  have hpositive : 0 < after := Nat.pos_of_ne_zero hpositive
  have hnone : ∀ start, after ≤ start + 1 → recordsAfter log target start = [] := by
    intro start hstart
    refine List.filter_eq_nil_iff.2 fun record hrecord hlt => hpast ?_
    rw [decide_eq_true_iff] at hlt
    exact ⟨entryOf record, List.mem_map.2 ⟨record, hrecord, rfl⟩, hstart.trans hlt⟩
  have hprobe : Representable log.backend (after - 1) := hrange.imp_right (Nat.sub_le _ _).trans
  rw [readAfterCursor, Option.getD_some, if_neg hlimit.ne', hstream]
  dsimp only
  rw [readPages_of_nil h hrange hpositive (hnone after (Nat.le_succ _)), probeHead,
    tail_eq h hprobe Nat.one_pos, hnone (after - 1) (Nat.succ_pred_eq_of_pos hpositive).ge, List.take_nil]

/-- A cursor that the database does not hold is an error of the backend. -/
theorem readAfterCursor_of_unrepresentable (h : Readable log path target)
    (hstream : streamPath .runtime stream = .ok path) (hlimit : 0 < limit)
    (hrange : ¬ Representable log.backend after) : ∃ reason,
      log.readAfterCursor stream filter (some after) limit =
        .error (.filesystem "filesystem event store failed to read stream"
          (.backend target .tail reason)) := by
  obtain ⟨reason, hreason⟩ := @cursorInRange_eq_error log.backend target .tail after hrange
  have htail : ∀ maxRecords, 0 < maxRecords → log.tail path after maxRecords =
      .error (.filesystem "filesystem event store failed to read stream"
        (.backend target .tail reason)) := by
    intro maxRecords hmax
    rw [tail, h.resolves]
    dsimp only
    rw [EventTable.tailBounded, if_neg hmax.ne', hreason]
    rfl
  refine ⟨reason, ?_⟩
  rw [readAfterCursor, Option.getD_some, if_neg hlimit.ne', hstream]
  dsimp only
  rw [readPages]
  dsimp only
  rw [htail _ (tailScanPageLimit_pos _)]

theorem representable_of_notPast (h : Readable log path target)
    (hafter : NotPast EventLogEntry.cursor (log.entriesAt target) after) :
    Representable log.backend after := by
  rcases hafter with rfl | ⟨entry, hentry, hle⟩
  · exact .inr (Nat.zero_le _)
  · obtain ⟨record, hrecord, rfl⟩ := List.mem_map.1 hentry
    exact (h.fits record hrecord).imp_right hle.trans

theorem headCursor_eq_ok (hstream : streamPath .runtime stream = .ok path)
    (hresolve : resolveWithPermissionView eventsView path .headSeq = .ok target)
    {head : EventCursor} (hhead : log.headCursor stream after = .ok head) : after ≤ head ∧
      NotPast EventLogEntry.cursor (log.entriesAt target) head ∧ recordsAfter log target head = [] := by
  rw [headCursor, hstream] at hhead
  obtain ⟨_, hpath, hhead⟩ := bind_eq_ok.1 hhead
  obtain rfl := Except.ok.inj hpath
  obtain ⟨found, hfound, hhead⟩ := bind_eq_ok.1 hhead
  rw [headSeq, hresolve] at hfound
  obtain ⟨_, -, hmax⟩ := bind_eq_ok.1 (mapError_eq_ok.1 hfound)
  have hmax : ((recordsAfter log target (after - 1)).map (·.seq)).max? = found := pure_eq_ok.1 hmax
  dsimp only at hhead
  split at hhead
  · cases hhead
  · rename_i hle
    obtain rfl := Except.ok.inj hhead
    refine ⟨not_lt.1 hle, ?_⟩
    cases found with
    | none =>
      obtain rfl : after = 0 :=
        Nat.eq_zero_of_not_pos fun hpositive => hle (Nat.sub_lt hpositive Nat.one_pos)
      exact ⟨.inl rfl, by simpa using hmax⟩
    | some last =>
      obtain ⟨hmem, hgreatest⟩ := List.max?_eq_some_iff.1 hmax
      obtain ⟨record, hrecord, rfl⟩ := List.mem_map.1 hmem
      obtain ⟨hrecord, hlt⟩ := List.mem_filter.1 hrecord
      refine ⟨.inr ⟨entryOf record, List.mem_map_of_mem hrecord, le_rfl⟩, ?_⟩
      refine List.filter_eq_nil_iff.2 fun other hother hlater => ?_
      rw [decide_eq_true_iff] at hlt hlater
      have hle := hgreatest other.seq (List.mem_map_of_mem
        (List.mem_filter.2 ⟨hother, decide_eq_true (hlt.trans hlater)⟩))
      exact absurd hlater (not_lt.2 hle)

/-- A cursor that is not past the head has one. -/
theorem exists_headCursor (h : Readable log path target)
    (hstream : streamPath .runtime stream = .ok path)
    (hresolve : resolveWithPermissionView eventsView path .headSeq = .ok target)
    (hafter : NotPast EventLogEntry.cursor (log.entriesAt target) after) :
    ∃ head, log.headCursor stream after = .ok head := by
  have hrange : Representable log.backend (after - 1) :=
    (representable_of_notPast h hafter).imp_right (Nat.sub_le _ _).trans
  have hseq : log.headSeq path (after - 1) =
      .ok ((recordsAfter log target (after - 1)).map (·.seq)).max? := by
    rw [headSeq, hresolve]
    dsimp only
    rw [EventTable.headSeq, cursorInRange_eq_ok.2 hrange]
    rfl
  rw [headCursor, hstream]
  refine ⟨_, bind_eq_ok.2 ⟨path, rfl, bind_eq_ok.2 ⟨_, hseq, if_neg (not_lt.2 ?_)⟩⟩⟩
  rcases hafter with rfl | ⟨entry, hentry, hle⟩
  · exact Nat.zero_le _
  · obtain ⟨record, hrecord, rfl⟩ := List.mem_map.1 hentry
    rcases Nat.eq_zero_or_pos after with rfl | hpositive
    · exact Nat.zero_le _
    · have hlt : after - 1 < record.seq := (Nat.sub_lt hpositive Nat.one_pos).trans_le hle
      exact le_trans hle (List.le_max?_getD_of_mem (List.mem_map_of_mem
        (List.mem_filter.2 ⟨hrecord, decide_eq_true hlt⟩)))

end FilesystemDurableEventLog

/-! ### Replay is complete and exact -/

/-- Reading after the returned cursor until it stands still returns the visible entries after the
start, each once and in their order. -/
def Exact (read : ReadScope → Option EventCursor → ℕ → Except EventError (EventReplay RuntimeEvent))
    (entries : List (EventLogEntry RuntimeEvent)) : Prop :=
  ∀ filter limit after fuel, 0 < limit → NotPast EventLogEntry.cursor entries after →
    entries.length < fuel →
    follow (fun cursor => (read filter (some cursor) limit).map fun replay =>
      (replay.entries, replay.nextCursor)) fuel after =
        .ok (keptAfter EventLogEntry.cursor (visible filter) entries after)

theorem exact_of_scanned
    {read : ReadScope → Option EventCursor → ℕ → Except EventError (EventReplay RuntimeEvent)}
    {entries : List (EventLogEntry RuntimeEvent)} (hsorted : entries.Pairwise (·.cursor < ·.cursor))
    (hread : ∀ filter limit after, 0 < limit → NotPast EventLogEntry.cursor entries after →
      ∃ replay, read filter (some after) limit = .ok replay ∧
        Scanned EventLogEntry.cursor (visible filter) entries after replay.entries
          replay.nextCursor) : Exact read entries := by
  intro filter limit after fuel hlimit hafter hfuel
  refine follow_eq hsorted (fun cursor hcursor => ?_) hafter
    ((List.length_filter_le _ _).trans_lt hfuel)
  obtain ⟨replay, hok, hscanned⟩ := hread filter limit cursor hlimit hcursor
  exact ⟨replay.entries, replay.nextCursor, by rw [hok]; rfl, hscanned⟩

def storedEntry (entry : EventLogEntry RuntimeEvent) : EventLogEntry RuntimeEvent :=
  ⟨entry.cursor, entry.record.stored⟩

theorem entries_ext {ρ : Type} : ∀ {l l' : List (EventLogEntry ρ)},
    l.map (·.cursor) = l'.map (·.cursor) → l.map (·.record) = l'.map (·.record) → l = l'
  | [], [], _, _ => rfl
  | ⟨cursor, record⟩ :: l, ⟨cursor', record'⟩ :: l', hcursors, hrecords => by
    rw [List.map_cons, List.map_cons, List.cons.injEq] at hcursors hrecords
    obtain ⟨rfl, hcursors⟩ := hcursors
    obtain ⟨rfl, hrecords⟩ := hrecords
    rw [entries_ext hcursors hrecords]

def ofKey (key : EventStreamKey) (history : List RuntimeEvent) : List RuntimeEvent :=
  history.filter fun event => decide (EventStreamKey.fromScope event.scope = key)

namespace Stores

variable {log : FilesystemDurableEventLog} {history : List RuntimeEvent} {key : EventStreamKey}

theorem readable (h : Stores log history) (hvalid : ∀ event ∈ history, event.Valid)
    (hfits : ∀ row ∈ log.table, Representable log.backend row.2.seq) {path : ScopedPath}
    {target : VirtualPath}
    (hresolve : resolveWithPermissionView eventsView path .tail = .ok target) :
    log.Readable path target where
  resolves := hresolve
  decodes := fun record hrecord => by
    obtain ⟨_, -, -, -, hok⟩ := h.revalidate hvalid record hrecord
    exact hok
  sorted := h.numbered.sorted target
  fits := fun record hrecord => hfits (target, record) (EventTable.mem_recordsAt.1 hrecord)

theorem entriesAt_records (h : Stores log history) (target : VirtualPath) :
    (log.entriesAt target).map (·.record) =
      (history.filter fun event => decide (targetOf event = some target)).map RuntimeEvent.stored := by
  have hredacted : (log.entriesAt target).map (·.record) =
      ((log.table.recordsAt target).map (·.payload)).map RuntimeEvent.redact := by
    rw [FilesystemDurableEventLog.entriesAt, List.map_map, List.map_map]
    rfl
  rw [hredacted, h.payloads, List.map_map]
  rfl

theorem filter_target (hvalid : ∀ event ∈ history, event.Valid) (hkey : key.Valid)
    (hclash : ∀ event ∈ history, ¬ PlaceholderClash (EventStreamKey.fromScope event.scope) key)
    {target : VirtualPath} (htarget : keyTarget key = some target) :
    history.filter (fun event => decide (targetOf event = some target)) = ofKey key history := by
  refine List.filter_congr fun event hevent => decide_eq_decide.2 ?_
  rw [← htarget, targetOf, keyTarget_eq_iff (EventStreamKey.valid_fromScope (hvalid event hevent)) hkey]
  exact or_iff_left (hclash event hevent)

end Stores

/-- What both logs answer about one stream after the same history. -/
structure SameReplay (fs : FilesystemDurableEventLog) (mem : InMemoryDurableEventLog)
    (key : EventStreamKey) (events : List RuntimeEvent)
    (stored own : List (EventLogEntry RuntimeEvent)) : Prop where
  stored_records : stored.map (·.record) = events.map RuntimeEvent.stored
  stored_sorted : stored.Pairwise (·.cursor < ·.cursor)
  own_records : own.map (·.record) = events
  own_cursors : own.map (·.cursor) = List.range' 1 own.length
  fs_exact : Exact (fs.readAfterCursor key) stored
  mem_exact : Exact (mem.readAfterCursor key) own
  fs_gap : ∀ filter limit after, 0 < limit → ¬ NotPast EventLogEntry.cursor stored after →
    Representable fs.backend after →
    fs.readAfterCursor key filter (some after) limit = .error (.replayGap after 0)
  fs_unrepresentable : ∀ filter limit after, 0 < limit → ¬ Representable fs.backend after →
    ∃ target reason, fs.readAfterCursor key filter (some after) limit =
      .error (.filesystem "filesystem event store failed to read stream"
        (.backend target .tail reason))
  mem_gap : ∀ filter limit after, 0 < limit → ¬ NotPast EventLogEntry.cursor own after →
    mem.readAfterCursor key filter (some after) limit = .error (.replayGap after own.length)
  same_entries : fs.backend = .inMemory → ∀ filter limit after replay,
    mem.readAfterCursor key filter (some after) limit = .ok replay →
    ∃ next, fs.readAfterCursor key filter (some after) limit =
      .ok ⟨replay.entries.map storedEntry, next⟩

theorem Stores.sameReplay {log : FilesystemDurableEventLog} {mem : InMemoryDurableEventLog}
    {history : List RuntimeEvent} {key : EventStreamKey} (h : Stores log history)
    (hmem : mem.Holds history) (hvalid : ∀ event ∈ history, event.Valid) (hkey : key.Valid)
    (hclash : ∀ event ∈ history, ¬ PlaceholderClash (EventStreamKey.fromScope event.scope) key)
    (hfits : ∀ row ∈ log.table, Representable log.backend row.2.seq) :
    ∃ stored own, SameReplay log mem key (ofKey key history) stored own := by
  obtain ⟨path, target, hstream, htarget, -, hresolve⟩ := exists_keyTarget hkey
  have hread := h.readable hvalid hfits (hresolve .tail (.inr (.inl rfl)))
  have hown : (mem.stream key).Holds (ofKey key history) := hmem key
  have hrecords := h.entriesAt_records target
  rw [filter_target hvalid hkey hclash htarget] at hrecords
  -- the in-memory backend numbers the path as the in-memory log numbers the stream
  have hsame : log.backend = .inMemory →
      log.entriesAt target = (mem.stream key).entries.map storedEntry := by
    intro hbackend
    have hlength : (log.entriesAt target).length = (mem.stream key).entries.length := by
      have hcounts := congrArg List.length hrecords
      have hcounts' := congrArg List.length hown.records_eq
      rw [List.length_map, List.length_map] at hcounts
      rw [List.length_map] at hcounts'
      exact hcounts.trans hcounts'.symm
    refine entries_ext ?_ ?_
    · have hcursors : (log.entriesAt target).map (·.cursor) =
          (log.table.recordsAt target).map (·.seq) := by
        rw [FilesystemDurableEventLog.entriesAt, List.map_map]
        rfl
      have hcursors' : ((mem.stream key).entries.map storedEntry).map (·.cursor) =
          (mem.stream key).entries.map (·.cursor) := by
        rw [List.map_map]
        rfl
      rw [hcursors, hcursors', h.numbered.own hbackend, hown.cursors, ← hlength,
        FilesystemDurableEventLog.entriesAt, List.length_map]
    · have hstored : ((mem.stream key).entries.map storedEntry).map (·.record) =
          ((mem.stream key).entries.map (·.record)).map RuntimeEvent.stored := by
        rw [List.map_map, List.map_map]
        rfl
      rw [hrecords, hstored, hown.records_eq]
  refine ⟨log.entriesAt target, (mem.stream key).entries, ?_⟩
  constructor
  · exact hrecords
  · exact FilesystemDurableEventLog.entriesAt_sorted hread
  · exact hown.records_eq
  · exact hown.cursors
  · refine exact_of_scanned (FilesystemDurableEventLog.entriesAt_sorted hread) ?_
    intro filter limit after hlimit hafter
    exact ⟨_, FilesystemDurableEventLog.readAfterCursor_of_notPast hread hstream hlimit hafter,
      FilesystemDurableEventLog.scanned_spec hread hlimit after⟩
  · refine exact_of_scanned hown.sorted fun filter limit after hlimit hafter => ?_
    rw [mem.readAfterCursor_eq key filter after hlimit, hown.readAfter_of_notPast hafter]
    exact ⟨_, rfl, hown.scanned hlimit after filter.matchesEvent⟩
  · intro filter limit after hlimit hafter hrange
    exact FilesystemDurableEventLog.readAfterCursor_of_past hread hstream hlimit hafter hrange
  · intro filter limit after hlimit hrange
    exact ⟨target, FilesystemDurableEventLog.readAfterCursor_of_unrepresentable hread hstream hlimit
      hrange⟩
  · intro filter limit after hlimit hafter
    rw [mem.readAfterCursor_eq key filter after hlimit, hown.readAfter_of_past hafter, hown.next]
  · intro hbackend filter limit after replay hreplay
    have hlimit : 0 < limit := by
      rcases Nat.eq_zero_or_pos limit with rfl | hpositive
      · cases hreplay
      · exact hpositive
    rw [mem.readAfterCursor_eq key filter after hlimit] at hreplay
    have hafter : NotPast EventLogEntry.cursor (mem.stream key).entries after := by
      by_contra hpast
      rw [hown.readAfter_of_past hpast] at hreplay
      cases hreplay
    rw [hown.readAfter_of_notPast hafter] at hreplay
    have hafter' : NotPast EventLogEntry.cursor (log.entriesAt target) after := by
      rw [hsame hbackend]
      refine hafter.imp_right ?_
      rintro ⟨entry, hentry, hle⟩
      exact ⟨storedEntry entry, List.mem_map.2 ⟨entry, hentry, rfl⟩, hle⟩
    have hafterEntries : (log.entriesAt target).filter (fun entry => decide (after < entry.cursor)) =
        ((mem.stream key).entries.filter fun entry => decide (after < entry.cursor)).map
          storedEntry := by
      rw [hsame hbackend, List.filter_map]
      rfl
    have hscan : (log.scanned target filter after limit).1 =
        ((mem.stream key).scanAfter after limit filter.matchesEvent).1.map storedEntry := by
      rw [FilesystemDurableEventLog.scanned, hown.scanAfter_eq, hafterEntries]
      exact congrArg Prod.fst (scan_map storedEntry _ [] after)
    refine ⟨(log.scanned target filter after limit).2, ?_⟩
    rw [FilesystemDurableEventLog.readAfterCursor_of_notPast hread hstream hlimit hafter', hscan,
      ← Except.ok.inj hreplay]

/-- Replay of a stream is complete and exact in both logs, for every run of appends: the in-memory
log returns the events, the filesystem log their stored forms. -/
theorem replay_exact (backend : EventBackend) (appends : List Append) (key : EventStreamKey)
    (mem : InMemoryDurableEventLog) (hkey : key.Valid)
    (hvalid : ∀ event ∈ appends.flatMap Append.accepted, event.Valid)
    (hclash : ∀ event ∈ appends.flatMap Append.accepted,
      ¬ PlaceholderClash (EventStreamKey.fromScope event.scope) key)
    (hfits : ∀ row ∈ (afterAppends backend appends).table, Representable backend row.2.seq)
    (hmem : InMemoryDurableEventLog.new.appendAll (appends.flatMap Append.accepted) = .ok mem) :
    ∃ stored own, SameReplay (afterAppends backend appends) mem key
      (ofKey key (appends.flatMap Append.accepted)) stored own := by
  obtain ⟨hstores, hbackend⟩ := stores_afterAppends backend appends
  have hholds := InMemoryDurableEventLog.holds_new.appendAll _ hmem
  rw [List.nil_append] at hholds
  exact hstores.sameReplay hholds hvalid hkey hclash (by rwa [hbackend])

/-- A model call that took longer than the day the stored form is bounded to. -/
def longModelCall : RuntimeEvent where
  eventId := ⟨1⟩
  timestamp := 0
  kind := .modelCompleted
  scope := ⟨⟨"acme"⟩, ⟨"alice"⟩, none, none, none, none, ⟨1⟩⟩
  parentInvocationId := none
  capabilityId := ⟨"loop.model"⟩
  provider := none
  runtime := none
  processId := none
  outputBytes := none
  durationMs := some (maxRuntimeEventDurationMs + 1)
  errorKind := none
  errorSummary := none
  hookId := none
  hookPoint := none
  hookTrustClass := none
  hookDecision := none
  hookFailureCategory := none
  hookFailureDisposition := none
  recoveryStage := none
  recoveryClass := none
  recoveryDisposition := none

def longModelCallKey : EventStreamKey := EventStreamKey.fromScope longModelCall.scope

/-- An append that the backend takes wherever it goes. -/
def appendOne (event : RuntimeEvent) : Append := .one (fun _ => none) event

theorem replay_exact_long_call : ∃ mem,
    InMemoryDurableEventLog.new.appendAll
      ([appendOne longModelCall].flatMap Append.accepted) = .ok mem ∧
    ∃ stored own, SameReplay (afterAppends .libSql [appendOne longModelCall]) mem longModelCallKey
      (ofKey longModelCallKey ([appendOne longModelCall].flatMap Append.accepted)) stored own := by
  have hhistory : [appendOne longModelCall].flatMap Append.accepted = [longModelCall] := by
    decide +kernel
  have hvalid : longModelCall.Valid := by
    rw [RuntimeEvent.Valid]
    decide +kernel
  have hkey := EventStreamKey.valid_fromScope hvalid
  have hmem : InMemoryDurableEventLog.new.appendAll
      ([appendOne longModelCall].flatMap Append.accepted) =
        .ok ⟨Table.empty.put (longModelCallKey, ⟨1, 0, [⟨1, longModelCall⟩]⟩)⟩ := by
    rw [hhistory]
    rfl
  refine ⟨_, hmem, replay_exact .libSql [appendOne longModelCall] longModelCallKey _ hkey ?_ ?_ ?_ hmem⟩
  · rw [hhistory]
    exact List.forall_mem_singleton.2 hvalid
  · rw [hhistory]
    exact List.forall_mem_singleton.2 (by decide)
  · intro row hrow
    refine .inr ?_
    revert row
    decide +kernel

/-- The two logs return different entries for the same history: the filesystem log bounds the
duration of the call. -/
theorem long_call_replayed_shorter :
    ((InMemoryDurableEventLog.new.appendAll [longModelCall]).bind fun log =>
        log.readAfterCursor longModelCallKey .any none 10) = .ok ⟨[⟨1, longModelCall⟩], 1⟩ ∧
      (afterAppends .inMemory [appendOne longModelCall]).readAfterCursor longModelCallKey .any none 10 =
        .ok ⟨[⟨1, { longModelCall with durationMs := some maxRuntimeEventDurationMs }⟩], 1⟩ ∧
      longModelCall ≠ { longModelCall with durationMs := some maxRuntimeEventDurationMs } := by
  refine ⟨?_, ?_, ?_⟩
  · decide +kernel
  · decide +kernel
  · decide +kernel

open FilesystemDurableEventLog in
/-- After any run of appends the head is answered for the cursors that can be read after, and a
reader that starts at it is sent nothing. -/
theorem head_cursor_caught_up (backend : EventBackend) (appends : List Append) (key : EventStreamKey)
    (hkey : key.Valid) (hvalid : ∀ event ∈ appends.flatMap Append.accepted, event.Valid)
    (hfits : ∀ row ∈ (afterAppends backend appends).table, Representable backend row.2.seq)
    (filter : ReadScope) (after : EventCursor) {limit : ℕ} (hlimit : 0 < limit) :
    let log := afterAppends backend appends
    (∀ head, log.headCursor key after = .ok head → after ≤ head ∧
      log.readAfterCursor key filter (some head) limit = .ok ⟨[], head⟩) ∧
    ((∃ head, log.headCursor key after = .ok head) ↔
      ∃ replay, log.readAfterCursor key filter (some after) limit = .ok replay) := by
  intro log
  obtain ⟨hstores, hbackend⟩ := stores_afterAppends backend appends
  obtain ⟨path, target, hstream, -, -, hresolve⟩ := exists_keyTarget hkey
  have h := hstores.readable hvalid (by rwa [hbackend]) (hresolve .tail (.inr (.inl rfl)))
  have hhead := hresolve .headSeq (.inr (.inr rfl))
  refine ⟨fun head hok => ?_, ⟨fun ⟨head, hok⟩ => ?_, fun ⟨replay, hread⟩ => ?_⟩⟩
  · obtain ⟨hle, hpast, hnil⟩ := headCursor_eq_ok hstream hhead hok
    refine ⟨hle, ?_⟩
    rw [readAfterCursor_of_notPast h hstream hlimit hpast, scanned, entriesAt_after, hnil]
    rfl
  · obtain ⟨hle, hpast, -⟩ := headCursor_eq_ok hstream hhead hok
    exact ⟨_, readAfterCursor_of_notPast h hstream hlimit
      (hpast.imp (fun hzero => Nat.le_zero.1 (hle.trans_eq hzero)) fun ⟨entry, hentry, hlast⟩ =>
        ⟨entry, hentry, hle.trans hlast⟩)⟩
  · refine exists_headCursor h hstream hhead (by_contra fun hpast => ?_)
    by_cases hrange : Representable log.backend after
    · rw [readAfterCursor_of_past h hstream hlimit hpast hrange] at hread
      cases hread
    · obtain ⟨_, hfailed⟩ := readAfterCursor_of_unrepresentable h hstream hlimit hrange
      rw [hfailed] at hread
      cases hread

theorem head_cursor_long_call :
    let log := afterAppends .libSql [appendOne longModelCall]
    log.headCursor longModelCallKey 0 = .ok 1 ∧
      log.readAfterCursor longModelCallKey .any (some 1) 1 = .ok ⟨[], 1⟩ := by
  have hhistory : [appendOne longModelCall].flatMap Append.accepted = [longModelCall] := by
    decide +kernel
  have hvalid : longModelCall.Valid := by
    rw [RuntimeEvent.Valid]
    decide +kernel
  have hhead : (afterAppends .libSql [appendOne longModelCall]).headCursor longModelCallKey 0 = .ok 1 := by
    rfl
  refine ⟨hhead, ((head_cursor_caught_up .libSql [appendOne longModelCall] longModelCallKey
    (EventStreamKey.valid_fromScope hvalid) ?_ ?_ _ 0 Nat.one_pos).1 1 hhead).2⟩
  · rw [hhistory]
    exact List.forall_mem_singleton.2 hvalid
  · intro row hrow
    refine .inr ?_
    revert row
    decide +kernel

end Ironclaw.Events
