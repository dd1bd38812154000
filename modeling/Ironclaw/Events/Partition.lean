import Ironclaw.Events.Replay

/-! # Streams do not mix

A read of a stream returns what was appended under its path. Two valid keys share a path exactly
when one has no agent and the other names its agent like the placeholder. -/

namespace Ironclaw.Events

open Ironclaw.Filesystem

namespace FilesystemDurableEventLog

variable {log : FilesystemDurableEventLog} {path : ScopedPath} {filter : ReadScope} {limit : ℕ}

/-- A page adds only entries read from its records. -/
theorem of_mem_scanPage {records : List EventRecord}
    {acc out : List (EventLogEntry RuntimeEvent) × EventCursor}
    (h : scanPage filter limit records acc = .ok out) :
    ∀ entry ∈ out.1, entry ∈ acc.1 ∨ ∃ record ∈ records, entry = entryOf record := by
  induction records generalizing acc with
  | nil =>
    rw [← Except.ok.inj h]
    exact fun entry hentry => .inl hentry
  | cons record records ih =>
    obtain ⟨entries, last⟩ := acc
    rw [scanPage] at h
    cases hdecoded : runtimeEventFromTrustedJson record.payload with
    | error e => rw [hdecoded] at h; cases h
    | ok event =>
      obtain ⟨_, -, hredact⟩ := bind_eq_ok.1 hdecoded
      obtain rfl := pure_eq_ok.1 hredact
      have hnew : ∀ entry ∈ entries ++ [entryOf record],
          entry ∈ entries ∨ ∃ other ∈ record :: records, entry = entryOf other := by
        intro entry hentry
        rcases List.mem_append.1 hentry with hold | hlast
        · exact .inl hold
        · exact .inr ⟨record, List.mem_cons_self, List.mem_singleton.1 hlast⟩
      have hlater : ∀ {before : List (EventLogEntry RuntimeEvent)} {entry},
          (entry ∈ before ∨ ∃ other ∈ records, entry = entryOf other) →
          (entry ∈ before → entry ∈ entries ∨ ∃ other ∈ record :: records, entry = entryOf other) →
          entry ∈ entries ∨ ∃ other ∈ record :: records, entry = entryOf other := by
        rintro before entry (hbefore | ⟨other, hother, rfl⟩) hkept
        · exact hkept hbefore
        · exact .inr ⟨other, List.mem_cons_of_mem _ hother, rfl⟩
      rw [hdecoded] at h
      dsimp only at h
      split at h
      · split at h
        · rw [← Except.ok.inj h]
          exact hnew
        · exact fun entry hentry => hlater (ih h entry hentry) (hnew entry)
      · exact fun entry hentry => hlater (ih h entry hentry) .inl

theorem of_tail_eq_ok {target : VirtualPath} {start maxRecords : ℕ} {records : List EventRecord}
    (hresolve : resolveWithPermissionView eventsView path .tail = .ok target)
    (h : log.tail path start maxRecords = .ok records) :
    ∀ record ∈ records, record ∈ log.table.recordsAt target := by
  rw [tail, hresolve] at h
  dsimp only at h
  rw [EventTable.tailBounded] at h
  split at h
  · rw [← Except.ok.inj h]
    exact List.forall_mem_nil _
  · obtain ⟨_, -, hrecords⟩ := bind_eq_ok.1 (mapError_eq_ok.1 h)
    rw [← pure_eq_ok.1 hrecords]
    exact fun record hrecord => List.mem_of_mem_filter (List.mem_of_mem_take hrecord)

/-- A read returns only entries of the path. -/
theorem of_mem_readPages {target : VirtualPath} {after : EventCursor}
    (hresolve : resolveWithPermissionView eventsView path .tail = .ok target) :
    ∀ (fuel : ℕ) {firstScan : Bool} {acc : List (EventLogEntry RuntimeEvent) × EventCursor}
      {replay : EventReplay RuntimeEvent},
      log.readPages path filter after limit fuel firstScan acc = .ok replay →
      (∀ entry ∈ acc.1, entry ∈ log.entriesAt target) →
      ∀ entry ∈ replay.entries, entry ∈ log.entriesAt target
  | 0, _, _, _, h, hacc => by
    rw [← Except.ok.inj h]
    exact hacc
  | fuel + 1, firstScan, acc, replay, h, hacc => by
    rw [readPages] at h
    cases htail : log.tail path acc.2 (tailScanPageLimit (limit - acc.1.length)) with
    | error e => rw [htail] at h; cases h
    | ok records =>
      rw [htail] at h
      cases records with
      | nil =>
        dsimp only at h
        split at h
        · -- the probe returns no entries
          rw [probeHead] at h
          cases hprobe : log.tail path (after - 1) 1 with
          | error e => rw [hprobe] at h; cases h
          | ok found =>
            rw [hprobe] at h
            cases found with
            | nil => cases h
            | cons first rest =>
              rw [← Except.ok.inj h]
              exact List.forall_mem_nil _
        · rw [← Except.ok.inj h]
          exact hacc
      | cons record more =>
        dsimp only at h
        cases hpage : scanPage filter limit (record :: more) acc with
        | error e => rw [hpage] at h; cases h
        | ok out =>
          have hout : ∀ entry ∈ out.1, entry ∈ log.entriesAt target := by
            intro entry hentry
            rcases of_mem_scanPage hpage entry hentry with hold | ⟨other, hother, rfl⟩
            · exact hacc entry hold
            · exact List.mem_map_of_mem (of_tail_eq_ok hresolve htail other hother)
          rw [hpage] at h
          dsimp only at h
          split at h
          · rw [← Except.ok.inj h]
            exact hout
          · exact of_mem_readPages hresolve fuel h hout

end FilesystemDurableEventLog

variable {log : FilesystemDurableEventLog} {history : List RuntimeEvent} {key : EventStreamKey}

/-- A read of a stream returns only events appended to it. -/
def OnlyOwn (log : FilesystemDurableEventLog) (key : EventStreamKey) (history : List RuntimeEvent) :
    Prop :=
  ∀ filter after limit replay, log.readAfterCursor key filter after limit = .ok replay →
    ∀ entry ∈ replay.entries, ∃ event ∈ history,
      EventStreamKey.fromScope event.scope = key ∧ entry.record = event.stored

theorem PlaceholderClash.ne {key other : EventStreamKey} (h : PlaceholderClash key other) :
    key ≠ other := by
  rintro rfl
  obtain ⟨-, -, ⟨hnone, hsome⟩ | ⟨hsome, hnone⟩⟩ := h
  · cases hnone.symm.trans hsome
  · cases hnone.symm.trans hsome

/-- What is under the path of a key was appended to the key, or to one that shares the path. -/
theorem Stores.of_mem_entriesAt (h : Stores log history) (hvalid : ∀ event ∈ history, event.Valid)
    (hkey : key.Valid) {target : VirtualPath} (htarget : keyTarget key = some target)
    {entry : EventLogEntry RuntimeEvent} (hentry : entry ∈ log.entriesAt target) :
    ∃ event ∈ history, entry.record = event.stored ∧
      (EventStreamKey.fromScope event.scope = key ∨
        PlaceholderClash (EventStreamKey.fromScope event.scope) key) := by
  have hrecord := List.mem_map_of_mem (f := fun entry => entry.record) hentry
  rw [h.entriesAt_records target] at hrecord
  obtain ⟨event, hevent, heq⟩ := List.mem_map.1 hrecord
  obtain ⟨hmem, hsame⟩ := List.mem_filter.1 hevent
  refine ⟨event, hmem, heq.symm, ?_⟩
  rw [← keyTarget_eq_iff (EventStreamKey.valid_fromScope (hvalid event hmem)) hkey, htarget]
  exact of_decide_eq_true hsame

theorem Stores.onlyOwn (h : Stores log history) (hvalid : ∀ event ∈ history, event.Valid)
    (hkey : key.Valid)
    (hclash : ∀ event ∈ history, ¬ PlaceholderClash (EventStreamKey.fromScope event.scope) key) :
    OnlyOwn log key history := by
  intro filter after limit replay hread entry hentry
  obtain ⟨path, target, hstream, htarget, -, hresolve⟩ := exists_keyTarget hkey
  rw [FilesystemDurableEventLog.readAfterCursor] at hread
  split at hread
  · cases hread
  · rw [hstream] at hread
    have hpath := FilesystemDurableEventLog.of_mem_readPages (hresolve .tail (.inr (.inl rfl))) _
      hread (List.forall_mem_nil _) entry hentry
    obtain ⟨event, hevent, hrecord, hsame⟩ := h.of_mem_entriesAt hvalid hkey htarget hpath
    exact ⟨event, hevent, hsame.resolve_right (hclash event hevent), hrecord⟩

/-- A limit that nothing fills returns everything under the path. -/
theorem Stores.exists_read_all (h : Stores log history) (hvalid : ∀ event ∈ history, event.Valid)
    (hkey : key.Valid) (hfits : ∀ row ∈ log.table, Representable log.backend row.2.seq)
    {target : VirtualPath} (htarget : keyTarget key = some target) :
    ∃ replay, log.readAfterCursor key .any (some 0) (history.length + 1) = .ok replay ∧
      replay.entries = log.entriesAt target := by
  obtain ⟨path, other, hstream, hother, -, hresolve⟩ := exists_keyTarget hkey
  obtain rfl := Option.some.inj (hother.symm.trans htarget)
  have hread := h.readable hvalid hfits (hresolve .tail (.inr (.inl rfl)))
  refine ⟨_, FilesystemDurableEventLog.readAfterCursor_of_notPast hread hstream
    (Nat.succ_pos history.length) (.inl rfl), ?_⟩
  have hall : (log.entriesAt other).filter (fun entry => decide (0 < entry.cursor)) =
      log.entriesAt other := by
    refine List.filter_eq_self.2 fun entry hentry => decide_eq_true ?_
    obtain ⟨record, hrecord, rfl⟩ := List.mem_map.1 hentry
    exact h.numbered.positive_at hrecord
  have hlength : (log.entriesAt other).length ≤ history.length := by
    have hcount := congrArg List.length (h.entriesAt_records other)
    rw [List.length_map, List.length_map] at hcount
    rw [hcount]
    exact List.length_filter_le _ _
  rw [FilesystemDurableEventLog.scanned, hall]
  obtain ⟨passed, rest, hpassed⟩ := @exists_passed _ EventLogEntry.cursor (visible .any)
    (history.length + 1) (log.entriesAt other) [] 0 (Nat.succ_pos _)
  have hfound : (scan EventLogEntry.cursor (visible .any) (history.length + 1) (log.entriesAt other)
      ([], 0)).1 = passed := by
    rw [hpassed.found_eq, List.nil_append]
    exact List.filter_eq_self.2 fun _ _ => rfl
  have hshort : passed.length ≤ (log.entriesAt other).length := by
    rw [hpassed.split, List.length_append]
    exact Nat.le_add_right _ _
  obtain rfl : rest = [] := hpassed.all (by rw [hfound]; omega)
  rw [hfound, hpassed.split, List.append_nil]

/-- Different keys have different paths, and a read returns only the events of its stream, exactly
as long as no key without an agent meets an agent named like the placeholder. -/
theorem streams_apart (key : EventStreamKey) (hkey : key.Valid) :
    (∀ kind (other : EventStreamKey), other.Valid → key ≠ other →
      (streamPath kind key ≠ streamPath kind other ↔ ¬ PlaceholderClash key other)) ∧
    ∀ backend (appends : List Append),
      (∀ event ∈ appends.flatMap Append.accepted, event.Valid) →
      (∀ row ∈ (afterAppends backend appends).table, Representable backend row.2.seq) →
      (OnlyOwn (afterAppends backend appends) key (appends.flatMap Append.accepted) ↔
        ∀ event ∈ appends.flatMap Append.accepted,
          ¬ PlaceholderClash (EventStreamKey.fromScope event.scope) key) := by
  refine ⟨fun kind other hother hne => ?_, fun backend appends hvalid hfits => ?_⟩
  · rw [ne_eq, streamPath_eq_iff hkey hother, or_iff_right hne]
  · obtain ⟨hstores, hbackend⟩ := stores_afterAppends backend appends
    refine ⟨fun honly event hevent hclash => ?_, hstores.onlyOwn hvalid hkey⟩
    obtain ⟨-, target, -, htarget, -, -⟩ := exists_keyTarget hkey
    obtain ⟨replay, hread, hentries⟩ :=
      hstores.exists_read_all hvalid hkey (by rwa [hbackend]) htarget
    have hsame : targetOf event = some target := by
      rw [targetOf, (keyTarget_eq_iff (EventStreamKey.valid_fromScope (hvalid event hevent)) hkey).2
        (.inr hclash), htarget]
    have hmem : event.stored ∈ (replay.entries.map (·.record)) := by
      rw [hentries, hstores.entriesAt_records]
      exact List.mem_map_of_mem (List.mem_filter.2 ⟨hevent, decide_eq_true hsame⟩)
    obtain ⟨entry, hentry, hrecord⟩ := List.mem_map.1 hmem
    obtain ⟨own, -, hown, hstored⟩ := honly .any (some 0) _ replay hread entry hentry
    have hscope : event.stored.scope = own.stored.scope := by rw [← hrecord, hstored]
    rw [RuntimeEvent.stored_scope, RuntimeEvent.stored_scope] at hscope
    rw [hscope, hown] at hclash
    exact hclash.ne rfl

/-- The model call, made for an agent that is named like the placeholder. -/
def placeholderAgentCall : RuntimeEvent :=
  { longModelCall with scope := { longModelCall.scope with agentId := some ⟨"_none"⟩ } }

theorem streams_apart_long_call :
    longModelCallKey.Valid ∧
      OnlyOwn (afterAppends .postgres [appendOne longModelCall]) longModelCallKey
        ([appendOne longModelCall].flatMap Append.accepted) ∧
      ∀ event ∈ [appendOne longModelCall].flatMap Append.accepted,
        ¬ PlaceholderClash (EventStreamKey.fromScope event.scope) longModelCallKey := by
  have hhistory : [appendOne longModelCall].flatMap Append.accepted = [longModelCall] := by
    decide +kernel
  have hvalid : longModelCall.Valid := by
    rw [RuntimeEvent.Valid]
    decide +kernel
  have hkey := EventStreamKey.valid_fromScope hvalid
  have happart : ∀ event ∈ [appendOne longModelCall].flatMap Append.accepted,
      ¬ PlaceholderClash (EventStreamKey.fromScope event.scope) longModelCallKey := by
    rw [hhistory]
    exact List.forall_mem_singleton.2 fun hclash => hclash.ne rfl
  refine ⟨hkey, ((streams_apart longModelCallKey hkey).2 .postgres [appendOne longModelCall]
    ?_ ?_).2 happart, happart⟩
  · rw [hhistory]
    exact List.forall_mem_singleton.2 hvalid
  · intro row hrow
    refine .inr ?_
    revert row
    decide +kernel

/-- The stream without an agent is answered with the event of the agent `_none`. -/
theorem placeholder_agent_read_by_stream_without :
    EventStreamKey.fromScope placeholderAgentCall.scope ≠ longModelCallKey ∧
      AgentId.new "_none" = .ok ⟨"_none"⟩ ∧
      streamPath .runtime (EventStreamKey.fromScope placeholderAgentCall.scope) =
        streamPath .runtime longModelCallKey ∧
      (afterAppends .inMemory [appendOne placeholderAgentCall]).readAfterCursor longModelCallKey .any
        none 10 = .ok ⟨[⟨1, placeholderAgentCall.stored⟩], 1⟩ := by
  refine ⟨?_, ?_, ?_, ?_⟩
  · decide +kernel
  · decide +kernel
  · decide +kernel
  · decide +kernel

end Ironclaw.Events
