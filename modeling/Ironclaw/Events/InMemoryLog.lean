import Ironclaw.Events.Cursor

/-! # The in-memory log

`ironclaw_event_log/src/in_memory.rs`: each stream numbers its records from one, and a read is one
pass over the records after the cursor. -/

namespace Ironclaw.Events

variable {ρ : Type}

structure StreamState (ρ : Type) where
  nextCursor : EventCursor
  earliestRetained : EventCursor
  entries : List (EventLogEntry ρ)

namespace StreamState

def default : StreamState ρ := ⟨0, 0, []⟩

def append (state : StreamState ρ) (record : ρ) :
    Except EventError (StreamState ρ × EventLogEntry ρ) := do
  rejectIf (2 ^ 64 ≤ state.nextCursor + 1)
    (.durableLog "event cursor overflowed u64; durable log exhausted")
  let entry : EventLogEntry ρ := ⟨state.nextCursor + 1, record⟩
  return (⟨state.nextCursor + 1, state.earliestRetained, state.entries ++ [entry]⟩, entry)

/-- The pass over the entries after the cursor: what matched, and the cursor reached. -/
def scanAfter (state : StreamState ρ) (after : EventCursor) (limit : ℕ) (isMatch : ρ → Bool) :
    List (EventLogEntry ρ) × EventCursor :=
  scan EventLogEntry.cursor (fun entry => isMatch entry.record) limit
    (state.entries.dropWhile fun entry => decide (entry.cursor ≤ after)) ([], after)

def readAfter (state : StreamState ρ) (after : EventCursor) (limit : ℕ) (isMatch : ρ → Bool) :
    Except EventError (EventReplay ρ) := do
  rejectIf (state.nextCursor < after) (.replayGap after state.nextCursor)
  rejectIf (0 < state.earliestRetained ∧ after < state.earliestRetained - 1)
    (.replayGap after state.earliestRetained)
  let (entries, lastScanned) := state.scanAfter after limit isMatch
  return ⟨entries, (entries.getLast?.map (·.cursor)).getD lastScanned⟩

end StreamState

/-- The streams by key. -/
structure InMemoryDurableEventLog where
  streams : Table (Prod.fst : EventStreamKey × StreamState RuntimeEvent → EventStreamKey)

def limitError : EventError := .invalidReplayRequest "limit must be greater than zero"

namespace InMemoryDurableEventLog

def new : InMemoryDurableEventLog := ⟨.empty⟩

def stream (log : InMemoryDurableEventLog) (key : EventStreamKey) : StreamState RuntimeEvent :=
  ((log.streams.get key).map (·.2)).getD .default

def append (log : InMemoryDurableEventLog) (event : RuntimeEvent) :
    Except EventError (InMemoryDurableEventLog × EventLogEntry RuntimeEvent) := do
  let key := EventStreamKey.fromScope event.scope
  let (state, entry) ← (log.stream key).append event
  return (⟨log.streams.put (key, state)⟩, entry)

def readAfterCursor (log : InMemoryDurableEventLog) (stream : EventStreamKey) (filter : ReadScope)
    (after : Option EventCursor) (limit : ℕ) : Except EventError (EventReplay RuntimeEvent) :=
  let after := after.getD 0
  if limit = 0 then .error limitError
  else
    match log.streams.get stream with
    | some (_, state) => state.readAfter after limit filter.matchesEvent
    | none => if 0 < after then .error (.replayGap after 0) else .ok ⟨[], after⟩

/-- The appends of a history; a batch is its events one by one. -/
def appendAll (log : InMemoryDurableEventLog) :
    List RuntimeEvent → Except EventError InMemoryDurableEventLog
  | [] => .ok log
  | event :: rest => do
    let (log, _) ← log.append event
    log.appendAll rest

end InMemoryDurableEventLog

/-! ### What the streams hold -/

namespace StreamState

/-- The stream holds the records, numbered from one on, and nothing was discarded. -/
structure Holds (state : StreamState ρ) (records : List ρ) : Prop where
  records_eq : state.entries.map (·.record) = records
  cursors : state.entries.map (·.cursor) = List.range' 1 state.entries.length
  next : state.nextCursor = state.entries.length
  retained : state.earliestRetained = 0

namespace Holds

variable {state : StreamState ρ} {records : List ρ}

theorem default : Holds (.default : StreamState ρ) [] := ⟨rfl, rfl, rfl, rfl⟩

variable (h : state.Holds records)
include h

theorem sorted : state.entries.Pairwise (·.cursor < ·.cursor) := by
  rw [← List.pairwise_map, h.cursors]
  exact List.pairwise_lt_range'

theorem append {record : ρ} {after : StreamState ρ} {entry : EventLogEntry ρ}
    (happend : state.append record = .ok (after, entry)) : after.Holds (records ++ [record]) := by
  obtain ⟨_, -, heq⟩ := bind_eq_ok.1 happend
  obtain ⟨rfl, -⟩ := Prod.mk.inj (pure_eq_ok.1 heq)
  refine ⟨?_, ?_, ?_, h.retained⟩
  · rw [List.map_append, h.records_eq, List.map_singleton]
  · rw [List.map_append, h.cursors, List.length_append, List.length_singleton, List.range'_concat,
      List.map_singleton, h.next, Nat.one_mul, Nat.add_comm 1]
  · dsimp only
    rw [List.length_append, List.length_singleton, h.next]

/-- The head of the stream is the number of its records. -/
theorem notPast_iff {after : EventCursor} :
    NotPast EventLogEntry.cursor state.entries after ↔ after ≤ state.nextCursor := by
  have hmem : ∀ cursor, (∃ entry ∈ state.entries, entry.cursor = cursor) ↔
      1 ≤ cursor ∧ cursor < 1 + state.entries.length := by
    intro cursor
    rw [← List.mem_range'_1, ← h.cursors, List.mem_map]
  rw [NotPast, h.next]
  constructor
  · rintro (rfl | ⟨entry, hentry, hle⟩)
    · exact Nat.zero_le _
    · obtain ⟨-, hlt⟩ := (hmem entry.cursor).1 ⟨entry, hentry, rfl⟩
      exact hle.trans (Nat.lt_one_add_iff.1 hlt)
  · intro hle
    rcases Nat.eq_zero_or_pos after with hzero | hpositive
    · exact .inl hzero
    · obtain ⟨entry, hentry, rfl⟩ := (hmem after).2 ⟨hpositive, Nat.lt_one_add_iff.2 hle⟩
      exact .inr ⟨entry, hentry, le_rfl⟩

/-- The entries behind the partition point are those after the cursor. -/
theorem dropWhile_eq (after : EventCursor) :
    state.entries.dropWhile (fun entry => decide (entry.cursor ≤ after)) =
      state.entries.filter fun entry => decide (after < entry.cursor) := by
  have hsorted := h.sorted
  generalize state.entries = entries at hsorted
  induction entries with
  | nil => rfl
  | cons entry entries ih =>
    obtain ⟨hfirst, hrest⟩ := List.pairwise_cons.1 hsorted
    by_cases hle : entry.cursor ≤ after
    · rw [List.dropWhile_cons, if_pos (decide_eq_true hle), List.filter_cons, ih hrest,
        decide_eq_false (not_lt.2 hle), if_neg Bool.false_ne_true]
    · rw [List.dropWhile_cons, decide_eq_false hle, if_neg Bool.false_ne_true, eq_comm,
        List.filter_eq_self]
      intro other hother
      rw [decide_eq_true_iff]
      rcases List.mem_cons.1 hother with rfl | hother
      · exact not_le.1 hle
      · exact (not_le.1 hle).trans (hfirst other hother)

theorem readAfter_of_past {after : EventCursor} {limit : ℕ}
    {isMatch : ρ → Bool} (hafter : ¬ NotPast EventLogEntry.cursor state.entries after) :
    state.readAfter after limit isMatch = .error (.replayGap after state.nextCursor) := by
  rw [h.notPast_iff, not_le] at hafter
  rw [readAfter, rejectIf_eq_error.2 ⟨hafter, rfl⟩]
  rfl

theorem readAfter_of_notPast {after : EventCursor} {limit : ℕ}
    {isMatch : ρ → Bool} (hafter : NotPast EventLogEntry.cursor state.entries after) :
    state.readAfter after limit isMatch = .ok ⟨(state.scanAfter after limit isMatch).1,
      ((state.scanAfter after limit isMatch).1.getLast?.map (·.cursor)).getD
        (state.scanAfter after limit isMatch).2⟩ := by
  rw [h.notPast_iff] at hafter
  have hkept : ¬ (0 < state.earliestRetained ∧ after < state.earliestRetained - 1) := by
    rw [h.retained]
    exact fun hlt => Nat.lt_irrefl _ hlt.1
  rw [readAfter, (rejectIf_eq_ok (u := ())).2 (not_lt.2 hafter), (rejectIf_eq_ok (u := ())).2 hkept]
  rfl

theorem scanAfter_eq (after limit : ℕ) (isMatch : ρ → Bool) :
    state.scanAfter after limit isMatch =
      scan EventLogEntry.cursor (fun entry => isMatch entry.record) limit
        (state.entries.filter fun entry => decide (after < entry.cursor)) ([], after) := by
  rw [scanAfter, h.dropWhile_eq]

theorem scanned {limit : ℕ} (hlimit : 0 < limit) (after : EventCursor) (isMatch : ρ → Bool) :
    Scanned EventLogEntry.cursor (fun entry => isMatch entry.record) state.entries after
      (state.scanAfter after limit isMatch).1
      (((state.scanAfter after limit isMatch).1.getLast?.map (·.cursor)).getD
        (state.scanAfter after limit isMatch).2) := by
  obtain ⟨passed, rest, hpassed⟩ := @exists_passed _ EventLogEntry.cursor
    (fun entry => isMatch entry.record) limit
    (state.entries.filter fun entry => decide (after < entry.cursor)) [] after hlimit
  have hscanned := hpassed.scanned h.sorted hlimit
  rw [← h.scanAfter_eq] at hscanned
  cases hlast : (state.scanAfter after limit isMatch).1.getLast? with
  | none => exact hscanned
  | some entry => exact hscanned.cut h.sorted hlast

omit h

end Holds

end StreamState

namespace InMemoryDurableEventLog

/-- Every stream holds its events of the history. -/
def Holds (log : InMemoryDurableEventLog) (history : List RuntimeEvent) : Prop :=
  ∀ key, (log.stream key).Holds
    (history.filter fun event => decide (EventStreamKey.fromScope event.scope = key))

theorem holds_new : Holds .new [] := fun _ => .default

theorem Holds.append {log after : InMemoryDurableEventLog} {history : List RuntimeEvent}
    (h : log.Holds history) {event : RuntimeEvent} {entry : EventLogEntry RuntimeEvent}
    (happend : log.append event = .ok (after, entry)) : after.Holds (history ++ [event]) := by
  obtain ⟨⟨state, _⟩, hstate, heq⟩ := bind_eq_ok.1 happend
  obtain ⟨rfl, -⟩ := Prod.mk.inj (pure_eq_ok.1 heq)
  intro key
  rw [stream, Table.get_put, List.filter_append]
  by_cases hkey : EventStreamKey.fromScope event.scope = key
  · subst hkey
    rw [if_pos rfl, List.filter_singleton, decide_eq_true rfl, cond_true]
    exact (h _).append hstate
  · rw [if_neg hkey, List.filter_singleton, decide_eq_false hkey, cond_false, List.append_nil]
    exact h key

theorem Holds.appendAll : ∀ (events : List RuntimeEvent) {log after : InMemoryDurableEventLog}
    {history : List RuntimeEvent}, log.Holds history → log.appendAll events = .ok after →
    after.Holds (history ++ events)
  | [], log, after, history, h, happend => by
    rw [← Except.ok.inj happend, List.append_nil]
    exact h
  | event :: rest, log, after, history, h, happend => by
    obtain ⟨⟨next, entry⟩, hnext, hrest⟩ := bind_eq_ok.1 happend
    rw [List.append_cons]
    exact Holds.appendAll rest (h.append hnext) hrest

theorem readAfterCursor_eq (log : InMemoryDurableEventLog) (key : EventStreamKey) (filter : ReadScope)
    (after : EventCursor) {limit : ℕ} (hlimit : 0 < limit) :
    log.readAfterCursor key filter (some after) limit =
      (log.stream key).readAfter after limit filter.matchesEvent := by
  rw [readAfterCursor, Option.getD_some, if_neg hlimit.ne', stream]
  cases log.streams.get key with
  | some row => rfl
  | none =>
    rcases Nat.eq_zero_or_pos after with rfl | hpositive
    · rfl
    · have hpast : (.default : StreamState RuntimeEvent).nextCursor < after := hpositive
      dsimp only
      rw [if_pos hpositive, Option.map_none, Option.getD_none, StreamState.readAfter,
        rejectIf_eq_error.2 ⟨hpast, rfl⟩]
      rfl

end InMemoryDurableEventLog

end Ironclaw.Events
