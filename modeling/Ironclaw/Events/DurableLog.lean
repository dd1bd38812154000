import Ironclaw.Filesystem.Scoped
import Ironclaw.Events.Cursor

/-! # The filesystem log

`ironclaw_event_store/src/durable_log.rs` over the event plane of a root filesystem. One path holds
one stream; the records of a path are in increasing sequence. The in-memory backend numbers every
path on its own, the databases number all paths together and hold their cursors in 64 signed bits.

What a backend does not do is an argument: `Faults` says which paths an append fails on. -/

namespace Ironclaw.Events

open Ironclaw.Filesystem

/-! ### The event plane of a backend -/

inductive EventBackend
  | inMemory
  | libSql
  | postgres
deriving DecidableEq

structure EventRecord where
  seq : ℕ
  payload : RuntimeEventWire

/-- The records of all paths, in the order of their appends. -/
abbrev EventTable := List (VirtualPath × EventRecord)

/-- The paths an append fails on, with the failure. -/
abbrev Faults := VirtualPath → Option FilesystemError

namespace EventTable

def recordsAt (table : EventTable) (path : VirtualPath) : List EventRecord :=
  (table.filter fun row => row.1 = path).map (·.2)

def nextSeq (table : EventTable) (backend : EventBackend) (path : VirtualPath) : ℕ :=
  match backend with
  | .inMemory => ((table.recordsAt path).getLast?.map (·.seq + 1)).getD 1
  | .libSql | .postgres => (table.getLast?.map (·.2.seq + 1)).getD 1

def append (table : EventTable) (backend : EventBackend) (path : VirtualPath)
    (payload : RuntimeEventWire) : EventTable × ℕ :=
  let seq := table.nextSeq backend path
  (table ++ [(path, ⟨seq, payload⟩)], seq)

def appendBatch (table : EventTable) (backend : EventBackend) (path : VirtualPath) :
    List RuntimeEventWire → EventTable × List ℕ
  | [] => (table, [])
  | payload :: rest =>
    let (table, seq) := table.append backend path payload
    let (table, seqs) := appendBatch table backend path rest
    (table, seq :: seqs)

def i64Max : ℕ := 2 ^ 63 - 1

/-- The databases hold a cursor in 64 signed bits. -/
def cursorInRange (backend : EventBackend) (path : VirtualPath) (operation : FilesystemOperation)
    (cursor : ℕ) : Except FilesystemError Unit :=
  match backend with
  | .inMemory => .ok ()
  | .libSql =>
    rejectIf (i64Max < cursor) (.backend path operation
      (if operation = .tail then
        "tail cursor exceeds i64: out of range integral type conversion attempted"
      else "head_seq cursor exceeds i64"))
  | .postgres =>
    rejectIf (i64Max < cursor) (.backend path operation
      (if operation = .tail then "tail cursor exceeds i64" else "head_seq cursor exceeds i64"))

/-- At most `maxRecords` records of the path after a sequence number. -/
def tailBounded (table : EventTable) (backend : EventBackend) (path : VirtualPath) (start : ℕ)
    (maxRecords : ℕ) : Except FilesystemError (List EventRecord) :=
  if maxRecords = 0 then .ok []
  else do
    cursorInRange backend path .tail start
    return ((table.recordsAt path).filter fun record => decide (start < record.seq)).take maxRecords

/-- The largest sequence number of the path after a given one. -/
def headSeq (table : EventTable) (backend : EventBackend) (path : VirtualPath) (start : ℕ) :
    Except FilesystemError (Option ℕ) := do
  cursorInRange backend path .headSeq start
  return (((table.recordsAt path).filter fun record => decide (start < record.seq)).map
    (·.seq)).max?

end EventTable

/-! ### Paths -/

inductive StreamKind
  | runtime
  | audit

def StreamKind.segment : StreamKind → String
  | .runtime => "runtime"
  | .audit => "audit"

/-- The path segment of the agent: a placeholder stands for a key without one. -/
def agentSegment (stream : EventStreamKey) : String := (stream.agentId.map (·.asStr)).getD "_none"

def streamPath (kind : StreamKind) (stream : EventStreamKey) : Except EventError ScopedPath :=
  (ScopedPath.new ("/events/" ++ kind.segment ++ "/" ++ stream.tenantId.asStr ++ "/" ++
    stream.userId.asStr ++ "/" ++ agentSegment stream)).mapError fun _ =>
      .durableLog "filesystem event store stream path is invalid"

/-- The view of the log: one mount, of the events plane under its own name. -/
def eventsView : MountView where
  mounts := [{
    mountAlias := ⟨"/events", normal_of_mem_virtualRoots (by decide)⟩
    target := ⟨"/events", normal_of_mem_virtualRoots (by decide), by decide +kernel⟩
    permissions := ⟨true, true, false, true, false⟩ }]

def mapFilesystemAppendError : FilesystemError → EventError
  | .permissionDenied _ _ =>
    .durableLog "filesystem event store rejected append: permission denied"
  | .unsupported _ _ =>
    .durableLog "filesystem event store mount does not advertise the events plane"
  | other => .filesystem "filesystem event store failed to append" other

def mapFilesystemTailError : FilesystemError → EventError
  | .permissionDenied _ _ =>
    .durableLog "filesystem event store rejected tail: permission denied"
  | .unsupported _ _ =>
    .durableLog "filesystem event store mount does not advertise the events plane"
  | other => .filesystem "filesystem event store failed to read stream" other

/-- The error of a group, given to each of its events: a copy is made through its text. -/
def rewrapped : EventError → EventError
  | .durableLog reason => .durableLog ("durable event log failed: " ++ reason)
  | .filesystem reason error => .filesystem ("durable event log failed: " ++ reason) error
  | other => other

/-! ### The log -/

structure FilesystemDurableEventLog where
  backend : EventBackend
  table : EventTable

abbrev AppendResult := Except EventError (EventLogEntry RuntimeEvent)

/-- The events of a batch that go to one path, each with its place in the batch. -/
structure BatchGroup where
  path : ScopedPath
  items : List (ℕ × RuntimeEvent)

namespace FilesystemDurableEventLog

def new (backend : EventBackend) : FilesystemDurableEventLog := ⟨backend, []⟩

def eventPath (event : RuntimeEvent) : Except EventError ScopedPath :=
  streamPath .runtime (EventStreamKey.fromScope event.scope)

/-- Resolve a path for an append and ask the backend. -/
def resolveAppend (faults : Faults) (path : ScopedPath) : Except EventError VirtualPath :=
  match resolveWithPermissionView eventsView path .append with
  | .error e => .error (mapFilesystemAppendError e)
  | .ok target =>
    match faults target with
    | some e => .error (mapFilesystemAppendError e)
    | none => .ok target

def append (log : FilesystemDurableEventLog) (faults : Faults) (event : RuntimeEvent) :
    FilesystemDurableEventLog × AppendResult :=
  match (eventPath event).bind (resolveAppend faults) with
  | .error e => (log, .error e)
  | .ok target =>
    let (table, seq) := log.table.append log.backend target event.serialize
    ({ log with table := table }, .ok ⟨seq, event⟩)

/-- Put an event into the group of its path. -/
def addToGroup (groups : List BatchGroup) (path : ScopedPath) (item : ℕ × RuntimeEvent) :
    List BatchGroup :=
  if groups.any (fun group => group.path = path) then
    groups.map fun group =>
      if group.path = path then { group with items := group.items ++ [item] } else group
  else groups ++ [⟨path, [item]⟩]

/-- Group the events by path, in the order of the batch; an event without a path has its answer. -/
def gather : ℕ → List RuntimeEvent → List BatchGroup × (ℕ → Option AppendResult) →
    List BatchGroup × (ℕ → Option AppendResult)
  | _, [], acc => acc
  | index, event :: rest, (groups, results) =>
    match eventPath event with
    | .ok path => gather (index + 1) rest (addToGroup groups path (index, event), results)
    | .error e => gather (index + 1) rest (groups, Function.update results index (some (.error e)))

def answer (results : ℕ → Option AppendResult) :
    List ((ℕ × RuntimeEvent) × AppendResult) → ℕ → Option AppendResult
  | [] => results
  | ((index, _), result) :: rest => answer (Function.update results index (some result)) rest

/-- Write one group: all of its events, or none. -/
def appendGroup (faults : Faults) (acc : FilesystemDurableEventLog × (ℕ → Option AppendResult))
    (group : BatchGroup) : FilesystemDurableEventLog × (ℕ → Option AppendResult) :=
  let (log, results) := acc
  match resolveAppend faults group.path with
  | .error e => (log, answer results (group.items.map fun item => (item, .error (rewrapped e))))
  | .ok target =>
    let (table, seqs) :=
      log.table.appendBatch log.backend target (group.items.map fun item => item.2.serialize)
    ({ log with table := table },
      answer results ((group.items.zip seqs).map fun item => (item.1, .ok ⟨item.2, item.1.2⟩)))

def appendBatch (log : FilesystemDurableEventLog) (faults : Faults) (events : List RuntimeEvent) :
    FilesystemDurableEventLog × List AppendResult :=
  let (groups, results) := gather 0 events ([], fun _ => none)
  let (log, results) := groups.foldl (appendGroup faults) (log, results)
  (log, (List.range events.length).map fun index =>
    (results index).getD (.error (.durableLog "filesystem event store batch produced no result")))

def tail (log : FilesystemDurableEventLog) (path : ScopedPath) (start maxRecords : ℕ) :
    Except EventError (List EventRecord) :=
  match resolveWithPermissionView eventsView path .tail with
  | .error e => .error (mapFilesystemTailError e)
  | .ok target =>
    (log.table.tailBounded log.backend target start maxRecords).mapError mapFilesystemTailError

def eventTailScanPageMin : ℕ := 64

def tailScanPageLimit (remainingMatches : ℕ) : ℕ := max remainingMatches eventTailScanPageMin

/-- The pass over one page. -/
def scanPage (filter : ReadScope) (limit : ℕ) : List EventRecord →
    List (EventLogEntry RuntimeEvent) × EventCursor →
    Except EventError (List (EventLogEntry RuntimeEvent) × EventCursor)
  | [], acc => .ok acc
  | record :: rest, (entries, _) =>
    match runtimeEventFromTrustedJson record.payload with
    | .error e => .error (.serialize e)
    | .ok event =>
      if filter.matchesEvent event then
        let entries := entries ++ [(⟨record.seq, event⟩ : EventLogEntry RuntimeEvent)]
        if limit ≤ entries.length then .ok (entries, record.seq)
        else scanPage filter limit rest (entries, record.seq)
      else scanPage filter limit rest (entries, record.seq)

def finish (acc : List (EventLogEntry RuntimeEvent) × EventCursor) : EventReplay RuntimeEvent :=
  ⟨acc.1, match acc.1.getLast? with
    | some entry => if entry.cursor < acc.2 then acc.2 else entry.cursor
    | none => acc.2⟩

/-- Nothing follows the cursor: it is the head, or it is none of this stream's. -/
def probeHead (log : FilesystemDurableEventLog) (path : ScopedPath) (after : EventCursor) :
    Except EventError (EventReplay RuntimeEvent) :=
  match log.tail path (after - 1) 1 with
  | .error e => .error e
  | .ok [] => .error (.replayGap after 0)
  | .ok (_ :: _) => .ok ⟨[], after⟩

/-- Page after page until the limit is filled or a page is short. -/
def readPages (log : FilesystemDurableEventLog) (path : ScopedPath) (filter : ReadScope)
    (after : EventCursor) (limit : ℕ) : ℕ → Bool →
    List (EventLogEntry RuntimeEvent) × EventCursor → Except EventError (EventReplay RuntimeEvent)
  | 0, _, acc => .ok (finish acc)
  | fuel + 1, firstScan, acc =>
    let pageLimit := tailScanPageLimit (limit - acc.1.length)
    match log.tail path acc.2 pageLimit with
    | .error e => .error e
    | .ok [] => if firstScan && decide (0 < after) then log.probeHead path after else .ok (finish acc)
    | .ok (record :: more) =>
      match scanPage filter limit (record :: more) acc with
      | .error e => .error e
      | .ok acc =>
        if limit ≤ acc.1.length ∨ (record :: more).length < pageLimit then .ok (finish acc)
        else readPages log path filter after limit fuel false acc

-- every page but the last holds a record, so the loop turns at most once more than there are records
def readAfterCursor (log : FilesystemDurableEventLog) (stream : EventStreamKey) (filter : ReadScope)
    (after : Option EventCursor) (limit : ℕ) : Except EventError (EventReplay RuntimeEvent) :=
  let after := after.getD 0
  if limit = 0 then .error (.invalidReplayRequest "limit must be greater than zero")
  else
    match streamPath .runtime stream with
    | .error e => .error e
    | .ok path => log.readPages path filter after limit (log.table.length + 1) true ([], after)

def headSeq (log : FilesystemDurableEventLog) (path : ScopedPath) (start : ℕ) :
    Except EventError (Option ℕ) :=
  match resolveWithPermissionView eventsView path .headSeq with
  | .error e => .error (mapFilesystemTailError e)
  | .ok target => (log.table.headSeq log.backend target start).mapError mapFilesystemTailError

def headCursor (log : FilesystemDurableEventLog) (stream : EventStreamKey) (after : EventCursor) :
    Except EventError EventCursor := do
  let path ← streamPath .runtime stream
  let found ← log.headSeq path (after - 1)
  let head := found.getD (after - 1)
  if head < after then .error (.replayGap after 0) else .ok head

end FilesystemDurableEventLog

end Ironclaw.Events
