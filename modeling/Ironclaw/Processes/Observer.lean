import Ironclaw.Processes.GroupCommit

/-! # Durable observers of the journal

`journal_store/observer.rs` and the delivery task of `journal_store/flusher.rs`, for one observer
that several instances of the store serve under the same identifier.

* An instance delivers the batches it commits from memory (`deliverCommittedBatch`), as long as
  the cursor it believes acknowledged lies directly before the batch; else it replays the journal
  from the stored cursor, page by page (`replay`).
* The stored cursor is written under the condition that its row is still at the version last
  read. A write that loses this race drops the cached view.
* Everything an instance does on behalf of the observer happens under the delivery lock, one task
  at a time; `DeliveryTask` is what the holder of the lock does next. Between two of its calls
  other instances act.

The commits handed over by callbacks that succeeded are recorded in `handed`. -/

namespace Ironclaw.Processes

/-! ### Batches and pages -/

/-- What an observer is handed of a committed event. -/
structure ProcessJournalCommit where
  state : JournaledProcessSnapshot
  kind : ProcessJournalKind
  sanitizedReason : Option String
deriving DecidableEq

/-- The commit of an event; an event without committed state has none. -/
def ProcessJournalEntry.commit (entry : ProcessJournalEntry) : Option ProcessJournalCommit :=
  entry.committedState.map fun state => ⟨state, entry.kind, entry.sanitizedReason⟩

/-- The commits of a list of events, as an observer is handed them. -/
def journalCommits (entries : List ProcessJournalEntry) : List ProcessJournalCommit :=
  entries.filterMap (·.commit)

/-- Committed events on their way to the observers. -/
structure CommittedBatch where
  first : ProcessJournalCursor
  last : ProcessJournalCursor
  commits : List ProcessJournalCommit
deriving DecidableEq

/-- The delivery of the events a transaction has committed, if there are any. -/
def committedBatch (entries : List ProcessJournalEntry) : Option CommittedBatch := do
  let first ← entries.head?
  let last ← entries.getLast?
  return ⟨first.cursor, last.cursor, journalCommits entries⟩

namespace CommittedBatch

/-- Whether `next` starts exactly where the batch ends. -/
def precedes (batch next : CommittedBatch) : Bool := saturatingAdd batch.last 1 = next.first

/-- Fold a directly following batch into this one. -/
def absorb (batch next : CommittedBatch) : CommittedBatch :=
  { batch with last := next.last, commits := batch.commits ++ next.commits }

end CommittedBatch

structure ProcessJournalPage where
  entries : List ProcessJournalEntry
  nextCursor : ProcessJournalCursor
  truncated : Bool
deriving DecidableEq

def journalReadBatch : ℕ := 1024

/-- The events past a cursor, in the order of the cursor index. -/
def MaterializedRows.journalAfter (d : MaterializedRows) (after : ProcessJournalCursor) :
    List ProcessJournalEntry :=
  (d.journal.filter fun entry => after = 0 ∨ after < entry.cursor).insertionSort
    fun a b => a.cursor ≤ b.cursor

def MaterializedRows.readJournalPage (d : MaterializedRows)
    (after : Option ProcessJournalCursor) (limit : ℕ) : ProcessJournalPage :=
  let afterCursor := after.getD 0
  let found := (d.journalAfter afterCursor).take (limit + 1)
  let entries := found.take limit
  { entries
    nextCursor := (entries.getLast?.map (·.cursor)).getD afterCursor
    truncated := limit < found.length }

/-- The events of a page up to the first that reaches the target, and whether one does. -/
def untilTarget (target : Option ProcessJournalCursor) :
    List ProcessJournalEntry → List ProcessJournalEntry × Bool
  | [] => ([], false)
  | entry :: rest =>
    if target.any (· ≤ entry.cursor) then ([entry], true)
    else
      let rest := untilTarget target rest
      (entry :: rest.1, rest.2)

/-! ### Instances -/

/-- Delivery progress as an instance knows it. -/
structure ObserverDeliveryState where
  acknowledged : Option ProcessJournalCursor := none
  version : Option ℕ := none

def maxCursorConflictRetries : ℕ := 8

/-- What the holder of the delivery lock does next. -/
inductive DeliveryTask where
  | free
  | observeBatch (batch : CommittedBatch)
  | acknowledgeBatch (batch : CommittedBatch)
  | readCursor (target : Option ProcessJournalCursor) (cursorConflicts : ℕ)
  | readPage (target after : Option ProcessJournalCursor) (cursorConflicts : ℕ)
  | observePage (target : Option ProcessJournalCursor) (page : ProcessJournalPage)
      (cursorConflicts : ℕ)
  | acknowledgePage (target : Option ProcessJournalCursor) (page : ProcessJournalPage)
      (cursorConflicts : ℕ)
deriving DecidableEq

/-- One instance of the store, as far as it serves the observer: the queue of the delivery task
and the batch it holds, the state under the delivery lock, and the replays that wait for the
lock, each with its target. -/
structure StoreInstance where
  deliveries : List CommittedBatch := []
  batch : Option CommittedBatch := none
  delivery : ObserverDeliveryState := {}
  task : DeliveryTask := .free
  replays : List (Option ProcessJournalCursor) := []

/-- How a call to the observer or to the backend ends. A write can be `lost`: it has taken
effect, and its caller sees an error. -/
inductive CallOutcome where
  | ok
  | error
  | lost

/-- The task that delivers a batch; a batch without commits needs no callback. -/
def batchTask (batch : CommittedBatch) : DeliveryTask :=
  if batch.commits = [] then .acknowledgeBatch batch else .observeBatch batch

def pageTask (target : Option ProcessJournalCursor) (page : ProcessJournalPage)
    (cursorConflicts : ℕ) : DeliveryTask :=
  let delivered := (untilTarget target page.entries).1
  if journalCommits delivered ≠ [] then .observePage target page cursorConflicts
  else if delivered ≠ [] then .acknowledgePage target page cursorConflicts
  else .free

namespace StoreInstance

/-- The holder of the lock fails, and a replay in the background takes over. -/
def fail (inst : StoreInstance) : StoreInstance :=
  { inst with task := .free, replays := inst.replays ++ [none] }

/-- Deliver the batch at hand from memory, if the acknowledged cursor lies directly before it. -/
def deliverCommittedBatch (inst : StoreInstance) (batch : CommittedBatch) : StoreInstance :=
  if inst.delivery.acknowledged.any fun acknowledged =>
      saturatingAdd acknowledged 1 = batch.first then
    { inst with batch := none, task := batchTask batch }
  else
    { inst with batch := none, replays := inst.replays ++ [some batch.last] }

end StoreInstance

/-! ### The system -/

/-- The stored cursor of the observer. -/
structure CursorRow where
  cursor : ProcessJournalCursor
  version : ℕ

structure ObserverSystem where
  rows : MaterializedRows
  cursorRow : Option CursorRow
  handed : List ProcessJournalCommit
  instances : ℕ → StoreInstance

inductive ObserverEvent where
  | commit (i : ℕ) (batch : List StoredProcessCommand) (observed : Bool)
  | receive (i : ℕ)
  | absorb (i : ℕ)
  | deliver (i : ℕ)
  | subscribe (i : ℕ)
  | replay (i : ℕ) (target : Option ProcessJournalCursor)
  | giveUp (i : ℕ) (target : Option ProcessJournalCursor)
  | proceed (i : ℕ) (outcome : CallOutcome)
  | restart (i : ℕ)

/-- The event cannot happen in this state. -/
inductive NotEnabled where
  | notEnabled

namespace ObserverSystem

/-- A store with the given rows, no stored cursor and no instance at work. -/
def start (d : MaterializedRows) : ObserverSystem := ⟨d, none, [], fun _ => {}⟩

variable (s : ObserverSystem)

/-- The stored cursor; cursor 0 precedes every event. -/
def cursor : ProcessJournalCursor := (s.cursorRow.map (·.cursor)).getD 0

def setInstance (i : ℕ) (inst : StoreInstance) : ObserverSystem :=
  { s with instances := fun j => if j = i then inst else s.instances j }

/-- Write the cursor if its row is at the expected version, or absent if none is expected. -/
def putCursor (cursor : ProcessJournalCursor) (expected : Option ℕ) : Option CursorRow :=
  if s.cursorRow.map (·.version) = expected then some ⟨cursor, expected.elim 1 (· + 1)⟩ else none

/-- Write the cursor and refresh the cached view, or drop it on a conflict; the two continuations
are the task after either. -/
def acknowledgeObserverCursor (i : ℕ) (cursor : ProcessJournalCursor)
    (landed conflict : StoreInstance → StoreInstance) : CallOutcome → ObserverSystem
  | .ok =>
    match s.putCursor cursor (s.instances i).delivery.version with
    | some row =>
      { s with cursorRow := some row }.setInstance i
        (landed { s.instances i with delivery := ⟨some cursor, some row.version⟩ })
    | none => s.setInstance i (conflict { s.instances i with delivery := ⟨none, none⟩ })
  | .error => s.setInstance i (s.instances i).fail
  | .lost =>
    { s with
      cursorRow := (s.putCursor cursor (s.instances i).delivery.version).or s.cursorRow
    }.setInstance i (s.instances i).fail

/-- The next task of a replay whose cursor write landed. -/
def afterPage (target : Option ProcessJournalCursor) (page : ProcessJournalPage) : DeliveryTask :=
  if (untilTarget target page.entries).2 || !page.truncated then .free
  else .readPage target (some page.nextCursor) 0

/-- A replay that lost the race for the cursor reads it again, a bounded number of times. -/
def afterConflict (target : Option ProcessJournalCursor) (cursorConflicts : ℕ)
    (inst : StoreInstance) : StoreInstance :=
  if maxCursorConflictRetries < cursorConflicts + 1 then inst.fail
  else { inst with task := .readCursor target (cursorConflicts + 1) }

/-- The call that the holder of the lock waits for returns. -/
def proceed (i : ℕ) (outcome : CallOutcome) : Option ObserverSystem :=
  match (s.instances i).task with
  | .free => none
  | .observeBatch batch =>
    match outcome with
    | .ok =>
      some ({ s with handed := s.handed ++ batch.commits }.setInstance i
        { s.instances i with task := .acknowledgeBatch batch })
    | _ => some (s.setInstance i (s.instances i).fail)
  | .acknowledgeBatch batch =>
    some (s.acknowledgeObserverCursor i batch.last (fun x => { x with task := .free })
      (fun x => { x with task := .free, replays := x.replays ++ [some batch.last] }) outcome)
  | .readCursor target cursorConflicts =>
    match outcome with
    | .ok =>
      some (s.setInstance i { s.instances i with
        delivery := ⟨some s.cursor, s.cursorRow.map (·.version)⟩
        task := .readPage target (s.cursorRow.map (·.cursor)) cursorConflicts })
    | _ => some (s.setInstance i (s.instances i).fail)
  | .readPage target after cursorConflicts =>
    if target.any fun target => after.any (target ≤ ·) then
      some (s.setInstance i { s.instances i with task := .free })
    else
      match outcome with
      | .ok =>
        let page := s.rows.readJournalPage after (journalReadBatch - 1)
        some (s.setInstance i { s.instances i with task := pageTask target page cursorConflicts })
      | _ => some (s.setInstance i (s.instances i).fail)
  | .observePage target page cursorConflicts =>
    match outcome with
    | .ok =>
      some ({ s with
        handed := s.handed ++ journalCommits (untilTarget target page.entries).1
      }.setInstance i { s.instances i with task := .acknowledgePage target page cursorConflicts })
    | _ => some (s.setInstance i (s.instances i).fail)
  | .acknowledgePage target page cursorConflicts =>
    match (untilTarget target page.entries).1.getLast? with
    | none => none
    | some last =>
      some (s.acknowledgeObserverCursor i last.cursor
        (fun x => { x with task := afterPage target page })
        (afterConflict target cursorConflicts) outcome)

/-- One event. -/
def next : ObserverEvent → Option ObserverSystem
  | .commit i batch observed =>
    match s.rows.commitPending batch with
    | .error _ => none
    | .ok (_, rows) =>
      let delivery := if observed then committedBatch (s.rows.recorded batch) else none
      some ({ s with rows }.setInstance i
        { s.instances i with deliveries := (s.instances i).deliveries ++ delivery.toList })
  | .receive i =>
    match (s.instances i).batch, (s.instances i).deliveries with
    | none, batch :: rest =>
      some (s.setInstance i { s.instances i with batch := some batch, deliveries := rest })
    | _, _ => none
  | .absorb i =>
    match (s.instances i).batch, (s.instances i).deliveries with
    | some batch, following :: rest =>
      if batch.precedes following then
        some (s.setInstance i
          { s.instances i with batch := some (batch.absorb following), deliveries := rest })
      else none
    | _, _ => none
  | .deliver i =>
    match (s.instances i).task, (s.instances i).batch with
    | .free, some batch => some (s.setInstance i ((s.instances i).deliverCommittedBatch batch))
    | _, _ => none
  | .subscribe i =>
    some (s.setInstance i { s.instances i with replays := (s.instances i).replays ++ [none] })
  | .replay i target =>
    if (s.instances i).task = .free ∧ target ∈ (s.instances i).replays then
      some (s.setInstance i { s.instances i with
        task := .readCursor target 0
        replays := (s.instances i).replays.erase target })
    else none
  | .giveUp i target =>
    some (s.setInstance i
      { s.instances i with replays := (s.instances i).replays.erase target })
  | .proceed i outcome => s.proceed i outcome
  | .restart i => some (s.setInstance i {})

def step (event : ObserverEvent) : Except NotEnabled (Unit × ObserverSystem) :=
  match s.next event with
  | some s' => .ok ((), s')
  | none => .error .notEnabled

end ObserverSystem

/-- One event with the states before and after it. -/
abbrev ObserverStep := Step ObserverSystem ObserverEvent

/-- `ObserverRun d history s`: the events of `history`, oldest first, lead from a store with the
rows `d` and no stored cursor to `s`. -/
abbrev ObserverRun (d : MaterializedRows) (history : List ObserverStep) (s : ObserverSystem) :
    Prop :=
  Run Eq ObserverSystem.step (ObserverSystem.start d) history s

end Ironclaw.Processes
