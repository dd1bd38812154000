import Ironclaw.Filesystem.InMemory

/-! # The other mutations of the in-memory backend

Appending to a file, deleting a subtree, creating one, declaring an index, and transactions: a
transaction holds the lock of the backend from its beginning to its end, works on the state in
place and keeps what it needs to undo its changes. -/

namespace Ironclaw.Filesystem

structure AtomicSubtreeEntry where
  path : VirtualPath
  entry : Entry

/-- Every path lies below the root and none is listed twice. -/
def validateAtomicSubtreePaths (separated : String) (seen : List VirtualPath) :
    List AtomicSubtreeEntry → Except FilesystemError Unit
  | [] => .ok ()
  | item :: items => do
    rejectIf (Text.startsWith item.path.asStr separated = false) (.pathOutsideMount item.path)
    rejectIf (item.path ∈ seen)
      (.backend item.path .createSubtreeAtomic "atomic subtree paths must be unique")
    validateAtomicSubtreePaths separated (item.path :: seen) items

def validateAtomicSubtreeEntries (root : VirtualPath) (items : List AtomicSubtreeEntry) :
    Except FilesystemError Unit := do
  rejectIf (items = []) (.backend root .createSubtreeAtomic "atomic subtree batch must not be empty")
  validateAtomicSubtreePaths (Text.trimEndMatches root.asStr '/' ++ "/") [] items

namespace State

variable (state : State)

def subtree (path : VirtualPath) : List StoredEntry :=
  state.entries.rows.filter fun stored =>
    stored.path = path || Text.startsWith stored.path.asStr (withTrailingSlash path.asStr)

/-- Append bytes to a file. The projected values of the entry stay as they are. -/
def appendFile (path : VirtualPath) (bytes : List (Fin 256)) : Except FilesystemError State := do
  let existing := state.entries.get path
  let entry : Entry := (existing.map (·.entry)).getD (.bytes [])
  rejectIf (entry.kind ≠ none)
    (.backend path .appendFile "cannot append bytes to a record-shaped entry")
  let nextVersion := match existing with
    | some stored => RecordVersion.next stored.version
    | none => RecordVersion.first
  return { state with
    entries := state.entries.put ⟨path, { entry with body := entry.body ++ bytes }, nextVersion⟩ }

def removeStored (stored : StoredEntry) : State :=
  { state with entries := state.entries.remove stored.path }.updateMaterializedIndexes stored.path
    (some stored.entry) none

/-- Delete the entry at the path and all entries below it. -/
def delete (path : VirtualPath) : Except FilesystemError State := do
  let removed := state.subtree path
  rejectIf (removed = []) (.notFound path .delete)
  return removed.foldl removeStored state

/-- Insert the entries of a subtree that does not exist yet. -/
def createSubtreeAtomic (root : VirtualPath) (items : List AtomicSubtreeEntry) :
    Except FilesystemError (List RecordVersion × State) := do
  validateAtomicSubtreeEntries root items
  rejectIf ((state.entries.get root).isSome || state.hasDescendant root)
    (.versionMismatch root none (some .first))
  return (items.map fun _ => .first, { state with
    entries := items.foldl (fun entries item => entries.put ⟨item.path, item.entry, .first⟩)
      state.entries })

/-- Declare an index at a path. An ordered index starts without rows. -/
def ensureIndex (path : VirtualPath) (spec : IndexSpec) : Except FilesystemError State := do
  rejectIf (spec.kind = .vector 0) (.indexConflict path spec.name .specMismatch)
  match state.indexes.find? fun declared => declared.1 = path.asStr ∧ declared.2.name = spec.name with
  | some existing =>
    rejectIf (existing.2 ≠ spec) (.indexConflict path existing.2.name .specMismatch)
    return state
  | none =>
    let declared := { state with indexes := state.indexes ++ [(path.asStr, spec)] }
    if spec.kind = .exact ∨ spec.kind = .pre then
      return { declared with
        orderedIndexes := declared.orderedIndexes.put ⟨path.asStr, spec, .empty⟩ }
    else return declared

end State

/-! ### Transactions -/

/-- The components of `path` begin with those of `root`. -/
def pathPrefixMatches (root path : VirtualPath) : Bool :=
  (components root.asStr).isPrefixOf (components path.asStr)

/-- What a transaction keeps to undo one of its changes. -/
inductive UndoAction
  | entry (path : VirtualPath) (original : Option StoredEntry)
  | delete (entries : List StoredEntry)

/-- An open transaction over the paths below `root`; the latest change is the first to be undone. -/
structure StorageTxn where
  state : State
  undo : List UndoAction
  root : VirtualPath

inductive TxnOperation
  | put (path : VirtualPath) (entry : Entry) (cas : CasExpectation)
  | delete (path : VirtualPath)

inductive TxnEnd
  | commit
  | rollback

/-- Put an entry back without touching what is there. -/
def State.restoreStored (state : State) (stored : StoredEntry) : State :=
  let updated := state.updateMaterializedIndexes stored.path none (some stored.entry)
  { updated with entries := updated.entries.put stored }

def UndoAction.restore (state : State) : UndoAction → State
  | .entry path original =>
    let current := state.entries.get path
    let removed := { state with entries := state.entries.remove path }
    let updated := removed.updateMaterializedIndexes path (current.map (·.entry))
      (original.map (·.entry))
    match original with
    | some stored => { updated with entries := updated.entries.put stored }
    | none => updated
  | .delete entries => entries.foldl State.restoreStored state

namespace StorageTxn

def start (state : State) (root : VirtualPath) : StorageTxn := ⟨state, [], root⟩

variable (txn : StorageTxn)

def checkPath (path : VirtualPath) : Except FilesystemError Unit :=
  if pathPrefixMatches txn.root path then .ok () else .error (.pathOutsideMount path)

/-- One operation of the transaction. What undoes it is recorded before it is tried. -/
def step (operation : TxnOperation) : StorageTxn :=
  match operation with
  | .put path entry cas =>
    match txn.checkPath path with
    | .error _ => txn
    | .ok _ =>
      let recorded := { txn with undo := .entry path (txn.state.entries.get path) :: txn.undo }
      match txn.state.put path entry cas with
      | .ok (_, state) => { recorded with state := state }
      | .error _ => recorded
  | .delete path =>
    match txn.checkPath path with
    | .error _ => txn
    | .ok _ =>
      let recorded := { txn with undo := .delete (txn.state.subtree path) :: txn.undo }
      match txn.state.delete path with
      | .ok state => { recorded with state := state }
      | .error _ => recorded

/-- The end of the transaction; one that is dropped is rolled back. -/
def finish : TxnEnd → State
  | .commit => txn.state
  | .rollback => txn.undo.foldl UndoAction.restore txn.state

end StorageTxn

/-! ### Sequences of mutations -/

inductive Mutation
  | put (path : VirtualPath) (entry : Entry) (cas : CasExpectation)
  | appendFile (path : VirtualPath) (bytes : List (Fin 256))
  | delete (path : VirtualPath)
  | deleteIfVersion (path : VirtualPath) (expected : RecordVersion)
  | createSubtreeAtomic (root : VirtualPath) (items : List AtomicSubtreeEntry)
  | transaction (root : VirtualPath) (operations : List TxnOperation) (last : TxnEnd)

namespace State

/-- The state after a mutation, with its result. -/
def mutate (state : State) : Mutation → Except FilesystemError State
  | .put path entry cas => (state.put path entry cas).map (·.2)
  | .appendFile path bytes => state.appendFile path bytes
  | .delete path => state.delete path
  | .deleteIfVersion path expected => state.deleteIfVersion path expected
  | .createSubtreeAtomic root items => (state.createSubtreeAtomic root items).map (·.2)
  | .transaction root operations last =>
    .ok ((operations.foldl StorageTxn.step (StorageTxn.start state root)).finish last)

/-- A mutation that fails leaves the state as it was. -/
def next (state : State) (mutation : Mutation) : State :=
  match state.mutate mutation with
  | .ok state' => state'
  | .error _ => state

end State

end Ironclaw.Filesystem
