import Ironclaw.Lib.Dict
import Ironclaw.Filesystem.Materialized

/-! # Rolled-back transactions of the in-memory backend

The whole state of the in-memory backend: the entries and indexes of `State`, the time each entry was last
modified, the event logs and the sequence counters. A transaction records before each operation what undoes
it, and undoes the records in reverse order when it is rolled back or dropped. -/

namespace Ironclaw.Filesystem

/-- A sequence number; it stops at the largest value. -/
abbrev SeqNo := Saturating (2 ^ 64 - 1)

namespace SeqNo

def zero : SeqNo := ⟨0, Nat.zero_le _⟩

def next (seq : SeqNo) : SeqNo := seq.add RecordVersion.first

end SeqNo

structure EventRecord where
  seq : SeqNo
  payload : List (Fin 256)

/-- The state of the backend. `modified` has the times of the stored entries, by path. -/
structure Backend where
  state : State
  modified : Dict VirtualPath ℤ
  eventLogs : Dict String (List EventRecord)
  sequences : Dict String SeqNo

/-- The key is the path's own, or lies below it. -/
def keyWithin (path : VirtualPath) (key : String) : Bool :=
  key == path.asStr || Text.startsWith key (withTrailingSlash path.asStr)

namespace Backend

variable (backend : Backend)

/-- `state_put`, at the time `now`. -/
def put (path : VirtualPath) (entry : Entry) (cas : CasExpectation) (now : ℤ) :
    Except FilesystemError (RecordVersion × Backend) := do
  let (version, state) ← backend.state.put path entry cas
  return (version, { backend with
    state := state
    modified := Dict.insert backend.modified path now })

/-- `state_delete`: entries, logs and counters at the path and below it. -/
def delete (path : VirtualPath) : Except FilesystemError Backend := do
  let state ← backend.state.delete path
  return { state := state
           modified := Dict.retain backend.modified fun key _ => !keyWithin path key.asStr
           eventLogs := Dict.retain backend.eventLogs fun key _ => !keyWithin path key
           sequences := Dict.retain backend.sequences fun key _ => !keyWithin path key }

/-- `state_reserve_sequence`: the counter starts at one. -/
def reserveSequence (path : VirtualPath) : SeqNo × Backend :=
  let reserved := (Dict.lookup backend.sequences path.asStr).getD SeqNo.zero.next
  (reserved, { backend with sequences := Dict.insert backend.sequences path.asStr reserved.next })

/-- As many reservations as are asked for, with the last number. -/
def reserveSequences (path : VirtualPath) : ℕ → SeqNo → Backend → SeqNo × Backend
  | 0, last, backend => (last, backend)
  | count + 1, _, backend =>
    let (reserved, backend) := backend.reserveSequence path
    reserveSequences path count reserved backend

end Backend

/-! ### Transactions -/

inductive BackendUndo
  | entry (path : VirtualPath) (original : Option StoredEntry) (modified : Option ℤ)
  | delete (entries : List StoredEntry) (modified : List (VirtualPath × ℤ))
      (eventLogs : List (String × List EventRecord)) (sequences : List (String × SeqNo))
  | sequence (path : String) (original : Option SeqNo)

/-- An open transaction over the paths below `root`; the latest change is the first to be undone. -/
structure BackendTxn where
  backend : Backend
  undo : List BackendUndo
  root : VirtualPath

inductive BackendOperation
  | put (path : VirtualPath) (entry : Entry) (cas : CasExpectation) (now : ℤ)
  | get (path : VirtualPath)
  | delete (path : VirtualPath)
  | reserveSequence (path : VirtualPath)
  | reserveSequenceRange (path : VirtualPath) (count : ℕ)

/-- A value put back under its key, or the key cleared. -/
def putBack {κ ν : Type} [DecidableEq κ] (d : Dict κ ν) (key : κ) : Option ν → Dict κ ν
  | some value => Dict.insert d key value
  | none => Dict.erase d key

def BackendUndo.restore (backend : Backend) : BackendUndo → Backend
  | .entry path original modified =>
    { backend with
      state := (UndoAction.entry path original).restore backend.state
      modified := putBack backend.modified path modified }
  | .delete entries modified eventLogs sequences =>
    { state := (UndoAction.delete entries).restore backend.state
      modified := Dict.extend backend.modified modified
      eventLogs := Dict.extend backend.eventLogs eventLogs
      sequences := Dict.extend backend.sequences sequences }
  | .sequence path original =>
    { backend with sequences := putBack backend.sequences path original }

namespace BackendTxn

def start (backend : Backend) (root : VirtualPath) : BackendTxn := ⟨backend, [], root⟩

variable (txn : BackendTxn)

/-- What undoes an operation, recorded before it is tried. -/
def undoOf : BackendOperation → List BackendUndo
  | .put path _ _ _ =>
    [.entry path (txn.backend.state.entries.get path) (Dict.lookup txn.backend.modified path)]
  | .get _ => []
  | .delete path =>
    [.delete (txn.backend.state.subtree path)
      ((Dict.pairs txn.backend.modified).filter fun pair => keyWithin path pair.1.asStr)
      ((Dict.pairs txn.backend.eventLogs).filter fun pair => keyWithin path pair.1)
      ((Dict.pairs txn.backend.sequences).filter fun pair => keyWithin path pair.1)]
  | .reserveSequence path | .reserveSequenceRange path _ =>
    [.sequence path.asStr (Dict.lookup txn.backend.sequences path.asStr)]

/-- The backend after an operation; one that fails leaves it as it was. -/
def perform : BackendOperation → Backend
  | .put path entry cas now =>
    match txn.backend.put path entry cas now with
    | .ok (_, backend) => backend
    | .error _ => txn.backend
  | .get _ => txn.backend
  | .delete path =>
    match txn.backend.delete path with
    | .ok backend => backend
    | .error _ => txn.backend
  | .reserveSequence path => (txn.backend.reserveSequence path).2
  | .reserveSequenceRange path count =>
    (Backend.reserveSequences path count SeqNo.zero txn.backend).2

end BackendTxn

def BackendOperation.path : BackendOperation → VirtualPath
  | .put path _ _ _ | .get path | .delete path | .reserveSequence path
  | .reserveSequenceRange path _ => path

namespace BackendTxn

variable (txn : BackendTxn)

/-- One operation; a path outside the transaction's root is refused before anything is recorded. -/
def step (operation : BackendOperation) : BackendTxn :=
  if pathPrefixMatches txn.root operation.path then
    { txn with backend := txn.perform operation, undo := txn.undoOf operation ++ txn.undo }
  else txn

/-- The transaction is rolled back, or dropped without a commit. -/
def rollback : Backend := txn.undo.foldl BackendUndo.restore txn.backend

end BackendTxn

/-! ### The maps beside the entries -/

theorem lookup_putBack {κ ν : Type} [DecidableEq κ] (d : Dict κ ν) (key : κ) (value : Option ν) (k : κ) :
    Dict.lookup (putBack d key value) k = if key = k then value else Dict.lookup d k := by
  cases value with
  | some value => exact Dict.lookup_insert d key value k
  | none => exact Dict.lookup_erase d key k

/-- Times, logs and counters are the same. -/
structure SameMaps (backend backend' : Backend) : Prop where
  modified : ∀ path, Dict.lookup backend.modified path = Dict.lookup backend'.modified path
  eventLogs : ∀ key, Dict.lookup backend.eventLogs key = Dict.lookup backend'.eventLogs key
  sequences : ∀ key, Dict.lookup backend.sequences key = Dict.lookup backend'.sequences key

namespace SameMaps

variable {backend backend' backend'' : Backend}

theorem refl (backend : Backend) : SameMaps backend backend := ⟨fun _ => rfl, fun _ => rfl, fun _ => rfl⟩

theorem trans (h : SameMaps backend backend') (h' : SameMaps backend' backend'') :
    SameMaps backend backend'' :=
  ⟨fun k => (h.modified k).trans (h'.modified k), fun k => (h.eventLogs k).trans (h'.eventLogs k),
    fun k => (h.sequences k).trans (h'.sequences k)⟩

theorem restore (h : SameMaps backend backend') (undo : BackendUndo) :
    SameMaps (undo.restore backend) (undo.restore backend') := by
  cases undo with
  | entry path original modified =>
    refine ⟨fun k => ?_, h.eventLogs, h.sequences⟩
    show Dict.lookup (putBack _ path modified) k = Dict.lookup (putBack _ path modified) k
    rw [lookup_putBack, lookup_putBack, h.modified]
  | delete entries modified eventLogs sequences =>
    exact ⟨Dict.lookup_extend_congr h.modified modified,
      Dict.lookup_extend_congr h.eventLogs eventLogs,
      Dict.lookup_extend_congr h.sequences sequences⟩
  | sequence path original =>
    refine ⟨h.modified, h.eventLogs, fun k => ?_⟩
    show Dict.lookup (putBack _ path original) k = Dict.lookup (putBack _ path original) k
    rw [lookup_putBack, lookup_putBack, h.sequences]

theorem restoreAll (h : SameMaps backend backend') (undo : List BackendUndo) :
    SameMaps (undo.foldl BackendUndo.restore backend) (undo.foldl BackendUndo.restore backend') := by
  induction undo generalizing backend backend' with
  | nil => exact h
  | cons action undo ih => exact ih (h.restore action)

end SameMaps

theorem lookup_putBack_of_frame {κ ν : Type} [DecidableEq κ] {d d' : Dict κ ν} {key : κ}
    (h : ∀ k, k ≠ key → Dict.lookup d' k = Dict.lookup d k) (k : κ) :
    Dict.lookup (putBack d' key (Dict.lookup d key)) k = Dict.lookup d k := by
  rw [lookup_putBack]
  split
  next heq => rw [heq]
  next hne => exact h k fun heq => hne heq.symm

theorem lookup_retain_cases {κ ν : Type} [DecidableEq κ] (d : Dict κ ν) (p : κ → Bool) (k : κ) :
    Dict.lookup (Dict.retain d fun key _ => !p key) k = Dict.lookup d k ∨
      (p k = true ∧ Dict.lookup (Dict.retain d fun key _ => !p key) k = none) := by
  rw [Dict.lookup_retain d (fun key => !p key)]
  cases hp : p k with
  | true => exact .inr ⟨rfl, rfl⟩
  | false => exact .inl rfl

/-- Reservations change the counter of their path and nothing else. -/
theorem Backend.reserveSequences_frame (path : VirtualPath) (count : ℕ) (last : SeqNo)
    (backend : Backend) :
    (Backend.reserveSequences path count last backend).2.state = backend.state ∧
      (Backend.reserveSequences path count last backend).2.modified = backend.modified ∧
      (Backend.reserveSequences path count last backend).2.eventLogs = backend.eventLogs ∧
      ∀ key, key ≠ path.asStr →
        Dict.lookup (Backend.reserveSequences path count last backend).2.sequences key =
          Dict.lookup backend.sequences key := by
  induction count generalizing last backend with
  | zero => exact ⟨rfl, rfl, rfl, fun _ _ => rfl⟩
  | succ count ih =>
    obtain ⟨hstate, hmodified, hlogs, hframe⟩ :=
      ih (backend.reserveSequence path).1 (backend.reserveSequence path).2
    refine ⟨hstate, hmodified, hlogs, fun key hkey => (hframe key hkey).trans ?_⟩
    exact Dict.lookup_insert_of_ne _ _ hkey.symm

namespace BackendTxn

variable (txn : BackendTxn)

theorem perform_put (path : VirtualPath) (entry : Entry) (cas : CasExpectation) (now : ℤ) :
    txn.perform (.put path entry cas now) =
      match txn.backend.state.put path entry cas with
      | .ok (_, state) =>
        { txn.backend with state := state, modified := Dict.insert txn.backend.modified path now }
      | .error _ => txn.backend := by
  simp only [perform, Backend.put]
  cases txn.backend.state.put path entry cas <;> rfl

theorem perform_delete (path : VirtualPath) :
    txn.perform (.delete path) =
      match txn.backend.state.delete path with
      | .ok state =>
        { state := state
          modified := Dict.retain txn.backend.modified fun key _ => !keyWithin path key.asStr
          eventLogs := Dict.retain txn.backend.eventLogs fun key _ => !keyWithin path key
          sequences := Dict.retain txn.backend.sequences fun key _ => !keyWithin path key }
      | .error _ => txn.backend := by
  simp only [perform, Backend.delete]
  cases txn.backend.state.delete path <;> rfl

theorem restore_perform (operation : BackendOperation) :
    SameMaps ((txn.undoOf operation).foldl BackendUndo.restore (txn.perform operation))
      txn.backend := by
  cases operation with
  | get path => exact .refl _
  | put path entry cas now =>
    have hmaps : (∀ p, p ≠ path → Dict.lookup (txn.perform (.put path entry cas now)).modified p =
          Dict.lookup txn.backend.modified p) ∧
        (txn.perform (.put path entry cas now)).eventLogs = txn.backend.eventLogs ∧
        (txn.perform (.put path entry cas now)).sequences = txn.backend.sequences := by
      rw [perform_put]
      cases txn.backend.state.put path entry cas with
      | error e => exact ⟨fun _ _ => rfl, rfl, rfl⟩
      | ok written =>
        exact ⟨fun p hp => Dict.lookup_insert_of_ne _ _ hp.symm, rfl, rfl⟩
    obtain ⟨hmodified, hlogs, hsequences⟩ := hmaps
    refine ⟨lookup_putBack_of_frame hmodified, fun key => ?_, fun key => ?_⟩
    · exact congrArg (Dict.lookup · key) hlogs
    · exact congrArg (Dict.lookup · key) hsequences
  | delete path =>
    have hmaps : (∀ p, Dict.lookup (txn.perform (.delete path)).modified p =
          Dict.lookup txn.backend.modified p ∨ (keyWithin path p.asStr = true ∧
            Dict.lookup (txn.perform (.delete path)).modified p = none)) ∧
        (∀ key, Dict.lookup (txn.perform (.delete path)).eventLogs key =
          Dict.lookup txn.backend.eventLogs key ∨ (keyWithin path key = true ∧
            Dict.lookup (txn.perform (.delete path)).eventLogs key = none)) ∧
        ∀ key, Dict.lookup (txn.perform (.delete path)).sequences key =
          Dict.lookup txn.backend.sequences key ∨ (keyWithin path key = true ∧
            Dict.lookup (txn.perform (.delete path)).sequences key = none) := by
      rw [perform_delete]
      cases txn.backend.state.delete path with
      | error e => exact ⟨fun _ => .inl rfl, fun _ => .inl rfl, fun _ => .inl rfl⟩
      | ok state =>
        exact ⟨fun p => lookup_retain_cases _ (fun key => keyWithin path key.asStr) p,
          lookup_retain_cases _ (keyWithin path), lookup_retain_cases _ (keyWithin path)⟩
    obtain ⟨hmodified, hlogs, hsequences⟩ := hmaps
    refine ⟨fun k => ?_, fun k => ?_, fun k => ?_⟩
    · exact Dict.lookup_extend_filter (p := fun key : VirtualPath => keyWithin path key.asStr)
        hmodified k
    · exact Dict.lookup_extend_filter (p := keyWithin path) hlogs k
    · exact Dict.lookup_extend_filter (p := keyWithin path) hsequences k
  | reserveSequence path =>
    have hframe : ∀ key, key ≠ path.asStr →
        Dict.lookup (txn.backend.reserveSequence path).2.sequences key =
          Dict.lookup txn.backend.sequences key :=
      fun key hkey => Dict.lookup_insert_of_ne _ _ hkey.symm
    exact ⟨fun _ => rfl, fun _ => rfl, lookup_putBack_of_frame hframe⟩
  | reserveSequenceRange path count =>
    obtain ⟨-, hmodified, hlogs, hframe⟩ :=
      Backend.reserveSequences_frame path count SeqNo.zero txn.backend
    exact ⟨fun p => congrArg (Dict.lookup · p) hmodified, fun key => congrArg (Dict.lookup · key) hlogs,
      lookup_putBack_of_frame hframe⟩

theorem rollback_sameMaps {start : Backend} (operations : List BackendOperation) {txn : BackendTxn}
    (h : SameMaps txn.rollback start) : SameMaps (operations.foldl step txn).rollback start := by
  induction operations generalizing txn with
  | nil => exact h
  | cons operation operations ih =>
    refine ih ?_
    unfold step
    split
    · have hundone := (txn.restore_perform operation).restoreAll txn.undo
      rw [← List.foldl_append] at hundone
      exact hundone.trans h
    · exact h

/-! ### Entries and rows -/

def undoAction : BackendUndo → Option UndoAction
  | .entry path original _ => some (.entry path original)
  | .delete entries _ _ _ => some (.delete entries)
  | .sequence _ _ => none

/-- The operations on entries. -/
def txnOperation : BackendOperation → Option TxnOperation
  | .put path entry cas _ => some (.put path entry cas)
  | .delete path => some (.delete path)
  | .get _ | .reserveSequence _ | .reserveSequenceRange _ _ => none

/-- The transaction on the entries alone. -/
def toTxn : StorageTxn := ⟨txn.backend.state, txn.undo.filterMap undoAction, txn.root⟩

theorem toTxn_step (operation : BackendOperation) :
    (txn.step operation).toTxn = (txnOperation operation).elim txn.toTxn txn.toTxn.step := by
  unfold step
  by_cases hpath : pathPrefixMatches txn.root operation.path = true
  · rw [if_pos hpath]
    cases operation with
    | put path entry cas now =>
      have hcheck : txn.toTxn.checkPath path = .ok () := if_pos hpath
      show _ = txn.toTxn.step (.put path entry cas)
      rw [StorageTxn.step, hcheck]
      simp only [toTxn, perform_put]
      cases txn.backend.state.put path entry cas <;> rfl
    | delete path =>
      have hcheck : txn.toTxn.checkPath path = .ok () := if_pos hpath
      show _ = txn.toTxn.step (.delete path)
      rw [StorageTxn.step, hcheck]
      simp only [toTxn, perform_delete]
      cases txn.backend.state.delete path <;> rfl
    | get path => rfl
    | reserveSequence path => rfl
    | reserveSequenceRange path count =>
      have hstate := (Backend.reserveSequences_frame path count SeqNo.zero txn.backend).1
      simp only [toTxn, perform, hstate]
      rfl
  · rw [if_neg hpath]
    cases operation with
    | put path entry cas now =>
      have hcheck : txn.toTxn.checkPath path = .error (.pathOutsideMount path) := if_neg hpath
      show _ = txn.toTxn.step (.put path entry cas)
      rw [StorageTxn.step, hcheck]
    | delete path =>
      have hcheck : txn.toTxn.checkPath path = .error (.pathOutsideMount path) := if_neg hpath
      show _ = txn.toTxn.step (.delete path)
      rw [StorageTxn.step, hcheck]
    | get path => rfl
    | reserveSequence path => rfl
    | reserveSequenceRange path count => rfl

theorem toTxn_run (operations : List BackendOperation) (txn : BackendTxn) :
    (operations.foldl step txn).toTxn =
      (operations.filterMap txnOperation).foldl StorageTxn.step txn.toTxn := by
  induction operations generalizing txn with
  | nil => rfl
  | cons operation operations ih =>
    rw [List.foldl_cons, ih, toTxn_step, List.filterMap_cons]
    cases txnOperation operation <;> rfl

theorem rollback_state : txn.rollback.state = txn.toTxn.finish .rollback := by
  obtain ⟨backend, undo, root⟩ := txn
  show (undo.foldl BackendUndo.restore backend).state =
    (undo.filterMap undoAction).foldl UndoAction.restore backend.state
  induction undo generalizing backend with
  | nil => rfl
  | cons action undo ih =>
    rw [List.foldl_cons, ih, List.filterMap_cons]
    cases action <;> rfl

end BackendTxn

/-! ### Declared indexes -/

structure SameDeclared (state state' : State) : Prop where
  indexes : state'.indexes = state.indexes
  ordered : state'.orderedIndexes.rows.map MaterializedOrderedIndex.key =
    state.orderedIndexes.rows.map MaterializedOrderedIndex.key

namespace SameDeclared

variable {state state' state'' : State}

theorem refl (state : State) : SameDeclared state state := ⟨rfl, rfl⟩

theorem trans (h : SameDeclared state state') (h' : SameDeclared state' state'') :
    SameDeclared state state'' :=
  ⟨h'.indexes.trans h.indexes, h'.ordered.trans h.ordered⟩

theorem update (state : State) (path : VirtualPath) (old new : Option Entry) :
    SameDeclared state (state.updateMaterializedIndexes path old new) := by
  refine ⟨rfl, ?_⟩
  rw [State.updateMaterializedIndexes, Table.mapRows, List.map_map]
  refine List.map_congr_left fun index _ => ?_
  rw [Function.comp_apply]
  split
  · rfl
  · rfl

theorem withEntries (h : SameDeclared state state') (entries : Table StoredEntry.path) :
    SameDeclared state { state' with entries := entries } := ⟨h.indexes, h.ordered⟩

theorem ofFold {α : Type} {f : State → α → State} (hf : ∀ state a, SameDeclared state (f state a))
    (l : List α) (state : State) : SameDeclared state (l.foldl f state) := by
  induction l generalizing state with
  | nil => exact refl state
  | cons a l ih => exact (hf state a).trans (ih (f state a))

theorem put {path : VirtualPath} {entry : Entry} {cas : CasExpectation} {version : RecordVersion}
    (h : state.put path entry cas = .ok (version, state')) : SameDeclared state state' := by
  obtain ⟨-, -, -, rfl⟩ := State.put_eq_ok.1 h
  exact (update state path _ _).withEntries _

theorem delete {path : VirtualPath} (h : state.delete path = .ok state') : SameDeclared state state' := by
  rw [State.delete_eq_ok h]
  refine ofFold (fun state stored => ?_) _ state
  exact ((refl state).withEntries _).trans (update _ _ _ _)

theorem undo (state : State) (action : UndoAction) : SameDeclared state (action.restore state) := by
  cases action with
  | entry path original =>
    have hremoved := ((refl state).withEntries (state.entries.remove path)).trans
      (update _ path ((state.entries.get path).map (·.entry)) (original.map (·.entry)))
    cases original with
    | none => exact hremoved
    | some stored => exact hremoved.withEntries _
  | delete entries =>
    exact ofFold (fun state stored => (update state _ _ _).withEntries _) entries state

theorem step (txn : StorageTxn) (operation : TxnOperation) :
    SameDeclared txn.state (txn.step operation).state := by
  cases operation with
  | put path entry cas =>
    rw [StorageTxn.step]
    split
    · exact refl _
    · cases hput : txn.state.put path entry cas with
      | error e => exact refl _
      | ok written => exact put hput
  | delete path =>
    rw [StorageTxn.step]
    split
    · exact refl _
    · cases hdelete : txn.state.delete path with
      | error e => exact refl _
      | ok state' => exact delete hdelete

theorem rollback (operations : List TxnOperation) (txn : StorageTxn) :
    SameDeclared txn.state ((operations.foldl StorageTxn.step txn).finish .rollback) := by
  have hrun : SameDeclared txn.state (operations.foldl StorageTxn.step txn).state := by
    induction operations generalizing txn with
    | nil => exact refl _
    | cons operation operations ih => exact (step txn operation).trans (ih _)
  exact hrun.trans (ofFold undo _ _)

end SameDeclared

/-! ### The rollback -/

/-- The rows of every index are those of the entries below the path it is declared at. -/
def State.RowsAgree (state : State) : Prop :=
  ∀ index ∈ state.orderedIndexes.rows, ∃ root : VirtualPath,
    index.declaredAt = root.asStr ∧ Rows state root index

/-- The same index: declared at the same place, with the same rows. -/
structure SameIndex (index index' : MaterializedOrderedIndex) : Prop where
  declaredAt : index'.declaredAt = index.declaredAt
  spec : index'.spec = index.spec
  rows : index'.rows.SameRows index.rows

/-- Everything a reader can see of the backend is the same. -/
structure SameBackend (backend backend' : Backend) : Prop where
  entries : ∀ path, backend'.state.entries.get path = backend.state.entries.get path
  maps : SameMaps backend' backend
  indexes : backend'.state.indexes = backend.state.indexes
  declared : ∀ key, backend.state.orderedIndexes.get key = none →
    backend'.state.orderedIndexes.get key = none
  rows : ∀ key index, backend.state.orderedIndexes.get key = some index →
    ∃ index', backend'.state.orderedIndexes.get key = some index' ∧ SameIndex index index'

theorem sameIndex_of_rows {state state' : State} {root : VirtualPath}
    {index index' : MaterializedOrderedIndex}
    (hdeclared : index'.declaredAt = index.declaredAt) (hspec : index'.spec = index.spec)
    (hrows : Rows state root index) (hrows' : Rows state' root index')
    (hentries : state'.entries.get = state.entries.get) : SameIndex index index' := by
  refine ⟨hdeclared, hspec, ?_⟩
  refine (List.perm_ext_iff_of_nodup index'.rows.nodup.of_map index.rows.nodup.of_map).2 fun row => ?_
  rw [hrows'.mem_iff, hrows.mem_iff, hspec]
  simp only [State.rowAt, State.value, hentries]

/-- A transaction that is rolled back, or dropped without a commit, leaves the backend as it found it:
entries with versions and times, logs, counters and index rows, after any operations on any paths. -/
theorem rollback_exact (backend : Backend) (hagree : backend.state.RowsAgree) (root : VirtualPath)
    (operations : List BackendOperation) :
    SameBackend backend (operations.foldl BackendTxn.step (BackendTxn.start backend root)).rollback := by
  have hstate : (operations.foldl BackendTxn.step (BackendTxn.start backend root)).rollback.state =
      (((operations.filterMap BackendTxn.txnOperation).foldl StorageTxn.step
        (StorageTxn.start backend.state root)).finish .rollback) := by
    rw [BackendTxn.rollback_state, BackendTxn.toTxn_run]
    rfl
  have hentries := rollback_entries backend.state root (operations.filterMap BackendTxn.txnOperation)
  have hdeclared := SameDeclared.rollback (operations.filterMap BackendTxn.txnOperation)
    (StorageTxn.start backend.state root)
  refine ⟨fun path => ?_, BackendTxn.rollback_sameMaps operations (.refl backend), ?_, ?_, ?_⟩
  · rw [hstate, hentries]
  · rw [hstate, hdeclared.indexes]
    rfl
  · intro key hnone
    rw [hstate, Table.get_eq_none_iff] at *
    intro index hindex hkey
    have hmem : key ∈ backend.state.orderedIndexes.rows.map MaterializedOrderedIndex.key := by
      have := List.mem_map_of_mem (f := MaterializedOrderedIndex.key) hindex
      rw [hdeclared.ordered, hkey] at this
      exact this
    obtain ⟨before, hbefore, hsame⟩ := List.mem_map.1 hmem
    exact hnone before hbefore hsame
  · intro key index hget
    obtain ⟨place, hat, hrows⟩ := hagree index (Table.mem_of_get hget)
    have hkey : key = (place.asStr, index.spec.name) := by
      rw [← Table.key_of_get hget, MaterializedOrderedIndex.key, hat]
    subst hkey
    have hmaterialized : Materialized place index.spec backend.state := ⟨index, hget, rfl, hrows⟩
    obtain ⟨index', hget', hspec, hrows'⟩ := hmaterialized.transaction root
      (operations.filterMap BackendTxn.txnOperation) .rollback
    refine ⟨index', by rw [hstate]; exact hget', ?_⟩
    refine sameIndex_of_rows ?_ hspec hrows hrows' hentries
    have hat' := congrArg Prod.fst (Table.key_of_get hget')
    exact hat'.trans hat.symm

/-! ### A box of items -/

def boxPath : VirtualPath :=
  ⟨"/projects/box", @normalizeAbsolutePath_normal "/projects/box" _ .virtual (by decide +kernel),
    by decide +kernel⟩

def itemPath : VirtualPath :=
  ⟨"/projects/box/item",
    @normalizeAbsolutePath_normal "/projects/box/item" _ .virtual (by decide +kernel),
    by decide +kernel⟩

/-- An index over an empty box, and a counter of its items. -/
def emptyBox : Backend where
  state := { State.new with
    orderedIndexes := Table.empty.put ⟨"/projects/box", ⟨⟨"by_size"⟩, [⟨"size"⟩], .exact⟩, .empty⟩ }
  modified := .empty
  eventLogs := .empty
  sequences := Dict.insert .empty "/projects/box" ⟨5, by decide⟩

theorem emptyBox_rowsAgree : emptyBox.state.RowsAgree := by
  intro index hindex
  rcases (Table.mem_put _ _ _).1 hindex with rfl | ⟨hmem, -⟩
  · refine ⟨boxPath, rfl, ⟨fun row => ?_⟩⟩
    refine ⟨fun hrow => absurd hrow List.not_mem_nil, ?_⟩
    rintro ⟨-, hvalues⟩
    cases hvalues
  · exact absurd hmem List.not_mem_nil

/-- An item is written, refused, and deleted with the box; its number is taken from a counter that starts
again. -/
def boxOperations : List BackendOperation :=
  [.put itemPath ⟨[], ⟨"text/plain"⟩, some ⟨"item"⟩, [(⟨"size"⟩, .i64 3)]⟩ .absent 10,
    .put itemPath (.bytes []) .absent 11, .delete boxPath, .reserveSequenceRange boxPath 2,
    .put itemPath (.bytes []) .any 12]

theorem box_rolled_back :
    Dict.lookup (boxOperations.foldl BackendTxn.step
      (BackendTxn.start emptyBox boxPath)).backend.modified itemPath = some 12 ∧
    SameBackend emptyBox
      (boxOperations.foldl BackendTxn.step (BackendTxn.start emptyBox boxPath)).rollback :=
  ⟨by decide +kernel, rollback_exact emptyBox emptyBox_rowsAgree boxPath boxOperations⟩

end Ironclaw.Filesystem
