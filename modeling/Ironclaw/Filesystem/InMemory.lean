import Mathlib.Data.Prod.Lex
import Ironclaw.Filesystem.Types

/-! # The in-memory backend

The state of `in_memory.rs` and the operations on its entries: every operation takes the state
under one lock, so it is a function of the state. Each ordered index keeps one row for each entry
below its prefix that carries all its keys; `updateMaterializedIndexes` moves the rows of one path
when its entry changes. -/

namespace Ironclaw.Filesystem

structure StoredEntry where
  path : VirtualPath
  entry : Entry
  version : RecordVersion

/-- A row of an ordered index: the values of the keys, and the path they were projected from. -/
structure OrderedRow where
  values : List IndexValue
  path : VirtualPath

namespace OrderedRow

/-- The order of the rows: by values, then by path. -/
def key (row : OrderedRow) : List IndexValue ×ₗ String := toLex (row.values, row.path.asStr)

end OrderedRow

/-- An index declared at a prefix, with its rows. -/
structure MaterializedOrderedIndex where
  declaredAt : String
  spec : IndexSpec
  rows : Table OrderedRow.key

namespace MaterializedOrderedIndex

def key (index : MaterializedOrderedIndex) : String × IndexName :=
  (index.declaredAt, index.spec.name)

end MaterializedOrderedIndex

/-- The entries with the indexes over them. The event logs and sequence counters of the backend
are kept apart from both. -/
structure State where
  entries : Table StoredEntry.path
  indexes : List (String × IndexSpec)
  orderedIndexes : Table MaterializedOrderedIndex.key

namespace State

def new : State := ⟨.empty, [], .empty⟩

end State

def withTrailingSlash (text : String) : String :=
  if Text.endsWith text "/" then text else text ++ "/"

/-- The text before the last slash, then the text before the last slash of that, and so on. -/
def ancestorsFrom : ℕ → List Char → List String
  | 0, _ => []
  | fuel + 1, head =>
    if '/' ∈ head then
      let parent := (head.rdropWhile (· != '/')).dropLast
      if parent = [] then ["/"] else String.ofList parent :: ancestorsFrom fuel parent
    else []

/-- The path and its ancestors, the most specific first, ending at the root. -/
def ancestorPrefixes (path : String) : List String :=
  let trimmed := Text.trimEndMatches path '/'
  if trimmed = "" then ["/"] else trimmed :: ancestorsFrom trimmed.toList.length trimmed.toList

def pathWithinPrefix (candidate root : String) : Bool :=
  let root := Text.trimEndMatches root '/'
  root == "" || candidate == root || Text.startsWith candidate (root ++ "/")

def checkCas (path : VirtualPath) (cas : CasExpectation) (current : Option RecordVersion) :
    Except FilesystemError Unit :=
  match cas, current with
  | .any, _ => .ok ()
  | .absent, none => .ok ()
  | .absent, some found => .error (.versionMismatch path none (some found))
  | .version expected, found =>
    if found = some expected then .ok ()
    else .error (.versionMismatch path (some expected) found)

/-- The values of the keys of the index, when the entry carries them all. -/
def materializedRowValues (spec : IndexSpec) (entry : Entry) : Option (List IndexValue) :=
  spec.keys.mapM entry.index

namespace MaterializedOrderedIndex

/-- Move the row of `path` from the old entry to the new one. -/
def update (index : MaterializedOrderedIndex) (path : VirtualPath) (old new : Option Entry) :
    MaterializedOrderedIndex :=
  let removed := match old.bind (materializedRowValues index.spec) with
    | some values => index.rows.remove (OrderedRow.key ⟨values, path⟩)
    | none => index.rows
  let rows := match new.bind (materializedRowValues index.spec) with
    | some values => removed.put ⟨values, path⟩
    | none => removed
  { index with rows := rows }

end MaterializedOrderedIndex

namespace State

variable (state : State)

/-- Project the change of one entry into every index declared at an ancestor of its path. -/
def updateMaterializedIndexes (path : VirtualPath) (old new : Option Entry) : State :=
  { state with
    orderedIndexes := state.orderedIndexes.mapRows
      (fun index =>
        if index.declaredAt ∈ ancestorPrefixes path.asStr then index.update path old new
        else index)
      (fun index => by split <;> rfl) }

def get (path : VirtualPath) : Option VersionedEntry :=
  (state.entries.get path).map fun stored => ⟨path, stored.entry, stored.version⟩

/-- Some entry lies strictly below the path. -/
def hasDescendant (path : VirtualPath) : Bool :=
  state.entries.rows.any fun stored =>
    Text.startsWith stored.path.asStr (withTrailingSlash path.asStr)

def put (path : VirtualPath) (entry : Entry) (cas : CasExpectation) :
    Except FilesystemError (RecordVersion × State) := do
  rejectIf (state.hasDescendant path = true)
    (.backend path .writeFile "cannot overwrite a directory")
  let current := state.entries.get path
  checkCas path cas (current.map (·.version))
  let nextVersion := match current with
    | some stored => RecordVersion.next stored.version
    | none => RecordVersion.first
  let updated := state.updateMaterializedIndexes path (current.map (·.entry)) (some entry)
  return (nextVersion, { updated with entries := updated.entries.put ⟨path, entry, nextVersion⟩ })

def deleteIfVersion (path : VirtualPath) (expectedVersion : RecordVersion) :
    Except FilesystemError State := do
  let stored ← okOr (state.entries.get path) (.notFound path .delete)
  rejectIf (expectedVersion ≠ stored.version)
    (.versionMismatch path (some expectedVersion) (some stored.version))
  let removed := { state with entries := state.entries.remove path }
  return removed.updateMaterializedIndexes path (some stored.entry) none

end State

/-! ### Paths below a path -/

theorem withTrailingSlash_path (path : VirtualPath) :
    withTrailingSlash path.asStr = path.asStr ++ "/" := by
  rw [withTrailingSlash, if_neg]
  rw [Bool.not_eq_true]
  exact not_endsWith_slash path.normal.named path.normal.rendered

/-- The paths that start with `path` and a slash are those strictly below it. -/
theorem startsWith_slash_iff {path other : VirtualPath} :
    Text.startsWith other.asStr (withTrailingSlash path.asStr) = true ↔
      components path.asStr <+: components other.asStr ∧ other ≠ path := by
  rw [withTrailingSlash_path]
  constructor
  · intro h
    refine ⟨(pathMatchesAlias_iff path.normal other.normal).1 (Bool.or_eq_true _ _ ▸ .inr h), ?_⟩
    rintro rfl
    obtain ⟨rest, hrest⟩ := Text.startsWith_iff.1 h
    have hlen := congrArg List.length hrest
    rw [String.toList_append, List.append_assoc, List.length_append] at hlen
    exact absurd hlen (by simp)
  · rintro ⟨hpre, hne⟩
    have hmatch := (pathMatchesAlias_iff path.normal other.normal).2 hpre
    rw [pathMatchesAlias, Bool.or_eq_true, beq_iff_eq] at hmatch
    refine hmatch.resolve_left fun heq => hne ?_
    exact VirtualPath.ext_components (congrArg components heq)

namespace State

def value (state : State) (path : VirtualPath) : Option Entry :=
  (state.entries.get path).map (·.entry)

def versionAt (state : State) (path : VirtualPath) : Option RecordVersion :=
  (state.entries.get path).map (·.version)

variable {state state' : State} {path : VirtualPath}

@[simp] theorem entries_updateMaterializedIndexes (old new : Option Entry) :
    (state.updateMaterializedIndexes path old new).entries = state.entries := rfl

theorem hasDescendant_iff : state.hasDescendant path = true ↔
    ∃ stored ∈ state.entries.rows,
      components path.asStr <+: components stored.path.asStr ∧ stored.path ≠ path := by
  rw [hasDescendant, List.any_eq_true]
  exact exists_congr fun stored => and_congr_right fun _ => startsWith_slash_iff

theorem hasDescendant_congr (h : ∀ other, other ≠ path → state'.entries.get other =
    state.entries.get other) : state'.hasDescendant path = state.hasDescendant path := by
  have key : ∀ {s s' : State}, (∀ other, other ≠ path → s'.entries.get other = s.entries.get other) →
      s.hasDescendant path = true → s'.hasDescendant path = true := by
    intro s s' hsame hs
    obtain ⟨stored, hmem, hpre, hne⟩ := hasDescendant_iff.1 hs
    have hget := (hsame stored.path hne).trans (Table.get_of_mem hmem)
    exact hasDescendant_iff.2 ⟨stored, Table.mem_of_get hget, hpre, hne⟩
  rw [Bool.eq_iff_iff]
  exact ⟨key fun other hne => (h other hne).symm, key h⟩

/-- What a write does: it needs a path that is no directory and a version as expected. -/
theorem put_eq_ok {entry : Entry} {cas : CasExpectation} {version : RecordVersion} :
    state.put path entry cas = .ok (version, state') ↔
      state.hasDescendant path = false ∧ checkCas path cas (state.versionAt path) = .ok () ∧
      version = (state.entries.get path).elim RecordVersion.first
        (fun stored => RecordVersion.next stored.version) ∧
      state' = { state.updateMaterializedIndexes path (state.value path) (some entry) with
        entries := state.entries.put ⟨path, entry, version⟩ } := by
  rw [put]
  simp only [bind_eq_ok, rejectIf_eq_ok, Bool.not_eq_true, exists_const, pure_eq_ok,
    Prod.mk.injEq]
  cases hget : state.entries.get path <;>
  · simp only [versionAt, value, hget, Option.map_none, Option.map_some, Option.elim_none,
      Option.elim_some]
    constructor
    · rintro ⟨hdir, u, hcas, rfl, rfl⟩
      exact ⟨hdir, hcas, rfl, rfl⟩
    · rintro ⟨hdir, hcas, rfl, rfl⟩
      exact ⟨hdir, (), hcas, rfl, rfl⟩

theorem deleteIfVersion_eq_ok {expected : RecordVersion} :
    state.deleteIfVersion path expected = .ok state' ↔
      state.versionAt path = some expected ∧
      state' = { state with entries := state.entries.remove path }.updateMaterializedIndexes path
        (state.value path) none := by
  rw [deleteIfVersion]
  simp only [bind_eq_ok, okOr_eq_ok, rejectIf_eq_ok, ne_eq, not_not, exists_const, pure_eq_ok]
  constructor
  · rintro ⟨stored, hget, rfl, rfl⟩
    simp only [versionAt, value, hget, Option.map_some, and_self]
  · rintro ⟨hversion, rfl⟩
    obtain ⟨stored, hget, rfl⟩ := Option.map_eq_some_iff.1 hversion
    exact ⟨stored, hget, rfl, by simp only [value, hget, Option.map_some]⟩

theorem put_value {entry : Entry} {cas : CasExpectation} {version : RecordVersion}
    (h : state.put path entry cas = .ok (version, state')) :
    state'.value path = some entry ∧
      ∀ other, other ≠ path → state'.entries.get other = state.entries.get other := by
  obtain ⟨-, -, -, rfl⟩ := put_eq_ok.1 h
  refine ⟨?_, fun other hne => Table.get_put_of_ne _ hne.symm⟩
  exact congrArg (Option.map (·.entry)) (Table.get_put_self state.entries ⟨path, entry, version⟩)

theorem deleteIfVersion_value {expected : RecordVersion} (h : state.deleteIfVersion path expected = .ok state') :
    state'.value path = none ∧
      ∀ other, other ≠ path → state'.entries.get other = state.entries.get other := by
  obtain ⟨-, rfl⟩ := deleteIfVersion_eq_ok.1 h
  refine ⟨?_, fun other hne => ?_⟩
  · rw [value, entries_updateMaterializedIndexes, Table.get_remove, if_pos rfl]
    rfl
  · rw [entries_updateMaterializedIndexes, Table.get_remove, if_neg hne.symm]

end State

end Ironclaw.Filesystem
