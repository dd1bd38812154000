import Ironclaw.Lib.Paging
import Ironclaw.Filesystem.InMemory

/-! # Ordered queries

`query_ordered` of the in-memory backend: find the index at the path or the nearest ancestor that
declares it, read the values its leading keys must have out of the filter, and walk its rows from
the cursor in either direction until the page is full. -/

namespace Ironclaw.Filesystem

/-- A predicate on projected values. The embedding of a nearest-vector search is left out: ordered
queries refuse such filters whatever it is. -/
inductive Filter
  | all
  | eq (key : IndexKey) (value : IndexValue)
  | prefixOn (key : IndexKey) (value : IndexValue)
  | range (key : IndexKey) (lo hi : IndexValue)
  | fts (key : IndexKey) (query : String)
  | ftsRanked (key : IndexKey) (query : String) (limit : ℕ)
  | vectorNearest (key : IndexKey) (limit : ℕ)
  | and (filters : List Filter)
  | or (filters : List Filter)

inductive SortDirection
  | ascending
  | descending
deriving DecidableEq

/-- The last row of a page. -/
structure OrderedQueryCursor where
  value : IndexValue
  tieBreaker : IndexValue

structure OrderedPage where
  index : IndexName
  key : IndexKey
  tieBreaker : IndexKey
  direction : SortDirection
  after : Option OrderedQueryCursor
  limit : ℕ

mutual

/-- The keys that a conjunction of equalities fixes, each with its value; a key must not be fixed
twice. -/
def collectEqualityValues (filter : Filter) (values : List (IndexKey × IndexValue)) :
    Option (List (IndexKey × IndexValue)) :=
  match filter with
  | .all => some values
  | .eq key value => if key ∈ values.map Prod.fst then none else some (values ++ [(key, value)])
  | .and filters => collectAllEqualityValues filters values
  | _ => none

def collectAllEqualityValues (filters : List Filter) (values : List (IndexKey × IndexValue)) :
    Option (List (IndexKey × IndexValue)) :=
  match filters with
  | [] => some values
  | filter :: filters =>
    match collectEqualityValues filter values with
    | some values => collectAllEqualityValues filters values
    | none => none

end

/-- The values that the keys before the sort key must have, when the filter fixes exactly these keys
and the tie breaker follows the sort key. -/
def orderedQueryPrefixValues (spec : IndexSpec) (filter : Filter) (page : OrderedPage) :
    Option (List IndexValue) := do
  guard (spec.name = page.index ∧ (spec.kind = .exact ∨ spec.kind = .pre))
  let sortPosition ← spec.keys.findIdx? (· = page.key)
  guard (spec.keys[sortPosition + 1]? = some page.tieBreaker)
  let equalityValues ← collectEqualityValues filter []
  let leading := spec.keys.take sortPosition
  guard ((∀ key ∈ equalityValues.map Prod.fst, key ∈ leading) ∧
    ∀ key ∈ leading, key ∈ equalityValues.map Prod.fst)
  leading.mapM fun key => List.lookup key equalityValues

/-- The value that closes the range of a walk downwards. -/
def upperValue : IndexValue := .bytes (List.replicate 1024 (Fin.last 255))

namespace State

variable (state : State)

/-- The index of this name at the path or at the nearest ancestor that has one. -/
def orderedIndex (path : VirtualPath) (name : IndexName) : Option MaterializedOrderedIndex :=
  (ancestorPrefixes path.asStr).findSome? fun declaredAt =>
    state.orderedIndexes.get (declaredAt, name)

/-- The body of both loops over the rows: rows that `skipped` holds of and rows of other subtrees
are passed over, the entries of the others are pushed, and a full page ends the loop. -/
def collectRows (path : VirtualPath) (stops skipped : List IndexValue → Bool) (limit : ℕ) :
    List OrderedRow → List VersionedEntry → List VersionedEntry
  | [], results => results
  | row :: rows, results =>
    if stops row.values then results
    else if skipped row.values then collectRows path stops skipped limit rows results
    else if pathWithinPrefix row.path.asStr path.asStr = false then
      collectRows path stops skipped limit rows results
    else
      let results := results ++ (state.get row.path).toList
      if limit ≤ results.length then results
      else collectRows path stops skipped limit rows results

end State

/-- The sort value and the tie breaker of a row. -/
def rowPosition (sortPosition : ℕ) (values : List IndexValue) :
    WithBot IndexValue ×ₗ WithBot IndexValue :=
  toLex (valueAt values sortPosition, valueAt values (sortPosition + 1))

namespace OrderedQueryCursor

def position (cursor : OrderedQueryCursor) : WithBot IndexValue ×ₗ WithBot IndexValue :=
  toLex (↑cursor.value, ↑cursor.tieBreaker)

end OrderedQueryCursor

namespace MaterializedOrderedIndex

/-- The rows in the order of their keys. -/
def sortedRows (index : MaterializedOrderedIndex) : List OrderedRow :=
  index.rows.rows.insertionSort fun a b => a.key ≤ b.key

end MaterializedOrderedIndex

/-- Cut the list to a length, or fill it up. -/
def resize (length : ℕ) (fill : IndexValue) (values : List IndexValue) : List IndexValue :=
  (values ++ List.replicate length fill).take length

namespace State

variable (state : State)

def queryOrdered (path : VirtualPath) (filter : Filter) (page : OrderedPage) :
    Except FilesystemError (List VersionedEntry) := do
  let materialized ← okOr (state.orderedIndex path page.index) (.unsupported path .query)
  let prefixValues ← okOr (orderedQueryPrefixValues materialized.spec filter page)
    (.unsupported path .query)
  let sortPosition := prefixValues.length
  match page.direction with
  | .ascending =>
    let startValues := match page.after with
      | some cursor => prefixValues ++ [cursor.value, cursor.tieBreaker]
      | none => prefixValues
    let rows := materialized.sortedRows.filter fun row => toLex (startValues, "") ≤ row.key
    return state.collectRows path (fun values => !prefixValues.isPrefixOf values)
      (fun values => page.after.any fun cursor => rowPosition sortPosition values ≤ cursor.position)
      page.limit rows []
  | .descending =>
    let upperValues := resize materialized.spec.keys.length upperValue prefixValues
    let upperPath := String.singleton (Char.ofNat 0x10FFFF)
    let rows := materialized.sortedRows.filter fun row =>
      toLex (prefixValues, "") ≤ row.key ∧ row.key ≤ toLex (upperValues, upperPath)
    return state.collectRows path (fun _ => false)
      (fun values => !prefixValues.isPrefixOf values ||
        page.after.any fun cursor => cursor.position ≤ rowPosition sortPosition values)
      page.limit rows.reverse []

end State

/-! ### Page by page -/

namespace OrderedPage

/-- The cursor that a client makes of the last entry of a page. -/
def cursorOf (page : OrderedPage) (versioned : VersionedEntry) : Option OrderedQueryCursor := do
  let value ← versioned.entry.index page.key
  let tieBreaker ← versioned.entry.index page.tieBreaker
  return ⟨value, tieBreaker⟩

end OrderedPage

namespace State

/-- The pages of a query one after the other, each after the last entry of the one before, up to an
empty page. -/
def followPages (state : State) (path : VirtualPath) (filter : Filter) : ℕ → OrderedPage →
    Except FilesystemError (List VersionedEntry)
  | 0, _ => .ok []
  | fuel + 1, page => do
    let results ← state.queryOrdered path filter page
    match results.getLast?.bind page.cursorOf with
    | none => return results
    | some cursor =>
      let rest ← followPages state path filter fuel { page with after := some cursor }
      return results ++ rest

end State

end Ironclaw.Filesystem
