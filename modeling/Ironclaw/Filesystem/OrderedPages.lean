import Ironclaw.Lib.Run
import Ironclaw.Filesystem.Materialized
import Ironclaw.Filesystem.Query

/-! # The pages of an ordered query

The pages of a query over a materialized index, one after the other, are the entries below the
query's path that carry all keys of the index and match the filter, each once and in order. -/

namespace Ironclaw.Filesystem

/-! ### What a filter asks for -/

mutual

/-- The entry matches a conjunction of equalities; ordered queries take no other filters. -/
def Filter.Holds (entry : Entry) : Filter → Prop
  | .all => True
  | .eq key value => entry.index key = some value
  | .and filters => AllHold entry filters
  | _ => False

def AllHold (entry : Entry) : List Filter → Prop
  | [] => True
  | filter :: filters => filter.Holds entry ∧ AllHold entry filters

end

/-- The values collected go on with the equalities that are asked for, no key twice. -/
def Collected (entry : Entry) (asked : Prop) (values values' : List (IndexKey × IndexValue)) :
    Prop :=
  ((values.map Prod.fst).Nodup → (values'.map Prod.fst).Nodup) ∧
    ∃ added, values' = values ++ added ∧
      (asked ↔ ∀ field ∈ added, entry.index field.1 = some field.2)

theorem Collected.refl (entry : Entry) (values : List (IndexKey × IndexValue)) :
    Collected entry True values values :=
  ⟨id, [], (List.append_nil values).symm, by simp⟩

mutual

/-- The equalities collected from a filter are those it asks for. -/
theorem collectEqualityValues_spec (entry : Entry) : ∀ {filter : Filter}
    {values values' : List (IndexKey × IndexValue)},
    collectEqualityValues filter values = some values' →
      Collected entry (filter.Holds entry) values values'
  | .all, values, values', h => by
    rw [collectEqualityValues] at h
    rw [← Option.some.inj h, Filter.Holds]
    exact .refl entry values
  | .eq key value, values, values', h => by
    rw [collectEqualityValues] at h
    split at h
    · exact absurd h (by simp)
    · next hnew =>
      rw [← Option.some.inj h]
      refine ⟨fun hnodup => ?_, [(key, value)], rfl, by simp [Filter.Holds]⟩
      rw [List.map_append, List.map_singleton, ← List.concat_eq_append]
      exact hnodup.concat hnew
  | .and filters, values, values', h => by
    rw [collectEqualityValues] at h
    rw [Filter.Holds]
    exact collectAllEqualityValues_spec entry h
  | .prefixOn _ _, _, _, h | .range _ _ _, _, _, h | .fts _ _, _, _, h | .ftsRanked _ _ _, _, _, h
  | .vectorNearest _ _, _, _, h | .or _, _, _, h => by simp [collectEqualityValues] at h

theorem collectAllEqualityValues_spec (entry : Entry) : ∀ {filters : List Filter}
    {values values' : List (IndexKey × IndexValue)},
    collectAllEqualityValues filters values = some values' →
      Collected entry (AllHold entry filters) values values'
  | [], values, values', h => by
    rw [collectAllEqualityValues] at h
    rw [← Option.some.inj h, AllHold]
    exact .refl entry values
  | filter :: filters, values, values', h => by
    rw [collectAllEqualityValues] at h
    split at h
    · next between hfirst =>
      obtain ⟨hnodup, added, rfl, hholds⟩ := collectEqualityValues_spec entry hfirst
      obtain ⟨hnodup', more, rfl, hrest⟩ := collectAllEqualityValues_spec entry h
      refine ⟨hnodup' ∘ hnodup, added ++ more, by rw [List.append_assoc], ?_⟩
      rw [AllHold, hholds, hrest, List.forall_mem_append]
    · exact absurd h (by simp)

end

theorem lookup_of_mem {fields : List (IndexKey × IndexValue)} (hnodup : (fields.map Prod.fst).Nodup)
    {field : IndexKey × IndexValue} (h : field ∈ fields) :
    List.lookup field.1 fields = some field.2 := by
  obtain ⟨before, after, rfl⟩ := List.append_of_mem h
  refine List.lookup_eq_some_iff.2 ⟨before, after, rfl, fun earlier hearlier => ?_⟩
  rw [bne_iff_ne]
  rintro heq
  rw [List.map_append, List.map_cons] at hnodup
  exact (List.nodup_append.1 hnodup).2.2 _ (List.mem_map_of_mem hearlier) _ List.mem_cons_self heq.symm

/-! ### The values of a row -/

variable {values : List IndexValue}

theorem forall₂_index {spec : IndexSpec} {entry : Entry}
    (h : materializedRowValues spec entry = some values) :
    List.Forall₂ (fun key value => entry.index key = some value) spec.keys values :=
  mapM_eq_some.1 h

theorem getElem?_row {spec : IndexSpec} {entry : Entry}
    (h : materializedRowValues spec entry = some values) {n : ℕ} {key : IndexKey}
    (hkey : spec.keys[n]? = some key) : values[n]? = entry.index key := by
  have hforall := forall₂_index h
  obtain ⟨hlt, rfl⟩ := List.getElem?_eq_some_iff.1 hkey
  have hlt' : n < values.length := hforall.length_eq ▸ hlt
  rw [List.getElem?_eq_getElem hlt']
  exact ((List.forall₂_iff_get.1 hforall).2 n hlt hlt').symm

theorem orderedQueryPrefixValues_spec {spec : IndexSpec} {filter : Filter} {page : OrderedPage}
    {prefixValues : List IndexValue}
    (h : orderedQueryPrefixValues spec filter page = some prefixValues) :
    spec.name = page.index ∧ spec.keys[prefixValues.length]? = some page.key ∧
      spec.keys[prefixValues.length + 1]? = some page.tieBreaker ∧
      ∀ entry values, materializedRowValues spec entry = some values →
        (filter.Holds entry ↔ prefixValues <+: values) := by
  unfold orderedQueryPrefixValues at h
  simp only [Option.bind_eq_bind, Option.bind_eq_some_iff, Option.guard_eq_some', exists_const] at h
  obtain ⟨⟨hname, -⟩, n, hn, htie, equalities, hcollect, ⟨hin, hall⟩, hvalues⟩ := h
  obtain ⟨hlt, hkey, -⟩ := List.findIdx?_eq_some_iff_getElem.1 hn
  have hleading := mapM_eq_some.1 hvalues
  have hlen : prefixValues.length = n := by
    rw [← hleading.length_eq, List.length_take, min_eq_left hlt.le]
  subst hlen
  refine ⟨hname, ?_, htie, fun entry values hentry => ?_⟩
  · rw [List.getElem?_eq_getElem hlt]
    exact congrArg some (of_decide_eq_true hkey)
  · obtain ⟨hkept, added, hadded, hholds⟩ := collectEqualityValues_spec entry hcollect
    have hnodup : (equalities.map Prod.fst).Nodup := hkept List.nodup_nil
    obtain rfl : equalities = added := hadded
    have hrow := List.forall₂_take prefixValues.length (forall₂_index hentry)
    rw [hholds, List.prefix_iff_eq_take]
    constructor
    · intro hequal
      have hindexed : List.Forall₂ (fun key value => entry.index key = some value)
          (spec.keys.take prefixValues.length) prefixValues := by
        refine hleading.imp fun key value hlookup => ?_
        obtain ⟨before, after, hfields, -⟩ := List.lookup_eq_some_iff.1 hlookup
        exact hequal (key, value) (by simp [hfields])
      have hunique : Relator.RightUnique fun (key : IndexKey) (value : IndexValue) =>
          entry.index key = some value :=
        fun _ _ _ hb hc => Option.some.inj (hb.symm.trans hc)
      exact hunique.forall₂ hindexed hrow
    · intro htake field hfield
      rw [← htake] at hrow
      have hmem := hin field.1 (List.mem_map_of_mem hfield)
      obtain ⟨i, hi, hget⟩ := List.mem_iff_getElem.1 hmem
      have hi' : i < prefixValues.length := hrow.length_eq ▸ hi
      have hlookup := (List.forall₂_iff_get.1 hleading).2 i hi hi'
      have hindex := (List.forall₂_iff_get.1 hrow).2 i hi hi'
      rw [List.get_eq_getElem, hget] at hlookup hindex
      rw [hindex, ← hlookup, lookup_of_mem hnodup hfield]

/-! ### One page -/

theorem collectRows_eq (state : State) (path : VirtualPath) (stops skipped : List IndexValue → Bool)
    (limit : ℕ) : ∀ (rows : List OrderedRow) (results : List VersionedEntry),
    results.length < limit →
      state.collectRows path stops skipped limit rows results =
        (results ++ ((rows.takeWhile fun row => !stops row.values).filter fun row =>
          !skipped row.values && pathWithinPrefix row.path.asStr path.asStr).flatMap fun row =>
            (state.get row.path).toList).take limit
  | [], results, hlimit => by
    rw [State.collectRows, List.takeWhile_nil, List.filter_nil, List.flatMap_nil, List.append_nil,
      List.take_of_length_le hlimit.le]
  | row :: rows, results, hlimit => by
    rw [State.collectRows]
    cases hstop : stops row.values with
    | true =>
      rw [if_pos rfl, List.takeWhile_cons_of_neg (by simp [hstop]), List.filter_nil,
        List.flatMap_nil, List.append_nil, List.take_of_length_le hlimit.le]
    | false =>
      rw [if_neg Bool.false_ne_true, List.takeWhile_cons_of_pos (by simp [hstop])]
      cases hskip : skipped row.values with
      | true =>
        rw [if_pos rfl, List.filter_cons_of_neg (by simp [hskip])]
        exact collectRows_eq state path stops skipped limit rows results hlimit
      | false =>
        rw [if_neg Bool.false_ne_true]
        cases hwithin : pathWithinPrefix row.path.asStr path.asStr with
        | false =>
          rw [if_pos rfl, List.filter_cons_of_neg (by simp [hwithin])]
          exact collectRows_eq state path stops skipped limit rows results hlimit
        | true =>
          rw [if_neg (by simp), List.filter_cons_of_pos (by simp [hskip, hwithin]),
            List.flatMap_cons, ← List.append_assoc]
          dsimp only
          split
          · next hfull =>
            have hone : (state.get row.path).toList.length ≤ 1 := by
              cases state.get row.path <;> simp
            rw [List.length_append] at hfull
            rw [List.take_append_of_le_length (by rw [List.length_append]; omega),
              List.take_of_length_le (by rw [List.length_append]; omega)]
          · next hroom =>
            exact collectRows_eq state path stops skipped limit rows _ (Nat.lt_of_not_le hroom)

/-! ### The rows in order -/

theorem valueAt_append (head rest : List IndexValue) (n : ℕ) :
    valueAt (head ++ rest) (head.length + n) = valueAt rest n := by
  rw [valueAt, valueAt, List.getElem?_append_right (Nat.le_add_right _ _), Nat.add_sub_cancel_left]

theorem rowPosition_append (head rest : List IndexValue) :
    rowPosition head.length (head ++ rest) = toLex (valueAt rest 0, valueAt rest 1) := by
  rw [rowPosition, valueAt_append head rest 1]
  exact congrArg (fun value => toLex (value, valueAt rest 1)) (valueAt_append head rest 0)

theorem values_lt_of_position_lt {head u v : List IndexValue} (hu : head <+: u) (hv : head <+: v)
    (h : rowPosition head.length u < rowPosition head.length v) : u < v := by
  obtain ⟨u, rfl⟩ := hu
  obtain ⟨v, rfl⟩ := hv
  rw [rowPosition_append, rowPosition_append] at h
  exact List.append_left_lt (lt_of_first_two_lt h)

theorem empty_le (text : String) : "" ≤ text := by
  rw [← not_lt, String.lt_iff_toList_lt]
  exact List.not_lt_nil _

theorem toLex_le_key {row : OrderedRow} : toLex (values, "") ≤ row.key ↔ values ≤ row.values := by
  rw [OrderedRow.key, Prod.Lex.toLex_le_toLex, le_iff_lt_or_eq (a := values)]
  exact or_congr_right ⟨fun h => h.1, fun h => ⟨h, empty_le _⟩⟩

theorem values_le_of_key_le {row row' : OrderedRow} (h : row.key ≤ row'.key) :
    row.values ≤ row'.values := by
  rcases Prod.Lex.toLex_le_toLex.1 h with hlt | ⟨heq, -⟩
  · exact hlt.le
  · exact heq.le

theorem path_le_upper (path : VirtualPath) :
    path.asStr ≤ String.singleton (Char.ofNat 0x10FFFF) := by
  obtain ⟨rest, hrest⟩ := path.normal.absolute.rooted
  refine le_of_lt (String.lt_iff_toList_lt.2 ?_)
  rw [hrest, String.toList_singleton]
  exact cons_lt_iff.2 (.inl (by decide))

theorem key_le_of_values_le {row : OrderedRow} (h : row.values ≤ values) :
    row.key ≤ toLex (values, String.singleton (Char.ofNat 0x10FFFF)) := by
  rw [OrderedRow.key, Prod.Lex.toLex_le_toLex]
  exact h.lt_or_eq.imp_right fun heq => ⟨heq, path_le_upper row.path⟩

namespace MaterializedOrderedIndex

variable (index : MaterializedOrderedIndex)

theorem mem_sortedRows {row : OrderedRow} : row ∈ index.sortedRows ↔ row ∈ index.rows.rows :=
  List.mem_insertionSort _

theorem pairwise_sortedRows : index.sortedRows.Pairwise (fun a b => a.key ≤ b.key) :=
  List.pairwise_insertionSort _ _

theorem nodup_sortedRows : index.sortedRows.Nodup :=
  (List.perm_insertionSort _ _).nodup_iff.2 (List.Nodup.of_map _ index.rows.nodup)

/-- The rows that begin with the values and lie below the path. -/
def matchedRows (path : VirtualPath) (prefixValues : List IndexValue) : List OrderedRow :=
  index.sortedRows.filter fun row =>
    prefixValues.isPrefixOf row.values && pathWithinPrefix row.path.asStr path.asStr

end MaterializedOrderedIndex

/-- The sort value and the tie breaker of an entry. -/
def OrderedPage.positionOf (page : OrderedPage) (versioned : VersionedEntry) :
    WithBot IndexValue ×ₗ WithBot IndexValue :=
  toLex (orBot (versioned.entry.index page.key), orBot (versioned.entry.index page.tieBreaker))

namespace State

def entriesOf (state : State) (rows : List OrderedRow) : List VersionedEntry :=
  rows.flatMap fun row => (state.get row.path).toList

end State

theorem collectRows_nil (state : State) (path : VirtualPath)
    (stops skipped : List IndexValue → Bool) {limit : ℕ} (hlimit : 0 < limit)
    (rows : List OrderedRow) :
    state.collectRows path stops skipped limit rows [] =
      (state.entriesOf ((rows.takeWhile fun row => !stops row.values).filter fun row =>
        !skipped row.values && pathWithinPrefix row.path.asStr path.asStr)).take limit := by
  exact collectRows_eq state path stops skipped limit rows [] hlimit

section Page

variable {state : State} {root path : VirtualPath} {filter : Filter} {page : OrderedPage}
  {index : MaterializedOrderedIndex} {prefixValues : List IndexValue}

theorem Rows.exists_get (hrows : Rows state root index) {row : OrderedRow}
    (hrow : row ∈ index.rows.rows) : ∃ versioned, state.get row.path = some versioned ∧
      versioned.path = row.path ∧ materializedRowValues index.spec versioned.entry = some row.values := by
  obtain ⟨-, hvalues⟩ := (hrows.mem_iff row).1 hrow
  obtain ⟨entry, hvalue, hvalues⟩ := Option.bind_eq_some_iff.1 hvalues
  obtain ⟨stored, hget, rfl⟩ := Option.map_eq_some_iff.1 hvalue
  exact ⟨⟨row.path, stored.entry, stored.version⟩, by rw [State.get, hget]; rfl, rfl, hvalues⟩

section Fits

variable (hfits : orderedQueryPrefixValues index.spec filter page = some prefixValues)
include hfits

theorem rowPosition_eq {entry : VersionedEntry} {values : List IndexValue}
    (h : materializedRowValues index.spec entry.entry = some values) :
    rowPosition prefixValues.length values = page.positionOf entry := by
  obtain ⟨-, hkey, htie, -⟩ := orderedQueryPrefixValues_spec hfits
  rw [rowPosition, valueAt, valueAt, getElem?_row h hkey, getElem?_row h htie]
  rfl

theorem entriesOf_filter (hrows : Rows state root index) {rows : List OrderedRow}
    (hsub : ∀ row ∈ rows, row ∈ index.rows.rows)
    (p : WithBot IndexValue ×ₗ WithBot IndexValue → Bool) :
    state.entriesOf (rows.filter fun row => p (rowPosition prefixValues.length row.values)) =
      (state.entriesOf rows).filter fun versioned => p (page.positionOf versioned) := by
  induction rows with
  | nil => rfl
  | cons row rows ih =>
    have ih := ih fun row hrow => hsub row (List.mem_cons_of_mem _ hrow)
    obtain ⟨versioned, hget, -, hvalues⟩ := hrows.exists_get (hsub row List.mem_cons_self)
    have hsame := rowPosition_eq hfits hvalues
    simp only [State.entriesOf, List.flatMap_cons, List.filter_cons, hsame, List.filter_append,
      hget, Option.toList_some, List.filter_nil] at ih ⊢
    cases p (page.positionOf versioned)
    · simpa using ih
    · simpa [hget] using ih

/-- The values at which an ascending walk starts. -/
def startValues (prefixValues : List IndexValue) : Option OrderedQueryCursor → List IndexValue
  | some cursor => prefixValues ++ [cursor.value, cursor.tieBreaker]
  | none => prefixValues

omit hfits in
theorem le_startValues (prefixValues : List IndexValue) (after : Option OrderedQueryCursor) :
    prefixValues ≤ startValues prefixValues after := by
  cases after with
  | none => exact le_rfl
  | some cursor => exact le_of_isPrefix (List.prefix_append _ _)

omit hfits in
theorem pairwise_beginning (index : MaterializedOrderedIndex) (prefixValues : List IndexValue)
    (after : Option OrderedQueryCursor) :
    (index.sortedRows.filter fun row =>
      toLex (startValues prefixValues after, "") ≤ row.key).Pairwise fun a b =>
        prefixValues.isPrefixOf b.values = true → prefixValues.isPrefixOf a.values = true := by
  refine List.Pairwise.imp_of_mem ?_ (index.pairwise_sortedRows.filter _)
  intro a b ha _ hle hb
  rw [List.isPrefixOf_iff_prefix] at hb ⊢
  obtain ⟨rest, hrest⟩ := hb
  obtain ⟨-, hfrom⟩ := List.mem_filter.1 ha
  have hfrom := toLex_le_key.1 (of_decide_eq_true hfrom)
  exact isPrefix_of_le_of_le ((le_startValues _ _).trans hfrom) (hrest ▸ values_le_of_key_le hle)

omit hfits in
/-- A row behind the cursor comes after the start of the walk. -/
theorem startValues_le {values : List IndexValue} (hpre : prefixValues <+: values)
    {after : Option OrderedQueryCursor}
    (h : ∀ cursor, after = some cursor → cursor.position < rowPosition prefixValues.length values) :
    startValues prefixValues after ≤ values := by
  cases after with
  | none => exact le_of_isPrefix hpre
  | some cursor =>
    refine (values_lt_of_position_lt (List.prefix_append _ _) hpre ?_).le
    rw [rowPosition_append]
    exact h cursor rfl

theorem queryOrdered_ascending (hrows : Rows state root index)
    (hindex : state.orderedIndex path page.index = some index)
    (hdirection : page.direction = .ascending) (hlimit : 0 < page.limit) :
    state.queryOrdered path filter page = .ok (pageAfter page.positionOf page.limit
      (state.entriesOf (index.matchedRows path prefixValues)) (page.after.map (·.position))) := by
  have hsub : ∀ row ∈ index.matchedRows path prefixValues, row ∈ index.rows.rows :=
    fun row hrow => index.mem_sortedRows.1 (List.mem_of_mem_filter hrow)
  have hquery : state.queryOrdered path filter page = .ok (state.collectRows path
      (fun values => !prefixValues.isPrefixOf values)
      (fun values => page.after.any fun cursor =>
        rowPosition prefixValues.length values ≤ cursor.position)
      page.limit (index.sortedRows.filter fun row =>
        toLex (startValues prefixValues page.after, "") ≤ row.key) []) := by
    simp only [State.queryOrdered, hindex, okOr, bind, Except.bind, hfits, hdirection, pure,
      Except.pure]
    rfl
  rw [hquery, collectRows_nil _ _ _ _ hlimit, pageAfter, ← entriesOf_filter hfits hrows hsub
    fun position => (page.after.map (·.position)).all fun cursor => cursor < position]
  simp only [Bool.not_not]
  rw [takeWhile_eq_filter (pairwise_beginning _ _ _), MaterializedOrderedIndex.matchedRows,
    List.filter_filter, List.filter_filter, List.filter_filter]
  congr 3
  refine List.filter_congr fun row _ => ?_
  rw [Bool.eq_iff_iff]
  simp only [Bool.and_eq_true, Bool.not_eq_true', List.isPrefixOf_iff_prefix, decide_eq_true_iff,
    toLex_le_key]
  cases hafter : page.after with
  | none =>
    simp only [Option.any_none, Option.map_none, Option.all_none, true_and]
    exact ⟨fun h => ⟨h.1.2, h.1.1⟩, fun h => ⟨⟨h.2, h.1⟩, le_of_isPrefix h.1⟩⟩
  | some cursor =>
    simp only [Option.any_some, Option.map_some, Option.all_some, decide_eq_false_iff_not, not_le,
      decide_eq_true_iff]
    constructor
    · exact fun h => ⟨h.1.1.1, h.1.2, h.1.1.2⟩
    · rintro ⟨hlt, hpre, hwithin⟩
      refine ⟨⟨⟨hlt, hwithin⟩, hpre⟩, startValues_le hpre fun cursor' hcursor => ?_⟩
      exact Option.some.inj hcursor ▸ hlt

/-- The row is not behind the values that close a walk downwards. -/
def Bounded (spec : IndexSpec) (prefixValues values : List IndexValue) : Prop :=
  values ≤ resize spec.keys.length upperValue prefixValues

theorem queryOrdered_descending (hrows : Rows state root index)
    (hindex : state.orderedIndex path page.index = some index)
    (hdirection : page.direction = .descending) (hlimit : 0 < page.limit)
    (hbounded : ∀ row ∈ index.matchedRows path prefixValues, Bounded index.spec prefixValues row.values) :
    state.queryOrdered path filter page =
      .ok (pageAfter (fun versioned => OrderDual.toDual (page.positionOf versioned)) page.limit
        (state.entriesOf (index.matchedRows path prefixValues).reverse)
        (page.after.map fun cursor => OrderDual.toDual cursor.position)) := by
  have hsub : ∀ row ∈ (index.matchedRows path prefixValues).reverse, row ∈ index.rows.rows :=
    fun row hrow => index.mem_sortedRows.1 (List.mem_of_mem_filter (List.mem_reverse.1 hrow))
  have hquery : state.queryOrdered path filter page = .ok (state.collectRows path (fun _ => false)
      (fun values => !prefixValues.isPrefixOf values ||
        page.after.any fun cursor => cursor.position ≤ rowPosition prefixValues.length values)
      page.limit (index.sortedRows.filter fun row => toLex (prefixValues, "") ≤ row.key ∧
        row.key ≤ toLex (resize index.spec.keys.length upperValue prefixValues,
          String.singleton (Char.ofNat 0x10FFFF))).reverse []) := by
    simp only [State.queryOrdered, hindex, okOr, bind, Except.bind, hfits, hdirection, pure,
      Except.pure]
  rw [hquery, collectRows_nil _ _ _ _ hlimit, pageAfter, ← entriesOf_filter hfits hrows hsub
    fun position => (page.after.map fun cursor => OrderDual.toDual cursor.position).all fun cursor =>
      cursor < OrderDual.toDual position]
  have hall : ∀ rows : List OrderedRow, rows.takeWhile (fun _ => !false) = rows :=
    fun rows => List.takeWhile_eq_self_iff.2 fun _ _ => rfl
  rw [hall, MaterializedOrderedIndex.matchedRows, List.filter_reverse, List.filter_reverse,
    List.filter_filter, List.filter_filter]
  congr 4
  refine List.filter_congr fun row hrow => ?_
  rw [Bool.eq_iff_iff]
  simp only [Bool.and_eq_true, Bool.not_eq_true', Bool.or_eq_false_iff, Bool.not_eq_false',
    List.isPrefixOf_iff_prefix, decide_eq_true_iff, toLex_le_key]
  have hupper : prefixValues <+: row.values →
      pathWithinPrefix row.path.asStr path.asStr = true →
      row.key ≤ toLex (resize index.spec.keys.length upperValue prefixValues,
        String.singleton (Char.ofNat 0x10FFFF)) := by
    intro hpre hwithin
    refine key_le_of_values_le (hbounded row (List.mem_filter.2 ⟨hrow, ?_⟩))
    rw [Bool.and_eq_true, List.isPrefixOf_iff_prefix]
    exact ⟨hpre, hwithin⟩
  cases page.after with
  | none =>
    simp only [Option.any_none, Option.map_none, Option.all_none, true_and, and_true]
    exact ⟨fun h => h.1, fun h => ⟨h, le_of_isPrefix h.1, hupper h.1 h.2⟩⟩
  | some cursor =>
    simp only [Option.any_some, Option.map_some, Option.all_some, decide_eq_false_iff_not, not_le,
      decide_eq_true_iff, OrderDual.toDual_lt_toDual]
    constructor
    · exact fun h => ⟨h.1.1.2, h.1.1.1, h.1.2⟩
    · rintro ⟨hlt, hpre, hwithin⟩
      exact ⟨⟨⟨hpre, hlt⟩, hwithin⟩, le_of_isPrefix hpre, hupper hpre hwithin⟩

/-! ### All pages -/

/-- The entry is stored at the path or below it, carries all keys of the index and matches the
filter. -/
structure Matches (state : State) (path : VirtualPath) (spec : IndexSpec) (filter : Filter)
    (versioned : VersionedEntry) : Prop where
  stored : state.get versioned.path = some versioned
  under : Under path versioned.path
  carries : (materializedRowValues spec versioned.entry).isSome = true
  holds : filter.Holds versioned.entry

omit hfits in
theorem State.path_of_get {versioned : VersionedEntry} {path : VirtualPath}
    (h : state.get path = some versioned) : versioned.path = path := by
  obtain ⟨stored, -, rfl⟩ := Option.map_eq_some_iff.1 h
  rfl

/-- The entries of the matched rows are those that match. -/
theorem mem_entriesOf_matchedRows (hrows : Rows state root index) (hunder : Under root path)
    {versioned : VersionedEntry} :
    versioned ∈ state.entriesOf (index.matchedRows path prefixValues) ↔
      Matches state path index.spec filter versioned := by
  obtain ⟨-, -, -, hholds⟩ := orderedQueryPrefixValues_spec hfits
  simp only [State.entriesOf, List.mem_flatMap, Option.mem_toList,
    MaterializedOrderedIndex.matchedRows, List.mem_filter, index.mem_sortedRows, Bool.and_eq_true,
    List.isPrefixOf_iff_prefix, pathWithinPrefix_iff]
  constructor
  · rintro ⟨row, ⟨hrow, hpre, hbelow⟩, hget⟩
    have hpath := State.path_of_get hget
    obtain ⟨versioned', hget', -, hvalues⟩ := hrows.exists_get hrow
    obtain rfl := Option.some.inj (hget'.symm.trans hget)
    exact ⟨hpath ▸ hget, hpath ▸ hbelow, by rw [hvalues]; rfl, (hholds _ _ hvalues).2 hpre⟩
  · rintro ⟨hget, hbelow, hcarries, hfilter⟩
    obtain ⟨values, hvalues⟩ := Option.isSome_iff_exists.1 hcarries
    refine ⟨⟨values, versioned.path⟩, ⟨?_, (hholds _ _ hvalues).1 hfilter, hbelow⟩, hget⟩
    refine (hrows.mem_iff _).2 ⟨hunder.trans hbelow, ?_⟩
    obtain ⟨stored, hstored, hversioned⟩ := Option.map_eq_some_iff.1 hget
    rw [State.rowAt, State.value, hstored, Option.map_some, Option.bind_some]
    rw [← hversioned] at hvalues
    exact hvalues

/-- The matched entries are in order when no two of them have the same position. -/
theorem pairwise_entriesOf_matchedRows (hrows : Rows state root index) (hunder : Under root path)
    (hunique : ∀ versioned versioned', Matches state path index.spec filter versioned →
      Matches state path index.spec filter versioned' →
      page.positionOf versioned = page.positionOf versioned' → versioned = versioned') :
    (index.matchedRows path prefixValues).Pairwise fun row row' =>
      ∀ versioned ∈ (state.get row.path).toList, ∀ versioned' ∈ (state.get row'.path).toList,
        page.positionOf versioned < page.positionOf versioned' := by
  have hpairs : (index.matchedRows path prefixValues).Pairwise fun row row' =>
      row.key ≤ row'.key ∧ row ≠ row' :=
    (index.pairwise_sortedRows.and index.nodup_sortedRows).filter _
  refine List.Pairwise.imp_of_mem ?_ hpairs
  rintro row row' hrow hrow' ⟨hle, hne⟩ versioned hget versioned' hget'
  rw [Option.mem_toList] at hget hget'
  have hmatched : ∀ {row : OrderedRow} {versioned : VersionedEntry},
      row ∈ index.matchedRows path prefixValues → state.get row.path = some versioned →
      Matches state path index.spec filter versioned ∧
        materializedRowValues index.spec versioned.entry = some row.values ∧
        prefixValues <+: row.values := by
    intro row versioned hrow hget
    refine ⟨(mem_entriesOf_matchedRows hfits hrows hunder).1
      (List.mem_flatMap.2 ⟨row, hrow, by rw [hget]; simp⟩), ?_⟩
    obtain ⟨hmem, htest⟩ := List.mem_filter.1 hrow
    rw [Bool.and_eq_true, List.isPrefixOf_iff_prefix] at htest
    obtain ⟨versioned', hget', -, hvalues⟩ := hrows.exists_get (index.mem_sortedRows.1 hmem)
    exact ⟨Option.some.inj (hget'.symm.trans hget) ▸ hvalues, htest.1⟩
  obtain ⟨hmatches, hvalues, hpre⟩ := hmatched hrow hget
  obtain ⟨hmatches', hvalues', hpre'⟩ := hmatched hrow' hget'
  refine lt_of_le_of_ne ?_ fun heq => hne ?_
  · rw [← rowPosition_eq hfits hvalues, ← rowPosition_eq hfits hvalues', ← not_lt]
    intro hlt
    exact absurd (values_lt_of_position_lt hpre' hpre hlt) (not_lt.2 (values_le_of_key_le hle))
  · have hsame := hunique _ _ hmatches hmatches' heq
    have hpath : row.path = row'.path := by
      rw [← State.path_of_get hget, ← State.path_of_get hget', hsame]
    have hrowValues : row.values = row'.values :=
      Option.some.inj (hvalues.symm.trans (hsame ▸ hvalues'))
    obtain ⟨values, path⟩ := row
    obtain ⟨values', path'⟩ := row'
    exact congrArg₂ OrderedRow.mk hrowValues hpath

end Fits

/-- The pages of a query are keyset pages when each of its pages is one. -/
theorem followPages_eq {κ : Type} [LinearOrder κ] {position : VersionedEntry → κ}
    {encode : OrderedQueryCursor → κ} {items : List VersionedEntry}
    (hpage : ∀ after, state.queryOrdered path filter { page with after := after } =
      .ok (pageAfter position page.limit items (after.map encode)))
    (hcursor : ∀ versioned ∈ items, ∃ cursor, page.cursorOf versioned = some cursor ∧
      encode cursor = position versioned) : ∀ (fuel : ℕ) (after : Option OrderedQueryCursor),
    state.followPages path filter fuel { page with after := after } =
      .ok (followAll position page.limit items fuel (after.map encode))
  | 0, _ => rfl
  | fuel + 1, after => by
    rw [State.followPages, hpage, followAll]
    simp only [bind, Except.bind]
    cases hlast : (pageAfter position page.limit items (after.map encode)).getLast? with
    | none => rfl
    | some last =>
      have hmem : last ∈ items :=
        List.mem_of_mem_filter (List.mem_of_mem_take (List.mem_of_getLast? hlast))
      obtain ⟨cursor, hcursorOf, hencode⟩ := hcursor last hmem
      have hsame : ({ page with after := after } : OrderedPage).cursorOf last = some cursor :=
        hcursorOf
      simp only [Option.bind_some, hsame]
      rw [followPages_eq hpage hcursor fuel (some cursor), Option.map_some, hencode]
      rfl

/-- The last entry of a page gives the cursor of the next. -/
theorem cursorOf_of_matches
    (hfits : orderedQueryPrefixValues index.spec filter page = some prefixValues)
    {versioned : VersionedEntry} (h : Matches state path index.spec filter versioned) :
    ∃ cursor, page.cursorOf versioned = some cursor ∧
      cursor.position = page.positionOf versioned := by
  obtain ⟨-, hkey, htie, -⟩ := orderedQueryPrefixValues_spec hfits
  obtain ⟨values, hvalues⟩ := Option.isSome_iff_exists.1 h.carries
  have hindexed : ∀ {n : ℕ} {key : IndexKey}, index.spec.keys[n]? = some key →
      ∃ value, versioned.entry.index key = some value := by
    intro n key hn
    obtain ⟨hlt, -⟩ := List.getElem?_eq_some_iff.1 hn
    rw [← getElem?_row hvalues hn]
    exact ⟨_, List.getElem?_eq_getElem ((forall₂_index hvalues).length_eq ▸ hlt)⟩
  obtain ⟨value, hvalue⟩ := hindexed hkey
  obtain ⟨tieBreaker, htieBreaker⟩ := hindexed htie
  refine ⟨⟨value, tieBreaker⟩, ?_, ?_⟩
  · simp only [OrderedPage.cursorOf, hvalue, htieBreaker, Option.bind_eq_bind, Option.bind_some,
      Option.pure_def]
  · rw [OrderedPage.positionOf, hvalue, htieBreaker]
    rfl

end Page

/-! ### The index a query finds -/

variable {state : State}

theorem orderedIndex_eq {root path : VirtualPath} {name : IndexName}
    {index : MaterializedOrderedIndex} (hunder : Under root path)
    (hindex : state.orderedIndexes.get (root.asStr, name) = some index)
    (hnearest : ∀ other, Under root other → Under other path → other ≠ root →
      state.orderedIndexes.get (other.asStr, name) = none) :
    state.orderedIndex path name = some index := by
  obtain ⟨before, after, hsplit, hbetween⟩ := ancestorPrefixes_split hunder
  have hbefore : (before.findSome? fun declaredAt =>
      state.orderedIndexes.get (declaredAt, name)) = none := by
    rw [List.findSome?_eq_none_iff]
    intro text htext
    obtain ⟨other, rfl, hroot, hpath, hne⟩ := hbetween text htext
    exact hnearest other hroot hpath hne
  rw [State.orderedIndex, hsplit, List.findSome?_append, hbefore, Option.none_or,
    List.findSome?_cons, hindex]

/-! ### The pages of a query, after any sequence of mutations -/

/-- One entry comes before another in the direction of the page. -/
def OrderedPage.Before (page : OrderedPage) (versioned versioned' : VersionedEntry) : Prop :=
  match page.direction with
  | .ascending => page.positionOf versioned < page.positionOf versioned'
  | .descending => page.positionOf versioned' < page.positionOf versioned

theorem pairwise_entriesOf {rows : List OrderedRow} {r : VersionedEntry → VersionedEntry → Prop}
    (h : rows.Pairwise fun row row' => ∀ versioned ∈ (state.get row.path).toList,
      ∀ versioned' ∈ (state.get row'.path).toList, r versioned versioned') :
    (state.entriesOf rows).Pairwise r := by
  rw [State.entriesOf, List.pairwise_flatMap]
  refine ⟨fun row _ => ?_, h⟩
  cases state.get row.path <;> simp

theorem length_le_of_stored {items : List VersionedEntry} (hnodup : items.Nodup)
    (hstored : ∀ versioned ∈ items, state.get versioned.path = some versioned) :
    items.length ≤ state.entries.rows.length := by
  have hpaths : (items.map VersionedEntry.path).Nodup := by
    refine hnodup.map_on fun versioned hmem versioned' hmem' heq => ?_
    have hget := hstored versioned hmem
    rw [heq, hstored versioned' hmem'] at hget
    exact (Option.some.inj hget).symm
  have hsub : items.map VersionedEntry.path ⊆ state.entries.rows.map StoredEntry.path := by
    intro path hpath
    obtain ⟨versioned, hmem, rfl⟩ := List.mem_map.1 hpath
    obtain ⟨stored, hget, -⟩ := Option.map_eq_some_iff.1 (hstored versioned hmem)
    exact List.mem_map.2 ⟨stored, Table.mem_of_get hget, Table.key_of_get hget⟩
  have hlen := (hpaths.subperm hsub).length_le
  rwa [List.length_map, List.length_map] at hlen

section Follow

variable {state : State} {root path : VirtualPath} {filter : Filter} {page : OrderedPage}
  {index : MaterializedOrderedIndex} {prefixValues : List IndexValue}

/-- Over a materialized index, the pages of a query are the matching entries in order. -/
theorem Rows.followPages (hrows : Rows state root index) (hunder : Under root path)
    (hindex : state.orderedIndex path page.index = some index)
    (hfits : orderedQueryPrefixValues index.spec filter page = some prefixValues)
    (hlimit : 0 < page.limit) (hfirst : page.after = none)
    (hunique : ∀ versioned versioned', Matches state path index.spec filter versioned →
      Matches state path index.spec filter versioned' →
      page.positionOf versioned = page.positionOf versioned' → versioned = versioned')
    (hbounded : page.direction = .descending → ∀ versioned values,
      Matches state path index.spec filter versioned →
      materializedRowValues index.spec versioned.entry = some values →
      Bounded index.spec prefixValues values) :
    ∃ results, (∀ fuel, state.entries.rows.length < fuel →
        state.followPages path filter fuel page = .ok results) ∧
      results.Pairwise page.Before ∧
      ∀ versioned, versioned ∈ results ↔ Matches state path index.spec filter versioned := by
  have hpage : { page with after := none } = page := by rw [← hfirst]
  have hmem := fun versioned =>
    @mem_entriesOf_matchedRows state root path filter page index prefixValues hfits hrows hunder
      versioned
  have hpairs := pairwise_entriesOf_matchedRows hfits hrows hunder hunique
  have hlength : ∀ {items : List VersionedEntry}, items.Pairwise page.Before →
      (∀ versioned ∈ items, Matches state path index.spec filter versioned) →
      items.length ≤ state.entries.rows.length := by
    intro items hsorted hmatches
    refine length_le_of_stored (hsorted.imp ?_) fun versioned h => (hmatches versioned h).stored
    rintro versioned _ hlt rfl
    rw [OrderedPage.Before] at hlt
    split at hlt <;> exact absurd hlt (lt_irrefl _)
  cases hdirection : page.direction with
  | ascending =>
    have hsorted := pairwise_entriesOf hpairs
    have hbefore : (state.entriesOf (index.matchedRows path prefixValues)).Pairwise page.Before := by
      refine hsorted.imp fun hlt => ?_
      rw [OrderedPage.Before, hdirection]
      exact hlt
    have hpages : ∀ after, state.queryOrdered path filter { page with after := after } =
        .ok (pageAfter page.positionOf page.limit
          (state.entriesOf (index.matchedRows path prefixValues)) (after.map (·.position))) :=
      fun after => queryOrdered_ascending hfits hrows hindex hdirection hlimit
    refine ⟨_, fun fuel hfuel => ?_, hbefore, hmem⟩
    have hfollow := followPages_eq hpages
      (fun versioned h => cursorOf_of_matches hfits ((hmem versioned).1 h)) fuel none
    rw [hpage] at hfollow
    rw [hfollow]
    exact congrArg Except.ok (followAll_eq hsorted hlimit
      ((hlength hbefore fun v h => (hmem v).1 h).trans_lt hfuel))
  | descending =>
    have hreverse : ∀ versioned, versioned ∈ state.entriesOf
        (index.matchedRows path prefixValues).reverse ↔
          Matches state path index.spec filter versioned := by
      intro versioned
      rw [← hmem, State.entriesOf, State.entriesOf, List.mem_flatMap, List.mem_flatMap]
      simp only [List.mem_reverse]
    have hsorted : (state.entriesOf (index.matchedRows path prefixValues).reverse).Pairwise
        fun versioned versioned' => OrderDual.toDual (page.positionOf versioned) <
          OrderDual.toDual (page.positionOf versioned') := by
      refine pairwise_entriesOf (List.pairwise_reverse.2 (hpairs.imp ?_))
      exact fun h versioned hget versioned' hget' => h versioned' hget' versioned hget
    have hbefore : (state.entriesOf
        (index.matchedRows path prefixValues).reverse).Pairwise page.Before := by
      refine hsorted.imp fun hlt => ?_
      rw [OrderedPage.Before, hdirection]
      exact hlt
    have hrowBounded : ∀ row ∈ index.matchedRows path prefixValues,
        Bounded index.spec prefixValues row.values := by
      intro row hrow
      obtain ⟨versioned, hget, -, hvalues⟩ :=
        hrows.exists_get (index.mem_sortedRows.1 (List.mem_of_mem_filter hrow))
      refine hbounded hdirection versioned row.values ((hmem versioned).1 ?_) hvalues
      exact List.mem_flatMap.2 ⟨row, hrow, by rw [hget]; simp⟩
    have hpages : ∀ after, state.queryOrdered path filter { page with after := after } =
        .ok (pageAfter (fun versioned => OrderDual.toDual (page.positionOf versioned)) page.limit
          (state.entriesOf (index.matchedRows path prefixValues).reverse)
          (after.map fun cursor => OrderDual.toDual cursor.position)) :=
      fun after => queryOrdered_descending hfits hrows hindex hdirection hlimit hrowBounded
    refine ⟨_, fun fuel hfuel => ?_, hbefore, hreverse⟩
    have hfollow := followPages_eq hpages (fun versioned h => by
      obtain ⟨cursor, hcursor, hposition⟩ :=
        cursorOf_of_matches hfits ((hreverse versioned).1 h)
      exact ⟨cursor, hcursor, congrArg OrderDual.toDual hposition⟩) fuel none
    rw [hpage] at hfollow
    rw [hfollow]
    exact congrArg Except.ok (followAll_eq hsorted hlimit
      ((hlength hbefore fun v h => (hreverse v).1 h).trans_lt hfuel))

end Follow

/-- Following the pages of an ordered query gives the entries below its path that carry all keys of
the index and match the filter, each once and in order, after every sequence of mutations in which
no subtree with such entries was created, and when no value is behind the end of a walk
downwards. -/
theorem query_ordered_pages {root : VirtualPath} {spec : IndexSpec}
    (hkind : spec.kind = .exact ∨ spec.kind = .pre) {start declared : State}
    (hnew : ∀ other ∈ start.indexes, ¬ (other.1 = root.asStr ∧ other.2.name = spec.name))
    (hempty : ∀ stored ∈ start.entries.rows, ¬ Under root stored.path)
    (hdeclare : start.ensureIndex root spec = .ok declared) (mutations : List Mutation)
    (hprojects : Along State.next (Projects root spec) declared mutations)
    {path : VirtualPath} (hunder : Under root path)
    (hnearest : ∀ other, Under root other → Under other path → other ≠ root →
      (mutations.foldl State.next declared).orderedIndexes.get (other.asStr, spec.name) = none)
    {filter : Filter} {page : OrderedPage} {prefixValues : List IndexValue}
    (hfits : orderedQueryPrefixValues spec filter page = some prefixValues)
    (hlimit : 1 ≤ page.limit) (hfirst : page.after = none)
    (hunique : ∀ versioned versioned',
      Matches (mutations.foldl State.next declared) path spec filter versioned →
      Matches (mutations.foldl State.next declared) path spec filter versioned' →
      page.positionOf versioned = page.positionOf versioned' → versioned = versioned')
    (hbounded : page.direction = .descending → ∀ versioned values,
      Matches (mutations.foldl State.next declared) path spec filter versioned →
      materializedRowValues spec versioned.entry = some values →
      Bounded spec prefixValues values) :
    ∃ results, (∀ fuel, (mutations.foldl State.next declared).entries.rows.length < fuel →
        (mutations.foldl State.next declared).followPages path filter fuel page = .ok results) ∧
      results.Pairwise page.Before ∧
      ∀ versioned, versioned ∈ results ↔
        Matches (mutations.foldl State.next declared) path spec filter versioned := by
  obtain ⟨hname, hkey, -⟩ := orderedQueryPrefixValues_spec hfits
  have hkeys : spec.keys ≠ [] := by
    rintro hnil
    rw [hnil] at hkey
    exact absurd hkey (by simp)
  obtain ⟨index, hget, rfl, hrows⟩ := hprojects.invariant
    (fun _ _ hstep h => Materialized.next hkeys h hstep)
    (materialized_of_ensureIndex hkind hnew hempty hdeclare)
  exact hrows.followPages hunder (hname ▸ orderedIndex_eq hunder hget hnearest) hfits hlimit hfirst
    hunique hbounded

/-! ### Runs of a project, by time -/

def projectPath : VirtualPath :=
  ⟨"/projects/p1", @normalizeAbsolutePath_normal "/projects/p1" _ .virtual (by decide +kernel),
    by decide +kernel⟩

def runsPath : VirtualPath :=
  ⟨"/projects/p1/runs",
    @normalizeAbsolutePath_normal "/projects/p1/runs" _ .virtual (by decide +kernel),
    by decide +kernel⟩

def runPath : VirtualPath :=
  ⟨"/projects/p1/runs/r1",
    @normalizeAbsolutePath_normal "/projects/p1/runs/r1" _ .virtual (by decide +kernel),
    by decide +kernel⟩

def timeSpec : IndexSpec := ⟨⟨"by_time"⟩, [⟨"time"⟩, ⟨"id"⟩], .exact⟩

def runEntry (time : IndexValue) : Entry :=
  ⟨[], ⟨"application/json"⟩, some ⟨"run"⟩, [(⟨"time"⟩, time), (⟨"id"⟩, .text "r1")]⟩

def timePage (direction : SortDirection) : OrderedPage :=
  ⟨⟨"by_time"⟩, ⟨"time"⟩, ⟨"id"⟩, direction, none, 1⟩

/-- The index declared in an empty store. -/
def declaredRuns : State :=
  match State.new.ensureIndex projectPath timeSpec with
  | .ok state => state
  | .error _ => State.new

theorem followPages_of_empty {path : VirtualPath} {filter : Filter}
    {page : OrderedPage} (h : state.queryOrdered path filter page = .ok []) (fuel : ℕ) :
    state.followPages path filter fuel page = .ok [] := by
  cases fuel with
  | zero => rfl
  | succ fuel =>
    rw [State.followPages, h]
    rfl

/-- A run in a subtree that was created at once is in no page, and neither is one whose time is
behind the end of a walk downwards. -/
theorem created_run_not_listed :
    let created := declaredRuns.next (.createSubtreeAtomic runsPath [⟨runPath, runEntry (.i64 1)⟩])
    let late := IndexValue.bytes (List.replicate 1025 255)
    let written := declaredRuns.next (.put runPath (runEntry late) .any)
    State.new.ensureIndex projectPath timeSpec = .ok declaredRuns ∧
      orderedQueryPrefixValues timeSpec .all (timePage .ascending) = some [] ∧
      Matches created projectPath timeSpec .all ⟨runPath, runEntry (.i64 1), .first⟩ ∧
      (∀ fuel, created.followPages projectPath .all fuel (timePage .ascending) = .ok []) ∧
      Matches written projectPath timeSpec .all ⟨runPath, runEntry late, .first⟩ ∧
      ∀ fuel, written.followPages projectPath .all fuel (timePage .descending) = .ok [] := by
  intro created late written
  refine ⟨rfl, by decide +kernel, ?_, ?_, ?_, ?_⟩
  · exact ⟨by decide +kernel, by decide +kernel, by decide +kernel, trivial⟩
  · exact followPages_of_empty (by decide +kernel)
  · exact ⟨by decide +kernel, by decide +kernel, by decide +kernel, trivial⟩
  · exact followPages_of_empty (by decide +kernel)

/-- A run that was put is found from the directory it lies in, through the index of the project. -/
theorem written_run_listed : let state := declaredRuns.next (.put runPath (runEntry (.i64 1)) .any)
    ∃ results, (∀ fuel, 1 < fuel →
        state.followPages runsPath .all fuel (timePage .ascending) = .ok results) ∧
      results.Pairwise (timePage .ascending).Before ∧
      ∀ versioned, versioned ∈ results ↔ Matches state runsPath timeSpec .all versioned := by
  intro state
  have hpaths : ∀ stored ∈ state.entries.rows, stored.path = runPath := by decide +kernel
  have hdeclared : ∀ index ∈ state.orderedIndexes.rows, index.declaredAt = projectPath.asStr := by
    decide +kernel
  have hone : ∀ {versioned : VersionedEntry}, Matches state runsPath timeSpec .all versioned →
      versioned.path = runPath := by
    intro versioned h
    obtain ⟨stored, hget, -⟩ := Option.map_eq_some_iff.1 h.stored
    exact (Table.key_of_get hget).symm.trans (hpaths stored (Table.mem_of_get hget))
  have hnearest : ∀ other, Under projectPath other → Under other runsPath → other ≠ projectPath →
      state.orderedIndexes.get (other.asStr, timeSpec.name) = none := by
    intro other _ _ hne
    rw [Table.get_eq_none_iff]
    intro index hindex hkey
    refine hne (VirtualPath.ext_components (congrArg components ?_))
    exact (congrArg Prod.fst hkey).symm.trans (hdeclared index hindex)
  have hunique : ∀ versioned versioned', Matches state runsPath timeSpec .all versioned →
      Matches state runsPath timeSpec .all versioned' →
      (timePage .ascending).positionOf versioned = (timePage .ascending).positionOf versioned' →
      versioned = versioned' := by
    intro versioned versioned' h h' _
    have hget := h.stored
    rw [(hone h).trans (hone h').symm, h'.stored] at hget
    exact (Option.some.inj hget).symm
  have hdeclare : State.new.ensureIndex projectPath timeSpec = .ok declaredRuns := rfl
  have hfits : orderedQueryPrefixValues timeSpec .all (timePage .ascending) = some [] := by
    decide +kernel
  exact query_ordered_pages (.inl rfl) (by decide) (by decide) hdeclare
    [.put runPath (runEntry (.i64 1)) .any] ⟨trivial, trivial⟩ (by decide +kernel) hnearest hfits
    (by decide) rfl hunique fun h => absurd h (by decide)

end Ironclaw.Filesystem
