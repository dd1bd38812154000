import Ironclaw.Lib.PageLoops
import Ironclaw.Processes.Rows

/-! # Queries for dependencies

`query_process_dependencies` of `journal_store.rs` and the reads of `rows.rs` under it. Without a
cursor and a limit the query drains the index of the scope, filters and sorts. With a limit it pages
an index in canonical order and filters each page, or, where states are asked for, reads one index
prefix for each state and merges these. An index is its rows in the order of its sort key and tie
breaker; a page starts strictly after a cursor of these two. Rows that agree in both stand in the
order of the table, which may be any.

The pages of the bounded query, put together, are the filtered records; the unbounded query is not,
because two edges to one dependency that were created in the same microsecond have the same place in
the index of a scope, and the drain passes over the second where a full page ends with the first. -/

namespace Ironclaw.Processes

structure ProcessDependencyQuery where
  scope : ResourceScope
  dependentProcessId : Option ProcessId
  groupRef : Option String
  allowedStates : Option (List ProcessDependencyState)
  includeClosed : Bool
  after : Option (ProcessId × ProcessId)
  limit : Option ℕ

/-! ### Indexes -/

/-- Place of an edge in canonical order. -/
def edgePosition (edge : ProcessId × ProcessId) : ℕ ×ₗ ℕ :=
  toLex (edge.1.asUuid.toNat, edge.2.asUuid.toNat)

namespace ProcessDependencyRecord

/-- Place in `process_dependency_canonical_v1` and `process_dependency_state_v1`. -/
def canonicalPosition (record : ProcessDependencyRecord) : ℕ ×ₗ ℕ := edgePosition record.edge

/-- Place in `process_dependency_scope_v3` and `process_dependency_dependent_v3`. -/
def createdPosition (record : ProcessDependencyRecord) : ℤ ×ₗ ℕ :=
  toLex (timestampMicros record.createdAt, record.dependencyProcessId.asUuid.toNat)

end ProcessDependencyRecord

open ProcessDependencyRecord

/-- The record is in the scope of the query, and of its dependent where it names one. -/
def ProcessDependencyQuery.selects (request : ProcessDependencyQuery)
    (record : ProcessDependencyRecord) : Bool :=
  sameLineageScope request.scope record.scope &&
    request.dependentProcessId.all (record.dependentProcessId = ·)

/-- The rows of the scope in the order that the drain reads them. -/
def createdIndex (rows : List ProcessDependencyRecord) (request : ProcessDependencyQuery) :
    List ProcessDependencyRecord :=
  sortedBy createdPosition (rows.filter request.selects)

def dependenciesForScope (rows : List ProcessDependencyRecord) (request : ProcessDependencyQuery) :
    List ProcessDependencyRecord :=
  let index := createdIndex rows request
  drainPages createdPosition pageMaxLimit index (index.length + 1) none

/-- Rows of one page of a bounded query: four times the limit, as a `u32`. -/
def boundedPageLimit (limit : ℕ) : ℕ := max 1 (min (min (limit * 4) 4294967295) pageMaxLimit)

def dependenciesForScopeCanonicalOrder (rows : List ProcessDependencyRecord)
    (request : ProcessDependencyQuery) (limit : ℕ) : List ProcessDependencyRecord :=
  if limit = 0 then []
  else
    let index := sortedBy canonicalPosition
      (rows.filter fun record => sameLineageScope request.scope record.scope)
    let keep := fun record : ProcessDependencyRecord =>
      request.dependentProcessId.all (record.dependentProcessId = ·) &&
        request.groupRef.all (record.groupRef = some ·) &&
        (request.includeClosed || !record.state.isClosed)
    filterPages canonicalPosition keep limit (boundedPageLimit limit) index (index.length + 1)
      (request.after.map edgePosition) []

/-- The records of one allowed state, as many as one page of the result may need. -/
def stateStream (rows : List ProcessDependencyRecord) (request : ProcessDependencyQuery)
    (groupRef : String) (limit : ℕ) (state : ProcessDependencyState) : List ProcessDependencyRecord :=
  let index := sortedBy canonicalPosition (rows.filter fun record =>
    sameLineageScope request.scope record.scope && (record.groupRef = some groupRef) &&
      (record.state = state))
  let keep := fun record : ProcessDependencyRecord =>
    request.dependentProcessId.all (record.dependentProcessId = ·) &&
      (request.includeClosed || !record.state.isClosed)
  streamPages canonicalPosition keep limit (boundedPageLimit limit) index (index.length + 1)
    (request.after.map edgePosition) []

def dependenciesForScopeAllowedStates (rows : List ProcessDependencyRecord)
    (request : ProcessDependencyQuery) (groupRef : String) (allowedStates : List ProcessDependencyState)
    (limit : ℕ) : List ProcessDependencyRecord :=
  if limit = 0 ∨ allowedStates = [] then []
  else (sortedBy canonicalPosition
    (allowedStates.flatMap (stateStream rows request groupRef limit))).take limit

/-! ### The query -/

/-- Each state once, where it stands first. -/
def deduplicated (states : List ProcessDependencyState) : List ProcessDependencyState :=
  states.foldl (fun seen state => if state ∈ seen then seen else seen ++ [state]) []

def ProcessDependencyQuery.keeps (request : ProcessDependencyQuery)
    (record : ProcessDependencyRecord) : Bool :=
  request.groupRef.all (record.groupRef = some ·) &&
    (request.allowedStates.map deduplicated).all (record.state ∈ ·) &&
    (request.includeClosed || !record.state.isClosed)

def u32Max : ℕ := 4294967295

def statesNeedGroup : ProcessJournalStoreError :=
  .invalidRequest "dependency queries with allowed_states require group_ref"

def queryProcessDependencies (rows : List ProcessDependencyRecord) (request : ProcessDependencyQuery) :
    Except ProcessJournalStoreError (List ProcessDependencyRecord) :=
  if request.after.isSome ∧ request.limit.isNone then
    .error (.invalidRequest "dependency query with an after cursor requires a finite limit")
  else if request.allowedStates.isSome ∧ request.groupRef.isNone then .error statesNeedGroup
  else if request.after.isNone ∧ request.limit.isNone then
    .ok (sortedBy canonicalPosition ((dependenciesForScope rows request).filter request.keeps))
  else
    match request.allowedStates.map deduplicated, request.groupRef with
    | some _, none => .error statesNeedGroup
    | some states, some groupRef =>
      .ok (dependenciesForScopeAllowedStates rows request groupRef states (request.limit.getD u32Max))
    | none, _ => .ok (dependenciesForScopeCanonicalOrder rows request (request.limit.getD u32Max))

/-- One bounded query after another, each after the last record of the one before, up to an empty
page. -/
def followDependencyPages (rows : List ProcessDependencyRecord) (request : ProcessDependencyQuery)
    (limit : ℕ) : ℕ → Option (ProcessId × ProcessId) →
      Except ProcessJournalStoreError (List ProcessDependencyRecord)
  | 0, _ => .ok []
  | fuel + 1, after =>
    match queryProcessDependencies rows { request with after := after, limit := some limit } with
    | .error e => .error e
    | .ok page =>
      match page.getLast? with
      | none => .ok page
      | some last =>
        (followDependencyPages rows request limit fuel (some last.edge)).map (page ++ ·)

def boundedPages (rows : List ProcessDependencyRecord) (request : ProcessDependencyQuery) (limit : ℕ) :
    Except ProcessJournalStoreError (List ProcessDependencyRecord) :=
  followDependencyPages rows request limit (rows.length + 1) none

/-! ### Indexes of different records -/

section indexes

variable {rows : List ProcessDependencyRecord} {request : ProcessDependencyQuery}

theorem edgePosition_injective : Function.Injective edgePosition := by
  rintro ⟨⟨a⟩, ⟨b⟩⟩ ⟨⟨c⟩, ⟨d⟩⟩ h
  obtain ⟨hfirst, hsecond⟩ := Prod.mk.inj (toLex.injective h)
  cases BitVec.eq_of_toNat_eq hfirst
  cases BitVec.eq_of_toNat_eq hsecond
  rfl

/-- Records of different edges have different places in canonical order. -/
theorem canonical_ne (hedges : (rows.map edge).Nodup) :
    rows.Pairwise fun a b => canonicalPosition a ≠ canonicalPosition b := by
  have hpair : rows.Pairwise fun a b => a.edge ≠ b.edge := List.pairwise_map.1 hedges
  exact hpair.imp fun hne heq => hne (edgePosition_injective heq)

theorem canonical_sorted (hedges : (rows.map edge).Nodup) (p : ProcessDependencyRecord → Bool) :
    (sortedBy canonicalPosition (rows.filter p)).Pairwise (canonicalPosition · < canonicalPosition ·) :=
  sortedBy_lt ((canonical_ne hedges).sublist List.filter_sublist)

theorem boundedPageLimit_pos (limit : ℕ) : 0 < boundedPageLimit limit :=
  Nat.lt_of_lt_of_le Nat.one_pos (le_max_left _ _)

/-- The records that a query asks for, in canonical order. -/
def filtered (rows : List ProcessDependencyRecord) (request : ProcessDependencyQuery) :
    List ProcessDependencyRecord :=
  sortedBy canonicalPosition (rows.filter fun record => request.selects record && request.keeps record)

theorem filtered_sorted (hedges : (rows.map edge).Nodup) :
    (filtered rows request).Pairwise (canonicalPosition · < canonicalPosition ·) :=
  canonical_sorted hedges _

/-- What remains of a sorted list, filtered, is what remains of the filtered rows, sorted. -/
theorem filter_remaining_sorted (hedges : (rows.map edge).Nodup) (p q : ProcessDependencyRecord → Bool)
    (after : Option (ℕ ×ₗ ℕ)) :
    (remaining canonicalPosition (sortedBy canonicalPosition (rows.filter p)) after).filter q =
      remaining canonicalPosition
        (sortedBy canonicalPosition (rows.filter fun record => p record && q record)) after := by
  have hcomm : (remaining canonicalPosition (sortedBy canonicalPosition (rows.filter p)) after).filter q =
      remaining canonicalPosition ((sortedBy canonicalPosition (rows.filter p)).filter q) after := by
    unfold remaining
    rw [List.filter_comm]
  rw [hcomm]
  congr 1
  refine eq_of_perm_of_sorted ((canonical_sorted hedges p).sublist List.filter_sublist)
    (canonical_sorted hedges _) ?_
  refine ((sortedBy_perm (rows.filter p)).filter q).trans ?_
  rw [List.filter_filter]
  have hcomm : rows.filter (fun record => q record && p record) =
      rows.filter fun record => p record && q record :=
    List.filter_congr fun record _ => Bool.and_comm _ _
  rw [hcomm]
  exact (sortedBy_perm _).symm

end indexes

/-! ### The bounded query -/

section bounded

variable {rows : List ProcessDependencyRecord} {request : ProcessDependencyQuery} {limit : ℕ}
  {after : Option (ProcessId × ProcessId)}

/-- The query that is refused whatever is stored. -/
def ProcessDependencyQuery.Refused (request : ProcessDependencyQuery) : Prop :=
  request.allowedStates.isSome ∧ request.groupRef.isNone

theorem canonicalOrder_eq (hedges : (rows.map edge).Nodup) (hlimit : limit ≠ 0)
    (hstates : request.allowedStates = none) :
    dependenciesForScopeCanonicalOrder rows request limit =
      pageAfter canonicalPosition limit (filtered rows request) (request.after.map edgePosition) := by
  unfold dependenciesForScopeCanonicalOrder
  rw [if_neg hlimit]
  dsimp only
  have hfuel := Nat.lt_succ_of_le (remaining_length_le (request.after.map edgePosition) :
    (remaining canonicalPosition (sortedBy canonicalPosition
      (rows.filter fun record => sameLineageScope request.scope record.scope)) _).length ≤ _)
  rw [filterPages_eq (canonical_sorted hedges _) (boundedPageLimit_pos limit)
    (Nat.pos_of_ne_zero hlimit) hfuel, List.nil_append, filter_remaining_sorted hedges]
  have hsame : (fun record : ProcessDependencyRecord => sameLineageScope request.scope record.scope &&
      (request.dependentProcessId.all (record.dependentProcessId = ·) &&
        request.groupRef.all (record.groupRef = some ·) &&
        (request.includeClosed || !record.state.isClosed))) =
      fun record => request.selects record && request.keeps record := by
    funext record
    simp only [ProcessDependencyQuery.selects, ProcessDependencyQuery.keeps, hstates, Option.map_none,
      Option.all_none, Bool.and_true, Bool.and_assoc]
  rw [hsame]
  rfl

theorem deduplicated_spec (states : List ProcessDependencyState) :
    (deduplicated states).Nodup ∧ ∀ state, state ∈ deduplicated states ↔ state ∈ states := by
  have general : ∀ (states seen : List ProcessDependencyState), seen.Nodup →
      (states.foldl (fun seen state => if state ∈ seen then seen else seen ++ [state]) seen).Nodup ∧
        ∀ state, state ∈ states.foldl
          (fun seen state => if state ∈ seen then seen else seen ++ [state]) seen ↔
            state ∈ seen ∨ state ∈ states := by
    intro states
    induction states with
    | nil => exact fun seen hseen => ⟨hseen, fun state => by simp⟩
    | cons first rest ih =>
      intro seen hseen
      rw [List.foldl_cons]
      by_cases hmem : first ∈ seen
      · rw [if_pos hmem]
        refine ⟨(ih seen hseen).1, fun state => ?_⟩
        rw [(ih seen hseen).2, List.mem_cons]
        constructor
        · rintro (h | h)
          · exact .inl h
          · exact .inr (.inr h)
        · rintro (h | rfl | h)
          · exact .inl h
          · exact .inl hmem
          · exact .inr h
      · rw [if_neg hmem]
        have hnodup : (seen ++ [first]).Nodup :=
          hseen.append (List.nodup_singleton _) fun state hs hlast =>
            hmem (List.mem_singleton.1 hlast ▸ hs)
        refine ⟨(ih _ hnodup).1, fun state => ?_⟩
        rw [(ih _ hnodup).2, List.mem_append, List.mem_singleton, List.mem_cons, or_assoc]
  obtain ⟨hnodup, hmem⟩ := general states [] List.nodup_nil
  refine ⟨hnodup, fun state => (hmem state).trans ?_⟩
  simp only [List.not_mem_nil, false_or]

/-- The records of one state after the cursor, in canonical order. -/
def stateRecords (rows : List ProcessDependencyRecord) (request : ProcessDependencyQuery)
    (groupRef : String) (state : ProcessDependencyState) : List ProcessDependencyRecord :=
  remaining canonicalPosition (sortedBy canonicalPosition (rows.filter fun record =>
    (sameLineageScope request.scope record.scope && (record.groupRef = some groupRef) &&
      (record.state = state)) &&
    (request.dependentProcessId.all (record.dependentProcessId = ·) &&
      (request.includeClosed || !record.state.isClosed)))) (request.after.map edgePosition)

theorem stateStream_cut (hedges : (rows.map edge).Nodup) (groupRef : String)
    (state : ProcessDependencyState) :
    stateStream rows request groupRef limit state <+: stateRecords rows request groupRef state ∧
      (stateStream rows request groupRef limit state = stateRecords rows request groupRef state ∨
        limit ≤ (stateStream rows request groupRef limit state).length) := by
  unfold stateStream stateRecords
  dsimp only
  rw [← filter_remaining_sorted hedges]
  obtain ⟨read, hread, heq, hdone⟩ := streamPages_eq (canonical_sorted hedges _)
    (boundedPageLimit_pos limit) [] (Nat.lt_succ_of_le (remaining_length_le _))
  rw [heq]
  exact ⟨hread, hdone⟩

/-- The records of the allowed states together are those that the query asks for. -/
theorem stateRecords_perm {states : List ProcessDependencyState} {groupRef : String}
    (hstates : request.allowedStates = some states) (hgroup : request.groupRef = some groupRef) :
    ((deduplicated states).flatMap (stateRecords rows request groupRef)).Perm
      (remaining canonicalPosition (filtered rows request) (request.after.map edgePosition)) := by
  let late := fun record : ProcessDependencyRecord =>
    (request.after.map edgePosition).all fun cursor => cursor < canonicalPosition record
  let common := rows.filter fun record => sameLineageScope request.scope record.scope &&
    (record.groupRef = some groupRef) && request.dependentProcessId.all (record.dependentProcessId = ·) &&
    (request.includeClosed || !record.state.isClosed) && late record
  have hstate : ∀ state, (stateRecords rows request groupRef state).Perm
      (common.filter fun record => record.state = state) := by
    intro state
    refine ((sortedBy_perm _).filter late).trans (.of_eq ?_)
    simp only [common, List.filter_filter]
    refine List.filter_congr fun record _ => ?_
    simp only [Bool.and_assoc, Bool.and_comm, Bool.and_left_comm]
  refine (List.Perm.flatMap_left _ fun state _ => hstate state).trans ?_
  refine (flatMap_filter_perm ProcessDependencyRecord.state (deduplicated_spec states).1 common).trans ?_
  refine .trans (.of_eq ?_) ((sortedBy_perm _).filter late).symm
  simp only [common, List.filter_filter]
  refine List.filter_congr fun record _ => ?_
  simp only [ProcessDependencyQuery.selects, ProcessDependencyQuery.keeps, hstates, hgroup,
    Option.map_some, Option.all_some, Bool.and_assoc, Bool.and_comm, Bool.and_left_comm]

theorem allowedStates_eq (hedges : (rows.map edge).Nodup) (hlimit : limit ≠ 0)
    {states : List ProcessDependencyState} {groupRef : String}
    (hstates : request.allowedStates = some states) (hgroup : request.groupRef = some groupRef) :
    dependenciesForScopeAllowedStates rows request groupRef (deduplicated states) limit =
      pageAfter canonicalPosition limit (filtered rows request) (request.after.map edgePosition) := by
  have hmerged : dependenciesForScopeAllowedStates rows request groupRef (deduplicated states) limit =
      (sortedBy canonicalPosition
        ((deduplicated states).flatMap (stateStream rows request groupRef limit))).take limit := by
    unfold dependenciesForScopeAllowedStates
    split
    next hnone =>
      rw [hnone.resolve_left hlimit, List.flatMap_nil]
      simp [sortedBy]
    next => rfl
  have hperm : ((deduplicated states).flatMap (stateRecords rows request groupRef)).Perm
      (remaining canonicalPosition (filtered rows request) (request.after.map edgePosition)) :=
    stateRecords_perm hstates hgroup
  have hsorted : (remaining canonicalPosition (filtered rows request)
      (request.after.map edgePosition)).Pairwise (canonicalPosition · < canonicalPosition ·) :=
    (filtered_sorted hedges).sublist (remaining_sublist _)
  have hne : ((deduplicated states).flatMap (stateRecords rows request groupRef)).Pairwise
      fun a b => canonicalPosition a ≠ canonicalPosition b :=
    hperm.symm.pairwise (hsorted.imp fun h => h.ne) fun h => h.symm
  rw [hmerged, take_sortedBy_streams hne]
  · have hall : sortedBy canonicalPosition
        ((deduplicated states).flatMap (stateRecords rows request groupRef)) =
        remaining canonicalPosition (filtered rows request) (request.after.map edgePosition) :=
      eq_of_perm_of_sorted (sortedBy_lt hne) hsorted ((sortedBy_perm _).trans hperm)
    rw [hall]
    rfl
  · exact fun state _ => (canonical_sorted hedges _).sublist (remaining_sublist _)
  · exact fun state _ => (stateStream_cut hedges groupRef state).1
  · exact fun state _ => (stateStream_cut hedges groupRef state).2

/-- A bounded query that is not refused returns a page of the filtered records. -/
theorem boundedQuery_eq (hedges : (rows.map edge).Nodup) (hlimit : limit ≠ 0)
    (hbounded : request.limit = some limit) (hallowed : ¬ request.Refused) :
    queryProcessDependencies rows request =
      .ok (pageAfter canonicalPosition limit (filtered rows request) (request.after.map edgePosition)) := by
  have hopen : ¬ (request.allowedStates.isSome = true ∧ request.groupRef.isNone = true) := hallowed
  unfold queryProcessDependencies
  rw [if_neg (by simp [hbounded]), if_neg hopen, if_neg (by simp [hbounded])]
  cases hstates : request.allowedStates with
  | none =>
    rw [hbounded]
    exact congrArg Except.ok (canonicalOrder_eq hedges hlimit hstates)
  | some states =>
    cases hgroup : request.groupRef with
    | none => exact absurd ⟨by rw [hstates]; rfl, by rw [hgroup]; rfl⟩ hallowed
    | some groupRef =>
      rw [hbounded]
      exact congrArg Except.ok (allowedStates_eq hedges hlimit hstates hgroup)

theorem emptyQuery_eq (hbounded : request.limit = some 0) (hallowed : ¬ request.Refused) :
    queryProcessDependencies rows request = .ok [] := by
  have hopen : ¬ (request.allowedStates.isSome = true ∧ request.groupRef.isNone = true) := hallowed
  unfold queryProcessDependencies
  rw [if_neg (by simp [hbounded]), if_neg hopen, if_neg (by simp [hbounded])]
  cases hstates : request.allowedStates with
  | none =>
    rw [hbounded]
    rfl
  | some states =>
    cases hgroup : request.groupRef with
    | none => exact absurd ⟨by rw [hstates]; rfl, by rw [hgroup]; rfl⟩ hallowed
    | some groupRef =>
      rw [hbounded]
      exact congrArg Except.ok (if_pos (.inl rfl))

/-- The pages of a bounded query from a cursor on are those of the filtered records. -/
theorem followDependencyPages_eq (hedges : (rows.map edge).Nodup) (hlimit : limit ≠ 0)
    (hallowed : ¬ request.Refused) : ∀ (fuel : ℕ) (after : Option (ProcessId × ProcessId)),
    followDependencyPages rows request limit fuel after =
      .ok (followAll canonicalPosition limit (filtered rows request) fuel (after.map edgePosition))
  | 0, _ => rfl
  | fuel + 1, after => by
    have hpage : queryProcessDependencies rows { request with after := after, limit := some limit } =
        .ok (pageAfter canonicalPosition limit (filtered rows request) (after.map edgePosition)) :=
      boundedQuery_eq hedges hlimit rfl hallowed
    unfold followDependencyPages followAll
    rw [hpage]
    dsimp only
    cases (pageAfter canonicalPosition limit (filtered rows request) (after.map edgePosition)).getLast? with
    | none => rfl
    | some last =>
      dsimp only
      rw [followDependencyPages_eq hedges hlimit hallowed fuel]
      rfl

theorem boundedPages_eq (hedges : (rows.map edge).Nodup) (hlimit : limit ≠ 0)
    (hallowed : ¬ request.Refused) : boundedPages rows request limit = .ok (filtered rows request) := by
  unfold boundedPages
  rw [followDependencyPages_eq hedges hlimit hallowed, Option.map_none,
    followAll_eq (filtered_sorted hedges) (Nat.pos_of_ne_zero hlimit)]
  have hlength : (filtered rows request).length ≤ rows.length := by
    rw [filtered, (sortedBy_perm _).length_eq]
    exact List.length_filter_le _ _
  omega

end bounded

/-! ### The two queries -/

/-- The records of the scope that the drain passes over. -/
def tornDependencies (rows : List ProcessDependencyRecord) (request : ProcessDependencyQuery) :
    List ProcessDependencyRecord :=
  tornPages createdPosition pageMaxLimit (createdIndex rows request)
    ((createdIndex rows request).length + 1) none

section compare

variable {rows : List ProcessDependencyRecord} {request : ProcessDependencyQuery}

/-- The drain and what it passes over are the records of the scope. -/
theorem dependenciesForScope_append_torn :
    (dependenciesForScope rows request ++ tornDependencies rows request).Perm
      (rows.filter request.selects) := by
  have hall : remaining createdPosition (createdIndex rows request) none = createdIndex rows request :=
    List.filter_eq_self.2 fun _ _ => rfl
  have hlimit : 0 < pageMaxLimit := by decide
  have hfuel : (remaining createdPosition (createdIndex rows request) none).length <
      (createdIndex rows request).length + 1 := by
    rw [hall]
    exact Nat.lt_succ_self _
  have hdrain : (dependenciesForScope rows request ++ tornDependencies rows request).Perm
      (remaining createdPosition (createdIndex rows request) none) :=
    drainPages_append_torn (sortedBy_le (rows.filter request.selects)) hlimit hfuel
  rw [hall] at hdrain
  exact hdrain.trans (sortedBy_perm _)

theorem mem_drain_or_torn {record : ProcessDependencyRecord} (hrow : record ∈ rows)
    (hselects : request.selects record) :
    record ∈ dependenciesForScope rows request ∨ record ∈ tornDependencies rows request :=
  List.mem_append.1 (dependenciesForScope_append_torn.mem_iff.2 (List.mem_filter.2 ⟨hrow, hselects⟩))

/-- No record is read and passed over. -/
theorem drained_not_torn (hedges : (rows.map edge).Nodup) {record : ProcessDependencyRecord}
    (hread : record ∈ dependenciesForScope rows request) :
    record ∈ rows ∧ request.selects record ∧ record ∉ tornDependencies rows request := by
  have hall : (dependenciesForScope rows request ++ tornDependencies rows request).Perm
      (rows.filter request.selects) := dependenciesForScope_append_torn
  have hnodup : (dependenciesForScope rows request ++ tornDependencies rows request).Nodup :=
    hall.nodup_iff.2 (hedges.of_map.filter _)
  obtain ⟨hrow, hselects⟩ := List.mem_filter.1 (hall.mem_iff.1 (List.mem_append_left _ hread))
  exact ⟨hrow, hselects, fun htorn => List.disjoint_of_nodup_append hnodup hread htorn⟩

theorem unboundedQuery_eq (hallowed : ¬ request.Refused) :
    queryProcessDependencies rows { request with after := none, limit := none } =
      .ok (sortedBy canonicalPosition ((dependenciesForScope rows request).filter request.keeps)) := by
  unfold queryProcessDependencies
  rw [if_neg (by simp)]
  exact (if_neg hallowed).trans (if_pos ⟨rfl, rfl⟩)

/-- The unbounded query misses exactly the records that the drain passes over. -/
theorem filtered_eq_unbounded_iff (hedges : (rows.map edge).Nodup) :
    filtered rows request =
        sortedBy canonicalPosition ((dependenciesForScope rows request).filter request.keeps) ↔
      ∀ record ∈ tornDependencies rows request, request.keeps record = false := by
  have hsplit : (rows.filter fun record => request.selects record && request.keeps record).Perm
      ((dependenciesForScope rows request).filter request.keeps ++
        (tornDependencies rows request).filter request.keeps) := by
    have hread : (dependenciesForScope rows request ++ tornDependencies rows request).Perm
        (rows.filter request.selects) := dependenciesForScope_append_torn
    have hkept := hread.filter request.keeps
    rw [List.filter_append, List.filter_filter] at hkept
    refine (List.Perm.of_eq (List.filter_congr fun record _ => ?_)).trans hkept.symm
    exact Bool.and_comm _ _
  constructor
  · intro heq
    have hlength := congrArg List.length heq
    rw [filtered, (sortedBy_perm _).length_eq, (sortedBy_perm _).length_eq, hsplit.length_eq,
      List.length_append] at hlength
    have hnil : (tornDependencies rows request).filter request.keeps = [] :=
      List.eq_nil_of_length_eq_zero (by omega)
    exact fun record hrecord => Bool.eq_false_iff.2 (List.filter_eq_nil_iff.1 hnil record hrecord)
  · intro hnone
    have hnil : (tornDependencies rows request).filter request.keeps = [] :=
      List.filter_eq_nil_iff.2 fun record hrecord => by simp [hnone record hrecord]
    rw [hnil, List.append_nil] at hsplit
    have hne : ((dependenciesForScope rows request).filter request.keeps).Pairwise
        fun a b => canonicalPosition a ≠ canonicalPosition b :=
      hsplit.pairwise ((canonical_ne hedges).sublist List.filter_sublist) fun h => h.symm
    exact eq_of_perm_of_sorted (filtered_sorted hedges) (sortedBy_lt hne)
      ((sortedBy_perm _).trans (hsplit.trans (sortedBy_perm _).symm))

end compare

/-- The pages of the bounded query are the unbounded query exactly where that is refused, or nothing
that the drain passes over matches; pages of no records are it exactly where the drain passes over
all that matches. -/
theorem bounded_pages_agree_iff (dependencies : Table ProcessDependencyRecord.edge)
    (request : ProcessDependencyQuery) (limit : ℕ) :
    boundedPages dependencies.rows request limit =
        queryProcessDependencies dependencies.rows { request with after := none, limit := none } ↔
      request.Refused ∨
        if limit = 0 then
          ∀ record ∈ dependencies.rows, request.selects record → request.keeps record →
            record ∈ tornDependencies dependencies.rows request
        else ∀ record ∈ tornDependencies dependencies.rows request, request.keeps record = false := by
  by_cases hrefused : request.Refused
  · have hpages : boundedPages dependencies.rows request limit = .error statesNeedGroup := by
      have hquery : queryProcessDependencies dependencies.rows
          { request with after := none, limit := some limit } = .error statesNeedGroup := by
        unfold queryProcessDependencies
        rw [if_neg (by simp)]
        exact if_pos hrefused
      unfold boundedPages followDependencyPages
      rw [hquery]
    have hquery : queryProcessDependencies dependencies.rows
        { request with after := none, limit := none } = .error statesNeedGroup := by
      unfold queryProcessDependencies
      rw [if_neg (by simp)]
      exact if_pos hrefused
    rw [hpages, hquery]
    exact ⟨fun _ => .inl hrefused, fun _ => rfl⟩
  · rw [unboundedQuery_eq hrefused, or_iff_right hrefused]
    by_cases hlimit : limit = 0
    · subst hlimit
      have hpages : boundedPages dependencies.rows request 0 = .ok [] := by
        have hquery : queryProcessDependencies dependencies.rows
            { request with after := none, limit := some 0 } = .ok [] := emptyQuery_eq rfl hrefused
        unfold boundedPages followDependencyPages
        rw [hquery]
        rfl
      rw [hpages, if_pos rfl]
      constructor
      · intro heq record hrow hselects hkeeps
        have hempty := Except.ok.inj heq
        rcases mem_drain_or_torn hrow hselects with hrecord | htorn
        swap
        · exact htorn
        have hmem : record ∈ sortedBy canonicalPosition
            ((dependenciesForScope dependencies.rows request).filter request.keeps) :=
          mem_sortedBy.2 (List.mem_filter.2 ⟨hrecord, hkeeps⟩)
        rw [← hempty] at hmem
        exact absurd hmem List.not_mem_nil
      · intro hall
        have hnil : (dependenciesForScope dependencies.rows request).filter request.keeps = [] := by
          refine List.filter_eq_nil_iff.2 fun record hrecord hkeeps => ?_
          obtain ⟨hrow, hselects, hread⟩ := drained_not_torn dependencies.nodup hrecord
          exact hread (hall record hrow hselects hkeeps)
        rw [hnil]
        simp [sortedBy]
    · rw [boundedPages_eq dependencies.nodup hlimit hrefused, if_neg hlimit, Except.ok.injEq]
      exact filtered_eq_unbounded_iff dependencies.nodup

/-! ### Many dependents of one dependency -/

/-- One of the dependents of one process, all created together. -/
def tiedDependency (n : ℕ) : ProcessDependencyRecord where
  dependentProcessId := ⟨BitVec.ofNat 128 n⟩
  dependencyProcessId := ⟨0⟩
  rootProcessId := ⟨0⟩
  scope := ⟨⟨"tenant"⟩, ⟨"user"⟩, none, none, none, none, ⟨0⟩⟩
  groupRef := none
  state := .open
  terminal := none
  createdAt := 0
  settledAt := none
  consumedAt := none
  transitionedAt := none
  metadata := .null

/-- One dependent more than a page of the drain has rows. -/
def tiedDependencies : Table ProcessDependencyRecord.edge where
  rows := (List.range (pageMaxLimit + 1)).map tiedDependency
  nodup := by
    rw [List.map_map]
    refine List.Nodup.map_on (fun a ha b hb hsame => ?_) List.nodup_range
    have hid : BitVec.ofNat 128 a = BitVec.ofNat 128 b :=
      congrArg (fun e : ProcessId × ProcessId => e.1.asUuid) hsame
    have hnat := congrArg BitVec.toNat hid
    rw [BitVec.toNat_ofNat, BitVec.toNat_ofNat] at hnat
    rw [List.mem_range, pageMaxLimit] at ha hb
    rwa [Nat.mod_eq_of_lt (by omega), Nat.mod_eq_of_lt (by omega)] at hnat

/-- Every dependency of the scope. -/
def wholeScope : ProcessDependencyQuery where
  scope := ⟨⟨"tenant"⟩, ⟨"user"⟩, none, none, none, none, ⟨0⟩⟩
  dependentProcessId := none
  groupRef := none
  allowedStates := none
  includeClosed := true
  after := none
  limit := none

/-- The last of the dependents is in a page of the bounded query and not in the unbounded one. -/
theorem tied_dependency_skipped :
    boundedPages tiedDependencies.rows wholeScope 100 ≠
      queryProcessDependencies tiedDependencies.rows { wholeScope with after := none, limit := none } := by
  have hallowed : ¬ wholeScope.Refused := by
    rintro ⟨hstates, -⟩
    cases hstates
  rw [boundedPages_eq tiedDependencies.nodup (by decide) hallowed, unboundedQuery_eq hallowed, Ne,
    Except.ok.injEq, filtered_eq_unbounded_iff tiedDependencies.nodup]
  intro hnone
  have hrows : tiedDependencies.rows = (List.range (pageMaxLimit + 1)).map tiedDependency := by
    rw [tiedDependencies]
  have hselected : ∀ record ∈ tiedDependencies.rows, wholeScope.selects record = true := by
    intro record hrecord
    rw [hrows] at hrecord
    obtain ⟨n, -, rfl⟩ := List.mem_map.1 hrecord
    rfl
  have hlength : (createdIndex tiedDependencies.rows wholeScope).length = pageMaxLimit + 1 := by
    rw [createdIndex, (sortedBy_perm _).length_eq, List.filter_eq_self.2 hselected, hrows,
      List.length_map, List.length_range]
  have htied : ∀ record ∈ createdIndex tiedDependencies.rows wholeScope,
      record.createdPosition = toLex (0, 0) := by
    intro record hrecord
    have hrow := (List.mem_filter.1 (mem_sortedBy.1 hrecord)).1
    rw [hrows] at hrow
    obtain ⟨n, -, rfl⟩ := List.mem_map.1 hrow
    rfl
  have htorn := tornPages_of_tied htied (by decide : 0 < pageMaxLimit) (by omega)
    (createdIndex tiedDependencies.rows wholeScope).length
  obtain ⟨record, hrecord⟩ := htorn
  have hkeeps : wholeScope.keeps record = true := by
    simp [ProcessDependencyQuery.keeps, wholeScope]
  rw [hnone record hrecord] at hkeeps
  cases hkeeps

end Ironclaw.Processes
