import Ironclaw.Events.Streams

/-! # What appends leave behind

Whatever mixture of single and batched appends the log went through, and whatever the backend
refused on the way, each path holds the accepted events of its stream, serialized, in the order in
which they were given (`Stores`), numbered as the backend numbers. -/

namespace Ironclaw.Events

open Ironclaw.Filesystem

/-! ### Tables -/

/-- The sequence numbers of a table: from one on for every path, or increasing over all rows. -/
structure Numbered (backend : EventBackend) (table : EventTable) : Prop where
  positive : ∀ row ∈ table, 0 < row.2.seq
  own : backend = .inMemory → ∀ path, (table.recordsAt path).map (·.seq) =
    List.range' 1 (table.recordsAt path).length
  shared : backend ≠ .inMemory → table.Pairwise fun a b => a.2.seq < b.2.seq

namespace EventTable

variable {backend : EventBackend} {table : EventTable} {path : VirtualPath}

theorem recordsAt_append (other : EventTable) (path : VirtualPath) :
    recordsAt (table ++ other) path = table.recordsAt path ++ recordsAt other path := by
  rw [recordsAt, recordsAt, recordsAt, List.filter_append, List.map_append]

theorem recordsAt_singleton (path other : VirtualPath) (record : EventRecord) :
    recordsAt [(path, record)] other = if path = other then [record] else [] := by
  rw [recordsAt, List.filter_singleton]
  split <;> simp_all

theorem mem_recordsAt {record : EventRecord} : record ∈ table.recordsAt path ↔
    (path, record) ∈ table := by
  rw [recordsAt, List.mem_map]
  constructor
  · rintro ⟨⟨other, _⟩, hrow, rfl⟩
    obtain ⟨hmem, hpath⟩ := List.mem_filter.1 hrow
    rwa [← of_decide_eq_true hpath]
  · intro h
    exact ⟨(path, record), List.mem_filter.2 ⟨h, decide_eq_true rfl⟩, rfl⟩

end EventTable

namespace Numbered

variable {backend : EventBackend} {table : EventTable}

theorem nil : Numbered backend [] where
  positive := List.forall_mem_nil _
  own := fun _ _ => rfl
  shared := fun _ => .nil

theorem sorted (h : Numbered backend table) (path : VirtualPath) :
    (table.recordsAt path).Pairwise fun a b => a.seq < b.seq := by
  rw [← List.pairwise_map]
  by_cases hown : backend = .inMemory
  · rw [h.own hown path]
    exact List.pairwise_lt_range'
  · rw [EventTable.recordsAt, List.map_map, List.pairwise_map]
    exact (h.shared hown).filter _

theorem positive_at (h : Numbered backend table) {path : VirtualPath} {record : EventRecord}
    (hrecord : record ∈ table.recordsAt path) : 0 < record.seq :=
  h.positive (path, record) (EventTable.mem_recordsAt.1 hrecord)

theorem nextSeq_own (h : Numbered .inMemory table) (path : VirtualPath) :
    table.nextSeq .inMemory path = (table.recordsAt path).length + 1 := by
  have hseqs := h.own rfl path
  rw [EventTable.nextSeq]
  rcases List.eq_nil_or_concat (table.recordsAt path) with hnil | ⟨init, last, hlast⟩
  · rw [hnil]
    rfl
  · rw [hlast, List.concat_eq_append] at hseqs ⊢
    rw [List.map_append, List.length_append, List.length_singleton, List.range'_concat] at hseqs
    have hseq : last.seq = 1 + init.length := by
      have hend := (List.append_inj' hseqs rfl).2
      simpa using hend
    rw [List.getLast?_append, List.getLast?_singleton, List.length_append, List.length_singleton]
    simp only [Option.some_or, Option.map_some, Option.getD_some, hseq]
    omega

theorem lt_nextSeq_shared (h : Numbered backend table) (hshared : backend ≠ .inMemory)
    (path : VirtualPath) : ∀ row ∈ table, row.2.seq < table.nextSeq backend path := by
  have hnext : table.nextSeq backend path = (table.getLast?.map (·.2.seq + 1)).getD 1 := by
    cases backend with
    | inMemory => exact absurd rfl hshared
    | libSql => rfl
    | postgres => rfl
  intro row hrow
  rw [hnext]
  rcases List.eq_nil_or_concat table with rfl | ⟨init, last, rfl⟩
  · exact absurd hrow List.not_mem_nil
  · rw [List.concat_eq_append] at hrow ⊢
    rw [List.getLast?_append, List.getLast?_singleton]
    simp only [Option.some_or, Option.map_some, Option.getD_some]
    rcases List.mem_append.1 hrow with hinit | hlast
    · have hsorted := h.shared hshared
      rw [List.concat_eq_append] at hsorted
      exact Nat.lt_succ_of_lt
        ((List.pairwise_append.1 hsorted).2.2 row hinit last (List.mem_singleton.2 rfl))
    · rw [List.mem_singleton.1 hlast]
      exact Nat.lt_succ_self _

theorem append (h : Numbered backend table) (path : VirtualPath) (payload : RuntimeEventWire) :
    Numbered backend (table.append backend path payload).1 where
  positive := by
    refine List.forall_mem_append.2 ⟨h.positive, fun row hrow => ?_⟩
    rw [List.mem_singleton.1 hrow]
    cases backend with
    | inMemory =>
      dsimp only
      rw [h.nextSeq_own]
      exact Nat.succ_pos _
    | libSql | postgres =>
      dsimp only [EventTable.nextSeq]
      cases table.getLast? with
      | none => exact Nat.one_pos
      | some last => exact Nat.succ_pos _
  own := by
    rintro rfl other
    rw [EventTable.append]
    dsimp only
    rw [EventTable.recordsAt_append, EventTable.recordsAt_singleton]
    split
    · rename_i heq
      subst heq
      rw [List.map_append, List.length_append, h.own rfl, h.nextSeq_own, List.length_singleton,
        List.range'_concat, List.map_singleton, Nat.one_mul, Nat.add_comm 1]
    · rw [List.append_nil, h.own rfl]
  shared := by
    intro hshared
    refine List.pairwise_append.2 ⟨h.shared hshared, List.pairwise_singleton _ _, ?_⟩
    intro row hrow other hother
    rw [List.mem_singleton.1 hother]
    exact h.lt_nextSeq_shared hshared path row hrow

theorem appendBatch (path : VirtualPath) : ∀ (payloads : List RuntimeEventWire)
    {table : EventTable}, Numbered backend table →
      Numbered backend (table.appendBatch backend path payloads).1
  | [], _, h => h
  | payload :: rest, _, h => appendBatch path rest (h.append path payload)

end Numbered

theorem recordsAt_appendBatch (backend : EventBackend) (path other : VirtualPath) :
    ∀ (payloads : List RuntimeEventWire) (table : EventTable),
      ((table.appendBatch backend path payloads).1.recordsAt other).map (·.payload) =
        (table.recordsAt other).map (·.payload) ++ if path = other then payloads else []
  | [], table => by rw [ite_self, List.append_nil]; rfl
  | payload :: rest, table => by
    have hrest := recordsAt_appendBatch backend path other rest
      (table.append backend path payload).1
    refine hrest.trans ?_
    rw [EventTable.append]
    dsimp only
    rw [EventTable.recordsAt_append, EventTable.recordsAt_singleton, List.map_append,
      List.append_assoc]
    split <;> rfl

/-! ### Targets -/

def targetOf (event : RuntimeEvent) : Option VirtualPath :=
  keyTarget (EventStreamKey.fromScope event.scope)

/-- The event has a target, and the backend takes it there. -/
def accepted (faults : Faults) (event : RuntimeEvent) : Bool :=
  (targetOf event).any fun target => (faults target).isNone

theorem accepted_iff {faults : Faults} {event : RuntimeEvent} : accepted faults event = true ↔
    ∃ target, targetOf event = some target ∧ faults target = none := by
  rw [accepted, Option.any_eq_true]
  exact exists_congr fun target => and_congr_right fun _ => Option.isNone_iff_eq_none

namespace FilesystemDurableEventLog

variable {target : VirtualPath}

theorem resolveAppend_eq_ok {faults : Faults} {path : ScopedPath} :
    resolveAppend faults path = .ok target ↔
      resolveWithPermissionView eventsView path .append = .ok target ∧ faults target = none := by
  rw [resolveAppend]
  cases resolveWithPermissionView eventsView path .append with
  | error e => simp
  | ok found =>
    dsimp only
    cases hfault : faults found with
    | none =>
      rw [Except.ok.injEq, Except.ok.injEq]
      exact ⟨fun h => ⟨h, h ▸ hfault⟩, And.left⟩
    | some e =>
      simp only [reduceCtorEq, Except.ok.injEq, false_iff, not_and]
      rintro rfl hnone
      cases hfault.symm.trans hnone

variable {event : RuntimeEvent}

theorem targetOf_eq_some :
    targetOf event = some target ↔ ∃ path, eventPath event = .ok path ∧
      resolveWithPermissionView eventsView path .append = .ok target := by
  rw [targetOf, keyTarget, eventPath]
  cases streamPath .runtime (EventStreamKey.fromScope event.scope) with
  | error e => simp
  | ok path =>
    simp only [Except.ok.injEq, exists_eq_left']
    cases resolveWithPermissionView eventsView path .append <;> simp [Except.toOption]

/-! ### Groups -/

/-- The events of a batch with their places. -/
def enumerated : ℕ → List RuntimeEvent → List (ℕ × RuntimeEvent)
  | _, [] => []
  | index, event :: rest => (index, event) :: enumerated (index + 1) rest

theorem map_snd_enumerated : ∀ (index : ℕ) (events : List RuntimeEvent),
    (enumerated index events).map (·.2) = events
  | _, [] => rfl
  | index, _ :: rest => congrArg (List.cons _) (map_snd_enumerated (index + 1) rest)

theorem getElem?_of_mem_enumerated {events : List RuntimeEvent} {start index : ℕ}
    (h : (index, event) ∈ enumerated start events) :
    start ≤ index ∧ events[index - start]? = some event := by
  induction events generalizing start with
  | nil => exact absurd h List.not_mem_nil
  | cons first rest ih =>
    rcases List.mem_cons.1 h with heq | hrest
    · obtain ⟨rfl, rfl⟩ := Prod.mk.inj heq
      exact ⟨le_rfl, by rw [Nat.sub_self]; rfl⟩
    · obtain ⟨hle, hget⟩ := ih hrest
      refine ⟨by omega, ?_⟩
      rw [show index - start = index - (start + 1) + 1 by omega, List.getElem?_cons_succ, hget]

def goesTo (path : ScopedPath) (item : ℕ × RuntimeEvent) : Bool := eventPath item.2 == .ok path

/-- What gathering has done: each group holds the events of its path, in their order, and every
event with a path is in a group. -/
structure Gathered (done : List (ℕ × RuntimeEvent)) (groups : List BatchGroup)
    (results : ℕ → Option AppendResult) : Prop where
  items : ∀ group ∈ groups, group.items = done.filter (goesTo group.path)
  distinct : (groups.map (·.path)).Nodup
  covered : ∀ item ∈ done, ∀ path, eventPath item.2 = .ok path → ∃ group ∈ groups, group.path = path
  refused : ∀ index entry, results index ≠ some (.ok entry)

theorem goesTo_iff {path : ScopedPath} {item : ℕ × RuntimeEvent} :
    goesTo path item = true ↔ eventPath item.2 = .ok path := beq_iff_eq

namespace Gathered

variable {done : List (ℕ × RuntimeEvent)} {groups : List BatchGroup}
  {results : ℕ → Option AppendResult} {index : ℕ} {event : RuntimeEvent} {path : ScopedPath}

theorem init : Gathered [] [] fun _ => none where
  items := List.forall_mem_nil _
  distinct := .nil
  covered := List.forall_mem_nil _
  refused := fun _ _ h => by cases h

theorem filter_append_of_ne (hpath : eventPath event ≠ .ok path) :
    (done ++ [(index, event)]).filter (goesTo path) = done.filter (goesTo path) := by
  have hnothing : [(index, event)].filter (goesTo path) = [] := by
    refine List.filter_eq_nil_iff.2 fun item hitem hgoes => hpath ?_
    rw [← goesTo_iff.1 hgoes, List.mem_singleton.1 hitem]
  rw [List.filter_append, hnothing, List.append_nil]

theorem filter_append_of_eq (hpath : eventPath event = .ok path) :
    (done ++ [(index, event)]).filter (goesTo path) =
      done.filter (goesTo path) ++ [(index, event)] := by
  have hgoes : goesTo path (index, event) = true := by rw [goesTo_iff, hpath]
  have hall : [(index, event)].filter (goesTo path) = [(index, event)] :=
    List.filter_eq_self.2 fun item hitem => (List.mem_singleton.1 hitem) ▸ hgoes
  rw [List.filter_append, hall]

theorem add (h : Gathered done groups results) (hpath : eventPath event = .ok path) :
    Gathered (done ++ [(index, event)]) (addToGroup groups path (index, event)) results := by
  rw [addToGroup]
  split
  · rename_i hany
    obtain ⟨found, hfound, hsame⟩ := List.any_eq_true.1 hany
    refine ⟨?_, ?_, ?_, h.refused⟩
    · intro group hgroup
      obtain ⟨before, hbefore, rfl⟩ := List.mem_map.1 hgroup
      split
      · rename_i heq
        rw [heq, filter_append_of_eq hpath, ← heq, ← h.items before hbefore]
      · rename_i hne
        have hother : eventPath event ≠ .ok before.path := by
          rw [hpath]
          exact fun heq => hne (Except.ok.inj heq).symm
        rw [filter_append_of_ne hother, h.items before hbefore]
    · have hpaths : (groups.map fun group =>
          if group.path = path then { group with items := group.items ++ [(index, event)] }
          else group).map (·.path) = groups.map (·.path) := by
        rw [List.map_map]
        refine List.map_congr_left fun group _ => ?_
        rw [Function.comp_apply]
        split <;> rfl
      rw [hpaths]
      exact h.distinct
    · have hkept : ∀ group ∈ groups, ∃ after ∈ groups.map (fun group =>
          if group.path = path then { group with items := group.items ++ [(index, event)] }
          else group), after.path = group.path := by
        intro group hgroup
        refine ⟨_, List.mem_map.2 ⟨group, hgroup, rfl⟩, ?_⟩
        split <;> rfl
      intro item hitem other hother
      rcases List.mem_append.1 hitem with hdone | hnew
      · obtain ⟨group, hgroup, rfl⟩ := h.covered item hdone other hother
        exact hkept group hgroup
      · rw [List.mem_singleton.1 hnew, hpath] at hother
        obtain ⟨after, hafter, heq⟩ := hkept found hfound
        exact ⟨after, hafter, heq.trans ((of_decide_eq_true hsame).trans (Except.ok.inj hother))⟩
  · rename_i hnone
    have hfresh : ∀ group ∈ groups, group.path ≠ path := by
      intro group hgroup heq
      exact hnone (List.any_eq_true.2 ⟨group, hgroup, decide_eq_true heq⟩)
    -- the events gathered so far have groups, and none of these is of this path
    have hnothing : done.filter (goesTo path) = [] := by
      refine List.filter_eq_nil_iff.2 fun item hitem hgoes => ?_
      obtain ⟨group, hgroup, heq⟩ := h.covered item hitem path (goesTo_iff.1 hgoes)
      exact hfresh group hgroup heq
    refine ⟨?_, ?_, ?_, h.refused⟩
    · refine List.forall_mem_append.2 ⟨fun group hgroup => ?_, fun group hgroup => ?_⟩
      · have hother : eventPath event ≠ .ok group.path := by
          rw [hpath]
          exact fun heq => hfresh group hgroup (Except.ok.inj heq).symm
        rw [filter_append_of_ne hother, h.items group hgroup]
      · rw [List.mem_singleton.1 hgroup, filter_append_of_eq hpath, hnothing, List.nil_append]
    · rw [List.map_append, List.nodup_append]
      refine ⟨h.distinct, List.nodup_singleton _, ?_⟩
      intro other hother last hlast
      obtain ⟨group, hgroup, rfl⟩ := List.mem_map.1 hother
      rw [List.map_singleton, List.mem_singleton] at hlast
      rw [hlast]
      exact hfresh group hgroup
    · intro item hitem other hother
      rcases List.mem_append.1 hitem with hdone | hnew
      · obtain ⟨group, hgroup, rfl⟩ := h.covered item hdone other hother
        exact ⟨group, List.mem_append_left _ hgroup, rfl⟩
      · rw [List.mem_singleton.1 hnew, hpath] at hother
        exact ⟨_, List.mem_append_right _ (List.mem_singleton.2 rfl), Except.ok.inj hother⟩

theorem refuse (h : Gathered done groups results) {e : EventError}
    (hpath : eventPath event = .error e) : Gathered (done ++ [(index, event)]) groups
      (Function.update results index (some (.error e))) where
  items := by
    intro group hgroup
    have hother : eventPath event ≠ .ok group.path := by
      rw [hpath]
      exact fun heq => by cases heq
    rw [filter_append_of_ne hother, h.items group hgroup]
  distinct := h.distinct
  covered := by
    refine List.forall_mem_append.2 ⟨h.covered, fun item hitem other hother => ?_⟩
    rw [List.mem_singleton.1 hitem, hpath] at hother
    cases hother
  refused := by
    intro other entry hentry
    rw [Function.update_apply] at hentry
    split at hentry
    · cases hentry
    · exact h.refused other entry hentry

theorem gather : ∀ (events : List RuntimeEvent) {index : ℕ} {done : List (ℕ × RuntimeEvent)}
    {groups : List BatchGroup} {results : ℕ → Option AppendResult}, Gathered done groups results →
    Gathered (done ++ enumerated index events)
      (FilesystemDurableEventLog.gather index events (groups, results)).1
      (FilesystemDurableEventLog.gather index events (groups, results)).2
  | [], _, _, _, _, h => by rwa [enumerated, List.append_nil]
  | event :: rest, index, done, groups, results, h => by
    rw [enumerated, List.append_cons, FilesystemDurableEventLog.gather]
    cases hpath : eventPath event with
    | error e => exact gather rest (h.refuse hpath)
    | ok path => exact gather rest (h.add hpath)

end Gathered

/-! ### Writing the groups -/

variable {faults : Faults}

def groupPayloads (faults : Faults) (target : VirtualPath) (group : BatchGroup) :
    List RuntimeEventWire :=
  if resolveAppend faults group.path = .ok target then group.items.map fun item => item.2.serialize
  else []

/-- Only accepted events are answered with an entry. -/
def OnlyAccepted (faults : Faults) (batch : List (ℕ × RuntimeEvent))
    (results : ℕ → Option AppendResult) : Prop :=
  ∀ index entry, results index = some (.ok entry) →
    ∃ event, (index, event) ∈ batch ∧ accepted faults event = true

theorem OnlyAccepted.answer {batch : List (ℕ × RuntimeEvent)} :
    ∀ (answers : List ((ℕ × RuntimeEvent) × AppendResult)) {results : ℕ → Option AppendResult},
      OnlyAccepted faults batch results →
      (∀ answer ∈ answers, ∀ entry, answer.2 = .ok entry →
        answer.1 ∈ batch ∧ accepted faults answer.1.2 = true) →
      OnlyAccepted faults batch (FilesystemDurableEventLog.answer results answers)
  | [], _, h, _ => h
  | ((index, event), result) :: rest, results, h, hanswers => by
    obtain ⟨hfirst, hrest⟩ := List.forall_mem_cons.1 hanswers
    refine OnlyAccepted.answer rest (fun other entry hentry => ?_) hrest
    rw [Function.update_apply] at hentry
    split at hentry
    · rename_i heq
      obtain ⟨hmem, haccepted⟩ := hfirst entry (Option.some.inj hentry)
      exact ⟨event, heq ▸ hmem, haccepted⟩
    · exact h other entry hentry

theorem appendGroup_spec {log : FilesystemDurableEventLog} {results : ℕ → Option AppendResult}
    (group : BatchGroup) :
    (appendGroup faults (log, results) group).1.backend = log.backend ∧
      (Numbered log.backend log.table →
        Numbered log.backend (appendGroup faults (log, results) group).1.table) ∧
      ∀ target, ((appendGroup faults (log, results) group).1.table.recordsAt target).map (·.payload) =
        (log.table.recordsAt target).map (·.payload) ++ groupPayloads faults target group := by
  rw [appendGroup]
  dsimp only
  cases hresolve : resolveAppend faults group.path with
  | error e =>
    refine ⟨rfl, id, fun target => ?_⟩
    rw [groupPayloads, hresolve, if_neg (by rintro ⟨⟩), List.append_nil]
  | ok found =>
    refine ⟨rfl, fun h => h.appendBatch found _, fun target => ?_⟩
    rw [groupPayloads, hresolve]
    refine (recordsAt_appendBatch log.backend found target _ log.table).trans ?_
    simp only [Except.ok.injEq]

theorem appendGroup_onlyAccepted {batch : List (ℕ × RuntimeEvent)} {log : FilesystemDurableEventLog}
    {results : ℕ → Option AppendResult} {group : BatchGroup}
    (hitems : group.items = batch.filter (goesTo group.path))
    (h : OnlyAccepted faults batch results) :
    OnlyAccepted faults batch (appendGroup faults (log, results) group).2 := by
  rw [appendGroup]
  dsimp only
  cases hresolve : resolveAppend faults group.path with
  | error e =>
    refine h.answer _ fun answer hanswer entry hentry => ?_
    obtain ⟨item, -, rfl⟩ := List.mem_map.1 hanswer
    cases hentry
  | ok found =>
    refine h.answer _ fun answer hanswer entry _ => ?_
    obtain ⟨⟨item, seq⟩, hitem, rfl⟩ := List.mem_map.1 hanswer
    have hmem := (List.of_mem_zip hitem).1
    rw [hitems] at hmem
    obtain ⟨hbatch, hgoes⟩ := List.mem_filter.1 hmem
    obtain ⟨hfound, hfault⟩ := resolveAppend_eq_ok.1 hresolve
    exact ⟨hbatch, accepted_iff.2
      ⟨found, targetOf_eq_some.2 ⟨group.path, goesTo_iff.1 hgoes, hfound⟩, hfault⟩⟩

theorem foldl_appendGroup {batch : List (ℕ × RuntimeEvent)} : ∀ (groups : List BatchGroup)
    {log : FilesystemDurableEventLog} {results : ℕ → Option AppendResult},
    (∀ group ∈ groups, group.items = batch.filter (goesTo group.path)) →
    OnlyAccepted faults batch results →
    (groups.foldl (appendGroup faults) (log, results)).1.backend = log.backend ∧
      (Numbered log.backend log.table →
        Numbered log.backend (groups.foldl (appendGroup faults) (log, results)).1.table) ∧
      (∀ target, ((groups.foldl (appendGroup faults) (log, results)).1.table.recordsAt target).map
          (·.payload) =
        (log.table.recordsAt target).map (·.payload) ++
          groups.flatMap (groupPayloads faults target)) ∧
      OnlyAccepted faults batch (groups.foldl (appendGroup faults) (log, results)).2
  | [], _, _, _, h => ⟨rfl, id, fun _ => (List.append_nil _).symm, h⟩
  | group :: rest, log, results, hitems, h => by
    obtain ⟨hfirst, hrest⟩ := List.forall_mem_cons.1 hitems
    have hspec := @appendGroup_spec faults log results group
    have honly' := @appendGroup_onlyAccepted faults batch log results group hfirst h
    rw [List.foldl_cons]
    generalize appendGroup faults (log, results) group = step at hspec honly' ⊢
    obtain ⟨log', results'⟩ := step
    obtain ⟨hbackend, hnumbered, hpayloads⟩ := hspec
    obtain ⟨hbackend', hnumbered', hpayloads', honly⟩ :=
      @foldl_appendGroup batch rest log' results' hrest honly'
    dsimp only at hbackend hnumbered hpayloads
    refine ⟨hbackend'.trans hbackend, fun hlog => ?_, fun target => ?_, honly⟩
    · rw [hbackend] at hnumbered'
      exact hnumbered' (hnumbered hlog)
    · rw [List.flatMap_cons, ← List.append_assoc, ← hpayloads target]
      exact hpayloads' target

def writtenTo (faults : Faults) (target : VirtualPath) (event : RuntimeEvent) : Bool :=
  accepted faults event && decide (targetOf event = some target)

theorem writtenTo_iff :
    writtenTo faults target event = true ↔
      ∃ path, eventPath event = .ok path ∧ resolveAppend faults path = .ok target := by
  rw [writtenTo, Bool.and_eq_true, decide_eq_true_iff, accepted_iff]
  constructor
  · rintro ⟨⟨other, hother, hfault⟩, htarget⟩
    obtain rfl := Option.some.inj (hother.symm.trans htarget)
    obtain ⟨path, hpath, hresolve⟩ := targetOf_eq_some.1 htarget
    exact ⟨path, hpath, resolveAppend_eq_ok.2 ⟨hresolve, hfault⟩⟩
  · rintro ⟨path, hpath, hresolve⟩
    obtain ⟨hresolve, hfault⟩ := resolveAppend_eq_ok.1 hresolve
    have htarget := targetOf_eq_some.2 ⟨path, hpath, hresolve⟩
    exact ⟨⟨target, htarget, hfault⟩, htarget⟩

theorem groupPayloads_of_ne {group other : BatchGroup}
    (hgroup : resolveAppend faults group.path = .ok target) (hne : other.path ≠ group.path) :
    groupPayloads faults target other = [] := by
  rw [groupPayloads, if_neg]
  intro hother
  exact hne (resolve_inj (resolveAppend_eq_ok.1 hother).1 (resolveAppend_eq_ok.1 hgroup).1)

/-- What the groups add to a target: the events of the batch written there, in their order. -/
theorem Gathered.flatMap_groupPayloads {batch : List (ℕ × RuntimeEvent)} {groups : List BatchGroup}
    {results : ℕ → Option AppendResult} (h : Gathered batch groups results) (target : VirtualPath) :
    groups.flatMap (groupPayloads faults target) =
      ((batch.map (·.2)).filter (writtenTo faults target)).map RuntimeEvent.serialize := by
  rw [List.filter_map, List.map_map]
  by_cases hfound : ∃ group ∈ groups, resolveAppend faults group.path = .ok target
  · obtain ⟨group, hgroup, hresolve⟩ := hfound
    obtain ⟨before, after, hsplit⟩ := List.append_of_mem hgroup
    have hdistinct := h.distinct
    rw [hsplit, List.map_append, List.map_cons] at hdistinct
    have hothers : ∀ other ∈ before ++ after, groupPayloads faults target other = [] := by
      intro other hother
      refine groupPayloads_of_ne hresolve fun heq => ?_
      rw [List.nodup_middle, List.nodup_cons, ← List.map_append] at hdistinct
      exact hdistinct.1 (List.mem_map.2 ⟨other, hother, heq⟩)
    obtain ⟨hbefore, hafter⟩ := List.forall_mem_append.1 hothers
    have hitems : batch.filter (goesTo group.path) =
        batch.filter (writtenTo faults target ∘ fun item => item.2) := by
      refine List.filter_congr fun item _ => ?_
      rw [Bool.eq_iff_iff, goesTo_iff, Function.comp_apply, writtenTo_iff]
      refine ⟨fun hpath => ⟨group.path, hpath, hresolve⟩, ?_⟩
      rintro ⟨path, hpath, hresolve'⟩
      rw [hpath, resolve_inj (resolveAppend_eq_ok.1 hresolve').1 (resolveAppend_eq_ok.1 hresolve).1]
    rw [hsplit, List.flatMap_append, List.flatMap_cons, List.flatMap_eq_nil_iff.2 hbefore,
      List.flatMap_eq_nil_iff.2 hafter, List.nil_append, List.append_nil, groupPayloads,
      if_pos hresolve, h.items group hgroup, hitems]
    rfl
  · push Not at hfound
    have hnothing : ∀ group ∈ groups, groupPayloads faults target group = [] :=
      fun group hgroup => if_neg (hfound group hgroup)
    rw [List.flatMap_eq_nil_iff.2 hnothing, eq_comm, List.map_eq_nil_iff, List.filter_eq_nil_iff]
    intro item hitem hwritten
    rw [Function.comp_apply, writtenTo_iff] at hwritten
    obtain ⟨path, hpath, hresolve⟩ := hwritten
    obtain ⟨group, hgroup, rfl⟩ := h.covered item hitem path hpath
    exact hfound group hgroup hresolve

end FilesystemDurableEventLog

/-! ### The log as a store of events -/

open FilesystemDurableEventLog (writtenTo writtenTo_iff)

/-- The log holds the events of `history`, each under its target, in their order. -/
structure Stores (log : FilesystemDurableEventLog) (history : List RuntimeEvent) : Prop where
  numbered : Numbered log.backend log.table
  payloads : ∀ target, (log.table.recordsAt target).map (·.payload) =
    (history.filter fun event => decide (targetOf event = some target)).map RuntimeEvent.serialize

namespace Stores

variable {log : FilesystemDurableEventLog} {history : List RuntimeEvent}

theorem new (backend : EventBackend) : Stores (.new backend) [] := ⟨.nil, fun _ => rfl⟩

theorem filter_accepted (faults : Faults) (events : List RuntimeEvent) (target : VirtualPath) :
    (events.filter (accepted faults)).filter (fun event => decide (targetOf event = some target)) =
      events.filter (writtenTo faults target) := by
  rw [List.filter_filter]
  exact List.filter_congr fun event _ => Bool.and_comm _ _

theorem append (h : Stores log history) (faults : Faults) (event : RuntimeEvent) :
    Stores (log.append faults event).1 (history ++ [event].filter (accepted faults)) ∧
      (log.append faults event).1.backend = log.backend := by
  rw [FilesystemDurableEventLog.append]
  cases hresolve : (FilesystemDurableEventLog.eventPath event).bind
      (FilesystemDurableEventLog.resolveAppend faults) with
  | error e =>
    have hrefused : accepted faults event = false := by
      rw [← Bool.not_eq_true, accepted_iff]
      rintro ⟨target, htarget, hfault⟩
      obtain ⟨path, hpath, htarget⟩ := FilesystemDurableEventLog.targetOf_eq_some.1 htarget
      have hok := FilesystemDurableEventLog.resolveAppend_eq_ok.2 ⟨htarget, hfault⟩
      rw [hpath] at hresolve
      cases hresolve.symm.trans hok
    rw [List.filter_cons_of_neg (by rw [hrefused]; exact Bool.false_ne_true), List.filter_nil,
      List.append_nil]
    exact ⟨h, rfl⟩
  | ok target =>
    obtain ⟨path, hpath, htarget⟩ := bind_eq_ok.1 hresolve
    have hwritten : writtenTo faults target event = true := writtenTo_iff.2 ⟨path, hpath, htarget⟩
    obtain ⟨haccepted, hevent⟩ := Bool.and_eq_true_iff.1 hwritten
    rw [List.filter_cons_of_pos haccepted, List.filter_nil]
    refine ⟨⟨h.numbered.append target _, fun other => ?_⟩, rfl⟩
    have hbatch := recordsAt_appendBatch log.backend target other [event.serialize] log.table
    refine hbatch.trans ?_
    rw [h.payloads, List.filter_append, List.map_append, List.filter_singleton,
      of_decide_eq_true hevent]
    simp only [Option.some.injEq]
    split <;> simp_all

/-- A batch leaves the accepted events, and answers with an error unless all were. -/
theorem appendBatch (h : Stores log history) (faults : Faults) (events : List RuntimeEvent) :
    Stores (log.appendBatch faults events).1 (history ++ events.filter (accepted faults)) ∧
      (log.appendBatch faults events).1.backend = log.backend ∧
      ((∀ result ∈ (log.appendBatch faults events).2, result.isOk = true) →
        ∀ event ∈ events, accepted faults event = true) := by
  have hgathered := @FilesystemDurableEventLog.Gathered.gather events 0 _ _ _ .init
  rw [List.nil_append] at hgathered
  rw [FilesystemDurableEventLog.appendBatch]
  generalize FilesystemDurableEventLog.gather 0 events ([], fun _ => none) = gathered at hgathered ⊢
  obtain ⟨groups, results⟩ := gathered
  have hfold := @FilesystemDurableEventLog.foldl_appendGroup faults
    (FilesystemDurableEventLog.enumerated 0 events) groups log results hgathered.items
    (fun index entry hentry => absurd hentry (hgathered.refused index entry))
  dsimp only
  generalize groups.foldl (FilesystemDurableEventLog.appendGroup faults) (log, results) = after
    at hfold ⊢
  obtain ⟨log', results'⟩ := after
  obtain ⟨hbackend, hnumbered, hpayloads, honly⟩ := hfold
  dsimp only at hbackend hnumbered hpayloads honly ⊢
  refine ⟨⟨hbackend ▸ hnumbered h.numbered, fun target => ?_⟩, hbackend, fun hall event hevent => ?_⟩
  · rw [hpayloads, h.payloads, hgathered.flatMap_groupPayloads,
      FilesystemDurableEventLog.map_snd_enumerated, List.filter_append, List.map_append,
      filter_accepted]
  · obtain ⟨index, hlt, hget⟩ := List.getElem_of_mem hevent
    have hok := hall _ (List.mem_map.2 ⟨index, List.mem_range.2 hlt, rfl⟩)
    cases hresult : results' index with
    | none => rw [hresult] at hok; cases hok
    | some result =>
      rw [hresult] at hok
      cases result with
      | error e => cases hok
      | ok entry =>
        obtain ⟨found, hfound, haccepted⟩ := honly index entry hresult
        obtain ⟨-, hsame⟩ := FilesystemDurableEventLog.getElem?_of_mem_enumerated hfound
        rw [Nat.sub_zero, List.getElem?_eq_getElem hlt, hget] at hsame
        rw [Option.some.inj hsame]
        exact haccepted

theorem revalidate (h : Stores log history) (hvalid : ∀ event ∈ history, event.Valid)
    {target : VirtualPath} : ∀ record ∈ log.table.recordsAt target,
      ∃ event ∈ history, targetOf event = some target ∧ record.payload = event.serialize ∧
        record.payload.revalidate = .ok () := by
  intro record hrecord
  have hpayload := List.mem_map_of_mem (f := fun record => record.payload) hrecord
  rw [h.payloads target] at hpayload
  obtain ⟨event, hevent, heq⟩ := List.mem_map.1 hpayload
  obtain ⟨hmem, htarget⟩ := List.mem_filter.1 hevent
  refine ⟨event, hmem, of_decide_eq_true htarget, heq.symm, ?_⟩
  rw [← heq]
  exact hvalid event hmem

end Stores

/-! ### Runs of appends -/

/-- An append, with the paths the backend refuses at that time. -/
inductive Append
  | one (faults : Faults) (event : RuntimeEvent)
  | batch (faults : Faults) (events : List RuntimeEvent)

namespace Append

/-- The events an append leaves in the log. -/
def accepted : Append → List RuntimeEvent
  | .one faults event => [event].filter (Events.accepted faults)
  | .batch faults events => events.filter (Events.accepted faults)

def apply (log : FilesystemDurableEventLog) : Append → FilesystemDurableEventLog
  | .one faults event => (log.append faults event).1
  | .batch faults events => (log.appendBatch faults events).1

end Append

def afterAppends (backend : EventBackend) (appends : List Append) : FilesystemDurableEventLog :=
  appends.foldl Append.apply (.new backend)

theorem Stores.foldl_apply : ∀ (appends : List Append) {log : FilesystemDurableEventLog}
    {history : List RuntimeEvent}, Stores log history →
    Stores (appends.foldl Append.apply log) (history ++ appends.flatMap Append.accepted) ∧
      (appends.foldl Append.apply log).backend = log.backend
  | [], _, _, h => by
    rw [List.flatMap_nil, List.append_nil]
    exact ⟨h, rfl⟩
  | append :: rest, log, history, h => by
    rw [List.flatMap_cons, ← List.append_assoc, List.foldl_cons]
    have hstep : Stores (append.apply log) (history ++ append.accepted) ∧
        (append.apply log).backend = log.backend := by
      cases append with
      | one faults event => exact h.append faults event
      | batch faults events =>
        obtain ⟨hstores, hbackend, -⟩ := h.appendBatch faults events
        exact ⟨hstores, hbackend⟩
    obtain ⟨hrest, hbackend⟩ := Stores.foldl_apply rest hstep.1
    exact ⟨hrest, hbackend.trans hstep.2⟩

theorem stores_afterAppends (backend : EventBackend) (appends : List Append) :
    Stores (afterAppends backend appends) (appends.flatMap Append.accepted) ∧
      (afterAppends backend appends).backend = backend :=
  Stores.foldl_apply appends (.new backend)

end Ironclaw.Events
