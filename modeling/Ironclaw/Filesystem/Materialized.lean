import Ironclaw.Filesystem.Mutations

/-! # The rows of an ordered index and the entries they stand for

An index is materialized when its rows are exactly those of the entries below its prefix that carry
all its keys (`Materialized`). Every mutation that changes one entry and moves its rows keeps an
index materialized (`Materialized.change`); appending to a file keeps the projected values, and a
rolled-back transaction goes back through the states it came from. The creation of a subtree is the
exception: it inserts entries and no rows. -/

namespace Ironclaw.Filesystem

/-! ### Ancestors -/

/-- The path lies at `root` or below it. -/
def Under (root path : VirtualPath) : Prop := components root.asStr <+: components path.asStr

instance (root path : VirtualPath) : Decidable (Under root path) :=
  inferInstanceAs (Decidable (_ <+: _))

theorem ancestorsFrom_concat {init : List (List Char)} {last : List Char} (hlast : '/' ∉ last)
    (fuel : ℕ) : ancestorsFrom (fuel + 1) (render '/' (init ++ [last])) =
      if init = [] then ["/"] else pathOf init :: ancestorsFrom fuel (render '/' init) := by
  have hrender : render '/' (init ++ [last]) = render '/' init ++ '/' :: last := by
    rw [render_append]
    simp [render]
  have hparent : ((render '/' (init ++ [last])).rdropWhile (· != '/')).dropLast =
      render '/' init := by
    rw [hrender, rdropWhile_append_sep hlast, List.dropLast_concat]
  have hslash : '/' ∈ render '/' (init ++ [last]) := by simp [hrender]
  have hempty : render '/' init = [] ↔ init = [] := by
    constructor
    · intro h
      have hlen := @length_le_length_render _ '/' init
      rw [h] at hlen
      exact List.eq_nil_of_length_eq_zero (Nat.le_zero.1 hlen)
    · rintro rfl
      rfl
  rw [ancestorsFrom, if_pos hslash, hparent]
  exact if_congr hempty rfl rfl

theorem mem_ancestorsFrom {parts : List (List Char)} (hparts : ∀ part ∈ parts, '/' ∉ part) :
    ∀ {fuel : ℕ}, parts.length ≤ fuel → parts ≠ [] → ∀ text : String,
      text ∈ ancestorsFrom fuel (render '/' parts) ↔ text = "/" ∨
        ∃ init, init ≠ [] ∧ init <+: parts ∧ init ≠ parts ∧ text = pathOf init := by
  induction parts using List.reverseRecOn with
  | nil => exact fun _ hne => absurd rfl hne
  | append_singleton init last ih =>
    intro fuel hfuel _ text
    rw [List.length_append, List.length_singleton] at hfuel
    obtain ⟨fuel, rfl⟩ : ∃ n, fuel = n + 1 := Nat.exists_eq_succ_of_ne_zero (by omega)
    rw [ancestorsFrom_concat (hparts last (by simp))]
    rcases eq_or_ne init [] with rfl | hinit
    · -- one component: only the root is left
      rw [if_pos rfl, List.mem_singleton]
      refine ⟨.inl, fun h => h.resolve_right ?_⟩
      rintro ⟨shorter, hne, hpre, hproper, -⟩
      have hlen : shorter.length ≤ 1 := hpre.length_le
      have hpos := List.length_pos_of_ne_nil hne
      exact hproper (hpre.eq_of_length (show shorter.length = 1 by omega))
    · have hrest : ∀ part ∈ init, '/' ∉ part := fun part hp => hparts part (by simp [hp])
      rw [if_neg hinit, List.mem_cons, ih hrest (by omega) hinit]
      constructor
      · rintro (rfl | rfl | ⟨shorter, hshort, hpre, -, rfl⟩)
        · exact .inr ⟨init, hinit, List.prefix_append _ _, by simp, rfl⟩
        · exact .inl rfl
        · refine .inr ⟨shorter, hshort, hpre.trans (List.prefix_append _ _), ?_, rfl⟩
          rintro rfl
          have := hpre.length_le
          rw [List.length_append, List.length_singleton] at this
          omega
      · rintro (rfl | ⟨shorter, hshort, hpre, hproper, rfl⟩)
        · exact .inr (.inl rfl)
        · have hpre' := (List.prefix_concat_iff.1 hpre).resolve_left hproper
          rcases eq_or_ne shorter init with rfl | hne'
          · exact .inl rfl
          · exact .inr (.inr ⟨shorter, hshort, hpre', hne', rfl⟩)

theorem trimEndMatches_path (path : VirtualPath) :
    Text.trimEndMatches path.asStr '/' = path.asStr := by
  have hvalid : ∀ part ∈ components path.asStr, part ≠ [] ∧ '/' ∉ part :=
    fun part hp => ⟨(path.normal.valid part hp).ne_nil, (path.normal.valid part hp).no_slash⟩
  rw [Text.trimEndMatches, path.normal.rendered, rdropWhile_render hvalid, ← path.normal.rendered,
    String.ofList_toList]

/-- The ancestors of a path, itself among them, are the paths whose components begin it. -/
theorem mem_ancestorPrefixes {root path : VirtualPath} :
    root.asStr ∈ ancestorPrefixes path.asStr ↔ Under root path := by
  have hne : path.asStr ≠ "" := fun h => path.normal.named (by rw [h]; rfl)
  have hlen : (components path.asStr).length ≤ path.asStr.toList.length := by
    rw [path.normal.rendered]
    exact length_le_length_render _
  have hmem := mem_ancestorsFrom (fun part hp => (path.normal.valid part hp).no_slash) hlen path.normal.named root.asStr
  rw [← path.normal.rendered] at hmem
  rw [ancestorPrefixes, trimEndMatches_path, if_neg hne, List.mem_cons, hmem]
  constructor
  · rintro (heq | heq | ⟨init, hinit, hpre, -, heq⟩)
    · rw [Under, heq]
    · exact absurd (by rw [heq]; rfl) root.normal.named
    · rw [Under, heq, components_pathOf hinit fun part hp => path.normal.valid part (hpre.mem hp)]
      exact hpre
  · intro hunder
    rcases eq_or_ne (components root.asStr) (components path.asStr) with heq | hproper
    · exact .inl (root.normal.ext path.normal heq)
    · exact .inr (.inr ⟨_, root.normal.named, hunder, hproper, root.normal.eq_pathOf⟩)

/-- Between a path and one of its ancestors only paths between the two are listed. -/
theorem ancestorsFrom_split {init : List (List Char)} (hinit : init ≠ []) :
    ∀ (more : List (List Char)) {fuel : ℕ}, (∀ part ∈ more, '/' ∉ part) →
      (init ++ more).length ≤ fuel → ∃ before after,
        pathOf (init ++ more) :: ancestorsFrom fuel (render '/' (init ++ more)) =
          before ++ pathOf init :: after ∧
        ∀ text ∈ before, ∃ between, between ≠ [] ∧ between <+: more ∧
          text = pathOf (init ++ between) := by
  intro more
  induction more using List.reverseRecOn with
  | nil =>
    intro fuel _ _
    exact ⟨[], _, by rw [List.append_nil, List.nil_append], by simp⟩
  | append_singleton more last ih =>
    intro fuel hmore hfuel
    rw [← List.append_assoc, List.length_append, List.length_singleton] at hfuel
    obtain ⟨fuel, rfl⟩ : ∃ n, fuel = n + 1 := Nat.exists_eq_succ_of_ne_zero (by omega)
    have hne : init ++ more ≠ [] := List.append_ne_nil_of_left_ne_nil hinit _
    obtain ⟨before, after, hsplit, hbetween⟩ :=
      ih (fun part hp => hmore part (by simp [hp])) (Nat.le_of_succ_le_succ hfuel)
    refine ⟨pathOf (init ++ (more ++ [last])) :: before, after, ?_, ?_⟩
    · rw [← List.append_assoc, ancestorsFrom_concat (hmore last (by simp)), if_neg hne, hsplit,
        List.cons_append]
    · intro text htext
      rcases List.mem_cons.1 htext with rfl | htext
      · exact ⟨more ++ [last], by simp, List.prefix_rfl, rfl⟩
      · obtain ⟨between, hbetween, hpre, rfl⟩ := hbetween text htext
        exact ⟨between, hbetween, hpre.trans (List.prefix_append _ _), rfl⟩

theorem ancestorPrefixes_split {root path : VirtualPath} (h : Under root path) :
    ∃ before after, ancestorPrefixes path.asStr = before ++ root.asStr :: after ∧
      ∀ text ∈ before, ∃ other : VirtualPath, other.asStr = text ∧ Under root other ∧
        Under other path ∧ other ≠ root := by
  obtain ⟨more, hmore⟩ := h
  have hvalid : ∀ part ∈ more, Component part := fun part hp =>
    path.normal.valid part (hmore ▸ List.mem_append_right _ hp)
  have hne : path.asStr ≠ "" := fun h => path.normal.named (by rw [h]; rfl)
  have hlen : (components root.asStr ++ more).length ≤ path.asStr.toList.length := by
    rw [hmore, path.normal.rendered]
    exact length_le_length_render _
  obtain ⟨before, after, hsplit, hbetween⟩ := ancestorsFrom_split root.normal.named more
    (fun part hp => (hvalid part hp).no_slash) hlen
  rw [hmore, ← path.normal.rendered, ← path.normal.eq_pathOf, ← root.normal.eq_pathOf] at hsplit
  refine ⟨before, after, ?_, fun text htext => ?_⟩
  · rw [ancestorPrefixes, trimEndMatches_path, if_neg hne]
    exact hsplit
  · obtain ⟨between, hbelow, hpre, rfl⟩ := hbetween text htext
    obtain ⟨other, hother, hparts⟩ := root.exists_append fun part hp => hvalid part (hpre.mem hp)
    refine ⟨other, hother, ?_, ?_, ?_⟩
    · rw [Under, hparts]
      exact List.prefix_append _ _
    · rw [Under, hparts, ← hmore]
      exact (List.prefix_append_right_inj _).2 hpre
    · rintro rfl
      exact hbelow (List.append_right_eq_self.1 hparts.symm)

theorem pathWithinPrefix_iff {path root : VirtualPath} :
    pathWithinPrefix path.asStr root.asStr = true ↔ Under root path := by
  have hne : (root.asStr == "") = false := by
    rw [beq_eq_false_iff_ne]
    exact fun h => root.normal.named (by rw [h]; rfl)
  rw [pathWithinPrefix, trimEndMatches_path, hne, Bool.false_or]
  exact pathMatchesAlias_iff root.normal path.normal

/-! ### Materialized indexes -/

namespace State

/-- The values of the keys of the index in the entry at a path. -/
def rowAt (state : State) (spec : IndexSpec) (path : VirtualPath) : Option (List IndexValue) :=
  (state.value path).bind (materializedRowValues spec)

end State

/-- The rows of the index declared at `root` are those of the entries below it. -/
structure Rows (state : State) (root : VirtualPath) (index : MaterializedOrderedIndex) : Prop where
  mem_iff : ∀ row, row ∈ index.rows.rows ↔
    Under root row.path ∧ state.rowAt index.spec row.path = some row.values

/-- The index is declared at `root` and its rows are those of the entries below. -/
def Materialized (root : VirtualPath) (spec : IndexSpec) (state : State) : Prop :=
  ∃ index, state.orderedIndexes.get (root.asStr, spec.name) = some index ∧ index.spec = spec ∧
    Rows state root index

variable {row row' : OrderedRow}

theorem OrderedRow.key_inj (h : row.key = row'.key) : row = row' := by
  obtain ⟨values, path⟩ := row
  obtain ⟨values', path'⟩ := row'
  obtain ⟨rfl, htext⟩ := Prod.mk.inj (toLex.injective h)
  obtain rfl : path = path' := VirtualPath.ext_components (congrArg components htext)
  rfl

theorem OrderedRow.mem_put {rows : Table OrderedRow.key} :
    row ∈ (rows.put row').rows ↔ row = row' ∨ row ∈ rows.rows := by
  rw [Table.mem_put]
  constructor
  · exact fun h => h.imp_right (·.1)
  · rintro (heq | hmem)
    · exact .inl heq
    · exact (em (row = row')).imp_right fun hne => ⟨hmem, fun hkey => hne (key_inj hkey)⟩

theorem OrderedRow.mem_remove {rows : Table OrderedRow.key} :
    row ∈ (rows.remove row'.key).rows ↔ row ∈ rows.rows ∧ row ≠ row' := by
  rw [Table.remove, Table.filter, List.mem_filter, decide_eq_true_iff]
  exact and_congr_right fun _ => not_congr ⟨key_inj, congrArg _⟩

theorem MaterializedOrderedIndex.mem_update {index : MaterializedOrderedIndex} {path : VirtualPath}
    {old new : Option Entry} {row : OrderedRow} :
    row ∈ (index.update path old new).rows.rows ↔
      (row.path = path ∧ new.bind (materializedRowValues index.spec) = some row.values) ∨
      (row ∈ index.rows.rows ∧
        ¬ (row.path = path ∧ old.bind (materializedRowValues index.spec) = some row.values)) := by
  have hrow : ∀ values, row = ⟨values, path⟩ ↔ row.path = path ∧ values = row.values := by
    intro values
    obtain ⟨values', path'⟩ := row
    simp [and_comm, eq_comm]
  rw [update]
  cases old.bind (materializedRowValues index.spec) <;>
  cases new.bind (materializedRowValues index.spec) <;>
  simp only [OrderedRow.mem_put, OrderedRow.mem_remove, hrow, ne_eq, Option.some.injEq, reduceCtorEq,
    and_false, not_false_eq_true, and_true, false_or]

variable {root : VirtualPath} {spec : IndexSpec} {state state' : State}

/-- A change of the entry at one path together with its rows keeps every index materialized. -/
theorem Materialized.change (h : Materialized root spec state) (path : VirtualPath)
    (new : Option Entry)
    (hindexes : state'.orderedIndexes =
      (state.updateMaterializedIndexes path (state.value path) new).orderedIndexes)
    (hvalue : state'.value path = new)
    (hother : ∀ other, other ≠ path → state'.value other = state.value other) :
    Materialized root spec state' := by
  obtain ⟨index, hget, rfl, hrows⟩ := h
  have hat := Table.key_of_get hget
  have hdeclared : index.declaredAt = root.asStr := congrArg Prod.fst hat
  have hrowOther : ∀ other, other ≠ path → state'.rowAt index.spec other = state.rowAt index.spec other :=
    fun other hne => by rw [State.rowAt, State.rowAt, hother other hne]
  have hrowSelf : state'.rowAt index.spec path = new.bind (materializedRowValues index.spec) := by
    rw [State.rowAt, hvalue]
  refine ⟨if Under root path then index.update path (state.value path) new else index, ?_, ?_, ?_⟩
  · rw [hindexes, State.updateMaterializedIndexes, Table.get_mapRows, hget, Option.map_some,
      hdeclared]
    simp only [mem_ancestorPrefixes]
  · split <;> rfl
  · constructor
    intro row
    split
    · next hunder =>
      rw [MaterializedOrderedIndex.mem_update, hrows.mem_iff]
      rcases eq_or_ne row.path path with heq | hne
      · have hspec : (index.update path (state.value path) new).spec = index.spec := rfl
        rw [hspec, heq, hrowSelf]
        simp only [true_and, hunder]
        refine or_iff_left ?_
        rintro ⟨hold, hnot⟩
        exact hnot hold
      · have hspec : (index.update path (state.value path) new).spec = index.spec := rfl
        rw [hspec, hrowOther _ hne]
        simp [hne]
    · next hunder =>
      rw [hrows.mem_iff]
      refine and_congr_right fun hbelow => ?_
      rw [hrowOther]
      rintro heq
      exact hunder (heq ▸ hbelow)

theorem Materialized.same (h : Materialized root spec state)
    (hindexes : state'.orderedIndexes = state.orderedIndexes)
    (hrow : ∀ path, Under root path → state'.rowAt spec path = state.rowAt spec path) :
    Materialized root spec state' := by
  obtain ⟨index, hget, rfl, hrows⟩ := h
  refine ⟨index, hindexes ▸ hget, rfl, ⟨fun row => ?_⟩⟩
  rw [hrows.mem_iff]
  exact and_congr_right fun hunder => by rw [hrow _ hunder]

/-! ### The mutations of one entry -/

section Single

variable {root : VirtualPath} {spec : IndexSpec} {state state' : State} {path : VirtualPath}

theorem State.value_congr (h : ∀ other, other ≠ path → state'.entries.get other =
    state.entries.get other) : ∀ other, other ≠ path → state'.value other = state.value other :=
  fun other hne => by rw [State.value, State.value, h other hne]

theorem Materialized.put (h : Materialized root spec state) {entry : Entry} {cas : CasExpectation}
    {version : RecordVersion} (hput : state.put path entry cas = .ok (version, state')) :
    Materialized root spec state' := by
  obtain ⟨hvalue, hframe⟩ := State.put_value hput
  obtain ⟨-, -, -, rfl⟩ := State.put_eq_ok.1 hput
  exact h.change path _ rfl hvalue (State.value_congr hframe)

theorem Materialized.deleteIfVersion (h : Materialized root spec state) {expected : RecordVersion}
    (hdelete : state.deleteIfVersion path expected = .ok state') : Materialized root spec state' := by
  obtain ⟨hvalue, hframe⟩ := State.deleteIfVersion_value hdelete
  obtain ⟨-, rfl⟩ := State.deleteIfVersion_eq_ok.1 hdelete
  exact h.change path _ rfl hvalue (State.value_congr hframe)

theorem State.get_removeStored (stored : StoredEntry) (other : VirtualPath) :
    (state.removeStored stored).entries.get other =
      if stored.path = other then none else state.entries.get other := by
  rw [State.removeStored, State.entries_updateMaterializedIndexes, Table.get_remove]

theorem Materialized.removeStored (h : Materialized root spec state) {stored : StoredEntry}
    (hstored : state.entries.get stored.path = some stored) :
    Materialized root spec (state.removeStored stored) := by
  have hold : state.value stored.path = some stored.entry := by
    rw [State.value, hstored, Option.map_some]
  refine h.change stored.path none ?_ ?_ (State.value_congr fun other hne => ?_)
  · rw [hold]
    rfl
  · rw [State.value, State.get_removeStored, if_pos rfl, Option.map_none]
  · rw [State.get_removeStored, if_neg hne.symm]

theorem State.get_restoreStored (stored : StoredEntry) (other : VirtualPath) :
    (state.restoreStored stored).entries.get other =
      if stored.path = other then some stored else state.entries.get other := by
  rw [State.restoreStored]
  exact Table.get_put _ stored other

theorem Materialized.restoreStored (h : Materialized root spec state) {stored : StoredEntry}
    (hstored : state.entries.get stored.path = none) :
    Materialized root spec (state.restoreStored stored) := by
  have hold : state.value stored.path = none := by rw [State.value, hstored, Option.map_none]
  refine h.change stored.path (some stored.entry) ?_ ?_
    (State.value_congr fun other hne => ?_)
  · rw [hold]
    rfl
  · rw [State.value, State.get_restoreStored, if_pos rfl, Option.map_some]
  · rw [State.get_restoreStored, if_neg hne.symm]

/-- Appending to a file changes no projected value. -/
theorem Materialized.appendFile (hkeys : spec.keys ≠ []) (h : Materialized root spec state)
    {bytes : List (Fin 256)} (happend : state.appendFile path bytes = .ok state') :
    Materialized root spec state' := by
  rw [State.appendFile] at happend
  simp only [bind_eq_ok, rejectIf_eq_ok, exists_const, pure_eq_ok] at happend
  obtain ⟨-, rfl⟩ := happend
  refine h.same rfl fun other _ => ?_
  rw [State.rowAt, State.rowAt, State.value, State.value]
  rcases eq_or_ne path other with rfl | hne
  · rw [Table.get_put, if_pos rfl]
    cases hget : state.entries.get path with
    | some stored => rfl
    | none =>
      -- a new file has no projected values
      obtain ⟨key, keys, hcons⟩ := List.exists_cons_of_ne_nil hkeys
      simp only [Option.map_some, Option.bind_some, Option.map_none, Option.bind_none,
        Option.getD_none, materializedRowValues, hcons, List.mapM_cons, Entry.index, Entry.bytes]
      rfl
  · rw [Table.get_put_of_ne _ hne]

end Single

/-! ### Subtrees -/

section Subtrees

variable {root : VirtualPath} {spec : IndexSpec}

theorem State.get_removeAll (other : VirtualPath) : ∀ (removed : List StoredEntry) (state : State),
    (removed.foldl State.removeStored state).entries.get other =
      if other ∈ removed.map StoredEntry.path then none else state.entries.get other
  | [], _ => rfl
  | stored :: removed, state => by
    rw [List.foldl_cons, State.get_removeAll other removed, State.get_removeStored]
    by_cases hlater : other ∈ removed.map StoredEntry.path
    · rw [if_pos hlater, List.map_cons, if_pos (List.mem_cons_of_mem _ hlater)]
    · rw [if_neg hlater]
      refine if_congr ?_ rfl rfl
      rw [List.map_cons, List.mem_cons, or_iff_left hlater, eq_comm]

theorem Materialized.removeAll : ∀ {removed : List StoredEntry} {state : State},
    Materialized root spec state → (removed.map StoredEntry.path).Nodup →
    (∀ stored ∈ removed, state.entries.get stored.path = some stored) →
    Materialized root spec (removed.foldl State.removeStored state)
  | [], _, h, _, _ => h
  | stored :: removed, state, h, hnodup, hget => by
    rw [List.map_cons, List.nodup_cons] at hnodup
    refine (h.removeStored (hget stored List.mem_cons_self)).removeAll hnodup.2 ?_
    intro later hlater
    rw [State.get_removeStored, if_neg]
    · exact hget later (List.mem_cons_of_mem _ hlater)
    · exact fun heq => hnodup.1 (heq ▸ List.mem_map_of_mem hlater)

theorem State.get_restoreAll (other : VirtualPath) : ∀ {entries : List StoredEntry} (state : State),
    (entries.map StoredEntry.path).Nodup →
    (entries.foldl State.restoreStored state).entries.get other =
      (entries.find? fun stored => stored.path = other).or (state.entries.get other)
  | [], _, _ => rfl
  | stored :: entries, state, hnodup => by
    rw [List.map_cons, List.nodup_cons] at hnodup
    rw [List.foldl_cons, State.get_restoreAll other _ hnodup.2, State.get_restoreStored,
      List.find?_cons]
    rcases eq_or_ne stored.path other with rfl | hne
    · have hnone : (entries.find? fun later => later.path = stored.path) = none := by
        rw [List.find?_eq_none]
        intro later hlater heq
        exact hnodup.1 (List.mem_map.2 ⟨later, hlater, of_decide_eq_true heq⟩)
      rw [hnone, if_pos rfl, decide_eq_true rfl]
      rfl
    · rw [if_neg hne, decide_eq_false hne]

theorem Materialized.restoreAll : ∀ {entries : List StoredEntry} {state : State},
    Materialized root spec state → (entries.map StoredEntry.path).Nodup →
    (∀ stored ∈ entries, state.entries.get stored.path = none) →
    Materialized root spec (entries.foldl State.restoreStored state)
  | [], _, h, _, _ => h
  | stored :: entries, state, h, hnodup, hget => by
    rw [List.map_cons, List.nodup_cons] at hnodup
    refine (h.restoreStored (hget stored List.mem_cons_self)).restoreAll hnodup.2 ?_
    intro later hlater
    rw [State.get_restoreStored, if_neg]
    · exact hget later (List.mem_cons_of_mem _ hlater)
    · exact fun heq => hnodup.1 (heq ▸ List.mem_map_of_mem hlater)

variable {state state' : State} {path : VirtualPath}

theorem State.mem_subtree {stored : StoredEntry} : stored ∈ state.subtree path ↔
    stored ∈ state.entries.rows ∧ Under path stored.path := by
  rw [State.subtree, List.mem_filter, Bool.or_eq_true, decide_eq_true_iff, startsWith_slash_iff]
  refine and_congr_right fun _ => ?_
  constructor
  · rintro (heq | ⟨hunder, -⟩)
    · rw [Under, heq]
    · exact hunder
  · exact fun hunder => (em _).imp_right fun hne => ⟨hunder, hne⟩

theorem State.nodup_subtree (state : State) (path : VirtualPath) :
    ((state.subtree path).map StoredEntry.path).Nodup :=
  state.entries.nodup.sublist (List.filter_sublist.map _)

theorem State.get_of_mem_subtree {stored : StoredEntry} (h : stored ∈ state.subtree path) :
    state.entries.get stored.path = some stored :=
  Table.get_of_mem (State.mem_subtree.1 h).1

theorem State.delete_eq_ok (h : state.delete path = .ok state') :
    state' = (state.subtree path).foldl State.removeStored state := by
  rw [State.delete] at h
  simp only [bind_eq_ok, rejectIf_eq_ok, exists_const, pure_eq_ok] at h
  exact h.2.symm

theorem State.subtree_of_delete_error {e : FilesystemError} (h : state.delete path = .error e) :
    state.subtree path = [] := by
  rw [State.delete] at h
  simp only [bind_eq_error, rejectIf_eq_error, pure_ne_error, and_false, exists_false, or_false] at h
  exact h.1

/-- The deletion of a subtree removes its entries, and putting them back undoes it. -/
theorem State.get_delete (h : state.delete path = .ok state') :
    (∀ stored ∈ state.subtree path, state'.entries.get stored.path = none) ∧
      ∀ other, ((state.subtree path).find? fun stored => stored.path = other).or
        (state'.entries.get other) = state.entries.get other := by
  have hget := fun other => State.get_removeAll other (state.subtree path) state
  rw [← State.delete_eq_ok h] at hget
  refine ⟨fun stored hstored => ?_, fun other => ?_⟩
  · rw [hget, if_pos (List.mem_map_of_mem hstored)]
  · cases hfind : (state.subtree path).find? fun stored => stored.path = other with
    | some stored =>
      have hpath := List.find?_some hfind
      obtain rfl : stored.path = other := of_decide_eq_true hpath
      exact (State.get_of_mem_subtree (List.mem_of_find?_eq_some hfind)).symm
    | none =>
      rw [Option.none_or, hget, if_neg]
      intro hmem
      obtain ⟨stored, hstored, heq⟩ := List.mem_map.1 hmem
      exact List.find?_eq_none.1 hfind stored hstored (decide_eq_true heq)

theorem Materialized.delete (h : Materialized root spec state)
    (hdelete : state.delete path = .ok state') : Materialized root spec state' := by
  rw [State.delete_eq_ok hdelete]
  exact h.removeAll (state.nodup_subtree path) fun _ => State.get_of_mem_subtree

/-- What the entries of a new subtree leave at each path. -/
theorem get_insertAll (other : VirtualPath) : ∀ (items : List AtomicSubtreeEntry)
    (entries : Table StoredEntry.path),
    (∃ item ∈ items, item.path = other ∧
      (items.foldl (fun entries item => entries.put ⟨item.path, item.entry, .first⟩) entries).get
        other = some ⟨other, item.entry, .first⟩) ∨
    ((∀ item ∈ items, item.path ≠ other) ∧
      (items.foldl (fun entries item => entries.put ⟨item.path, item.entry, .first⟩) entries).get
        other = entries.get other)
  | [], entries => .inr ⟨by simp, rfl⟩
  | item :: items, entries => by
    rw [List.foldl_cons]
    rcases get_insertAll other items (entries.put ⟨item.path, item.entry, .first⟩) with
      ⟨later, hlater, hpath, hget⟩ | ⟨hnone, hget⟩
    · exact .inl ⟨later, List.mem_cons_of_mem _ hlater, hpath, hget⟩
    · rw [hget]
      rcases eq_or_ne item.path other with rfl | hne
      · exact .inl ⟨item, List.mem_cons_self, rfl, Table.get_put_self _ _⟩
      · exact .inr ⟨List.forall_mem_cons.2 ⟨hne, hnone⟩, Table.get_put_of_ne _ hne⟩

theorem validateAtomicSubtreePaths_ok {separated : String} : ∀ {items : List AtomicSubtreeEntry}
    {seen : List VirtualPath}, validateAtomicSubtreePaths separated seen items = .ok () →
    ∀ item ∈ items, Text.startsWith item.path.asStr separated = true
  | [], _, _ => by simp
  | item :: items, seen, h => by
    simp only [validateAtomicSubtreePaths, bind_eq_ok, rejectIf_eq_ok, exists_const,
      Bool.not_eq_false] at h
    exact List.forall_mem_cons.2 ⟨h.1, validateAtomicSubtreePaths_ok h.2.2⟩

theorem State.createSubtreeAtomic_eq_ok {top : VirtualPath} {items : List AtomicSubtreeEntry}
    {versions : List RecordVersion}
    (h : state.createSubtreeAtomic top items = .ok (versions, state')) :
    (∀ item ∈ items, state.entries.get item.path = none) ∧
      state' = { state with
        entries := items.foldl (fun entries item => entries.put ⟨item.path, item.entry, .first⟩)
          state.entries } := by
  simp only [State.createSubtreeAtomic, validateAtomicSubtreeEntries, bind_eq_ok, rejectIf_eq_ok,
    exists_const, pure_eq_ok, Prod.mk.injEq, Bool.or_eq_true, not_or, Bool.not_eq_true] at h
  obtain ⟨_, ⟨-, hbelow⟩, ⟨-, hempty⟩, -, rfl⟩ := h
  refine ⟨fun item hitem => ?_, rfl⟩
  have hstarts := validateAtomicSubtreePaths_ok hbelow item hitem
  rw [trimEndMatches_path, ← withTrailingSlash_path] at hstarts
  cases hget : state.entries.get item.path with
  | none => rfl
  | some stored =>
    rw [State.hasDescendant, List.any_eq_false] at hempty
    have hpath : stored.path = item.path := Table.key_of_get hget
    exact absurd (hpath ▸ hstarts) (hempty stored (Table.mem_of_get hget))

theorem Materialized.createSubtreeAtomic (h : Materialized root spec state) {top : VirtualPath}
    {items : List AtomicSubtreeEntry} {versions : List RecordVersion}
    (hcreate : state.createSubtreeAtomic top items = .ok (versions, state'))
    (hitems : ∀ item ∈ items, Under root item.path → materializedRowValues spec item.entry = none) :
    Materialized root spec state' := by
  obtain ⟨hnone, rfl⟩ := State.createSubtreeAtomic_eq_ok hcreate
  refine h.same rfl fun other hunder => ?_
  rw [State.rowAt, State.rowAt, State.value, State.value]
  rcases get_insertAll other items state.entries with ⟨item, hitem, rfl, hget⟩ | ⟨-, hget⟩
  · rw [hget, hnone item hitem, Option.map_some, Option.bind_some, Option.map_none,
      Option.bind_none, hitems item hitem hunder]
  · rw [hget]

end Subtrees

/-! ### Transactions -/

namespace UndoAction

def undone (entries : VirtualPath → Option StoredEntry) : UndoAction →
    VirtualPath → Option StoredEntry
  | .entry path original => Function.update entries path original
  | .delete removed => fun path =>
    (removed.find? fun stored => stored.path = path).or (entries path)

/-- The action can be undone: what it puts back belongs where it is put, and nothing is there. -/
def Valid (entries : VirtualPath → Option StoredEntry) : UndoAction → Prop
  | .entry path original => ∀ stored, original = some stored → stored.path = path
  | .delete removed => (removed.map StoredEntry.path).Nodup ∧
      ∀ stored ∈ removed, entries stored.path = none

variable {root : VirtualPath} {spec : IndexSpec} {state : State}

theorem get_restore : ∀ {action : UndoAction}, action.Valid state.entries.get →
    (action.restore state).entries.get = action.undone state.entries.get
  | .entry path original, hvalid => by
    funext other
    rw [undone, Function.update_apply]
    cases original with
    | none =>
      rw [restore, State.entries_updateMaterializedIndexes, Table.get_remove]
      simp only [eq_comm]
    | some stored =>
      obtain rfl := hvalid stored rfl
      rw [restore, State.entries_updateMaterializedIndexes, Table.get_put, Table.get_remove]
      simp only [eq_comm]
      split <;> rfl
  | .delete _, ⟨hnodup, _⟩ => funext fun other => State.get_restoreAll other state hnodup

theorem restore_materialized (h : Materialized root spec state) : ∀ {action : UndoAction},
    action.Valid state.entries.get → Materialized root spec (action.restore state)
  | .entry path original, hvalid => by
    have hget := get_restore hvalid
    refine h.change path (original.map (·.entry)) ?_ ?_ (State.value_congr fun other hne => ?_)
    · cases original <;> rfl
    · rw [State.value, hget, undone, Function.update_self]
    · rw [hget, undone, Function.update_of_ne hne]
  | .delete _, ⟨hnodup, hnone⟩ => h.restoreAll hnodup hnone

/-- The actions can be undone one after the other. -/
def AllValid : (VirtualPath → Option StoredEntry) → List UndoAction → Prop
  | _, [] => True
  | entries, action :: actions => action.Valid entries ∧ AllValid (action.undone entries) actions

theorem get_restore_all : ∀ {actions : List UndoAction} {state : State},
    AllValid state.entries.get actions →
    (actions.foldl restore state).entries.get = actions.foldl undone state.entries.get
  | [], _, _ => rfl
  | action :: actions, state, ⟨hfirst, hrest⟩ => by
    rw [← get_restore hfirst] at hrest
    rw [List.foldl_cons, List.foldl_cons, get_restore_all hrest, get_restore hfirst]

theorem restore_all_materialized : ∀ {actions : List UndoAction} {state : State},
    Materialized root spec state → AllValid state.entries.get actions →
    Materialized root spec (actions.foldl restore state)
  | [], _, h, _ => h
  | action :: actions, state, h, ⟨hfirst, hrest⟩ => by
    rw [← get_restore hfirst] at hrest
    rw [List.foldl_cons]
    exact restore_all_materialized (restore_materialized h hfirst) hrest

end UndoAction

/-- What a transaction that began in `start` keeps: its changes can be undone, down to the entries it
began with. -/
structure Undoable (start : State) (txn : StorageTxn) : Prop where
  valid : UndoAction.AllValid txn.state.entries.get txn.undo
  undone : txn.undo.foldl UndoAction.undone txn.state.entries.get = start.entries.get

namespace StorageTxn

variable {root : VirtualPath} {spec : IndexSpec} {state : State} {txn : StorageTxn}

theorem Undoable.push {start : State} (h : Undoable start txn) {action : UndoAction} {state : State}
    (hvalid : action.Valid state.entries.get)
    (hundone : action.undone state.entries.get = txn.state.entries.get) :
    Undoable start { txn with state := state, undo := action :: txn.undo } where
  valid := ⟨hvalid, hundone ▸ h.valid⟩
  undone := by
    rw [List.foldl_cons, hundone]
    exact h.undone

theorem step_undoable {start : State} (h : Undoable start txn) (operation : TxnOperation) :
    Undoable start (txn.step operation) := by
  cases operation with
  | put path entry cas =>
    have hpath : ∀ stored, txn.state.entries.get path = some stored → stored.path = path :=
      fun _ => Table.key_of_get
    rw [step]
    split
    · exact h
    · cases hput : txn.state.put path entry cas with
      | error e => exact Undoable.push h hpath (Function.update_eq_self path _)
      | ok written =>
        obtain ⟨version, state'⟩ := written
        obtain ⟨-, hframe⟩ := State.put_value hput
        refine Undoable.push h hpath (funext fun other => ?_)
        rw [UndoAction.undone, Function.update_apply]
        split
        · next heq => rw [heq]
        · next hne => exact hframe other hne
  | delete path =>
    rw [step]
    split
    · exact h
    · cases hdelete : txn.state.delete path with
      | error e =>
        refine Undoable.push h ?_ ?_
        · rw [State.subtree_of_delete_error hdelete]
          exact ⟨List.nodup_nil, by simp⟩
        · rw [State.subtree_of_delete_error hdelete]
          rfl
      | ok state' =>
        obtain ⟨hnone, hback⟩ := State.get_delete hdelete
        exact Undoable.push h ⟨txn.state.nodup_subtree path, hnone⟩ (funext hback)

theorem step_materialized (h : Materialized root spec txn.state) (operation : TxnOperation) :
    Materialized root spec (txn.step operation).state := by
  cases operation with
  | put path entry cas =>
    rw [step]
    split
    · exact h
    · cases hput : txn.state.put path entry cas with
      | error e => exact h
      | ok written => exact h.put hput
  | delete path =>
    rw [step]
    split
    · exact h
    · cases hdelete : txn.state.delete path with
      | error e => exact h
      | ok state' => exact h.delete hdelete

theorem run_undoable {start : State} : ∀ (operations : List TxnOperation) {txn : StorageTxn},
    Undoable start txn → Undoable start (operations.foldl step txn)
  | [], _, h => h
  | operation :: operations, _, h => run_undoable operations (step_undoable h operation)

theorem run_materialized : ∀ (operations : List TxnOperation) {txn : StorageTxn},
    Materialized root spec txn.state → Materialized root spec (operations.foldl step txn).state
  | [], _, h => h
  | operation :: operations, _, h => run_materialized operations (step_materialized h operation)

theorem start_undoable (state : State) (path : VirtualPath) :
    Undoable state (StorageTxn.start state path) where
  valid := trivial
  undone := rfl

end StorageTxn

theorem Materialized.transaction {state : State}
    (h : Materialized root spec state) (path : VirtualPath) (operations : List TxnOperation)
    (last : TxnEnd) : Materialized root spec
      ((operations.foldl StorageTxn.step (StorageTxn.start state path)).finish last) := by
  have hundo := StorageTxn.run_undoable operations (StorageTxn.start_undoable state path)
  have hrun := @StorageTxn.run_materialized root spec operations (StorageTxn.start state path) h
  cases last with
  | commit => exact hrun
  | rollback => exact UndoAction.restore_all_materialized hrun hundo.valid

theorem rollback_entries (state : State) (path : VirtualPath) (operations : List TxnOperation) :
    ((operations.foldl StorageTxn.step (StorageTxn.start state path)).finish .rollback).entries.get =
      state.entries.get := by
  have hundo := StorageTxn.run_undoable operations (StorageTxn.start_undoable state path)
  exact (UndoAction.get_restore_all hundo.valid).trans hundo.undone

/-! ### Sequences of mutations -/

/-- The mutation creates no entry below `root` that carries all keys of the index, unless it is
refused. -/
def Projects (root : VirtualPath) (spec : IndexSpec) (state : State) : Mutation → Prop
  | .createSubtreeAtomic top items => (state.createSubtreeAtomic top items).isOk = true →
      ∀ item ∈ items, Under root item.path → materializedRowValues spec item.entry = none
  | _ => True

/-- Every mutation but the creation of a subtree with rows of its own keeps an index
materialized. -/
theorem Materialized.next (hkeys : spec.keys ≠ [])
    {state : State} (h : Materialized root spec state) {mutation : Mutation}
    (hprojects : Projects root spec state mutation) : Materialized root spec (state.next mutation) := by
  rw [State.next]
  cases hresult : state.mutate mutation with
  | error e => exact h
  | ok state' =>
    dsimp only
    cases mutation with
    | put path entry cas =>
      obtain ⟨⟨version, state''⟩, hput, rfl⟩ := map_eq_ok.1 hresult
      exact h.put hput
    | appendFile path bytes => exact h.appendFile hkeys hresult
    | delete path => exact h.delete hresult
    | deleteIfVersion path expected => exact h.deleteIfVersion hresult
    | createSubtreeAtomic top items =>
      obtain ⟨⟨versions, state''⟩, hcreate, rfl⟩ := map_eq_ok.1 hresult
      exact h.createSubtreeAtomic hcreate (hprojects (by rw [hcreate]; rfl))
    | transaction path operations last =>
      obtain rfl := Except.ok.inj hresult
      exact h.transaction path operations last

/-- An index declared where there are no entries is materialized. -/
theorem materialized_of_ensureIndex (hkind : spec.kind = .exact ∨ spec.kind = .pre)
    (hnew : ∀ declared ∈ state.indexes, ¬ (declared.1 = root.asStr ∧ declared.2.name = spec.name))
    (hempty : ∀ stored ∈ state.entries.rows, ¬ Under root stored.path)
    (h : state.ensureIndex root spec = .ok state') : Materialized root spec state' := by
  have hfind : (state.indexes.find? fun declared =>
      declared.1 = root.asStr ∧ declared.2.name = spec.name) = none := by
    rw [List.find?_eq_none]
    exact fun declared hmem heq => hnew declared hmem (of_decide_eq_true heq)
  simp only [State.ensureIndex, bind_eq_ok, rejectIf_eq_ok, exists_const, hfind, if_pos hkind,
    pure_eq_ok] at h
  obtain ⟨-, rfl⟩ := h
  refine ⟨⟨root.asStr, spec, .empty⟩, Table.get_put_self _ _, rfl, ⟨fun row => ?_⟩⟩
  refine iff_of_false List.not_mem_nil ?_
  rintro ⟨hunder, hrow⟩
  obtain ⟨entry, hvalue, -⟩ := Option.bind_eq_some_iff.1 hrow
  obtain ⟨stored, hget, -⟩ := Option.map_eq_some_iff.1 hvalue
  have hpath : stored.path = row.path := Table.key_of_get hget
  exact hempty stored (Table.mem_of_get hget) (hpath ▸ hunder)

end Ironclaw.Filesystem
