import Ironclaw.Lib.Dict
import Ironclaw.Lib.Ordered
import Ironclaw.Lib.Paging
import Ironclaw.Lib.SortedMap
import Ironclaw.Filesystem.InMemory

/-! # Directory listings

`list_dir` and `list_dir_page` of `in_memory.rs`. There are no directories in the store: a child of a
directory is the first segment behind it of some stored path, and is a directory itself when the path goes
on. Both listings go through the stored paths in the order the hash map hands them out. The full listing
collects the children and sorts them; a page keeps the first ones it has seen, and drops the last of them
when there are too many.

`discovered` is what the stored paths say about a name, whatever their order. Both loops compute it. -/

namespace Ironclaw.Filesystem

inductive FileType
  | file
  | directory
  | symlink
  | other
deriving DecidableEq

structure DirEntry where
  name : String
  path : VirtualPath
  fileType : FileType

/-- The order in which a hash map hands out its elements. -/
structure HashOrder (α : Type) where
  list : List α → List α
  perm : ∀ l, (list l).Perm l

def firstSegment (text : String) : String × Bool :=
  match text.toList.findIdx? (· == '/') with
  | some idx => (String.ofList (text.toList.take idx), true)
  | none => (text, false)

def joinPath (parent child : String) : String :=
  if Text.endsWith parent "/" then parent ++ child else parent ++ "/" ++ child

/-- The child of the directory that a stored path lies in, and whether the path goes on behind it. -/
def childOf (dir stored : VirtualPath) : Option (String × Bool) :=
  (Text.stripHead stored.asStr (withTrailingSlash dir.asStr)).map firstSegment

def typeOf (hasMore : Bool) : FileType := if hasMore then .directory else .file

def dirEntry (dir : VirtualPath) (child : String × FileType) : Except FilesystemError DirEntry :=
  match VirtualPath.new (joinPath dir.asStr child.1) with
  | .ok path => .ok ⟨child.1, path, child.2⟩
  | .error e => .error (.contract e)

/-! ### The full listing -/

/-- One stored path: the first discovery of a name fixes its type, a later one makes it a directory. -/
def seeChild (dir : VirtualPath) (seen : Dict String FileType) (stored : VirtualPath) :
    Dict String FileType :=
  match childOf dir stored with
  | none => seen
  | some (head, hasMore) =>
    if head = "" then seen
    else
      match Dict.lookup seen head with
      | some existing => Dict.insert seen head (if hasMore then .directory else existing)
      | none => Dict.insert seen head (typeOf hasMore)

def listDir (state : State) (entryOrder : HashOrder StoredEntry)
    (seenOrder : HashOrder (String × FileType)) (dir : VirtualPath) :
    Except FilesystemError (List DirEntry) := do
  let keys := (entryOrder.list state.entries.rows).map (·.path)
  let seen := keys.foldl (seeChild dir) Table.empty
  let out ← (seenOrder.list (Dict.pairs seen)).mapM (dirEntry dir)
  return orderBy DirEntry.name out

/-! ### A page -/

/-- One stored path: as in the full listing, behind the cursor and with the last name dropped when the page
is too long. -/
def pageChild (dir : VirtualPath) (after : Option String) (maxEntries : ℕ)
    (page : SortedMap String FileType) (stored : VirtualPath) : SortedMap String FileType :=
  match childOf dir stored with
  | none => page
  | some (head, hasMore) =>
    if head = "" ∨ after.any (head ≤ ·) then page
    else
      match page.get head with
      | some _ => if hasMore then page.insert head .directory else page
      | none => page.insertBounded maxEntries head (typeOf hasMore)

def listDirPage (state : State) (entryOrder : HashOrder StoredEntry) (dir : VirtualPath)
    (after : Option String) (maxEntries : ℕ) : Except FilesystemError (List DirEntry) :=
  if maxEntries = 0 then .ok []
  else
    let keys := (entryOrder.list state.entries.rows).map (·.path)
    let page := keys.foldl (pageChild dir after maxEntries) .empty
    page.pairs.mapM (dirEntry dir)

/-- The pages one after the other, up to an empty one: the cursor is the last name, and each call finds the
entries in an order of its own. Nothing when the fuel is used up before. -/
def listPages (state : State) (entryOrders : ℕ → HashOrder StoredEntry) (dir : VirtualPath)
    (maxEntries : ℕ) : ℕ → ℕ → Option String → Option (Except FilesystemError (List DirEntry))
  | 0, _, _ => none
  | fuel + 1, call, after =>
    match listDirPage state (entryOrders call) dir after maxEntries with
    | .error e => some (.error e)
    | .ok page =>
      match page.getLast? with
      | none => some (.ok [])
      | some last =>
        (listPages state entryOrders dir maxEntries fuel (call + 1) (some last.name)).map
          fun rest => rest.map (page ++ ·)

/-! ### Children of a directory -/

theorem firstSegment_mem (text : String) :
    (firstSegment text).1.toList ∈ text.toList.splitOn '/' := by
  unfold firstSegment
  cases hidx : text.toList.findIdx? (· == '/') with
  | none =>
    have hno : '/' ∉ text.toList := by
      intro hmem
      have := List.findIdx?_eq_none_iff.1 hidx '/' hmem
      simp at this
    rw [List.splitOn_eq_singleton hno]
    exact List.mem_singleton.2 rfl
  | some idx =>
    obtain ⟨hlt, hslash, hbefore⟩ := List.findIdx?_eq_some_iff_getElem.1 hidx
    have hno : '/' ∉ text.toList.take idx := by
      intro hmem
      obtain ⟨j, hj, hget⟩ := List.getElem_of_mem hmem
      rw [List.length_take] at hj
      have hfound := hbefore j (by omega)
      rw [List.getElem_take] at hget
      rw [hget] at hfound
      simp at hfound
    have hcut : text.toList = text.toList.take idx ++ '/' :: text.toList.drop (idx + 1) := by
      rw [← eq_of_beq hslash, ← List.drop_eq_getElem_cons hlt, List.take_append_drop]
    have hsplit := congrArg (List.splitOn '/') hcut
    rw [List.splitOn_append_cons_self, List.splitOn_eq_singleton hno] at hsplit
    dsimp only
    rw [String.toList_ofList, hsplit]
    exact List.mem_cons_self

variable {dir stored : VirtualPath}

/-- A child is a component of the path it was found in. -/
theorem component_of_childOf {head : String} {hasMore : Bool}
    (h : childOf dir stored = some (head, hasMore)) : Component head.toList := by
  obtain ⟨rest, hstrip, hfirst⟩ := Option.map_eq_some_iff.1 h
  have htext := congrArg String.toList (Text.eq_of_stripHead hstrip)
  rw [withTrailingSlash_path, String.toList_append, String.toList_append, List.append_assoc] at htext
  have hsplit : [] :: components stored.asStr =
      dir.asStr.toList.splitOn '/' ++ rest.toList.splitOn '/' := by
    rw [← splitOn_render stored.normal.named fun part hp => (stored.normal.valid part hp).no_slash,
      ← stored.normal.rendered, htext]
    exact List.splitOn_append_cons_self _ _
  obtain ⟨first, more, hdir⟩ := List.exists_cons_of_ne_nil (List.splitOn_ne_nil '/' dir.asStr.toList)
  rw [hdir] at hsplit
  have hmem : head.toList ∈ components stored.asStr := by
    rw [(List.cons.inj hsplit).2]
    have := firstSegment_mem rest
    rw [hfirst] at this
    exact List.mem_append_right _ this
  exact stored.normal.valid _ hmem

theorem ne_empty_of_childOf {head : String} {hasMore : Bool}
    (h : childOf dir stored = some (head, hasMore)) : head ≠ "" := by
  rintro rfl
  exact (component_of_childOf h).ne_nil rfl

theorem exists_dirEntry {head : String} {hasMore : Bool}
    (h : childOf dir stored = some (head, hasMore)) (fileType : FileType) :
    ∃ path, dirEntry dir (head, fileType) = .ok ⟨head, path, fileType⟩ := by
  have hcomponent := component_of_childOf h
  have hall : ∀ part ∈ [head.toList], Component part :=
    fun part hp => List.mem_singleton.1 hp ▸ hcomponent
  obtain ⟨path, hpath, -⟩ := dir.exists_append hall
  have hslash : Text.endsWith dir.asStr "/" = false :=
    not_endsWith_slash dir.normal.named dir.normal.rendered
  have hjoin : joinPath dir.asStr head = path.asStr := by
    rw [joinPath, hslash, hpath, pathOf, render_append, ← dir.normal.rendered, ← String.toList_inj]
    simp [render]
  refine ⟨path, ?_⟩
  unfold dirEntry
  rw [hjoin, VirtualPath.new_eq_ok.2 (path.normal.normalize .virtual)]

/-! ### What the stored paths say about a name -/

/-- A name is a directory when some path goes on behind it, and a file when one ends there only. -/
def discovered (dir : VirtualPath) (keys : List VirtualPath) (name : String) : Option FileType :=
  if ∃ stored ∈ keys, childOf dir stored = some (name, true) then some .directory
  else if ∃ stored ∈ keys, childOf dir stored = some (name, false) then some .file
  else none

section discovered

variable {dir : VirtualPath} {keys : List VirtualPath}

theorem discovered_perm {keys' : List VirtualPath} (h : keys.Perm keys') (name : String) :
    discovered dir keys name = discovered dir keys' name := by
  unfold discovered
  simp only [h.mem_iff]

theorem childOf_of_discovered {name : String} {fileType : FileType}
    (h : discovered dir keys name = some fileType) :
    ∃ stored ∈ keys, ∃ hasMore, childOf dir stored = some (name, hasMore) := by
  unfold discovered at h
  split_ifs at h with hdir hfile
  · obtain ⟨stored, hmem, hchild⟩ := hdir
    exact ⟨stored, hmem, true, hchild⟩
  · obtain ⟨stored, hmem, hchild⟩ := hfile
    exact ⟨stored, hmem, false, hchild⟩

theorem discovered_concat_of_none {stored : VirtualPath} (h : childOf dir stored = none)
    (name : String) : discovered dir (keys ++ [stored]) name = discovered dir keys name := by
  unfold discovered
  simp [or_and_right, exists_or, h]

/-- One more path tells about its own child: a path that ends there does not undo a directory. -/
theorem discovered_concat {stored : VirtualPath} {head : String} {hasMore : Bool}
    (h : childOf dir stored = some (head, hasMore)) (name : String) :
    discovered dir (keys ++ [stored]) name =
      if head = name then
        some (if hasMore then .directory else (discovered dir keys name).getD .file)
      else discovered dir keys name := by
  have hmem : ∀ more, (∃ p ∈ keys ++ [stored], childOf dir p = some (name, more)) ↔
      (∃ p ∈ keys, childOf dir p = some (name, more)) ∨ head = name ∧ hasMore = more := by
    intro more
    simp [or_and_right, exists_or, h]
  unfold discovered
  rw [if_congr (hmem true) rfl rfl, if_congr (hmem false) rfl rfl]
  by_cases hname : head = name
  · cases hasMore
    · simp only [hname, true_and, Bool.false_eq_true, or_false, or_true, if_true, if_false]
      split_ifs
      · rfl
      · rfl
      · rfl
    · simp [hname]
  · simp [hname]

end discovered

/-! ### The loops -/

section loops

variable {dir : VirtualPath}

theorem seenChildren_lookup (keys : List VirtualPath) (name : String) :
    Dict.lookup (keys.foldl (seeChild dir) Table.empty) name = discovered dir keys name := by
  induction keys using List.reverseRecOn with
  | nil => rfl
  | append_singleton keys stored ih =>
    rw [List.foldl_append, List.foldl_cons, List.foldl_nil, seeChild]
    cases hchild : childOf dir stored with
    | none => rw [discovered_concat_of_none hchild, ← ih]
    | some child =>
      obtain ⟨head, hasMore⟩ := child
      rw [discovered_concat hchild, ← ih]
      dsimp only
      rw [if_neg (ne_empty_of_childOf hchild)]
      cases hlookup : Dict.lookup (keys.foldl (seeChild dir) Table.empty) head with
      | some existing =>
        rw [Dict.lookup_insert]
        split_ifs with hname hmore
        · rfl
        · rw [← hname, hlookup]
          rfl
        · rfl
      | none =>
        rw [Dict.lookup_insert]
        split_ifs with hname hmore
        · rw [typeOf, if_pos hmore]
        · rw [← hname, hlookup, typeOf, if_neg hmore]
          rfl
        · rfl

/-- The children behind a cursor, all of them in order. -/
def children (dir : VirtualPath) (after : Option String) (keys : List VirtualPath) :
    SortedMap String FileType :=
  keys.foldl (fun found stored =>
    match childOf dir stored with
    | none => found
    | some (head, hasMore) =>
      if after.any (head ≤ ·) then found
      else found.insert head (if hasMore then .directory else (found.get head).getD .file)) .empty

variable (after : Option String)

theorem children_concat (keys : List VirtualPath) (stored : VirtualPath) :
    children dir after (keys ++ [stored]) =
      match childOf dir stored with
      | none => children dir after keys
      | some (head, hasMore) =>
        if after.any (head ≤ ·) then children dir after keys
        else (children dir after keys).insert head
          (if hasMore then .directory else ((children dir after keys).get head).getD .file) := by
  rw [children, List.foldl_append]
  rfl

theorem children_get (keys : List VirtualPath) (name : String) :
    (children dir after keys).get name =
      if after.any (name ≤ ·) then none else discovered dir keys name := by
  induction keys using List.reverseRecOn with
  | nil => split_ifs <;> rfl
  | append_singleton keys stored ih =>
    rw [children_concat]
    cases hchild : childOf dir stored with
    | none => rw [discovered_concat_of_none hchild, ← ih]
    | some child =>
      obtain ⟨head, hasMore⟩ := child
      rw [discovered_concat hchild]
      dsimp only
      by_cases hname : head = name
      · subst hname
        by_cases hhead : after.any (head ≤ ·) = true
        · rw [if_pos hhead, if_pos hhead, ih, if_pos hhead]
        · rw [if_neg hhead] at ih ⊢
          rw [if_neg hhead, SortedMap.get_insert, if_pos rfl, if_pos rfl, ih]
      · rw [if_neg hname, ← ih]
        by_cases hhead : after.any (head ≤ ·) = true
        · rw [if_pos hhead]
        · rw [if_neg hhead, SortedMap.get_insert, if_neg hname]

/-- The children a page has kept: the first ones behind the cursor. -/
theorem pageChildren_eq (maxEntries : ℕ) (keys : List VirtualPath) :
    keys.foldl (pageChild dir after maxEntries) .empty =
      (children dir after keys).take maxEntries := by
  induction keys using List.reverseRecOn with
  | nil => exact SortedMap.eq_of_pairs List.take_nil.symm
  | append_singleton keys stored ih =>
    rw [List.foldl_append, List.foldl_cons, List.foldl_nil, ih, pageChild, children_concat]
    cases hchild : childOf dir stored with
    | none => rfl
    | some child =>
      obtain ⟨head, hasMore⟩ := child
      dsimp only
      by_cases hhead : after.any (head ≤ ·) = true
      · rw [if_pos (.inr hhead), if_pos hhead]
      · rw [if_neg (not_or.2 ⟨ne_empty_of_childOf hchild, hhead⟩), if_neg hhead]
        generalize hfound : children dir after keys = found
        cases hpage : (found.take maxEntries).get head with
        | some existing =>
          cases hasMore
          -- the path ends at the name, which keeps its type
          · have hget := SortedMap.get_of_get_take hpage
            simp only [Bool.false_eq_true, if_false, hget, Option.getD_some]
            rw [SortedMap.insert_eq_self hget]
          · exact SortedMap.insert_take_of_get hpage
        | none =>
          dsimp only
          rw [SortedMap.insertBounded_take]
          cases hget : found.get head with
          | none => cases hasMore <;> rfl
          -- the name was dropped before, and is dropped again
          | some existing =>
            rw [SortedMap.take_insert_of_dropped hget hpage,
              SortedMap.take_insert_of_dropped hget hpage]

theorem pageChildren_pairs (maxEntries : ℕ) (keys : List VirtualPath) :
    (keys.foldl (pageChild dir after maxEntries) .empty).pairs =
      pageAfter Prod.fst maxEntries (children dir none keys).pairs after := by
  have hfilter : children dir after keys =
      (children dir none keys).filter fun name => after.all (· < name) := by
    apply SortedMap.ext_get
    intro name
    rw [SortedMap.get_filter, children_get, children_get]
    cases after with
    | none => simp
    | some cursor =>
      simp only [Option.any_some, Option.any_none, Option.all_some, decide_eq_true_eq,
        Bool.false_eq_true, if_false]
      by_cases hname : name ≤ cursor
      · rw [if_pos hname, if_neg (not_lt.2 hname)]
      · rw [if_neg hname, if_pos (not_le.1 hname)]
  rw [pageChildren_eq, hfilter]
  rfl

theorem children_perm {keys keys' : List VirtualPath} (h : keys.Perm keys') (after : Option String) :
    children dir after keys = children dir after keys' := by
  apply SortedMap.ext_get
  intro name
  rw [children_get, children_get, discovered_perm h]

theorem seenChildren_perm (keys : List VirtualPath) :
    (Dict.pairs (keys.foldl (seeChild dir) Table.empty)).Perm (children dir none keys).pairs := by
  have hnodup : (Dict.pairs (keys.foldl (seeChild dir) Table.empty)).Nodup :=
    (keys.foldl (seeChild dir) Table.empty).nodup.of_map
  have hnodup' : (children dir none keys).pairs.Nodup :=
    (children dir none keys).sorted.imp fun hlt heq => absurd (congrArg Prod.fst heq) hlt.ne
  refine (List.perm_ext_iff_of_nodup hnodup hnodup').2 ?_
  rintro ⟨name, fileType⟩
  rw [← Dict.lookup_eq_some, seenChildren_lookup, ← SortedMap.get_eq_some, children_get]
  rfl

end loops

/-! ### Pages and listing -/

theorem mapM_eq_ok {α β ε : Type} {f : α → Except ε β} {g : α → β} {l : List α}
    (h : ∀ a ∈ l, f a = .ok (g a)) : l.mapM f = .ok (l.map g) := by
  induction l with
  | nil => rfl
  | cons a l ih =>
    rw [List.mapM_cons, h a List.mem_cons_self, ih fun b hb => h b (List.mem_cons_of_mem _ hb)]
    rfl

def State.keys (state : State) : List VirtualPath := state.entries.rows.map (·.path)

theorem HashOrder.keys_perm (order : HashOrder StoredEntry) (state : State) :
    ((order.list state.entries.rows).map (·.path)).Perm state.keys :=
  (order.perm state.entries.rows).map _

section listing

variable (state : State) (dir : VirtualPath)

theorem exists_entries : ∃ entry : String × FileType → DirEntry,
    ∀ child ∈ (children dir none state.keys).pairs,
      dirEntry dir child = .ok (entry child) ∧ (entry child).name = child.1 := by
  have hall : ∀ child : String × FileType, ∃ entry, child ∈ (children dir none state.keys).pairs →
      dirEntry dir child = .ok entry ∧ entry.name = child.1 := by
    rintro ⟨name, fileType⟩
    by_cases hmem : (name, fileType) ∈ (children dir none state.keys).pairs
    · have hget := SortedMap.get_eq_some.2 hmem
      rw [children_get] at hget
      obtain ⟨stored, -, hasMore, hchild⟩ := childOf_of_discovered hget
      obtain ⟨path, hpath⟩ := exists_dirEntry hchild fileType
      exact ⟨_, fun _ => ⟨hpath, rfl⟩⟩
    · exact ⟨⟨name, dir, fileType⟩, fun h => absurd h hmem⟩
  choose entry hentry using hall
  exact ⟨entry, hentry⟩

variable {state dir} {entry : String × FileType → DirEntry}

variable
  (h : ∀ child ∈ (children dir none state.keys).pairs, dirEntry dir child = .ok (entry child) ∧ (entry child).name = child.1)
include h

theorem sorted_entries :
    ((children dir none state.keys).pairs.map entry).Pairwise fun a b => a.name < b.name := by
  refine List.pairwise_map.2 ((children dir none state.keys).sorted.imp_of_mem ?_)
  intro a b ha hb hlt
  rwa [(h a ha).2, (h b hb).2]

theorem listDir_eq (entryOrder : HashOrder StoredEntry)
    (seenOrder : HashOrder (String × FileType)) :
    listDir state entryOrder seenOrder dir =
      .ok ((children dir none state.keys).pairs.map entry) := by
  have hkeys := entryOrder.keys_perm state
  have hperm : (seenOrder.list (Dict.pairs (((entryOrder.list state.entries.rows).map (·.path)).foldl
      (seeChild dir) Table.empty))).Perm (children dir none state.keys).pairs := by
    rw [← children_perm hkeys]
    exact (seenOrder.perm _).trans (seenChildren_perm _)
  have hsorted := sorted_entries h
  have hmap := mapM_eq_ok fun child hchild => (h child (hperm.mem_iff.1 hchild)).1
  unfold listDir
  dsimp only
  rw [hmap]
  refine congrArg Except.ok ?_
  have hinj : ∀ a ∈ (children dir none state.keys).pairs.map entry,
      ∀ b ∈ (children dir none state.keys).pairs.map entry, a.name = b.name → a = b := by
    have hnames : (((children dir none state.keys).pairs.map entry).map DirEntry.name).Nodup :=
      List.pairwise_map.2 (hsorted.imp ne_of_lt)
    exact fun a ha b hb => List.inj_on_of_nodup_map hnames ha hb
  rw [← orderBy_eq_of_perm (hperm.map entry).symm hinj]
  exact List.Pairwise.insertionSort_eq (hsorted.imp le_of_lt)

theorem listDirPage_eq (entryOrder : HashOrder StoredEntry) (after : Option String) {maxEntries : ℕ}
    (hmax : 0 < maxEntries) :
    listDirPage state entryOrder dir after maxEntries =
      .ok (pageAfter DirEntry.name maxEntries ((children dir none state.keys).pairs.map entry)
        after) := by
  have hpage : ∀ child ∈ pageAfter Prod.fst maxEntries (children dir none state.keys).pairs after,
      child ∈ (children dir none state.keys).pairs := fun child hchild => (mem_pageAfter hchild).1
  rw [listDirPage, if_neg hmax.ne']
  dsimp only
  rw [pageChildren_pairs, children_perm (entryOrder.keys_perm state),
    mapM_eq_ok fun child hchild => (h child (hpage child hchild)).1]
  refine congrArg Except.ok ?_
  rw [pageAfter, pageAfter, List.filter_map, ← List.map_take]
  congr 2
  refine List.filter_congr fun child hchild => ?_
  rw [Function.comp_apply, (h child hchild).2]

omit h

end listing

/-- The pages from a cursor on are what is left of the listing. -/
theorem listPages_rest {state : State} {dir : VirtualPath} {listing : List DirEntry} {maxEntries : ℕ}
    (hsorted : listing.Pairwise (DirEntry.name · < DirEntry.name ·)) (hmax : 0 < maxEntries)
    (hpage : ∀ entryOrder after, listDirPage state entryOrder dir after maxEntries =
      .ok (pageAfter DirEntry.name maxEntries listing after))
    (entryOrders : ℕ → HashOrder StoredEntry) :
    ∀ {fuel call : ℕ} {after : Option String} {rest : List DirEntry},
      Rest DirEntry.name listing after rest → rest.length < fuel →
      listPages state entryOrders dir maxEntries fuel call after = some (.ok rest)
  | 0, _, _, _, _, hfuel => absurd hfuel (Nat.not_lt_zero _)
  | fuel + 1, call, after, rest, hrest, hfuel => by
    rw [listPages, hpage, hrest.pageAfter_eq hsorted]
    dsimp only
    cases hlast : (rest.take maxEntries).getLast? with
    | none => rw [eq_nil_of_take_getLast? hmax hlast]
    | some last =>
      have hshorter := length_drop_lt hlast
      dsimp only
      rw [listPages_rest hsorted hmax hpage entryOrders (hrest.next hlast) (by omega)]
      exact congrArg (fun l => some (Except.ok l)) (List.take_append_drop maxEntries rest)

/-- Reading a directory page by page gives the full listing, names and types: whatever the order in which
each call finds the entries, for pages of at least one entry. -/
theorem pages_eq_listDir (state : State) (dir : VirtualPath) (maxEntries : ℕ) (hmax : 1 ≤ maxEntries) :
    ∃ listing, (∀ entryOrder seenOrder, listDir state entryOrder seenOrder dir = .ok listing) ∧
      ∀ entryOrders fuel, listing.length < fuel →
        listPages state entryOrders dir maxEntries fuel 0 none = some (.ok listing) := by
  obtain ⟨entry, hentry⟩ := exists_entries state dir
  refine ⟨_, listDir_eq hentry, fun entryOrders fuel hfuel => ?_⟩
  exact listPages_rest (sorted_entries hentry) hmax
    (fun entryOrder after => listDirPage_eq hentry entryOrder after hmax) entryOrders
    (.inl ⟨rfl, rfl⟩) hfuel

def projectsPath : VirtualPath :=
  ⟨"/projects/p", @normalizeAbsolutePath_normal "/projects/p" _ .virtual (by decide +kernel),
    by decide +kernel⟩

def notesPath : VirtualPath :=
  ⟨"/projects/p/notes",
    @normalizeAbsolutePath_normal "/projects/p/notes" _ .virtual (by decide +kernel),
    by decide +kernel⟩

def nestedPath : VirtualPath :=
  ⟨"/projects/p/notes/a.md",
    @normalizeAbsolutePath_normal "/projects/p/notes/a.md" _ .virtual (by decide +kernel),
    by decide +kernel⟩

/-- A directory that holds a file, and below the file's name another one. -/
def notesState : State :=
  { State.new with
    entries := (Table.empty.put ⟨notesPath, .bytes [], .first⟩).put ⟨nestedPath, .bytes [], .first⟩ }

theorem notes_listed_as_directory :
    ∃ listing, (∀ entryOrder seenOrder,
        listDir notesState entryOrder seenOrder projectsPath = .ok listing) ∧
      listing.map (fun entry => (entry.name, entry.fileType)) = [("notes", .directory)] ∧
      ∀ entryOrders fuel, listing.length < fuel →
        listPages notesState entryOrders projectsPath 1 fuel 0 none = some (.ok listing) := by
  obtain ⟨listing, hlisting, hpages⟩ := pages_eq_listDir notesState projectsPath 1 le_rfl
  refine ⟨listing, hlisting, ?_, hpages⟩
  have hrun := hlisting ⟨id, fun _ => .refl _⟩ ⟨id, fun _ => .refl _⟩
  have hcomputed : (listDir notesState ⟨id, fun _ => .refl _⟩ ⟨id, fun _ => .refl _⟩ projectsPath).map
      (List.map fun entry => (entry.name, entry.fileType)) = .ok [("notes", .directory)] := by
    decide +kernel
  rw [hrun] at hcomputed
  exact Except.ok.inj hcomputed

end Ironclaw.Filesystem
