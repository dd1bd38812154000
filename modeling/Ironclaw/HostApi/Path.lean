import Ironclaw.Lib.Segments
import Ironclaw.HostApi.Ids

/-! # Virtual and scoped paths

The path types of `path.rs`. A path text is read as the list of its components (`components`);
`normalizeAbsolutePath` writes that list out again, so a normal text and its components determine
each other, and every operation on paths below is described by what it does to the components. -/

namespace Ironclaw

/-! ### Normalization -/

/-- The kinds of paths. -/
inductive PathKind
  | virtual
  | scoped
  | mountAlias
deriving DecidableEq

def redactedPathValue : String := "<redacted path>"

def invalidPathErrorValue (raw : String) : PathKind → String
  | .scoped => redactedPathValue
  | .virtual | .mountAlias => raw

/-- The loop over the segments: empty ones and `.` are skipped, `..` is refused. -/
def pushParts (invalidValue : String) (parts : List String) :
    List String → Except HostApiError (List String)
  | [] => .ok parts
  | part :: rest =>
    if part = "" ∨ part = "." then pushParts invalidValue parts rest
    else if part = ".." then
      .error (.invalidPath invalidValue "`..` segments are not allowed")
    else pushParts invalidValue (parts ++ [part]) rest

/-- An absolute path without empty and dot segments. -/
def normalizeAbsolutePath (raw : String) (kind : PathKind) : Except HostApiError String := do
  let invalidValue := invalidPathErrorValue raw kind
  rejectIf (raw = "") (.invalidPath invalidValue "path must not be empty")
  rejectIf ('\x00' ∈ raw.toList ∨ raw.toList.any isControl = true)
    (.invalidPath invalidValue "NUL/control characters are not allowed")
  rejectIf ('\\' ∈ raw.toList) (.invalidPath invalidValue "backslashes are not allowed")
  rejectIf (Text.startsWith raw "/" = false) (.invalidPath invalidValue "path must be absolute")
  let parts ← pushParts invalidValue [] (Text.split raw '/')
  rejectIf (parts = []) (.invalidPath invalidValue "root path is not valid here")
  let normalized := "/" ++ "/".intercalate parts
  rejectIf (kind = .mountAlias ∧ Text.endsWith normalized "/" = true)
    (.invalidPath normalized "mount alias must not end with slash")
  return normalized

/-- A segment that names something: neither empty nor `.`. -/
def significant (part : List Char) : Bool := part != [] && part != ['.']

def components (text : String) : List (List Char) := segments '/' significant text.toList

/-- The texts that name a path below the root. -/
structure Absolute (raw : String) : Prop where
  no_control : ∀ c ∈ raw.toList, isControl c = false
  no_backslash : '\\' ∉ raw.toList
  rooted : ∃ rest, raw.toList = '/' :: rest
  no_parent : ['.', '.'] ∉ raw.toList.splitOn '/'
  named : components raw ≠ []

theorem significant_nil : significant [] = false := rfl

theorem pushParts_eq_ok {invalidValue : String} {segs parts out : List String} :
    pushParts invalidValue parts segs = .ok out ↔
      ".." ∉ segs ∧ out = parts ++ segs.filter fun part => significant part.toList := by
  induction segs generalizing parts with
  | nil => simp [pushParts, eq_comm]
  | cons part segs ih =>
    have hsig : significant part.toList = decide (¬ (part = "" ∨ part = ".")) := by
      have hempty : part.toList = [] ↔ part = "" := @String.toList_inj part ""
      have hdot : part.toList = ['.'] ↔ part = "." := @String.toList_inj part "."
      rw [Bool.eq_iff_iff, decide_eq_true_iff, significant, Bool.and_eq_true, bne_iff_ne,
        bne_iff_ne, not_or, ne_eq, ne_eq, hempty, hdot]
    rw [pushParts]
    by_cases hskip : part = "" ∨ part = "."
    · have hdots : ".." ≠ part := by
        rcases hskip with rfl | rfl <;> decide
      rw [if_pos hskip, ih, List.filter_cons_of_neg (by simp [hsig, hskip]), List.mem_cons,
        not_or]
      simp only [hdots, not_false_eq_true, true_and]
    · rw [if_neg hskip]
      by_cases hdots : part = ".."
      · rw [if_pos hdots]
        simp [hdots]
      · rw [if_neg hdots, ih, List.filter_cons_of_pos (by simp [hsig, hskip]), List.mem_cons,
          not_or, List.append_assoc, List.singleton_append]
        simp only [Ne.symm hdots, not_false_eq_true, true_and]

theorem mem_split {text part : String} {sep : Char} :
    part ∈ Text.split text sep ↔ part.toList ∈ text.toList.splitOn sep := by
  rw [Text.split, List.mem_map]
  constructor
  · rintro ⟨seg, hseg, rfl⟩
    rwa [String.toList_ofList]
  · intro h
    exact ⟨part.toList, h, String.ofList_toList⟩

theorem map_toList_parts (raw : String) :
    ((Text.split raw '/').filter fun part => significant part.toList).map String.toList =
      components raw := by
  rw [Text.split, List.filter_map, List.map_map, String.toList_comp_ofList, List.map_id,
    components, segments]
  refine List.filter_congr fun part _ => ?_
  rw [Function.comp_apply, String.toList_ofList]

theorem toList_joined {raw : String} (hne : components raw ≠ []) :
    ("/" ++ "/".intercalate
      ((Text.split raw '/').filter fun part => significant part.toList)).toList =
      render '/' (components raw) := by
  rw [String.toList_append, String.toList_intercalate, map_toList_parts,
    render_eq_intercalate hne]
  rfl

variable {text : String}

theorem of_mem_components {part : List Char} (h : part ∈ components text) :
    '/' ∉ part ∧ significant part = true :=
  of_mem_segments h

theorem not_endsWith_slash (hne : components text ≠ []) {out : String}
    (hout : out.toList = render '/' (components text)) : Text.endsWith out "/" = false := by
  rw [← Bool.not_eq_true, Text.endsWith, List.isSuffixOf_iff_suffix]
  rintro ⟨init, hinit⟩
  -- cutting `init ++ ['/']` gives an empty last segment; the last segment written out is not
  have hlast : init.splitOn '/' ++ [[]] = [] :: components text := by
    rw [← splitOn_render hne fun part hp => (of_mem_components hp).1, ← hout, ← hinit]
    exact (List.splitOn_append_cons_self init []).symm
  have hmem : [] ∈ components text := by
    have hget : ([] :: components text).getLast? = some [] := by
      rw [← hlast, List.getLast?_append]
      rfl
    rw [List.getLast?_cons_of_ne_nil hne] at hget
    exact List.mem_of_getLast? hget
  exact Bool.noConfusion ((of_mem_components hmem).2.symm.trans significant_nil)

/-- Normalization succeeds on the absolute texts and writes their components out. -/
theorem normalizeAbsolutePath_eq_ok {raw text : String} {kind : PathKind} :
    normalizeAbsolutePath raw kind = .ok text ↔
      Absolute raw ∧ text.toList = render '/' (components raw) := by
  have hslash : Text.startsWith raw "/" = true ↔ ∃ rest, raw.toList = '/' :: rest :=
    Text.startsWith_iff
  have hcontrol : ¬ ('\x00' ∈ raw.toList ∨ raw.toList.any isControl = true) ↔
      ∀ c ∈ raw.toList, isControl c = false := by
    rw [not_or, Bool.not_eq_true, List.any_eq_false]
    simp only [Bool.not_eq_true]
    exact ⟨fun h => h.2, fun h => ⟨fun hnul => Bool.noConfusion (h _ hnul), h⟩⟩
  have hparts : (Text.split raw '/').filter (fun part => significant part.toList) = [] ↔
      components raw = [] := by
    rw [← map_toList_parts, List.map_eq_nil_iff]
  simp only [normalizeAbsolutePath, bind_eq_ok, rejectIf_eq_ok, exists_const, pushParts_eq_ok,
    List.nil_append, pure_eq_ok, hcontrol, Bool.not_eq_false, hslash, mem_split]
  constructor
  · rintro ⟨-, hctl, hback, hroot, parts, ⟨hdots, rfl⟩, hne, -, rfl⟩
    have hnamed : components raw ≠ [] := fun h => hne (hparts.2 h)
    exact ⟨⟨hctl, hback, hroot, hdots, hnamed⟩, toList_joined hnamed⟩
  · rintro ⟨⟨hctl, hback, hroot, hdots, hne⟩, htext⟩
    refine ⟨?_, hctl, hback, hroot, _, ⟨hdots, rfl⟩, fun h => hne (hparts.1 h), ?_, ?_⟩
    · rintro rfl
      exact hne rfl
    -- the trailing slash of an alias is refused, and never there
    · rw [not_endsWith_slash hne (toList_joined hne)]
      exact fun h => Bool.noConfusion h.2
    · rw [← String.toList_inj, htext, toList_joined hne]

/-- A component a path can hold. -/
structure Component (part : List Char) : Prop where
  no_slash : '/' ∉ part
  named : significant part = true
  not_parent : part ≠ ['.', '.']
  no_control : ∀ c ∈ part, isControl c = false
  no_backslash : '\\' ∉ part

theorem component_of_valid {value : String} (h : ValidScopeId value) : Component value.toList where
  no_slash := h.no_slash
  named := by
    rw [significant, Bool.and_eq_true, bne_iff_ne, bne_iff_ne]
    exact ⟨fun heq => h.nonempty (String.toList_inj.1 heq),
      fun heq => h.not_dot (String.toList_inj.1 heq)⟩
  not_parent := fun heq => h.not_dotdot (String.toList_inj.1 heq)
  no_control := h.no_control
  no_backslash := h.no_backslash

/-- A text as normalization leaves it: its components, each behind one slash. -/
structure Normal (text : String) : Prop where
  named : components text ≠ []
  valid : ∀ part ∈ components text, Component part
  rendered : text.toList = render '/' (components text)

theorem Absolute.component {raw : String} (h : Absolute raw) {part : List Char}
    (hp : part ∈ components raw) : Component part where
  no_slash := (of_mem_components hp).1
  named := (of_mem_components hp).2
  not_parent := fun heq => h.no_parent (heq ▸ List.mem_of_mem_filter hp)
  no_control := fun c hc => h.no_control c (mem_of_mem_splitOn (List.mem_of_mem_filter hp) c hc).1
  no_backslash := fun hc =>
    h.no_backslash (mem_of_mem_splitOn (List.mem_of_mem_filter hp) _ hc).1

variable {parts : List (List Char)}

theorem components_rendered (hne : parts ≠ [])
    (h : ∀ part ∈ parts, Component part) (htext : text.toList = render '/' parts) :
    components text = parts := by
  rw [components, htext]
  exact segments_render hne (fun part hp => ⟨(h part hp).no_slash, (h part hp).named⟩)
    significant_nil

theorem normal_of_rendered (hne : parts ≠ [])
    (h : ∀ part ∈ parts, Component part) (htext : text.toList = render '/' parts) :
    Normal text := by
  have hparts := components_rendered hne h htext
  exact ⟨hparts ▸ hne, hparts ▸ h, hparts ▸ htext⟩

theorem normalizeAbsolutePath_components {raw text : String} {kind : PathKind}
    (h : normalizeAbsolutePath raw kind = .ok text) : components text = components raw := by
  obtain ⟨hraw, htext⟩ := normalizeAbsolutePath_eq_ok.1 h
  exact components_rendered hraw.named (fun part hp => hraw.component hp) htext

theorem normalizeAbsolutePath_normal {raw text : String} {kind : PathKind}
    (h : normalizeAbsolutePath raw kind = .ok text) : Normal text := by
  obtain ⟨hraw, htext⟩ := normalizeAbsolutePath_eq_ok.1 h
  exact normal_of_rendered hraw.named (fun part hp => hraw.component hp) htext

namespace Normal

variable {text : String}

theorem absolute (h : Normal text) : Absolute text where
  no_control := fun c hc => by
    rcases of_mem_render (h.rendered ▸ hc) with rfl | ⟨part, hp, hc⟩
    · rfl
    · exact (h.valid part hp).no_control c hc
  no_backslash := fun hc => by
    rcases of_mem_render (h.rendered ▸ hc) with hslash | ⟨part, hp, hc⟩
    · exact absurd hslash (by decide)
    · exact (h.valid part hp).no_backslash hc
  rooted := ⟨_, h.rendered.trans (render_eq_intercalate h.named)⟩
  no_parent := by
    rw [h.rendered, splitOn_render h.named fun part hp => (h.valid part hp).no_slash]
    intro hdots
    rcases List.mem_cons.1 hdots with heq | hp
    · exact List.cons_ne_nil _ _ heq
    · exact (h.valid _ hp).not_parent rfl
  named := h.named

theorem ext {other : String} (h : Normal text) (h' : Normal other)
    (hparts : components text = components other) : text = other := by
  rw [← String.toList_inj, h.rendered, h'.rendered, hparts]

end Normal

/-! ### The path types -/

def pathMatchesAlias (name path : String) : Bool :=
  path == name || Text.startsWith path (name ++ "/")

/-- What a virtual path may begin with. -/
def virtualRoots : List String :=
  ["/engine", "/system/settings", "/system/extensions", "/system/skills", "/users", "/projects",
    "/memory", "/artifacts", "/tmp", "/secrets", "/events", "/processes", "/authorization",
    "/outbound", "/run-state", "/approvals", "/threads", "/conversations", "/turns",
    "/checkpoint-state", "/resources", "/product-results", "/tenant-shared", "/tenants"]

/-- The path is one of the roots, or lies below one. -/
def hasKnownRoot (normalized : String) : Bool :=
  virtualRoots.any fun root => normalized == root || Text.startsWith normalized (root ++ "/")

/-- A canonical path of the durable store. -/
structure VirtualPath where
  asStr : String
  normal : Normal asStr
  rooted : hasKnownRoot asStr = true
deriving DecidableEq

/-- A path as a runtime sees it through its mounts. -/
structure ScopedPath where
  asStr : String
  normal : Normal asStr
deriving DecidableEq

/-- The name under which a mount appears to a runtime. -/
structure MountAlias where
  asStr : String
  normal : Normal asStr
deriving DecidableEq

namespace VirtualPath

def new (value : String) : Except HostApiError VirtualPath :=
  match h : normalizeAbsolutePath value .virtual with
  | .error e => .error e
  | .ok normalized =>
    if hroot : hasKnownRoot normalized = true then
      .ok ⟨normalized, normalizeAbsolutePath_normal h, hroot⟩
    else .error (.invalidPath normalized "virtual path must begin with a known root")

def joinTail (path : VirtualPath) (tail : String) : Except HostApiError VirtualPath :=
  if tail = "" then .ok path
  else new (Text.trimEndMatches path.asStr '/' ++ "/" ++ tail)

end VirtualPath

namespace MountAlias

def new (value : String) : Except HostApiError MountAlias :=
  match h : normalizeAbsolutePath value .mountAlias with
  | .error e => .error e
  | .ok normalized => .ok ⟨normalized, normalizeAbsolutePath_normal h⟩

end MountAlias

namespace ScopedPath

def rawHostPrefixes : List String :=
  ["/Users/", "/home/", "/root/", "/etc/", "/var/", "/private/", "/Volumes/", "/Library/",
    "/usr/", "/opt/", "/tmp/", "/proc/", "/sys/"]

def looksLikeUrl (value : String) : Bool := Text.contains value "://"

/-- A drive letter: `:` as the second byte, then a slash of either kind. -/
def looksLikeWindowsPath (value : String) : Bool :=
  let bytes := value.toUTF8.data
  bytes[1]? == some 58 && (bytes[2]? == some 92 || bytes[2]? == some 47)

def newWithAllowedRawHostAliases (raw : String) (rawHostAliases : List String) :
    Except HostApiError ScopedPath :=
  if looksLikeUrl raw then
    .error (.invalidPath redactedPathValue "URLs are not scoped paths")
  else if looksLikeWindowsPath raw then
    .error (.invalidPath redactedPathValue "Windows host paths are not scoped paths")
  else if rawHostPrefixes.any (Text.startsWith raw ·) &&
      !rawHostAliases.any (pathMatchesAlias · raw) then
    .error (.invalidPath redactedPathValue "raw host paths are not scoped paths")
  else
    match h : normalizeAbsolutePath raw .scoped with
    | .error e => .error e
    | .ok normalized => .ok ⟨normalized, normalizeAbsolutePath_normal h⟩

def new (value : String) : Except HostApiError ScopedPath :=
  newWithAllowedRawHostAliases value []

end ScopedPath

/-! ### What the operations do to the components -/

theorem Component.ne_nil {part : List Char} (h : Component part) : part ≠ [] := by
  rintro rfl
  exact Bool.noConfusion (significant_nil.symm.trans h.named)

theorem Normal.normalize (h : Normal text) (kind : PathKind) :
    normalizeAbsolutePath text kind = .ok text :=
  normalizeAbsolutePath_eq_ok.2 ⟨h.absolute, h.rendered⟩

/-- The text of a path given by its components. -/
def pathOf (parts : List (List Char)) : String := String.ofList (render '/' parts)

theorem normal_pathOf (hne : parts ≠ [])
    (h : ∀ part ∈ parts, Component part) : Normal (pathOf parts) :=
  normal_of_rendered hne h String.toList_ofList

theorem components_pathOf (hne : parts ≠ [])
    (h : ∀ part ∈ parts, Component part) : components (pathOf parts) = parts :=
  components_rendered hne h String.toList_ofList

theorem Normal.eq_pathOf (h : Normal text) : text = pathOf (components text) := by
  rw [← String.toList_inj, pathOf, String.toList_ofList]
  exact h.rendered

theorem pathMatchesAlias_iff {name path : String} (hname : Normal name) (hpath : Normal path) :
    pathMatchesAlias name path = true ↔ components name <+: components path := by
  rw [pathMatchesAlias, Bool.or_eq_true, beq_iff_eq, Text.startsWith_iff]
  constructor
  · intro h
    refine segments_of_continues (h.imp (congrArg String.toList) ?_)
    rintro ⟨rest, hrest⟩
    exact ⟨rest, by rw [hrest, String.toList_append, List.append_assoc]; rfl⟩
  · rintro ⟨tail, htail⟩
    have htext : path.toList = name.toList ++ render '/' tail := by
      rw [hpath.rendered, ← htail, render_append, ← hname.rendered]
    rcases eq_or_ne tail [] with rfl | hne
    · exact .inl (String.toList_inj.1 (htext.trans (List.append_nil _)))
    · refine .inr ⟨['/'].intercalate tail, ?_⟩
      rw [htext, render_eq_intercalate hne, String.toList_append, List.append_assoc]
      rfl

theorem normal_of_mem_virtualRoots {root : String} (h : root ∈ virtualRoots) : Normal root := by
  have hall : ∀ root ∈ virtualRoots, normalizeAbsolutePath root .virtual = .ok root := by
    decide +kernel
  exact normalizeAbsolutePath_normal (hall root h)

theorem hasKnownRoot_iff (h : Normal text) :
    hasKnownRoot text = true ↔ ∃ root ∈ virtualRoots, components root <+: components text := by
  rw [hasKnownRoot, List.any_eq_true]
  refine exists_congr fun root => and_congr_right fun hroot => ?_
  exact pathMatchesAlias_iff (normal_of_mem_virtualRoots hroot) h

namespace VirtualPath

theorem new_eq_ok {value : String} {path : VirtualPath} :
    new value = .ok path ↔ normalizeAbsolutePath value .virtual = .ok path.asStr := by
  obtain ⟨text, hnormal, hroot⟩ := path
  unfold new
  split
  · rename_i e he
    simp [he]
  · rename_i normalized hok
    split
    · simp only [hok, Except.ok.injEq, mk.injEq]
    · rename_i hno
      simp only [hok, reduceCtorEq, Except.ok.injEq, false_iff]
      rintro rfl
      exact hno hroot

theorem ext_components {path other : VirtualPath}
    (h : components path.asStr = components other.asStr) : path = other := by
  obtain ⟨text, hnormal, hroot⟩ := path
  obtain ⟨text', hnormal', hroot'⟩ := other
  obtain rfl : text = text' := hnormal.ext hnormal' h
  rfl

theorem rooted_append (path : VirtualPath) {text : String} (h : Normal text)
    (hparts : components path.asStr <+: components text) : hasKnownRoot text = true := by
  obtain ⟨root, hroot, hpre⟩ := (hasKnownRoot_iff path.normal).1 path.rooted
  exact (hasKnownRoot_iff h).2 ⟨root, hroot, hpre.trans hparts⟩

theorem exists_append (path : VirtualPath) {tail : List (List Char)}
    (h : ∀ part ∈ tail, Component part) :
    ∃ joined : VirtualPath, joined.asStr = pathOf (components path.asStr ++ tail) ∧
      components joined.asStr = components path.asStr ++ tail := by
  have hne : components path.asStr ++ tail ≠ [] :=
    List.append_ne_nil_of_left_ne_nil path.normal.named _
  have hvalid : ∀ part ∈ components path.asStr ++ tail, Component part := by
    intro part hp
    exact (List.mem_append.1 hp).elim (path.normal.valid part) (h part)
  have hnormal := normal_pathOf hne hvalid
  have hparts := components_pathOf hne hvalid
  have hroot : hasKnownRoot (pathOf (components path.asStr ++ tail)) = true := by
    refine path.rooted_append hnormal ?_
    rw [hparts]
    exact List.prefix_append _ _
  exact ⟨⟨pathOf (components path.asStr ++ tail), hnormal, hroot⟩, rfl, hparts⟩

/-- Joining the tail behind an alias appends its components. -/
theorem joinTail_components (path : VirtualPath) {tail : List (List Char)}
    (h : ∀ part ∈ tail, Component part) :
    ∃ joined, path.joinTail (Text.trimStartMatches (String.ofList (render '/' tail)) '/') =
      .ok joined ∧ components joined.asStr = components path.asStr ++ tail := by
  have hsep : ∀ part ∈ tail, part ≠ [] ∧ '/' ∉ part :=
    fun part hp => ⟨(h part hp).ne_nil, (h part hp).no_slash⟩
  rw [Text.trimStartMatches, String.toList_ofList, dropWhile_render hsep]
  rcases eq_or_ne tail [] with rfl | hne
  · exact ⟨path, rfl, (List.append_nil _).symm⟩
  · obtain ⟨joined, hjoined, hparts⟩ := path.exists_append h
    have hempty : String.ofList (['/'].intercalate tail) ≠ "" := by
      rw [ne_eq, String.ofList_eq_empty_iff]
      intro hnil
      -- one slash and nothing behind it has no component
      have hread := segments_render hne (fun part hp => ⟨(h part hp).no_slash, (h part hp).named⟩)
        significant_nil
      rw [render_eq_intercalate hne, hnil] at hread
      exact hne hread.symm
    have hraw : Text.trimEndMatches path.asStr '/' ++ "/" ++
        String.ofList (['/'].intercalate tail) = joined.asStr := by
      have hpath : ∀ part ∈ components path.asStr, part ≠ [] ∧ '/' ∉ part := fun part hp =>
        ⟨(path.normal.valid part hp).ne_nil, (path.normal.valid part hp).no_slash⟩
      rw [← String.toList_inj, hjoined, pathOf, String.toList_ofList, render_append,
        render_eq_intercalate hne, Text.trimEndMatches, path.normal.rendered,
        rdropWhile_render hpath]
      simp
    refine ⟨joined, ?_, hparts⟩
    rw [joinTail, if_neg hempty, hraw, new_eq_ok]
    exact joined.normal.normalize .virtual

end VirtualPath

theorem MountAlias.new_eq_ok {value : String} {name : MountAlias} :
    MountAlias.new value = .ok name ↔ normalizeAbsolutePath value .mountAlias = .ok name.asStr := by
  obtain ⟨text, hnormal⟩ := name
  unfold MountAlias.new
  split
  · rename_i e he
    simp [he]
  · rename_i normalized hok
    simp only [hok, Except.ok.injEq, MountAlias.mk.injEq]

namespace ScopedPath

theorem not_looksLikeUrl {text : String} (h : Normal text) : looksLikeUrl ("/" ++ text) = false := by
  rw [looksLikeUrl, Text.contains, decide_eq_false_iff_not]
  rintro ⟨before, after, hcut⟩
  rw [String.toList_append] at hcut
  -- the scheme's colon is not the slash in front, so `//` stands inside the normal text
  obtain ⟨c, before, rfl⟩ : ∃ c rest, before = c :: rest := by
    cases before with
    | nil => exact absurd (List.cons.inj hcut).1 (by decide)
    | cons c rest => exact ⟨c, rest, rfl⟩
  have htext : text.toList = (before ++ [':']) ++ '/' :: ('/' :: after) := by
    refine (List.cons.inj hcut).2.symm.trans ?_
    simp
  have hsplit : [] :: components text =
      (before ++ [':']).splitOn '/' ++ ([] :: after.splitOn '/') := by
    rw [← splitOn_render h.named fun part hp => (h.valid part hp).no_slash, ← h.rendered, htext,
      List.splitOn_append_cons_self]
    rfl
  obtain ⟨first, rest, hfirst⟩ :=
    List.exists_cons_of_ne_nil (List.splitOn_ne_nil '/' (before ++ [':']))
  rw [hfirst] at hsplit
  have hmem : [] ∈ components text := by
    rw [(List.cons.inj hsplit).2]
    simp
  exact (h.valid [] hmem).ne_nil rfl

theorem newWithAllowedRawHostAliases_eq_ok {raw : String} {rawHostAliases : List String}
    {path : ScopedPath} (hurl : looksLikeUrl raw = false) (hdrive : looksLikeWindowsPath raw = false)
    (hhost : rawHostPrefixes.any (Text.startsWith raw ·) = false) :
    newWithAllowedRawHostAliases raw rawHostAliases = .ok path ↔
      normalizeAbsolutePath raw .scoped = .ok path.asStr := by
  obtain ⟨text, hnormal⟩ := path
  rw [newWithAllowedRawHostAliases, hurl, hdrive, hhost]
  simp only [Bool.false_eq_true, if_false, Bool.false_and]
  split
  · rename_i e he
    simp [he]
  · rename_i normalized hok
    simp only [hok, Except.ok.injEq, mk.injEq]

end ScopedPath

end Ironclaw
