import Ironclaw.Lib.Reject
import Ironclaw.Lib.Segments
import Ironclaw.Lib.Text
import Ironclaw.Network.IpAddr

/-! # Credentials in the path of a URL

The `PathPlaceholder` arm of `apply_credential_injection` in
`ironclaw_host_runtime/src/egress/credential.rs`. The placeholder is found and replaced in the text
of the parsed path, and `Url::set_path` of the `url` crate parses that text once more. It is a
parameter here, with the path state of the URL standard (`pathState`) as its law.

The second parse leaves the replaced path alone exactly when it has nothing to do there
(`Inert`): the path does not begin with an empty segment, whose separator is taken for the one
before the path; no segment has become a dot segment, which the braced form of the placeholder
allows; and in a `file` URL the first segment has not become a drive letter. -/

namespace Ironclaw.HostRuntime

abbrev Segment := List Char

/-! ### The path of a URL -/

def isSpecial (scheme : String) : Bool :=
  scheme ∈ ["ftp", "file", "http", "https", "ws", "wss"]

/-- The path percent-encode set. -/
def inPathEncodeSet (c : Char) : Bool :=
  c.toNat ≤ 0x1F || 0x7E < c.toNat || c ∈ [' ', '"', '#', '<', '>', '?', '^', '`', '\x7b', '\x7d']

def hexDigits : List Char :=
  ['0', '1', '2', '3', '4', '5', '6', '7', '8', '9', 'A', 'B', 'C', 'D', 'E', 'F']

def hexDigit (n : ℕ) : Char := hexDigits.getD n '0'

def percentEncode (c : Char) : List Char :=
  if inPathEncodeSet c then
    (String.utf8EncodeChar c).flatMap fun byte =>
      ['%', hexDigit (byte.toNat / 16), hexDigit (byte.toNat % 16)]
  else [c]

def isSingleDot (segment : Segment) : Bool :=
  segment.map Char.toLower ∈ [['.'], ['%', '2', 'e']]

def isDoubleDot (segment : Segment) : Bool :=
  segment.map Char.toLower ∈ [['.', '.'], ['.', '%', '2', 'e'], ['%', '2', 'e', '.'],
    ['%', '2', 'e', '%', '2', 'e']]

def isDriveLetter : Segment → Bool
  | [letter, mark] => letter.isAlpha && (mark = ':' || mark = '|')
  | _ => false

def isNormalizedDriveLetter : Segment → Bool
  | [letter, mark] => letter.isAlpha && mark = ':'
  | _ => false

/-- A Windows drive letter at the head of a `file` path is written with a colon. -/
def colonDrive (segment : Segment) : Segment :=
  if isDriveLetter segment then segment.set 1 ':' else segment

def shorten (scheme : String) (path : List Segment) : List Segment :=
  if scheme = "file" ∧ path.length = 1 ∧ path.any isNormalizedDriveLetter then path
  else path.dropLast

/-- The path state, over the segments still to be read. -/
def pathState (scheme : String) : List Segment → List Segment → List Segment
  | path, [] => path
  | path, buffer :: rest =>
    if isDoubleDot buffer then
      pathState scheme (shorten scheme path ++ if rest = [] then [[]] else []) rest
    else if isSingleDot buffer then
      pathState scheme (path ++ if rest = [] then [[]] else []) rest
    else
      pathState scheme
        (path ++ [if scheme = "file" ∧ path = [] then colonDrive buffer else buffer]) rest

/-- The path start state over `text`, which then enters the path state; a URL that is not special
keeps an empty path. -/
def parsePath (scheme : String) (text : List Char) : Option (List Segment) :=
  let text := (text.filter fun c => c ∉ ['\t', '\n', '\r']).map fun c =>
    if isSpecial scheme ∧ c = '\\' then '/' else c
  let rest := if text.head? = some '/' then text.tail else text
  if text = [] ∧ ¬ isSpecial scheme then none
  else some (pathState scheme [] ((rest.splitOn '/').map (List.flatMap percentEncode)))

/-- A character as a parsed path holds it. -/
def Clean (scheme : String) (c : Char) : Prop :=
  inPathEncodeSet c = false ∧ c ≠ '/' ∧ (isSpecial scheme → c ≠ '\\')

def CleanPath (scheme : String) (path : List Segment) : Prop :=
  ∀ segment ∈ path, ∀ c ∈ segment, Clean scheme c

def isDotSegment (segment : Segment) : Bool := isSingleDot segment || isDoubleDot segment

/-- The path state has nothing to do on these segments. -/
structure Settled (scheme : String) (path : List Segment) : Prop where
  noDots : ∀ segment ∈ path, isDotSegment segment = false
  noDrive : scheme = "file" → ∀ first ∈ path.head?, colonDrive first = first

/-- `url::Url`. There are no `segments` where the path does not begin with a slash. -/
structure Url where
  scheme : String
  userinfo : String
  host : Option String
  port : Option (BitVec 16)
  query : Option String
  fragment : Option String
  segments : Option (List Segment)
  clean : ∀ path ∈ segments, CleanPath scheme path

section PathState

variable {scheme : String} {path rest : List Segment} {buffer : Segment}

theorem Settled.append (h : Settled scheme path) (hdot : isDotSegment buffer = false)
    (hdrive : scheme = "file" → path = [] → colonDrive buffer = buffer) :
    Settled scheme (path ++ [buffer]) where
  noDots segment hmem := by
    rcases List.mem_append.1 hmem with hmem | hmem
    · exact h.noDots segment hmem
    · rwa [List.mem_singleton.1 hmem]
  noDrive hfile first hfirst := by
    cases path with
    | nil =>
      cases hfirst
      exact hdrive hfile rfl
    | cons segment path => exact h.noDrive hfile first hfirst

theorem Settled.shorten (h : Settled scheme path) : Settled scheme (shorten scheme path) := by
  rw [HostRuntime.shorten]
  split
  · exact h
  · refine ⟨fun segment hmem => h.noDots segment (List.mem_of_mem_dropLast hmem), ?_⟩
    intro hfile first hfirst
    match path, hfirst with
    | first :: _ :: _, hfirst => exact h.noDrive hfile _ hfirst

theorem isDotSegment_nil : isDotSegment [] = false := rfl

theorem Settled.close (h : Settled scheme path) (last : Prop) [Decidable last] :
    Settled scheme (path ++ if last then [[]] else []) := by
  split
  · exact h.append isDotSegment_nil fun _ _ => rfl
  · rwa [List.append_nil]

theorem colonDrive_cases (buffer : Segment) :
    colonDrive buffer = buffer ∨ ∃ letter, colonDrive buffer = [letter, ':'] := by
  rw [colonDrive]
  split
  · rename_i hdrive
    match buffer, hdrive with
    | [letter, mark], _ => exact .inr ⟨letter, rfl⟩
  · exact .inl rfl

theorem isDotSegment_colon (letter : Char) : isDotSegment [letter, ':'] = false := by
  simp [isDotSegment, isSingleDot, isDoubleDot]

theorem colonDrive_colon (letter : Char) : colonDrive [letter, ':'] = [letter, ':'] := by
  rw [colonDrive]
  split <;> rfl

theorem Settled.pathState (h : Settled scheme path) (rest : List Segment) :
    Settled scheme (pathState scheme path rest) := by
  induction rest generalizing path with
  | nil => exact h
  | cons buffer rest ih =>
    rw [HostRuntime.pathState]
    split
    · exact ih (h.shorten.close _)
    split
    · exact ih (h.close _)
    rename_i hdouble hsingle
    have hdot : isDotSegment buffer = false := by simp [isDotSegment, hdouble, hsingle]
    refine ih ?_
    split
    · rcases colonDrive_cases buffer with heq | ⟨letter, heq⟩
      · rw [heq]
        exact h.append hdot fun _ _ => heq
      · rw [heq]
        exact h.append (isDotSegment_colon letter) fun _ _ => colonDrive_colon letter
    · rename_i hfirst
      exact h.append hdot fun hfile hnil => absurd ⟨hfile, hnil⟩ hfirst

/-- Segments on which there is nothing to do are kept as they are. -/
theorem pathState_of_settled (h : Settled scheme (path ++ rest)) :
    pathState scheme path rest = path ++ rest := by
  induction rest generalizing path with
  | nil => rw [pathState, List.append_nil]
  | cons buffer rest ih =>
    have hdot := h.noDots buffer (by simp)
    rw [isDotSegment, Bool.or_eq_false_iff] at hdot
    have hbuffer : (if scheme = "file" ∧ path = [] then colonDrive buffer else buffer) = buffer := by
      split
      · rename_i hfirst
        obtain ⟨hfile, rfl⟩ := hfirst
        exact h.noDrive hfile buffer rfl
      · rfl
    rw [pathState, if_neg (by simp [hdot.2]), if_neg (by simp [hdot.1]), hbuffer,
      ih (by rwa [List.append_assoc]), List.append_assoc, List.singleton_append]

theorem length_pathState_le (scheme : String) (path rest : List Segment) :
    (pathState scheme path rest).length ≤ path.length + rest.length := by
  have hclose : ∀ last : Prop, ∀ _ : Decidable last,
      (if last then [([] : Segment)] else []).length ≤ 1 := by
    intro last _
    split <;> simp
  induction rest generalizing path with
  | nil => simp [pathState]
  | cons buffer rest ih =>
    have hshort : (shorten scheme path).length ≤ path.length := by
      rw [shorten]
      split
      · exact le_rfl
      · simp
    have hlast := hclose (rest = []) inferInstance
    rw [pathState, List.length_cons]
    split
    · refine (ih _).trans ?_
      rw [List.length_append]
      omega
    split
    · refine (ih _).trans ?_
      rw [List.length_append]
      omega
    · refine (ih _).trans ?_
      rw [List.length_append, List.length_singleton]
      omega

/-- The path state holds segments of what it read, up to the colon of a drive letter. -/
theorem CleanPath.pathState (hpath : CleanPath scheme path) (hrest : CleanPath scheme rest) :
    CleanPath scheme (pathState scheme path rest) := by
  induction rest generalizing path with
  | nil => exact hpath
  | cons buffer rest ih =>
    have hlater := fun segment hmem => hrest segment (List.mem_cons_of_mem _ hmem)
    have hclose : ∀ {kept : List Segment}, kept ⊆ path →
        CleanPath scheme (kept ++ if rest = [] then [[]] else []) := by
      intro kept hkept segment hmem c hc
      rcases List.mem_append.1 hmem with hmem | hmem
      · exact hpath segment (hkept hmem) c hc
      · split at hmem <;> simp_all
    rw [pathState]
    split
    · refine ih (hclose ?_) hlater
      rw [shorten]
      split
      · exact List.Subset.refl _
      · exact List.dropLast_subset _
    split
    · exact ih (hclose (List.Subset.refl _)) hlater
    refine ih (fun segment hmem c hc => ?_) hlater
    rcases List.mem_append.1 hmem with hmem | hmem
    · exact hpath segment hmem c hc
    rw [List.mem_singleton.1 hmem] at hc
    have hbuffer := hrest buffer List.mem_cons_self
    split at hc
    · rw [colonDrive] at hc
      split at hc
      · rcases List.mem_or_eq_of_mem_set hc with hc | rfl
        · exact hbuffer c hc
        · exact ⟨rfl, by decide, fun _ => by decide⟩
      · exact hbuffer c hc
    · exact hbuffer c hc

theorem clean_hexDigit (n : ℕ) : Clean scheme (hexDigit n) := by
  have hall : ∀ c ∈ hexDigits, inPathEncodeSet c = false ∧ c ≠ '/' ∧ c ≠ '\\' := by
    simp [hexDigits, inPathEncodeSet]
  have hmem : hexDigit n ∈ hexDigits := by
    rw [hexDigit, List.getD_eq_getElem?_getD]
    cases hn : hexDigits[n]? with
    | none => exact List.mem_cons_self
    | some c => exact List.mem_of_getElem? hn
  obtain ⟨hset, hslash, hback⟩ := hall _ hmem
  exact ⟨hset, hslash, fun _ => hback⟩

theorem clean_percentEncode {c : Char} (hslash : c ≠ '/') (hback : isSpecial scheme → c ≠ '\\') :
    ∀ d ∈ percentEncode c, Clean scheme d := by
  intro d hd
  rw [percentEncode] at hd
  split at hd
  · obtain ⟨byte, _, hd⟩ := List.mem_flatMap.1 hd
    simp only [List.mem_cons, List.not_mem_nil, or_false] at hd
    rcases hd with rfl | rfl | rfl
    · exact ⟨rfl, by decide, fun _ => by decide⟩
    · exact clean_hexDigit _
    · exact clean_hexDigit _
  · rename_i hset
    rw [List.mem_singleton.1 hd]
    exact ⟨by simpa using hset, hslash, hback⟩

theorem percentEncode_of_clean {segment : Segment} (h : ∀ c ∈ segment, Clean scheme c) :
    segment.flatMap percentEncode = segment := by
  induction segment with
  | nil => rfl
  | cons c segment ih =>
    have hc : percentEncode c = [c] := by simp [percentEncode, (h c List.mem_cons_self).1]
    rw [List.flatMap_cons, hc, ih fun d hd => h d (List.mem_cons_of_mem _ hd),
      List.singleton_append]

theorem clean_of_parsePath {text : List Char} (h : path ∈ parsePath scheme text) :
    CleanPath scheme path := by
  simp only [parsePath] at h
  split at h
  · cases h
  cases h
  refine CleanPath.pathState (by simp [CleanPath]) ?_
  intro segment hmem d hd
  obtain ⟨raw, hraw, rfl⟩ := List.mem_map.1 hmem
  obtain ⟨c, hc, hd⟩ := List.mem_flatMap.1 hd
  obtain ⟨hin, hslash⟩ := mem_of_mem_splitOn hraw c hc
  refine clean_percentEncode hslash (fun hspecial => ?_) d hd
  -- a back slash of a special URL was read as a slash
  have hin : c ∈ (text.filter fun c => c ∉ ['\t', '\n', '\r']).map fun c =>
      if isSpecial scheme ∧ c = '\\' then '/' else c := by
    split at hin
    · exact List.mem_of_mem_tail hin
    · exact hin
  obtain ⟨b, _, hb⟩ := List.mem_map.1 hin
  rintro rfl
  split at hb
  · exact absurd hb (by decide)
  · rename_i hno
    exact hno ⟨hspecial, hb⟩

end PathState

/-- What the URL standard says of setting the path of a URL to a text. -/
structure SetsPath (setPath : Url → List Char → Url) : Prop where
  segments : ∀ url text, (setPath url text).segments = parsePath url.scheme text
  scheme : ∀ url text, (setPath url text).scheme = url.scheme
  userinfo : ∀ url text, (setPath url text).userinfo = url.userinfo
  host : ∀ url text, (setPath url text).host = url.host
  port : ∀ url text, (setPath url text).port = url.port
  query : ∀ url text, (setPath url text).query = url.query
  fragment : ∀ url text, (setPath url text).fragment = url.fragment

/-- The standard's own path setter. -/
def Url.withPath (url : Url) (text : List Char) : Url :=
  { url with
    segments := parsePath url.scheme text
    clean := fun _ hpath => clean_of_parsePath hpath }

theorem setsPath_withPath : SetsPath Url.withPath := by constructor <;> exact fun _ _ => rfl

variable (setPath : Url → List Char → Url)

/-! ### The injection -/

def isUnreserved (c : Char) : Bool := c.isAlphanum || c ∈ ['-', '.', '_', '~']

def isRfc3986UnreservedSegment (segment : List Char) : Bool :=
  segment ≠ [] && segment ≠ ['.'] && segment ≠ ['.', '.'] && segment.all isUnreserved

def isInSegmentPathCredentialValue (value : List Char) : Bool :=
  value ≠ [] && value.all fun c => isUnreserved c || c = ':'

/-- `str::matches(..).count()` for a pattern that is not empty: after a match the search goes on
behind it, so `skip` characters are passed over. -/
def countMatches (pattern : List Char) : ℕ → List Char → ℕ
  | _, [] => 0
  | skip + 1, _ :: text => countMatches pattern skip text
  | 0, c :: text =>
    if pattern.isPrefixOf (c :: text) then countMatches pattern (pattern.length - 1) text + 1
    else countMatches pattern 0 text

/-- `str::replacen(pattern, value, 1)` for a pattern that is not empty. -/
def replaceFirst (pattern value : List Char) : List Char → List Char
  | [] => []
  | c :: text =>
    if pattern.isPrefixOf (c :: text) then value ++ (c :: text).drop pattern.length
    else c :: replaceFirst pattern value text

def bracedLiteral (placeholder : List Char) : List Char := '\x7b' :: placeholder ++ ['\x7d']

def bracedEncoded (placeholder : List Char) : List Char :=
  ['%', '7', 'B'] ++ placeholder ++ ['%', '7', 'D']

def hostOnly (hostPort : String) : String :=
  match hostPort.toList with
  | '[' :: rest => String.ofList (rest.takeWhile (· ≠ ']'))
  | chars => if 2 ≤ chars.count ':' then hostPort else String.ofList (chars.takeWhile (· ≠ ':'))

def isLoopbackHost (host : String) : Bool :=
  let bare := Text.toAsciiLowercase (hostOnly host)
  bare = "localhost" || (Network.IpAddr.parse bare).any fun
    | .v4 ip => ip.isLoopback
    | .v6 ip => ip.isLoopback

/-- The path of the URL behind its first slash, with the placeholder replaced. -/
def rewrittenPath (placeholder value path : List Char) : Except String (List Char) := do
  let literal := bracedLiteral placeholder
  let encoded := bracedEncoded placeholder
  match (path.splitOn '/').count placeholder,
      countMatches literal 0 path + countMatches encoded 0 path with
  | 1, 0 =>
    rejectIf (isRfc3986UnreservedSegment value = false)
      "credential injection path value is invalid"
    return ['/'].intercalate <| (path.splitOn '/').map fun segment =>
      if segment = placeholder then value else segment
  | 0, 1 =>
    rejectIf (isInSegmentPathCredentialValue value = false)
      "credential injection path value is invalid"
    return if encoded <:+: path then replaceFirst encoded value path
      else replaceFirst literal value path
  | 0, 0 => .error "credential injection path placeholder was not found"
  | _, _ => .error "credential injection path placeholder must appear exactly once"

/-- `apply_credential_injection` for `PathPlaceholder`; the errors are the reasons of
`RuntimeHttpEgressError::Credential`. -/
def injectPathPlaceholder (url : Url) (placeholder value : List Char) : Except String Url := do
  rejectIf (isRfc3986UnreservedSegment placeholder = false) "credential injection target is invalid"
  rejectIf (url.scheme ≠ "https" ∧ url.host.any isLoopbackHost = false)
    "credential injection requires HTTPS (or a literal loopback host)"
  rejectIf (isRfc3986UnreservedSegment placeholder = false)
    "credential injection path placeholder is invalid"
  let segments ← okOr url.segments "credential injection target URL has no path segments"
  let text ← rewrittenPath placeholder value (['/'].intercalate segments)
  return setPath url text

/-! ### What is replaced -/

section Patterns

variable {pattern text : List Char}

theorem infix_of_countMatches (skip : ℕ) (h : countMatches pattern skip text ≠ 0) :
    pattern <:+: text := by
  induction text generalizing skip with
  | nil => exact absurd rfl h
  | cons c text ih =>
    cases skip with
    | succ skip => exact (ih skip h).trans (List.suffix_cons c text).isInfix
    | zero =>
      rw [countMatches] at h
      split at h
      · rename_i hhere
        exact (List.isPrefixOf_iff_prefix.1 hhere).isInfix
      · exact (ih 0 h).trans (List.suffix_cons c text).isInfix

theorem replaceFirst_of_infix (hne : pattern ≠ []) (h : pattern <:+: text) (value : List Char) :
    ∃ before after, text = before ++ pattern ++ after ∧
      replaceFirst pattern value text = before ++ value ++ after := by
  induction text with
  | nil => exact absurd (List.infix_nil.1 h) hne
  | cons c text ih =>
    rw [replaceFirst]
    split
    · rename_i hhere
      obtain ⟨after, hafter⟩ := List.isPrefixOf_iff_prefix.1 hhere
      refine ⟨[], after, hafter.symm, ?_⟩
      rw [← hafter, List.drop_left, List.nil_append]
    · rename_i hhere
      have hlater := (List.infix_cons_iff.1 h).resolve_left fun hp =>
        hhere (List.isPrefixOf_iff_prefix.2 hp)
      obtain ⟨before, after, htext, hreplaced⟩ := ih hlater
      exact ⟨c :: before, after, by rw [htext]; rfl, by rw [hreplaced]; rfl⟩

end Patterns

section Replacing

variable {placeholder value : List Char} {segments filled : List Segment}

/-- One occurrence of the placeholder, a whole segment or a braced part of one, is replaced. -/
def Replaced (placeholder value : List Char) (segments filled : List Segment) : Prop :=
  ∃ pattern ∈ [placeholder, bracedLiteral placeholder, bracedEncoded placeholder],
    ∃ init before after rest, (pattern = placeholder → before = [] ∧ after = []) ∧
      segments = init ++ (before ++ pattern ++ after) :: rest ∧
      filled = init ++ (before ++ value ++ after) :: rest

theorem Replaced.length_eq (h : Replaced placeholder value segments filled) :
    filled.length = segments.length := by
  obtain ⟨_, _, _, _, _, _, _, rfl, rfl⟩ := h
  rw [List.length_append, List.length_append, List.length_cons, List.length_cons]

theorem replaced_whole (h : segments.count placeholder = 1) :
    Replaced placeholder value segments
      (segments.map fun segment => if segment = placeholder then value else segment) := by
  have hmem : placeholder ∈ segments := List.count_pos_iff.1 (by omega)
  obtain ⟨init, rest, rfl⟩ := List.append_of_mem hmem
  rw [List.count_append, List.count_cons_self] at h
  have hkeep : ∀ {part : List Segment}, part.count placeholder = 0 →
      (part.map fun segment => if segment = placeholder then value else segment) = part := by
    intro part hpart
    refine (List.map_congr_left fun segment hsegment => ?_).trans (List.map_id part)
    refine if_neg ?_
    rintro rfl
    exact List.count_eq_zero.1 hpart hsegment
  refine ⟨placeholder, List.mem_cons_self, init, [], [], rest, fun _ => ⟨rfl, rfl⟩, by simp, ?_⟩
  rw [List.map_append, List.map_cons, if_pos rfl, hkeep (by omega), hkeep (by omega)]
  simp

theorem replaced_braced {pattern : List Char} (value : List Char)
    (hpattern : pattern ∈ [bracedLiteral placeholder, bracedEncoded placeholder])
    (hplaceholder : '/' ∉ placeholder) (hvalue : '/' ∉ value) (hne : segments ≠ [])
    (hsegments : ∀ segment ∈ segments, '/' ∉ segment)
    (hin : pattern <:+: ['/'].intercalate segments) :
    ∃ filled, Replaced placeholder value segments filled ∧
      replaceFirst pattern value (['/'].intercalate segments) = ['/'].intercalate filled := by
  have hshape : '/' ∉ pattern ∧ placeholder.length < pattern.length := by
    simp only [List.mem_cons, List.not_mem_nil, or_false] at hpattern
    rcases hpattern with rfl | rfl
    · refine ⟨by simp [bracedLiteral, hplaceholder], ?_⟩
      rw [bracedLiteral, List.length_append, List.length_cons]
      omega
    · refine ⟨by simp [bracedEncoded, hplaceholder], ?_⟩
      rw [bracedEncoded, List.length_append, List.length_append, List.length_cons]
      omega
  obtain ⟨hslash, hlong⟩ := hshape
  have hcut := List.splitOn_intercalate '/' hsegments hne
  obtain ⟨first, last, htext, hreplaced⟩ :=
    replaceFirst_of_infix (List.ne_nil_of_length_pos (by omega)) hin value
  obtain ⟨init, before, after, rest, hsplit⟩ := @splitOn_append_append _ _ _ '/' first last
  refine ⟨init ++ (before ++ value ++ after) :: rest, ⟨pattern, List.mem_cons_of_mem _ hpattern,
    init, before, after, rest, fun heq => absurd (congrArg List.length heq) (by omega), ?_, rfl⟩, ?_⟩
  · rw [← hsplit pattern hslash, ← htext, hcut]
  · rw [hreplaced, ← hsplit value hvalue, List.intercalate_splitOn]

theorem no_slash_of_unreserved {text : List Char}
    (h : ∀ c ∈ text, (isUnreserved c || c = ':') = true) : '/' ∉ text :=
  fun hmem => absurd (h '/' hmem) (by decide)

theorem clean_of_unreserved {scheme : String} {c : Char}
    (h : (isUnreserved c || c = ':') = true) : Clean scheme c := by
  have hother : ∀ d ∈ [' ', '"', '#', '<', '>', '?', '^', '`', '\x7b', '\x7d', '/', '\\'],
      (isUnreserved d || d = ':') = false := by simp [isUnreserved]
  have hne : ∀ d ∈ [' ', '"', '#', '<', '>', '?', '^', '`', '\x7b', '\x7d', '/', '\\'], c ≠ d := by
    rintro d hd rfl
    exact absurd h (by simp [hother c hd])
  have hrange : 0x20 ≤ c.toNat ∧ c.toNat ≤ 0x7E := by
    have hclasses : c.isAlphanum = ((decide (c.val ≥ 'A'.val ∧ c.val ≤ 'Z'.val) ||
        decide (c.val ≥ 'a'.val) && decide (c.val ≤ 'z'.val)) ||
        decide (c.val ≥ '0'.val) && decide (c.val ≤ '9'.val)) := rfl
    simp only [isUnreserved, hclasses, Bool.or_eq_true, Bool.and_eq_true, decide_eq_true_eq,
      ge_iff_le, UInt32.le_iff_toNat_le, List.mem_cons, List.not_mem_nil, or_false] at h
    rcases h with (((h | h) | h) | rfl | rfl | rfl | rfl) | rfl
    · exact ⟨le_trans (by decide) h.1, h.2.trans (by decide)⟩
    · exact ⟨le_trans (by decide) h.1, h.2.trans (by decide)⟩
    · exact ⟨le_trans (by decide) h.1, h.2.trans (by decide)⟩
    all_goals decide
  refine ⟨?_, hne '/' (by decide), fun _ => hne '\\' (by decide)⟩
  simp only [inPathEncodeSet, Bool.or_eq_false_iff, decide_eq_false_iff_not]
  refine ⟨⟨by omega, by omega⟩, fun hmem => ?_⟩
  exact hne c (List.mem_append_left ['/', '\\'] hmem) rfl

/-- The second parse has nothing to do on the path: it does not begin with an empty segment, and
its segments are settled. -/
structure Inert (scheme : String) (path : List Segment) : Prop extends Settled scheme path where
  head_ne : path.head? ≠ some []

theorem rewrittenPath_spec {text : List Char} (hplaceholder : isRfc3986UnreservedSegment placeholder)
    (hsegments : ∀ segment ∈ segments, '/' ∉ segment)
    (h : rewrittenPath placeholder value (['/'].intercalate segments) = .ok text) :
    isInSegmentPathCredentialValue value ∧ ∃ filled, Replaced placeholder value segments filled ∧
      text = ['/'].intercalate filled := by
  simp only [isRfc3986UnreservedSegment, Bool.and_eq_true, decide_eq_true_eq, List.all_eq_true]
    at hplaceholder
  obtain ⟨⟨⟨hempty, _⟩, _⟩, hunreserved⟩ := hplaceholder
  have hslash : '/' ∉ placeholder :=
    no_slash_of_unreserved fun c hc => by simp [hunreserved c hc]
  have hne : segments ≠ [] := by
    rintro rfl
    simp [rewrittenPath, countMatches, hempty.symm] at h
  have hcut := List.splitOn_intercalate '/' hsegments hne
  simp only [rewrittenPath, hcut] at h
  split at h
  · rename_i hwhole hbraced
    obtain ⟨_, hvalue, h⟩ := bind_eq_ok.1 h
    cases h
    refine ⟨?_, _, replaced_whole hwhole, rfl⟩
    rw [rejectIf_eq_ok, Bool.not_eq_false, isRfc3986UnreservedSegment] at hvalue
    simp only [Bool.and_eq_true, decide_eq_true_eq, List.all_eq_true] at hvalue
    obtain ⟨⟨⟨hsome, _⟩, _⟩, hall⟩ := hvalue
    rw [isInSegmentPathCredentialValue, Bool.and_eq_true, List.all_eq_true]
    exact ⟨by simpa using hsome, fun c hc => by simp [hall c hc]⟩
  · rename_i hwhole hbraced
    obtain ⟨_, hvalue, h⟩ := bind_eq_ok.1 h
    rw [rejectIf_eq_ok, Bool.not_eq_false] at hvalue
    have hall := (Bool.and_eq_true_iff.1 hvalue).2
    rw [List.all_eq_true] at hall
    have hno := no_slash_of_unreserved hall
    rw [pure_eq_ok] at h
    refine ⟨hvalue, ?_⟩
    split at h
    · rename_i hin
      obtain ⟨filled, hfilled, htext⟩ := replaced_braced value
        (List.mem_cons_of_mem _ List.mem_cons_self) hslash hno hne hsegments hin
      exact ⟨filled, hfilled, h.symm.trans htext⟩
    · rename_i hin
      have hzero : countMatches (bracedEncoded placeholder) 0 (['/'].intercalate segments) = 0 := by
        by_contra hsome
        exact hin (infix_of_countMatches 0 hsome)
      obtain ⟨filled, hfilled, htext⟩ := replaced_braced value List.mem_cons_self hslash hno
        hne hsegments (infix_of_countMatches 0 (by omega))
      exact ⟨filled, hfilled, h.symm.trans htext⟩
  · cases h
  · cases h

/-- The second parse of a path whose segments are clean. -/
theorem parsePath_intercalate {scheme : String} {path : List Segment}
    (hclean : CleanPath scheme path) (hsome : ∃ segment ∈ path, segment ≠ []) :
    parsePath scheme (['/'].intercalate path) =
      some (pathState scheme [] (if path.head? = some [] then path.tail else path)) := by
  have hslash : ∀ segment ∈ path, '/' ∉ segment := fun segment hsegment hmem =>
    (hclean segment hsegment '/' hmem).2.1 rfl
  obtain ⟨full, hfull, hne⟩ := hsome
  have hpath := List.ne_nil_of_mem hfull
  have hcut := List.splitOn_intercalate '/' hslash hpath
  have hencode : ∀ {part : List Segment}, part ⊆ path →
      part.map (List.flatMap percentEncode) = part := by
    intro part hpart
    refine (List.map_congr_left fun segment hsegment => ?_).trans (List.map_id part)
    exact percentEncode_of_clean (hclean segment (hpart hsegment))
  have hread : (((['/'].intercalate path).filter fun c => c ∉ ['\t', '\n', '\r']).map fun c =>
      if isSpecial scheme ∧ c = '\\' then '/' else c) = ['/'].intercalate path := by
    have hchars : ∀ c ∈ ['/'].intercalate path, c = '/' ∨ Clean scheme c := by
      intro c hc
      have hmem : c ∈ render '/' path := by
        rw [render_eq_intercalate hpath]
        exact List.mem_cons_of_mem _ hc
      rcases of_mem_render hmem with rfl | ⟨segment, hsegment, hc⟩
      · exact .inl rfl
      · exact .inr (hclean segment hsegment c hc)
    rw [List.filter_eq_self.2]
    · refine (List.map_congr_left fun c hc => if_neg ?_).trans (List.map_id _)
      rintro ⟨hspecial, rfl⟩
      rcases hchars _ hc with heq | hc
      · exact absurd heq (by decide)
      · exact hc.2.2 hspecial rfl
    · intro c hc
      rw [decide_eq_true_eq]
      intro hmem
      have hset : ∀ d ∈ ['\t', '\n', '\r'], inPathEncodeSet d = true ∧ d ≠ '/' := by
        simp [inPathEncodeSet]
      rcases hchars c hc with heq | hc
      · exact (hset c hmem).2 heq
      · exact absurd (hset c hmem).1 (by simp [hc.1])
  have htext : ['/'].intercalate path ≠ [] := by
    intro hnil
    rw [hnil, List.splitOn_nil] at hcut
    rw [← hcut] at hfull
    exact hne (List.mem_singleton.1 hfull)
  simp only [parsePath, hread]
  rw [if_neg fun h => htext h.1]
  congr 2
  cases path with
  | nil => exact absurd rfl hpath
  | cons segment rest =>
    cases segment with
    | nil =>
      -- the separator behind the empty segment is taken for the one before the path
      have hrest : rest ≠ [] := by
        rintro rfl
        exact hne (List.mem_singleton.1 hfull)
      have htail := List.splitOn_intercalate '/' (fun segment hmem =>
        hslash segment (List.mem_cons_of_mem _ hmem)) hrest
      rw [List.intercalate_cons_of_ne_nil hrest]
      simp only [List.nil_append, List.cons_append, List.head?_cons, List.tail_cons, if_true]
      rw [htail, hencode (List.subset_cons_self _ _)]
    | cons c segment =>
      have hc : c ≠ '/' := (hclean _ List.mem_cons_self c List.mem_cons_self).2.1
      have hhead : (['/'].intercalate ((c :: segment) :: rest)).head? ≠ some '/' := by
        rw [List.intercalate_cons_cons_left]
        simp [hc]
      rw [if_neg hhead, hcut, hencode (List.Subset.refl _), if_neg (by simp)]

theorem parsePath_eq_iff_inert {scheme : String}
    (hclean : CleanPath scheme filled) (hsome : ∃ segment ∈ filled, segment ≠ []) :
    parsePath scheme (['/'].intercalate filled) = some filled ↔ Inert scheme filled := by
  rw [parsePath_intercalate hclean hsome, Option.some_inj]
  by_cases hhead : filled.head? = some []
  · rw [if_pos hhead]
    refine ⟨fun heq => ?_, fun hinert => absurd hhead hinert.head_ne⟩
    have hle := length_pathState_le scheme [] filled.tail
    obtain ⟨full, hfull, _⟩ := hsome
    have hpos := List.length_pos_of_mem hfull
    rw [heq, List.length_tail, List.length_nil] at hle
    omega
  · rw [if_neg hhead]
    refine ⟨fun heq => ⟨?_, hhead⟩, fun hinert => pathState_of_settled hinert.toSettled⟩
    rw [← heq]
    exact Settled.pathState ⟨by simp, by simp⟩ _

end Replacing

/-- The URL `after` is `before` with the path `filled`: nothing else of it has changed. -/
structure OnlyPath (before after : Url) (filled : List Segment) : Prop where
  scheme : after.scheme = before.scheme
  userinfo : after.userinfo = before.userinfo
  host : after.host = before.host
  port : after.port = before.port
  query : after.query = before.query
  fragment : after.fragment = before.fragment
  segments : after.segments = some filled

/-- The URL keeps its shape: some occurrence of the placeholder became the secret, in a path of as
many segments, and nothing else of the URL changed. -/
def KeepsShape (placeholder value : List Char) (before after : Url) : Prop :=
  ∃ segments filled, before.segments = some segments ∧ filled.length = segments.length ∧
    Replaced placeholder value segments filled ∧ OnlyPath before after filled

variable {setPath}

theorem injectPathPlaceholder_spec {url after : Url} {placeholder value : List Char}
    (h : injectPathPlaceholder setPath url placeholder value = .ok after) :
    ∃ segments filled, url.segments = some segments ∧ Replaced placeholder value segments filled ∧
      after = setPath url (['/'].intercalate filled) ∧ isInSegmentPathCredentialValue value := by
  obtain ⟨_, hplaceholder, h⟩ := bind_eq_ok.1 h
  obtain ⟨_, _, h⟩ := bind_eq_ok.1 h
  obtain ⟨_, _, h⟩ := bind_eq_ok.1 h
  obtain ⟨segments, hsegments, h⟩ := bind_eq_ok.1 h
  obtain ⟨text, htext, h⟩ := bind_eq_ok.1 h
  rw [rejectIf_eq_ok, Bool.not_eq_false] at hplaceholder
  rw [okOr_eq_ok] at hsegments
  have hslash : ∀ segment ∈ segments, '/' ∉ segment := fun segment hsegment hmem =>
    (url.clean segments hsegments segment hsegment '/' hmem).2.1 rfl
  obtain ⟨hvalue, filled, hfilled, rfl⟩ := rewrittenPath_spec hplaceholder hslash htext
  exact ⟨segments, filled, hsegments, hfilled, (pure_eq_ok.1 h).symm, hvalue⟩

/-- The secret keeps the shape of the URL exactly when the path it is put into is inert. -/
theorem path_secret_keeps_shape_iff_inert (hset : SetsPath setPath) (url after : Url)
    (placeholder value : List Char)
    (h : injectPathPlaceholder setPath url placeholder value = .ok after) :
    ∃ segments filled, url.segments = some segments ∧ filled.length = segments.length ∧
      Replaced placeholder value segments filled ∧
      (OnlyPath url after filled ↔ Inert url.scheme filled) := by
  obtain ⟨segments, filled, hsegments, hfilled, rfl, hvalue⟩ := injectPathPlaceholder_spec h
  rw [isInSegmentPathCredentialValue, Bool.and_eq_true, decide_eq_true_eq, List.all_eq_true] at hvalue
  have hclean : CleanPath url.scheme filled := by
    obtain ⟨pattern, _, init, before, last, rest, _, rfl, rfl⟩ := hfilled
    have hold := url.clean _ hsegments
    intro segment hsegment c hc
    simp only [List.mem_append, List.mem_cons] at hsegment
    rcases hsegment with hsegment | rfl | hsegment
    · exact hold segment (by simp [hsegment]) c hc
    · simp only [List.mem_append] at hc
      rcases hc with (hc | hc) | hc
      · exact hold (before ++ pattern ++ last) (by simp) c (by simp [hc])
      · exact clean_of_unreserved (hvalue.2 c hc)
      · exact hold (before ++ pattern ++ last) (by simp) c (by simp [hc])
    · exact hold segment (by simp [hsegment]) c hc
  have hsome : ∃ segment ∈ filled, segment ≠ [] := by
    obtain ⟨_, _, _, before, last, _, _, _, rfl⟩ := hfilled
    exact ⟨before ++ value ++ last, by simp, by simp [hvalue.1]⟩
  refine ⟨segments, filled, hsegments, hfilled.length_eq, hfilled, ?_⟩
  rw [← parsePath_eq_iff_inert hclean hsome, ← hset.segments]
  exact ⟨fun h => h.segments, fun h => ⟨hset.scheme _ _, hset.userinfo _ _, hset.host _ _,
    hset.port _ _, hset.query _ _, hset.fragment _ _, h⟩⟩

/-- A URL without a path, into which `withPath` puts one. -/
def apiUrl : Url where
  scheme := "https"
  userinfo := ""
  host := some "api.example"
  port := none
  query := none
  fragment := none
  segments := none
  clean := fun _ hpath => (Option.not_mem_none _ hpath).elim

/-- `https://api.example/a/{t}`. -/
def bracedUrl : Url := apiUrl.withPath ['a', '/', '\x7b', 't', '\x7d']

/-- The path with the secret in it is inert, and it is the path of the URL that results. -/
theorem token_keeps_shape_of_braced_url :
    let after := bracedUrl.withPath ['a', '/', 'x', ':', 'y']
    injectPathPlaceholder Url.withPath bracedUrl ['t'] ['x', ':', 'y'] = .ok after ∧
      ∃ filled, filled.length = 2 ∧ OnlyPath bracedUrl after filled ∧
        Inert bracedUrl.scheme filled := by
  intro after
  have hok : injectPathPlaceholder Url.withPath bracedUrl ['t'] ['x', ':', 'y'] = .ok after := rfl
  obtain ⟨segments, filled, hsegments, hlength, hreplaced, hiff⟩ :=
    path_secret_keeps_shape_iff_inert setsPath_withPath bracedUrl after ['t'] ['x', ':', 'y'] hok
  have hbefore : bracedUrl.segments = some [['a'], ['%', '7', 'B', 't', '%', '7', 'D']] := rfl
  rw [hbefore, Option.some_inj] at hsegments
  subst hsegments
  -- the placeholder stands in the second segment, in its encoded form
  have hfilled : filled = [['a'], ['x', ':', 'y']] := by
    obtain ⟨pattern, hpattern, init, before, last, rest, hwhole, hcut, rfl⟩ := hreplaced
    simp only [List.mem_cons, List.not_mem_nil, or_false] at hpattern
    rcases List.cons_eq_append_iff.1 hcut with ⟨rfl, hcut⟩ | ⟨front, rfl, hback⟩
    · rcases hpattern with rfl | rfl | rfl
      · obtain ⟨rfl, rfl⟩ := hwhole rfl
        simp at hcut
      · have hshort := congrArg (List.length ∘ List.headI) hcut
        simp [bracedLiteral] at hshort
        omega
      · have hshort := congrArg (List.length ∘ List.headI) hcut
        simp [bracedEncoded] at hshort
        omega
    rcases List.cons_eq_append_iff.1 hback with ⟨rfl, hback⟩ | ⟨front, rfl, hback⟩
    · obtain ⟨hbraced, rfl⟩ := List.cons.inj hback
      rcases hpattern with rfl | rfl | rfl
      · obtain ⟨rfl, rfl⟩ := hwhole rfl
        simp at hbraced
      · have hin : '\x7b' ∈ before ++ bracedLiteral ['t'] ++ last := by simp [bracedLiteral]
        rw [← hbraced] at hin
        simp at hin
      · have hlong := congrArg List.length hbraced
        simp [bracedEncoded] at hlong
        obtain ⟨rfl, rfl⟩ : before = [] ∧ last = [] := by
          constructor <;> exact List.eq_nil_of_length_eq_zero (by omega)
        rfl
    · simp at hback
  subst hfilled
  have honly : OnlyPath bracedUrl after [['a'], ['x', ':', 'y']] :=
    ⟨rfl, rfl, rfl, rfl, rfl, rfl, rfl⟩
  exact ⟨hok, _, rfl, honly, hiff.1 honly⟩

/-- Two dots are a value for the braced form, and the path loses the segment before them. -/
theorem braced_dots_remove_a_segment :
    ¬ ∀ (setPath : Url → List Char → Url), SetsPath setPath →
      ∀ (url after : Url) (placeholder value : List Char),
        injectPathPlaceholder setPath url placeholder value = .ok after →
          KeepsShape placeholder value url after := by
  intro hall
  have hok : injectPathPlaceholder Url.withPath bracedUrl ['t'] ['.', '.'] =
      .ok (bracedUrl.withPath ['a', '/', '.', '.']) := rfl
  obtain ⟨segments, filled, hsegments, hlength, _, honly⟩ :=
    hall _ setsPath_withPath _ _ _ _ hok
  have hbefore : bracedUrl.segments = some [['a'], ['%', '7', 'B', 't', '%', '7', 'D']] := rfl
  have hafter : (bracedUrl.withPath ['a', '/', '.', '.']).segments = some [[]] := rfl
  rw [hbefore, Option.some_inj] at hsegments
  have hfilled := hafter.symm.trans honly.segments
  rw [Option.some_inj] at hfilled
  rw [← hsegments, ← hfilled] at hlength
  exact absurd hlength (by decide)

end Ironclaw.HostRuntime
