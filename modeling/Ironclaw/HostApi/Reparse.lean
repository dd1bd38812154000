import Ironclaw.HostApi.Path

/-! # Scoped paths read back

A scoped path is serialized as its text and read back with the same parser. The parser looks for host
prefixes, URLs and drive letters in the raw text, and removes empty and `.` segments afterwards.

The accepted texts that survive the round trip are those whose components do not continue one of the
refused heads. A text like `//home/x` is accepted, and its normal form is refused. -/

namespace Ironclaw

/-! ### Bytes of a text -/

section bytes

theorem toUTF8_of_cons {text : String} {c : Char} {rest : List Char} (h : text.toList = c :: rest) :
    text.toUTF8.data.toList = String.utf8EncodeChar c ++ (String.ofList rest).toUTF8.data.toList := by
  obtain rfl : text = String.ofList (c :: rest) := by rw [← h, String.ofList_toList]
  simp [List.utf8Encode]

theorem char_of_first_byte {c : Char} {more : List UInt8} {b : UInt8} (hb : b.toNat < 128)
    (h : (String.utf8EncodeChar c ++ more)[0]? = some b) : c.val.toNat = b.toNat := by
  unfold String.utf8EncodeChar at h
  dsimp only at h
  split_ifs at h with hone htwo hthree
  all_goals
    have hfirst := congrArg UInt8.toNat (Option.some.inj h)
    rw [UInt8.toNat_ofNat'] at hfirst
    omega

theorem eq_of_first_byte {c d : Char} {more : List UInt8} {b : UInt8} (hb : b.toNat < 128)
    (hd : d.val.toNat = b.toNat) (h : (String.utf8EncodeChar c ++ more)[0]? = some b) : c = d := by
  have hval : c.val.toNat = d.val.toNat := (char_of_first_byte hb h).trans hd.symm
  exact Char.ext (UInt32.toNat_inj.1 hval)

end bytes

/-! ### Heads of a normal text -/

theorem startsWith_name_iff {name path : String} (hname : Normal name) (hpath : Normal path) :
    Text.startsWith path (name ++ "/") = true ↔
      components name <+: components path ∧ components name ≠ components path := by
  have hmatches := pathMatchesAlias_iff hname hpath
  rw [pathMatchesAlias, Bool.or_eq_true, beq_iff_eq] at hmatches
  constructor
  · intro hstart
    refine ⟨hmatches.1 (.inr hstart), fun hsame => ?_⟩
    obtain rfl := hname.ext hpath hsame
    obtain ⟨rest, hrest⟩ := Text.startsWith_iff.1 hstart
    have hlength := congrArg List.length hrest
    simp [String.toList_append] at hlength
  · rintro ⟨hpre, hne⟩
    refine (hmatches.2 hpre).resolve_left fun hsame => hne ?_
    rw [hsame]

namespace ScopedPath

/-- The heads that the parser refuses in a text that begins with a slash. -/
def refusedHeads : List String := rawHostPrefixes ++ ["/:/"]

/-- The components of the text continue those of a refused head. -/
def HostShaped (raw : String) : Prop :=
  ∃ head ∈ refusedHeads, components head <+: components raw ∧ components head ≠ components raw

instance (raw : String) : Decidable (HostShaped raw) :=
  inferInstanceAs (Decidable (∃ head ∈ refusedHeads,
    components head <+: components raw ∧ components head ≠ components raw))

/-- The text of the path is read back as the path, and is no host path, URL or Windows path. -/
structure ReadsBack (path : ScopedPath) : Prop where
  parsed : new path.asStr = .ok path
  not_host : ∀ head ∈ rawHostPrefixes, Text.startsWith path.asStr head = false
  not_url : looksLikeUrl path.asStr = false
  not_windows : looksLikeWindowsPath path.asStr = false

theorem startsWith_refusedHead {text head : String} (h : Normal text) (hhead : head ∈ refusedHeads) :
    Text.startsWith text head = true ↔
      components head <+: components text ∧ components head ≠ components text := by
  have hall : ∀ head ∈ refusedHeads,
      Text.trimEndMatches head '/' ++ "/" = head ∧
      normalizeAbsolutePath (Text.trimEndMatches head '/') .scoped =
        .ok (Text.trimEndMatches head '/') ∧
      components (Text.trimEndMatches head '/') = components head := by
    decide +kernel
  obtain ⟨hslash, hnormal, hparts⟩ := hall head hhead
  rw [← hparts, ← startsWith_name_iff (normalizeAbsolutePath_normal hnormal) h, hslash]

/-- A text without empty segments has no scheme. -/
theorem not_looksLikeUrl_normal {text : String} (h : Normal text) : looksLikeUrl text = false := by
  have hslash := not_looksLikeUrl h
  rw [looksLikeUrl, Text.contains, decide_eq_false_iff_not] at hslash ⊢
  rintro ⟨before, after, hcut⟩
  refine hslash ⟨'/' :: before, after, ?_⟩
  rw [String.toList_append, ← hcut]
  rfl

/-- A normal text begins with a slash, so a drive in it is the component `:`. -/
theorem looksLikeWindowsPath_iff {text : String} (h : Normal text) :
    looksLikeWindowsPath text = true ↔ Text.startsWith text "/:/" = true := by
  obtain ⟨rest, hrest⟩ := h.absolute.rooted
  have hbytes := toUTF8_of_cons hrest
  rw [Text.startsWith_iff, looksLikeWindowsPath]
  simp only [Bool.and_eq_true, Bool.or_eq_true, beq_iff_eq, ← Array.getElem?_toList, hbytes]
  have hone : String.utf8EncodeChar '/' = [47] := by decide
  rw [hone]
  constructor
  · rintro ⟨hcolon, hslash⟩
    cases rest with
    | nil => simp at hcolon
    | cons c rest =>
      rw [toUTF8_of_cons (String.toList_ofList (l := c :: rest))] at hcolon hslash
      obtain rfl : c = ':' := eq_of_first_byte (by decide) (by decide) hcolon
      have htwo : String.utf8EncodeChar ':' = [58] := by decide
      rw [htwo] at hslash
      cases rest with
      | nil => simp at hslash
      | cons c rest =>
        rw [toUTF8_of_cons (String.toList_ofList (l := c :: rest))] at hslash
        rcases hslash with hback | hslash
        · obtain rfl : c = '\\' := eq_of_first_byte (by decide) (by decide) hback
          refine absurd ?_ h.absolute.no_backslash
          rw [hrest]
          simp
        · obtain rfl : c = '/' := eq_of_first_byte (by decide) (by decide) hslash
          exact ⟨rest, hrest⟩
  · rintro ⟨more, hmore⟩
    have hsame : rest = ':' :: '/' :: more := by
      rw [hrest] at hmore
      exact (List.cons.inj hmore).2
    rw [hsame, toUTF8_of_cons (String.toList_ofList (l := ':' :: '/' :: more)),
      toUTF8_of_cons (String.toList_ofList (l := '/' :: more))]
    exact ⟨rfl, .inr rfl⟩

theorem components_of_new {raw : String} {path : ScopedPath} (h : new raw = .ok path) :
    components path.asStr = components raw := by
  rw [new, newWithAllowedRawHostAliases] at h
  split_ifs at h
  split at h
  · cases h
  · rename_i normalized hok
    cases h
    exact normalizeAbsolutePath_components hok

/-- Which accepted texts are read back: the normal form of any other one is refused. -/
theorem reparse_iff (raw : String) (path : ScopedPath) (h : new raw = .ok path) :
    ReadsBack path ↔ ¬ HostShaped raw := by
  have hparts := components_of_new h
  have hhead : ∀ head ∈ refusedHeads, (Text.startsWith path.asStr head = true ↔
      components head <+: components raw ∧ components head ≠ components raw) := by
    intro head hmem
    rw [← hparts]
    exact startsWith_refusedHead path.normal hmem
  constructor
  · rintro hback ⟨head, hmem, hshape⟩
    have hstart := (hhead head hmem).2 hshape
    rcases List.mem_append.1 hmem with hhost | hdrive
    · exact absurd hstart (by rw [hback.not_host head hhost]; decide)
    · obtain rfl := List.mem_singleton.1 hdrive
      have hwindows := (looksLikeWindowsPath_iff path.normal).2 hstart
      rw [hback.not_windows] at hwindows
      cases hwindows
  · intro hfree
    have hnone : ∀ head ∈ refusedHeads, Text.startsWith path.asStr head = false := fun head hmem =>
      Bool.eq_false_iff.2 fun hstart => hfree ⟨head, hmem, (hhead head hmem).1 hstart⟩
    have hurl := not_looksLikeUrl_normal path.normal
    have hhost : ∀ head ∈ rawHostPrefixes, Text.startsWith path.asStr head = false :=
      fun head hmem => hnone head (List.mem_append_left _ hmem)
    have hwindows : looksLikeWindowsPath path.asStr = false :=
      Bool.eq_false_iff.2 fun hdrive => by
        have hstart := (looksLikeWindowsPath_iff path.normal).1 hdrive
        rw [hnone "/:/" (by decide)] at hstart
        cases hstart
    refine ⟨?_, hhost, hurl, hwindows⟩
    have hany : rawHostPrefixes.any (Text.startsWith path.asStr ·) = false :=
      List.any_eq_false.2 fun head hmem => by simp [hhost head hmem]
    rw [new, newWithAllowedRawHostAliases_eq_ok hurl hwindows hany]
    exact path.normal.normalize .scoped

theorem exists_of_normalize {raw text : String} (hurl : looksLikeUrl raw = false)
    (hdrive : looksLikeWindowsPath raw = false)
    (hhost : rawHostPrefixes.any (Text.startsWith raw ·) = false)
    (h : normalizeAbsolutePath raw .scoped = .ok text) :
    ∃ path, new raw = .ok path ∧ path.asStr = text :=
  ⟨⟨text, normalizeAbsolutePath_normal h⟩,
    (newWithAllowedRawHostAliases_eq_ok hurl hdrive hhost).2 h, rfl⟩

/-- A second slash hides the home directory from the parser. -/
theorem slashed_home_not_read_back : ¬ ∀ raw path, new raw = .ok path → ReadsBack path := by
  intro hall
  obtain ⟨path, hpath, htext⟩ : ∃ path, new "//home/alice" = .ok path ∧ path.asStr = "/home/alice" :=
    exists_of_normalize (by decide +kernel) (by decide +kernel) (by decide +kernel)
      (by decide +kernel)
  have hhost := (hall _ path hpath).not_host "/home/" (by decide)
  rw [htext] at hhost
  revert hhost
  decide +kernel

/-- Empty and `.` segments in a path of the workspace do no harm. -/
theorem workspace_read_back :
    ∃ path, new "/workspace//./notes.md" = .ok path ∧ path.asStr = "/workspace/notes.md" ∧
      ReadsBack path := by
  obtain ⟨path, hpath, htext⟩ : ∃ path, new "/workspace//./notes.md" = .ok path ∧
      path.asStr = "/workspace/notes.md" :=
    exists_of_normalize (by decide +kernel) (by decide +kernel) (by decide +kernel)
      (by decide +kernel)
  exact ⟨path, hpath, htext, (reparse_iff _ path hpath).2 (by decide +kernel)⟩

end ScopedPath

end Ironclaw
