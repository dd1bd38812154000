import Ironclaw.Secrets.Sessions

/-! # The prefix of a credential's path

What a path that `CredentialTargetPolicy::matches` accepts is to a server that percent-decodes every
segment once and then removes the dot segments. -/

namespace Ironclaw.Secrets

open Network (NetworkMethod)

/-! ### Reading a path -/

def utf8 (text : List Char) : List UInt8 := text.flatMap String.utf8EncodeChar

/-- The segments of a path, each decoded once. -/
def decodedSegments (path : List Char) : List (List UInt8) :=
  (path.splitOn '/').map fun segment => percentDecodeBytes (utf8 segment)

/-- A dot is skipped, and two dots take back the segment before them. -/
def removeDotSegments (segments : List (List UInt8)) : List (List UInt8) :=
  segments.foldl (fun kept segment =>
    if segment = [46] then kept else if segment = [46, 46] then kept.dropLast
    else kept ++ [segment]) []

/-- The path that a server reads. -/
def resolvedPath (path : List Char) : List UInt8 :=
  [47].intercalate (removeDotSegments (decodedSegments path))

/-- The path is the head or lies below it at a segment boundary. -/
def Within (path head : List UInt8) : Prop :=
  path = head ∨ ∃ rest, path = head ++ 47 :: rest

def withoutSlash (text : String) : String := (Text.stripLast text "/").getD text

/-- The path of the URL, as a server reads it, lies within the head as `read` gives it. -/
def KeptWithin (crate : UrlCrate) (url head : String) (read : List Char → List UInt8) : Prop :=
  ∃ parsed, crate.parse url = .ok parsed ∧
    Within (resolvedPath (crate.path parsed).toList) (read (withoutSlash head).toList)

/-! ### Accepted paths -/

theorem decodedSegments_append (head rest : List Char) :
    decodedSegments (head ++ '/' :: rest) = decodedSegments head ++ decodedSegments rest := by
  rw [decodedSegments, List.splitOn_append_cons_self, List.map_append]
  rfl

theorem decodedSegments_ne_nil (path : List Char) : decodedSegments path ≠ [] := by
  rw [decodedSegments, Ne, List.map_eq_nil_iff]
  exact List.splitOn_ne_nil _ _

/-- No segment is a dot segment once it is decoded. -/
def DotFree (segments : List (List UInt8)) : Prop :=
  ∀ segment ∈ segments, segment ≠ [46] ∧ segment ≠ [46, 46]

theorem removeDotSegments_of_dotFree {segments : List (List UInt8)} (h : DotFree segments) :
    removeDotSegments segments = segments := by
  have hfold : ∀ kept, segments.foldl (fun kept segment =>
      if segment = [46] then kept else if segment = [46, 46] then kept.dropLast
      else kept ++ [segment]) kept = kept ++ segments := by
    induction segments with
    | nil => simp
    | cons segment rest ih =>
      intro kept
      obtain ⟨hdot, hdots⟩ := h segment List.mem_cons_self
      rw [List.foldl_cons, if_neg hdot, if_neg hdots,
        ih fun other hother => h other (List.mem_cons_of_mem _ hother), List.append_assoc]
      rfl
  exact hfold []

theorem dotFree_of_not_traversal {path : String} (h : pathHasEncodedTraversal path = false) :
    DotFree (decodedSegments path.toList) := by
  rintro _ hsegment
  obtain ⟨segment, hmem, rfl⟩ := List.mem_map.1 hsegment
  have hnot := List.any_eq_false.1 h (String.ofList segment) (List.mem_map_of_mem hmem)
  simp only [String.toList_ofList, Bool.or_eq_true, decide_eq_true_iff, not_or] at hnot
  exact ⟨hnot.1.1.1, hnot.1.1.2⟩

/-- A path within a head, as texts. -/
def Continues (path head : List Char) : Prop := path = head ∨ ∃ rest, path = head ++ '/' :: rest

theorem Continues.dotFree {path head : List Char} (h : Continues path head)
    (hpath : DotFree (decodedSegments path)) : DotFree (decodedSegments head) := by
  rcases h with rfl | ⟨rest, rfl⟩
  · exact hpath
  · rw [decodedSegments_append] at hpath
    exact fun segment hsegment => hpath segment (List.mem_append_left _ hsegment)

theorem Continues.within {path head : List Char} (h : Continues path head)
    (hpath : DotFree (decodedSegments path)) : Within (resolvedPath path) (resolvedPath head) := by
  have hhead := h.dotFree hpath
  rcases h with rfl | ⟨rest, rfl⟩
  · exact .inl rfl
  · refine .inr ⟨[47].intercalate (decodedSegments rest), ?_⟩
    rw [resolvedPath, removeDotSegments_of_dotFree hpath, resolvedPath,
      removeDotSegments_of_dotFree hhead, decodedSegments_append,
      intercalate_append (decodedSegments_ne_nil _) (decodedSegments_ne_nil _)]

theorem withoutSlash_cases (text : String) :
    text = withoutSlash text ∨ text = withoutSlash text ++ "/" := by
  unfold withoutSlash
  cases hlast : Text.stripLast text "/" with
  | none => exact .inl rfl
  | some rest => exact .inr (Text.eq_of_stripLast hlast)

theorem of_pathMatchesPrefix {path head : String} (h : pathMatchesPrefix path head = true) :
    pathHasEncodedTraversal path = false ∧
      Continues path.toList (withoutSlash head).toList := by
  unfold pathMatchesPrefix at h
  split at h
  · exact absurd h Bool.false_ne_true
  · rename_i htraversal
    refine ⟨Bool.not_eq_true _ ▸ htraversal, ?_⟩
    have hstripped : withoutSlash path = withoutSlash head ∨
        ∃ rest, (withoutSlash path).toList = (withoutSlash head).toList ++ '/' :: rest := by
      dsimp only at h
      split at h
      · next hsame => exact .inl hsame
      · split at h
        · next rest hrest =>
          obtain ⟨tail, htail⟩ := List.head?_eq_some_iff.1 (of_decide_eq_true h)
          have hsplit : withoutSlash path = withoutSlash head ++ rest := Text.eq_of_stripHead hrest
          exact .inr ⟨tail, by rw [hsplit, String.toList_append, htail]⟩
        · exact absurd h Bool.false_ne_true
    -- the slash that the path may end in stands behind the head, or behind what is below it
    rcases withoutSlash_cases path with hpath | hpath <;> rcases hstripped with hsame | ⟨rest, hrest⟩
    · exact .inl (by rw [hpath, hsame])
    · exact .inr ⟨rest, by rw [hpath, hrest]⟩
    · exact .inr ⟨[], by rw [hpath, hsame, String.toList_append]; rfl⟩
    · refine .inr ⟨rest ++ ['/'], ?_⟩
      rw [hpath, String.toList_append, hrest, List.append_assoc]
      rfl

/-! ### A head without escapes -/

theorem percentDecodeBytes_of_not_mem {bytes : List UInt8} (h : 37 ∉ bytes) :
    percentDecodeBytes bytes = bytes := by
  induction bytes with
  | nil => rfl
  | cons byte rest ih =>
    have hbyte : byte ≠ 37 := fun heq => h (heq ▸ List.mem_cons_self)
    rw [percentDecodeBytes, ih fun hmem => h (List.mem_cons_of_mem _ hmem)]
    exact fun _ _ _ heq => absurd heq hbyte

/-- Only the percent sign is encoded with its byte. -/
theorem eq_of_mem_utf8EncodeChar {c : Char} (h : 37 ∈ String.utf8EncodeChar c) : c = '%' := by
  have hbyte : ∀ {n : ℕ}, (37 : UInt8) = UInt8.ofNat n → n % 256 = 37 := fun heq => by
    simpa using congrArg UInt8.toNat heq.symm
  unfold String.utf8EncodeChar at h
  dsimp only at h
  split_ifs at h with h1 h2 h3
  · have hval := hbyte (List.mem_singleton.1 h)
    refine Char.ext (UInt32.toNat_inj.1 ?_)
    show c.val.toNat = 37
    omega
  -- the bytes of a longer encoding are all above those of ASCII
  all_goals
    simp only [List.mem_cons, List.not_mem_nil, or_false] at h
  · rcases h with h | h <;> exact absurd (hbyte h) (by omega)
  · rcases h with h | h | h <;> exact absurd (hbyte h) (by omega)
  · rcases h with h | h | h | h <;> exact absurd (hbyte h) (by omega)

theorem not_mem_utf8 {text : List Char} (h : '%' ∉ text) : 37 ∉ utf8 text := by
  intro hmem
  obtain ⟨c, hc, hbyte⟩ := List.mem_flatMap.1 hmem
  exact h (eq_of_mem_utf8EncodeChar hbyte ▸ hc)

theorem utf8_intercalate : ∀ parts : List (List Char),
    utf8 (['/'].intercalate parts) = [47].intercalate (parts.map utf8)
  | [] => rfl
  | [part] => by simp
  | part :: next :: parts => by
    rw [List.intercalate_cons_cons, List.map_cons, List.map_cons, List.intercalate_cons_cons,
      ← List.map_cons, ← utf8_intercalate (next :: parts)]
    simp only [utf8, List.flatMap_append]
    rfl

/-- A head without a percent sign is read as it is written. -/
theorem resolvedPath_of_not_mem {head : List Char} (h : '%' ∉ head)
    (hfree : DotFree (decodedSegments head)) : resolvedPath head = utf8 head := by
  have hplain : decodedSegments head = (head.splitOn '/').map utf8 := by
    refine List.map_congr_left fun segment hsegment => percentDecodeBytes_of_not_mem ?_
    exact not_mem_utf8 fun hmem => h (mem_of_mem_splitOn hsegment _ hmem).1
  rw [resolvedPath, removeDotSegments_of_dotFree hfree, hplain, ← utf8_intercalate,
    List.intercalate_splitOn]

/-! ### Confinement -/

/-- Whatever a policy with a path prefix accepts is, to a server that decodes every segment once
and removes the dot segments, within the prefix read in the same way, and within the prefix as it
is written when this has no percent sign. -/
theorem accepted_path_stays_below (crate : UrlCrate) (policy : CredentialTargetPolicy)
    (method : NetworkMethod) (url head : String) (hpath : policy.path = .prefixed head)
    (haccepts : policy.matches crate method url = true) :
    KeptWithin crate url head resolvedPath ∧
      ('%' ∉ head.toList → KeptWithin crate url head utf8) := by
  unfold CredentialTargetPolicy.matches at haccepts
  split at haccepts
  · exact absurd haccepts Bool.false_ne_true
  · next parsed hparsed =>
    rw [hpath] at haccepts
    have hmatches : pathMatchesPrefix (crate.path parsed) head = true := by
      split_ifs at haccepts
      exact haccepts
    obtain ⟨htraversal, hcontinues⟩ := of_pathMatchesPrefix hmatches
    have hfree := dotFree_of_not_traversal htraversal
    have hwithin := hcontinues.within hfree
    refine ⟨⟨parsed, hparsed, hwithin⟩, fun hplain => ⟨parsed, hparsed, ?_⟩⟩
    have hstripped : '%' ∉ (withoutSlash head).toList := by
      rcases withoutSlash_cases head with hhead | hhead
      · rwa [← hhead]
      · rw [hhead, String.toList_append] at hplain
        exact fun hmem => hplain (List.mem_append_left _ hmem)
    rwa [resolvedPath_of_not_mem hstripped (hcontinues.dotFree hfree)] at hwithin

/-- A policy for one prefix of the example host. -/
def prefixPolicy (head : String) : CredentialTargetPolicy :=
  ⟨"https", "api.example.com", some 443, .prefixed head, [.get]⟩

theorem escaped_file_stays_below :
    KeptWithin Broker.exampleCrate "https://api.example.com/v1/%41" "/v1/" utf8 :=
  (accepted_path_stays_below Broker.exampleCrate (prefixPolicy "/v1/") .get _ _ rfl
    (by decide +kernel)).2 (by decide +kernel)

/-- A prefix that has an escape itself is compared as text, and a server reads it decoded. -/
theorem escaped_prefix_read_decoded :
    ¬ ∀ (crate : UrlCrate) (policy : CredentialTargetPolicy) (method : NetworkMethod)
      (url head : String), policy.path = .prefixed head →
      policy.matches crate method url = true → KeptWithin crate url head utf8 := by
  intro hall
  obtain ⟨parsed, hparsed, hwithin⟩ := hall Broker.exampleCrate (prefixPolicy "/%41") .get
    "https://api.example.com/%41" "/%41" rfl (by decide +kernel)
  obtain rfl := Except.ok.inj hparsed
  have hpath : resolvedPath (Broker.exampleCrate.path "https://api.example.com/%41").toList = [47, 65] := by
    decide +kernel
  have hhead : utf8 (withoutSlash "/%41").toList = [47, 37, 52, 49] := by decide +kernel
  rw [hpath, hhead] at hwithin
  rcases hwithin with heq | ⟨rest, heq⟩
  · exact absurd heq (by decide)
  · exact absurd (congrArg List.length heq) (by simp)

end Ironclaw.Secrets
