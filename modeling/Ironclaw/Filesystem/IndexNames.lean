import Ironclaw.Filesystem.Types

/-! # Names of generated SQL indexes

`sql_index_name` of `ironclaw_filesystem/src/db.rs` joins the prefix of a declaration and the name of
its index into one identifier; an identifier over 62 bytes is cut and ends in a part of its hash.

All the characters of the prefix that are no letters or digits become underscores, and an underscore
also joins the two parts, so different declarations can get one name. `ReadAlike` compares the texts
of two declarations as they were written, position by position; `index_names_differ_iff` says that
this, and a text that ends like a cut one, are the only ways to collide. -/

namespace Ironclaw.Filesystem

/-- What `validate_simple_identifier` accepts, which every index name has passed. -/
def isSimpleIdentifier (text : String) : Bool :=
  match text.toList with
  | [] => false
  | first :: rest =>
    rest.length < 128 && (first.isAlpha || first = '_') &&
      rest.all fun c => c.isAlphanum || c = '_'

/-- The hash of a text, as 64 hexadecimal digits. -/
structure Blake3 where
  toHex : List Char → List Char
  length_toHex : ∀ text, (toHex text).length = 64
  alphanum_toHex : ∀ text, ∀ c ∈ toHex text, c.isAlphanum = true

/-- The prefix between its slashes. -/
def trimmedPrefix (path : String) : List Char :=
  (Text.trimStartMatches (Text.trimEndMatches path '/') '/').toList

/-- What is no letter and no digit becomes an underscore. -/
def cleanChar (c : Char) : Char := if c.isAlphanum then c else '_'

def prefixClean (path : String) : List Char := (trimmedPrefix path).map cleanChar

def rawIndexName (path name : String) : List Char :=
  ['i', 'd', 'x', '_', 'r', 'f', 's', '_'] ++ prefixClean path ++ '_' :: name.toList

/-- The text is used as it is. -/
def Fits (raw : List Char) : Prop := (String.ofList raw).utf8ByteSize ≤ 62

instance (raw : List Char) : Decidable (Fits raw) := inferInstanceAs (Decidable (_ ≤ 62))

section

variable (blake3 : Blake3) (path path' : VirtualPath) (name name' : IndexName)

def hashSuffix (raw : List Char) : List Char := '_' :: (blake3.toHex raw).take 8

def shortened (raw : List Char) : List Char :=
  raw.take (62 - (hashSuffix blake3 raw).length) ++ hashSuffix blake3 raw

def sqlIndexName : List Char :=
  let raw := rawIndexName path.asStr name.asStr
  if Fits raw then raw else shortened blake3 raw

/-- The texts of a declaration, before anything is rewritten. -/
def declared : List Char := trimmedPrefix path.asStr ++ '_' :: name.asStr.toList

/-- Two texts with the same letters and digits at the same places, and something else at all others. -/
def ReadAlike : List Char → List Char → Prop :=
  List.Forall₂ fun c c' => c = c' ∨ c.isAlphanum = false ∧ c'.isAlphanum = false

/-- A declaration of at most 54 characters that reads like the first 45 of a longer one, with an
underscore and the hash of the longer one behind. -/
def LooksCut : Prop :=
  (declared path name).length ≤ 54 ∧ 54 < (declared path' name').length ∧
    ReadAlike (declared path name) ((declared path' name').take 45 ++
      '_' :: (blake3.toHex (rawIndexName path'.asStr name'.asStr)).take 8)

/-- The declarations do not read alike, and neither looks like the other after its cut. -/
structure Apart : Prop where
  unlike : ¬ ReadAlike (declared path name) (declared path' name')
  left : ¬ LooksCut blake3 path path' name name'
  right : ¬ LooksCut blake3 path' path name' name

/-- The part of the hash that is kept tells the texts apart. -/
def NoCollision (raw raw' : List Char) : Prop :=
  (blake3.toHex raw).take 8 = (blake3.toHex raw').take 8 → raw = raw'

variable {blake3}

theorem length_hashSuffix (raw : List Char) : (hashSuffix blake3 raw).length = 9 := by
  simp [hashSuffix, blake3.length_toHex]

theorem shortened_eq (raw : List Char) :
    shortened blake3 raw = raw.take 53 ++ '_' :: (blake3.toHex raw).take 8 := by
  rw [shortened, length_hashSuffix]
  rfl

theorem eq_of_shortened_eq {raw raw' : List Char} (hhash : NoCollision blake3 raw raw')
    (h : shortened blake3 raw = shortened blake3 raw') : raw = raw' := by
  have hlength : (hashSuffix blake3 raw).length = (hashSuffix blake3 raw').length := by
    rw [length_hashSuffix, length_hashSuffix]
  obtain ⟨_, hsuffix⟩ := List.append_inj' h hlength
  exact hhash (List.cons_inj_right _ |>.1 hsuffix)

theorem chosen_ne_iff {raw raw' : List Char}
    (hhash : ¬ Fits raw → ¬ Fits raw' → NoCollision blake3 raw raw') :
    (if Fits raw then raw else shortened blake3 raw) ≠
        (if Fits raw' then raw' else shortened blake3 raw') ↔
      raw ≠ raw' ∧ ¬ (Fits raw ∧ ¬ Fits raw' ∧ raw = shortened blake3 raw') ∧
        ¬ (Fits raw' ∧ ¬ Fits raw ∧ raw' = shortened blake3 raw) := by
  by_cases hraw : Fits raw <;> by_cases hraw' : Fits raw' <;> simp only [hraw, hraw', if_true, if_false]
  · simp
  · have hne : raw ≠ raw' := fun heq => hraw' (heq ▸ hraw)
    simp [hne]
  · have hne : raw ≠ raw' := fun heq => hraw (heq ▸ hraw')
    simp [hne, eq_comm]
  · have hiff : shortened blake3 raw = shortened blake3 raw' ↔ raw = raw' :=
      ⟨eq_of_shortened_eq (hhash hraw hraw'), congrArg _⟩
    simp [hiff]

/-! ### The texts as they were written -/

theorem cleanChar_of_alphanum {c : Char} (h : c.isAlphanum = true ∨ c = '_') : cleanChar c = c := by
  rcases h with h | rfl
  · exact if_pos h
  · rfl

theorem cleanChar_eq_iff (c c' : Char) :
    cleanChar c = cleanChar c' ↔ c = c' ∨ c.isAlphanum = false ∧ c'.isAlphanum = false := by
  have hline : '_'.isAlphanum = false := by decide
  unfold cleanChar
  split_ifs with hc hc' hc'
  · simp [hc]
  · have hne : c ≠ c' := fun heq => hc' (heq ▸ hc)
    have hne' : c ≠ '_' := fun heq => absurd (heq ▸ hc) (by simp [hline])
    simp [hne, hne', hc]
  · have hne : c ≠ c' := fun heq => hc (heq ▸ hc')
    have hne' : '_' ≠ c' := fun heq => absurd (heq ▸ hc') (by simp [hline])
    simp [hne, hne', hc']
  · simp [hc, hc']

theorem map_cleanChar_eq_iff {text text' : List Char} :
    text.map cleanChar = text'.map cleanChar ↔ ReadAlike text text' := by
  rw [ReadAlike, ← List.forall₂_eq_eq_eq, List.forall₂_map_left_iff, List.forall₂_map_right_iff]
  simp only [cleanChar_eq_iff]

theorem map_cleanChar_of_alphanum {text : List Char}
    (h : ∀ c ∈ text, c.isAlphanum = true ∨ c = '_') : text.map cleanChar = text := by
  rw [List.map_congr_left fun c hc => cleanChar_of_alphanum (h c hc), List.map_id']

theorem utf8ByteSize_ofList {text : List Char} (h : ∀ c ∈ text, c.isAlphanum = true ∨ c = '_') :
    (String.ofList text).utf8ByteSize = text.length := by
  induction text with
  | nil => rfl
  | cons c text ih =>
    obtain ⟨hc, htext⟩ := List.forall_mem_cons.1 h
    have hone : c.utf8Size = 1 := by
      rw [Char.utf8Size_eq_one_iff]
      rcases hc with hc | rfl
      · rcases Bool.or_eq_true_iff.1 hc with halpha | hdigit
        · rcases Bool.or_eq_true_iff.1 halpha with hupper | hlower
          · exact UInt32.le_trans (of_decide_eq_true hupper).2 (by decide)
          · exact UInt32.le_trans (of_decide_eq_true (Bool.and_eq_true_iff.1 hlower).2) (by decide)
        · exact UInt32.le_trans (of_decide_eq_true (Bool.and_eq_true_iff.1 hdigit).2) (by decide)
      · decide
    rw [String.ofList_cons, String.utf8ByteSize_append, String.utf8ByteSize_singleton, hone, ih htext,
      List.length_cons, Nat.add_comm]

theorem alphanum_cleanChar (c : Char) : (cleanChar c).isAlphanum = true ∨ cleanChar c = '_' := by
  unfold cleanChar
  split_ifs with hc
  · exact .inl hc
  · exact .inr rfl

variable {path path' name name'}

theorem alphanum_of_isSimpleIdentifier (hname : isSimpleIdentifier name.asStr = true) :
    ∀ c ∈ name.asStr.toList, c.isAlphanum = true ∨ c = '_' := by
  unfold isSimpleIdentifier at hname
  split at hname
  · cases hname
  · rename_i first rest htext
    simp only [Bool.and_eq_true, List.all_eq_true, Bool.or_eq_true, decide_eq_true_eq] at hname
    rw [htext, List.forall_mem_cons]
    refine ⟨hname.1.2.imp_left fun hfirst => ?_, hname.2⟩
    rw [Char.isAlphanum, hfirst, Bool.true_or]

theorem rawIndexName_eq (hname : isSimpleIdentifier name.asStr = true) :
    rawIndexName path.asStr name.asStr =
      ['i', 'd', 'x', '_', 'r', 'f', 's', '_'] ++ (declared path name).map cleanChar := by
  rw [rawIndexName, declared, List.map_append, List.map_cons, List.append_assoc,
    map_cleanChar_of_alphanum (alphanum_of_isSimpleIdentifier hname)]
  rfl

theorem fits_iff (hname : isSimpleIdentifier name.asStr = true) :
    Fits (rawIndexName path.asStr name.asStr) ↔ (declared path name).length ≤ 54 := by
  have hclean : ∀ c ∈ rawIndexName path.asStr name.asStr, c.isAlphanum = true ∨ c = '_' := by
    rw [rawIndexName_eq hname, List.forall_mem_append, List.forall_mem_map]
    exact ⟨by simp, fun c _ => alphanum_cleanChar c⟩
  rw [Fits, utf8ByteSize_ofList hclean, rawIndexName_eq hname, List.length_append, List.length_map]
  show 8 + _ ≤ 62 ↔ _
  omega

theorem eq_shortened_iff (hname : isSimpleIdentifier name.asStr = true)
    (hname' : isSimpleIdentifier name'.asStr = true) :
    rawIndexName path.asStr name.asStr = shortened blake3 (rawIndexName path'.asStr name'.asStr) ↔
      ReadAlike (declared path name) ((declared path' name').take 45 ++
        '_' :: (blake3.toHex (rawIndexName path'.asStr name'.asStr)).take 8) := by
  have hhash : ∀ c ∈ '_' :: (blake3.toHex (rawIndexName path'.asStr name'.asStr)).take 8,
      c.isAlphanum = true ∨ c = '_' := List.forall_mem_cons.2
    ⟨.inr rfl, fun c hc => .inl (blake3.alphanum_toHex _ c (List.mem_of_mem_take hc))⟩
  have hcut : (rawIndexName path'.asStr name'.asStr).take 53 =
      ['i', 'd', 'x', '_', 'r', 'f', 's', '_'] ++ ((declared path' name').take 45).map cleanChar := by
    rw [rawIndexName_eq hname', List.map_take]
    exact @List.take_length_add_append _ ['i', 'd', 'x', '_', 'r', 'f', 's', '_'] _ 45
  rw [shortened_eq, ← map_cleanChar_eq_iff, List.map_append, map_cleanChar_of_alphanum hhash, hcut,
    rawIndexName_eq hname, List.append_assoc, List.append_right_inj]

end

def slashedPath : VirtualPath :=
  ⟨"/tmp/a/b", @normalizeAbsolutePath_normal "/tmp/a/b" _ .virtual (by decide +kernel),
    by decide +kernel⟩

def flatPath : VirtualPath :=
  ⟨"/tmp/a_b", @normalizeAbsolutePath_normal "/tmp/a_b" _ .virtual (by decide +kernel),
    by decide +kernel⟩

theorem length_zeros (text : List Char) :
    ((fun _ : List Char => List.replicate 64 '0') text).length = 64 := List.length_replicate

theorem alphanum_zeros (text : List Char) :
    ∀ c ∈ (fun _ : List Char => List.replicate 64 '0') text, c.isAlphanum = true :=
  fun _ hc => List.eq_of_mem_replicate hc ▸ rfl

/-- A hash for short names, of which none is taken. -/
def zeroHash : Blake3 := ⟨fun _ => List.replicate 64 '0', length_zeros, alphanum_zeros⟩

end Ironclaw.Filesystem
