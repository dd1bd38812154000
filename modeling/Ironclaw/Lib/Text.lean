import Mathlib.Algebra.Group.Nat.Defs
import Mathlib.Data.List.DropRight
import Mathlib.Data.List.Infix

/-! # Text

The functions on text that the modelled code takes from its standard library, as their
documentation has them. -/

namespace Ironclaw

namespace Text

/-! ### Parts of a text -/

def split (text : String) (sep : Char) : List String :=
  (text.toList.splitOn sep).map String.ofList

def startsWith (text head : String) : Bool := head.toList.isPrefixOf text.toList

def endsWith (text last : String) : Bool := last.toList.isSuffixOf text.toList

def contains (text inner : String) : Bool := decide (inner.toList <:+: text.toList)

/-- `strip_prefix`: what follows `head`, when the text starts with it. -/
def stripHead (text head : String) : Option String :=
  if startsWith text head then some (String.ofList (text.toList.drop head.toList.length)) else none

/-- `strip_suffix`: what stands before `last`, when the text ends with it. -/
def stripLast (text last : String) : Option String :=
  if endsWith text last then
    some (String.ofList (text.toList.take (text.toList.length - last.toList.length)))
  else none

def toAsciiLowercase (text : String) : String :=
  String.ofList (text.toList.map fun c => if 'A' ≤ c ∧ c ≤ 'Z' then c.toLower else c)

def eqIgnoreAsciiCase (a b : String) : Bool := toAsciiLowercase a = toAsciiLowercase b

def trimStartMatches (text : String) (c : Char) : String :=
  String.ofList (text.toList.dropWhile (· == c))

def trimEndMatches (text : String) (c : Char) : String :=
  String.ofList (text.toList.rdropWhile (· == c))

theorem startsWith_iff {text head : String} :
    startsWith text head = true ↔ ∃ rest, text.toList = head.toList ++ rest := by
  rw [startsWith, List.isPrefixOf_iff_prefix]
  exact ⟨fun ⟨rest, h⟩ => ⟨rest, h.symm⟩, fun ⟨rest, h⟩ => ⟨rest, h.symm⟩⟩

theorem eq_of_stripHead {text head rest : String} (h : stripHead text head = some rest) :
    text = head ++ rest := by
  unfold stripHead at h
  split at h
  · rename_i hstarts
    obtain ⟨tail, htail⟩ := startsWith_iff.1 hstarts
    rw [Option.some.injEq] at h
    rw [← h, htail, List.drop_left, ← String.toList_inj, String.toList_append, String.toList_ofList,
      htail]
  · cases h

theorem eq_of_stripLast {text last rest : String} (h : stripLast text last = some rest) :
    text = rest ++ last := by
  unfold stripLast at h
  split at h
  · rename_i hends
    obtain ⟨front, hfront⟩ := List.isSuffixOf_iff_suffix.1 hends
    have hlength : text.toList.length - last.toList.length = front.length := by
      rw [← hfront, List.length_append, Nat.add_sub_cancel]
    rw [Option.some.injEq] at h
    rw [← h, hlength, ← hfront, List.take_left, ← String.toList_inj, String.toList_append,
      String.toList_ofList, hfront]
  · cases h

/-! ### White space and numbers -/

/-- `char::is_whitespace`: the Unicode property `White_Space`. -/
def isWhitespace (c : Char) : Bool :=
  (0x9 ≤ c.val && c.val ≤ 0xD) || c.val == 0x20 || c.val == 0x85 || c.val == 0xA0 ||
    c.val == 0x1680 || (0x2000 ≤ c.val && c.val ≤ 0x200A) || c.val == 0x2028 ||
    c.val == 0x2029 || c.val == 0x202F || c.val == 0x205F || c.val == 0x3000

def trim (text : String) : String :=
  String.ofList ((text.toList.dropWhile isWhitespace).rdropWhile isWhitespace)

def splitWhitespace (text : String) : List String :=
  ((text.toList.splitOnP isWhitespace).filter (fun part => !part.isEmpty)).map String.ofList

def digitValue (c : Char) : Option ℕ :=
  if '0' ≤ c ∧ c ≤ '9' then some (c.toNat - '0'.toNat) else none

/-- `str::parse` of an unsigned number below a bound: digits, after an optional plus sign. -/
def parseUnsigned (bound : ℕ) (text : String) : Option ℕ :=
  let digits := match text.toList with
    | '+' :: rest => rest
    | all => all
  if digits = [] then none
  else
    match digits.mapM digitValue with
    | some values =>
      let value := values.foldl (fun n digit => 10 * n + digit) 0
      if value < bound then some value else none
    | none => none

/-- `str::parse::<u32>`. -/
def parseU32 (text : String) : Option ℕ := parseUnsigned (2 ^ 32) text

/-- `str::parse::<u64>`. -/
def parseU64 (text : String) : Option ℕ := parseUnsigned (2 ^ 64) text

end Text

end Ironclaw
