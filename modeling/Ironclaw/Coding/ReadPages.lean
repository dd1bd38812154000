import Mathlib.Algebra.Ring.Nat
import Mathlib.Data.List.Forall2

/-! # Reading a file page by page

`read_file` without a limit renders the lines from the offset on under a byte limit that the
continuation notice is charged against, and returns the offset of the next page.

* `renderLines_spec`: the lines a page shows are the next lines of the text, each in full, or a single
  line cut short; with the notice that would follow they are within the limit.
* `paged_reading_complete`: following the offsets shows every line of the text once, in order. -/

namespace Ironclaw.Coding

/-! ### The text of a page -/

def defaultLineLimit : ℕ := 2000

def defaultReadMaxBytes : ℕ := 64 * 1024

inductive ReadTruncationReason where
  | bytes
  | lines
deriving DecidableEq

def ReadTruncationReason.noticeLabel : ReadTruncationReason → String
  | bytes => "bytes"
  | lines => "lines"

def readFileContinuationNotice (startLine lastLineShown totalLines : ℕ)
    (reason : ReadTruncationReason) (nextOffset : ℕ) : List String :=
  ["[Showing lines ", (startLine + 1).repr, "-", lastLineShown.repr, " of ", totalLines.repr, " (",
    reason.noticeLabel,
    " limit). This file is large: to analyze, summarize, or count over it, run ONE shell command ",
    "or script (grep/awk/python) over the whole file and read only the computed result — do NOT ",
    "page through it (offset=", nextOffset.repr,
    ") and reason over it in context, which is slow and costly.]"]

def readFileContinuationSuffix (startLine lastLineShown totalLines : ℕ)
    (reason : ReadTruncationReason) (nextOffset : ℕ) : String :=
  .join ("\n\n" :: readFileContinuationNotice startLine lastLineShown totalLines reason nextOffset)

/-- `str::lines`: the last line ending is optional, and a carriage return before a newline belongs to
the line ending. -/
def textLines (content : String) : List String :=
  let parts := content.toList.splitOn '\n'
  let strip := fun line : List Char => if line.getLast? = some '\r' then line.dropLast else line
  (parts.dropLast.map strip ++ (parts.getLast?.toList.filter (· ≠ []))).map String.ofList

/-- The line with its number, right-aligned in six columns. -/
def formatLine (number : ℕ) (line : String) : String :=
  String.ofList (List.replicate (6 - number.repr.length) ' ') ++ number.repr ++ "│ " ++ line

/-- The characters before the last character boundary within the budget. -/
def charsWithin : ℕ → List Char → List Char
  | _, [] => []
  | budget, c :: rest =>
    if c.utf8Size ≤ budget then c :: charsWithin (budget - c.utf8Size) rest else []

/-- The slice up to `previous_char_boundary`. -/
def sliceWithin (budget : ℕ) (text : String) : String := String.ofList (charsWithin budget text.toList)

def lineMarker : String := " …[line truncated]"

/-- A line that does not fit, cut short so that the marker and `suffix` still do. -/
def clampLine (formatted suffix : String) : String :=
  sliceWithin (defaultReadMaxBytes - lineMarker.utf8ByteSize - suffix.utf8ByteSize) formatted ++
    lineMarker

/-! ### A page -/

/-- The notice to reserve for a page that shows `shown` lines. -/
def candidateSuffix (startLine totalLines lineEnd shown : ℕ) : String :=
  let last := startLine + shown
  if last < totalLines then
    readFileContinuationSuffix startLine last totalLines (if last < lineEnd then .bytes else .lines)
      (last + 1)
  else ""

/-- The rendering loop, with the lines rendered so far and their bytes; the second answer is whether
the byte limit ended it. A turn that goes on renders one line, so the index is the number rendered. -/
def renderLines (startLine totalLines lineEnd : ℕ) :
    List String → List String → ℕ → List String × Bool
  | [], rendered, _ => (rendered, false)
  | line :: rest, rendered, emittedBytes =>
    let formatted := formatLine (startLine + rendered.length + 1) line
    let suffix := candidateSuffix startLine totalLines lineEnd (rendered.length + 1)
    let cost := formatted.utf8ByteSize + (if rendered.isEmpty then 0 else 1)
    if defaultReadMaxBytes < emittedBytes + cost + suffix.utf8ByteSize then
      (if rendered.isEmpty then [clampLine formatted suffix] else rendered, true)
    else renderLines startLine totalLines lineEnd rest (rendered ++ [formatted]) (emittedBytes + cost)

structure ReadFileOutput where
  /-- The lines of the body, before they are joined. -/
  rendered : List String
  content : String
  totalLines : ℕ
  truncatedByDefault : Bool
  truncatedBy : Option ReadTruncationReason
  nextOffset : Option ℕ

def ReadFileOutput.truncated (output : ReadFileOutput) : Bool := output.truncatedBy.isSome

/-- Where the lines of the request end, and whether the default line limit ends them. -/
def lineWindow (startLine totalLines : ℕ) (limit : Option ℕ) (hasExplicitRange : Bool) : ℕ × Bool :=
  match limit with
  | some limit => (min (startLine + limit) totalLines, false)
  | none =>
    if !hasExplicitRange && defaultLineLimit < totalLines then
      (min defaultLineLimit totalLines, true)
    else (totalLines, false)

/-- The answer for the lines that were rendered. -/
def pageOutput (startLine totalLines : ℕ) (rendered : List String)
    (truncatedByBytes truncatedByDefault : Bool) : ReadFileOutput :=
  let lastLineShown := startLine + rendered.length
  let hasMore := 0 < rendered.length && lastLineShown < totalLines
  let truncatedBy := if truncatedByBytes then some .bytes else if hasMore then some .lines else none
  let nextOffset := if hasMore then some (lastLineShown + 1) else none
  let suffix := match truncatedBy, nextOffset with
    | some reason, some next =>
      readFileContinuationSuffix startLine lastLineShown totalLines reason next
    | _, _ => ""
  { rendered, content := "\n".intercalate rendered ++ suffix, totalLines, truncatedByDefault
    truncatedBy, nextOffset }

def readFileTextOutput (content : String) (offset : ℕ) (limit : Option ℕ) (hasExplicitRange : Bool) :
    ReadFileOutput :=
  let lines := textLines content
  let startLine := min (offset - 1) lines.length
  let window := lineWindow startLine lines.length limit hasExplicitRange
  let result := renderLines startLine lines.length window.1 ((lines.take window.1).drop startLine) [] 0
  pageOutput startLine lines.length result.1 result.2 window.2

/-- `read_file` on a text, without a limit: an offset above zero is an explicit range. -/
def readFile (content : String) (offset : ℕ) : ReadFileOutput :=
  readFileTextOutput content offset none (0 < offset)

/-- The pages a caller gets that follows the returned offsets, at most `fuel` of them. -/
def readPages (content : String) : ℕ → ℕ → List ReadFileOutput
  | 0, _ => []
  | fuel + 1, offset =>
    let output := readFile content offset
    output :: match output.nextOffset with
      | some next => readPages content fuel next
      | none => []

/-! ### Sizes -/

theorem utf8ByteSize_ofList (chars : List Char) :
    (String.ofList chars).utf8ByteSize = (chars.map Char.utf8Size).sum := by
  induction chars with
  | nil => rfl
  | cons c rest ih =>
    have hcons : String.ofList (c :: rest) = String.ofList [c] ++ String.ofList rest := by
      rw [← String.ofList_append]
      rfl
    rw [hcons, String.utf8ByteSize_append, ih, ← String.singleton_eq_ofList,
      String.utf8ByteSize_singleton, List.map_cons, List.sum_cons]

theorem utf8ByteSize_sliceWithin_le (budget : ℕ) (text : String) :
    (sliceWithin budget text).utf8ByteSize ≤ budget := by
  rw [sliceWithin, utf8ByteSize_ofList]
  induction text.toList generalizing budget with
  | nil => exact Nat.zero_le _
  | cons c rest ih =>
    unfold charsWithin
    split_ifs with hfits
    · have := ih (budget - c.utf8Size)
      simp only [List.map_cons, List.sum_cons]
      omega
    · exact Nat.zero_le _

theorem utf8ByteSize_repr_le {n : ℕ} (h : n < 2 ^ 64) : n.repr.utf8ByteSize ≤ 20 := by
  have hdigits : (Nat.toDigits 10 n).length ≤ 20 :=
    (Nat.length_toDigits_le_iff (by decide) (by decide)).2 (Nat.lt_trans h (by decide))
  have hone : ∀ c ∈ Nat.toDigits 10 n, c.utf8Size = 1 := by
    intro c hc
    have hdigit := Nat.isDigit_of_mem_toDigits (by decide) (by decide) hc
    simp only [Char.isDigit, Bool.and_eq_true, decide_eq_true_eq] at hdigit
    exact Char.utf8Size_eq_one_iff.2 (UInt32.le_trans hdigit.2 (by decide))
  rw [Nat.repr_eq_ofList_toDigits, utf8ByteSize_ofList, List.map_congr_left hone, List.map_const',
    List.sum_replicate_nat, Nat.mul_one]
  exact hdigits

theorem utf8ByteSize_join (parts : List String) :
    (String.join parts).utf8ByteSize = (parts.map String.utf8ByteSize).sum := by
  have hfold : ∀ acc : String, (parts.foldl (· ++ ·) acc).utf8ByteSize =
      acc.utf8ByteSize + (parts.map String.utf8ByteSize).sum := by
    induction parts with
    | nil => exact fun _ => rfl
    | cons part parts ih =>
      intro acc
      rw [List.foldl_cons, ih, String.utf8ByteSize_append, List.map_cons, List.sum_cons]
      omega
  have := hfold ""
  rwa [String.utf8ByteSize_empty, Nat.zero_add] at this

theorem utf8ByteSize_suffix (a b c : ℕ) (reason reason' : ReadTruncationReason) (next : ℕ) :
    (readFileContinuationSuffix a b c reason next).utf8ByteSize =
      (readFileContinuationSuffix a b c reason' next).utf8ByteSize := by
  have hlabel : reason.noticeLabel.utf8ByteSize = reason'.noticeLabel.utf8ByteSize := by
    cases reason <;> cases reason' <;> rfl
  rw [readFileContinuationSuffix, readFileContinuationSuffix, utf8ByteSize_join, utf8ByteSize_join]
  simp only [readFileContinuationNotice, List.map, hlabel]

theorem utf8ByteSize_candidateSuffix_le {startLine totalLines lineEnd shown : ℕ}
    (h : totalLines < 2 ^ 64) :
    (candidateSuffix startLine totalLines lineEnd shown).utf8ByteSize ≤ 1000 := by
  unfold candidateSuffix
  dsimp only
  split
  next hmore =>
    have h1 := utf8ByteSize_repr_le (n := startLine + 1) (by omega)
    have h2 := utf8ByteSize_repr_le (n := startLine + shown) (by omega)
    have h3 := utf8ByteSize_repr_le h
    have h4 := utf8ByteSize_repr_le (n := startLine + shown + 1) (by omega)
    rw [utf8ByteSize_suffix _ _ _ _ .bytes, readFileContinuationSuffix, utf8ByteSize_join]
    simp only [readFileContinuationNotice, List.map, List.sum_cons, List.sum_nil]
    change 2 + (15 + (_ + (1 + (_ + (4 + (_ + (2 + (5 + (92 + (93 + (24 + (_ + (59 + 0))))))))))))) ≤ 1000
    omega
  · exact Nat.zero_le _

/-! ### The lines of a page -/

/-- The line and its notice, on a page of its own, are within the limit. -/
def FitsAlone (totalLines index : ℕ) (line : String) : Prop :=
  (formatLine (index + 1) line).utf8ByteSize +
    (candidateSuffix index totalLines totalLines 1).utf8ByteSize ≤ defaultReadMaxBytes

/-- `shown` is the line in full, or cut short because it does not fit on a page of its own. -/
def ShowsLine (totalLines : ℕ) (shown : String) (line : String × ℕ) : Prop :=
  shown = formatLine (line.2 + 1) line.1 ∨
    ¬ FitsAlone totalLines line.2 line.1 ∧
      shown = clampLine (formatLine (line.2 + 1) line.1) (candidateSuffix line.2 totalLines totalLines 1)

theorem utf8ByteSize_candidateSuffix (startLine totalLines lineEnd lineEnd' shown : ℕ) :
    (candidateSuffix startLine totalLines lineEnd shown).utf8ByteSize =
      (candidateSuffix startLine totalLines lineEnd' shown).utf8ByteSize := by
  unfold candidateSuffix
  dsimp only
  split
  · exact utf8ByteSize_suffix _ _ _ _ _ _
  · rfl

theorem clampLine_congr {a b : String} (h : a.utf8ByteSize = b.utf8ByteSize) (formatted : String) :
    clampLine formatted a = clampLine formatted b := by
  rw [clampLine, clampLine, h]

theorem utf8ByteSize_clampLine_le {formatted suffix : String} (h : suffix.utf8ByteSize ≤ 1000) :
    (clampLine formatted suffix).utf8ByteSize + suffix.utf8ByteSize ≤ defaultReadMaxBytes := by
  have hslice := utf8ByteSize_sliceWithin_le
    (defaultReadMaxBytes - lineMarker.utf8ByteSize - suffix.utf8ByteSize) formatted
  have hmarker : lineMarker.utf8ByteSize = 20 := rfl
  rw [clampLine, String.utf8ByteSize_append]
  unfold defaultReadMaxBytes at *
  omega

/-- Bytes of the joined lines: one more for each newline between two of them. -/
theorem utf8ByteSize_join_append (rendered : List String) (line : String) :
    ("\n".intercalate (rendered ++ [line])).utf8ByteSize =
      ("\n".intercalate rendered).utf8ByteSize +
        (line.utf8ByteSize + if rendered.isEmpty then 0 else 1) := by
  have hone : "\n".utf8ByteSize = 1 := rfl
  induction rendered with
  | nil => simp
  | cons first rest ih =>
    cases rest with
    | nil =>
      rw [List.cons_append, List.nil_append, String.intercalate_cons_cons,
        String.intercalate_singleton, String.intercalate_singleton, String.utf8ByteSize_append,
        String.utf8ByteSize_append, hone]
      simp only [List.isEmpty_cons, Bool.false_eq_true, if_false]
      omega
    | cons second rest =>
      rw [List.cons_append, List.cons_append, String.intercalate_cons_cons, ← List.cons_append,
        String.utf8ByteSize_append, ih, String.intercalate_cons_cons,
        String.utf8ByteSize_append (s := first ++ "\n")]
      simp only [List.isEmpty_cons, Bool.false_eq_true, if_false]
      omega

def renderFull (lines : List (String × ℕ)) : List String :=
  lines.map fun line => formatLine (line.2 + 1) line.1

section Page

variable {startLine totalLines lineEnd : ℕ}

/-- What the loop keeps: the lines rendered so far are the first of the page, in full, and fit
together with the notice that would end the page after them. -/
structure Rendering (startLine totalLines lineEnd : ℕ) (shown : List (String × ℕ))
    (rendered : List String) (emittedBytes : ℕ) : Prop where
  full : rendered = renderFull shown
  emitted : emittedBytes = ("\n".intercalate rendered).utf8ByteSize
  fits : rendered ≠ [] → emittedBytes +
    (candidateSuffix startLine totalLines lineEnd rendered.length).utf8ByteSize ≤ defaultReadMaxBytes

/-- What a page shows of `lines`, which it was asked to show. -/
structure PageOf (startLine totalLines lineEnd : ℕ) (lines : List (String × ℕ))
    (result : List String × Bool) : Prop where
  shows : List.Forall₂ (ShowsLine totalLines) result.1 (lines.take result.1.length)
  fits : result.1 ≠ [] → ("\n".intercalate result.1).utf8ByteSize +
    (candidateSuffix startLine totalLines lineEnd result.1.length).utf8ByteSize ≤ defaultReadMaxBytes
  progress : lines ≠ [] → result.1 ≠ []
  whole : result.2 = false → result.1 = renderFull lines

theorem showsLine_full (shown rest : List (String × ℕ)) :
    List.Forall₂ (ShowsLine totalLines) (renderFull shown)
      ((shown ++ rest).take (renderFull shown).length) := by
  rw [renderFull, List.length_map, List.take_left]
  exact List.forall₂_map_left_iff.2 (List.forall₂_same.2 fun _ _ => .inl rfl)

theorem renderLines_spec (htotal : totalLines < 2 ^ 64) (rest : List (String × ℕ)) :
    ∀ {shown : List (String × ℕ)} {rendered : List String} {emittedBytes : ℕ},
      Rendering startLine totalLines lineEnd shown rendered emittedBytes →
      (∀ i line, (shown ++ rest)[i]? = some line → line.2 = startLine + i) →
      PageOf startLine totalLines lineEnd (shown ++ rest)
        (renderLines startLine totalLines lineEnd (rest.map Prod.fst) rendered emittedBytes) := by
  induction rest with
  | nil =>
    intro shown rendered emittedBytes h _
    obtain ⟨rfl, rfl, hfits⟩ := h
    refine ⟨showsLine_full shown [], hfits, ?_, fun _ => by simp [renderLines]⟩
    simp [renderLines, renderFull]
  | cons line rest ih =>
    intro shown rendered emittedBytes h hindex
    have hline : line.2 = startLine + shown.length := hindex _ line (by simp)
    obtain ⟨rfl, rfl, hfits⟩ := h
    have hlength : (renderFull shown).length = shown.length := List.length_map _
    rw [List.map_cons, renderLines, hlength, ← hline]
    by_cases hover : defaultReadMaxBytes <
        ("\n".intercalate (renderFull shown)).utf8ByteSize +
          ((formatLine (line.2 + 1) line.1).utf8ByteSize +
            if (renderFull shown).isEmpty then 0 else 1) +
          (candidateSuffix startLine totalLines lineEnd (shown.length + 1)).utf8ByteSize
    · rw [if_pos hover]
      cases shown with
      | cons first shown =>
        refine ⟨showsLine_full (first :: shown) (line :: rest), hfits, ?_, ?_⟩ <;>
          simp [renderFull]
      | nil =>
        -- The first line of the page does not fit: it is cut short.
        obtain rfl : startLine = line.2 := by simpa using hline.symm
        have hsize := utf8ByteSize_candidateSuffix line.2 totalLines lineEnd totalLines 1
        refine ⟨.cons (.inr ⟨?_, clampLine_congr hsize _⟩) (by simp), fun _ => ?_, ?_, ?_⟩
        · have hnone : ("\n".intercalate (renderFull [])).utf8ByteSize = 0 := rfl
          have hcost : (if (renderFull []).isEmpty then 0 else 1) = 0 := rfl
          have hone : ([] : List (String × ℕ)).length + 1 = 1 := rfl
          rw [hnone, hcost, hone] at hover
          unfold FitsAlone
          omega
        · exact utf8ByteSize_clampLine_le (utf8ByteSize_candidateSuffix_le htotal)
        · simp [renderFull]
        · simp
    · rw [if_neg hover]
      have hnext : Rendering startLine totalLines lineEnd (shown ++ [line])
          (renderFull shown ++ [formatLine (line.2 + 1) line.1]) _ :=
        ⟨by simp [renderFull], (utf8ByteSize_join_append _ _).symm, ?_⟩
      · simpa using ih hnext (by simpa using hindex)
      · intro _
        simpa [hlength] using hover

end Page

/-! ### Reading on -/

section Read

variable {content : String} (offset : ℕ)

def startOf (content : String) (offset : ℕ) : ℕ := min (offset - 1) (textLines content).length

/-- What `read_file` answers at an offset. -/
structure Reads (content : String) (offset : ℕ) (output : ReadFileOutput) : Prop where
  shows : List.Forall₂ (ShowsLine (textLines content).length) output.rendered
    (((textLines content).zipIdx.drop (startOf content offset)).take output.rendered.length)
  body : ∃ notice, output.content = "\n".intercalate output.rendered ++ notice
  bounded : output.content.utf8ByteSize ≤ defaultReadMaxBytes
  next : output.nextOffset =
    if 0 < output.rendered.length && startOf content offset + output.rendered.length <
      (textLines content).length then
      some (startOf content offset + output.rendered.length + 1) else none
  progress : startOf content offset < (textLines content).length → output.rendered ≠ []
  complete : offset = 0 → output.truncated = false → output.content =
    "\n".intercalate (renderFull (textLines content).zipIdx)

theorem lineWindow_cases (startLine totalLines : ℕ) :
    (lineWindow startLine totalLines none (decide (0 < offset))).1 = totalLines ∨
      offset = 0 ∧ defaultLineLimit < totalLines ∧
        (lineWindow startLine totalLines none (decide (0 < offset))).1 = defaultLineLimit := by
  simp only [lineWindow]
  split
  next h =>
    simp only [Bool.and_eq_true, Bool.not_eq_true', decide_eq_false_iff_not, decide_eq_true_eq] at h
    exact .inr ⟨by omega, h.2, Nat.min_eq_left (Nat.le_of_lt h.2)⟩
  · exact .inl rfl

/-- The body is the rendered lines with the notice that was reserved for them. -/
theorem pageOutput_bounded {startLine totalLines lineEnd : ℕ} {lines : List (String × ℕ)}
    {result : List String × Bool} (h : PageOf startLine totalLines lineEnd lines result)
    (byDefault : Bool) :
    (pageOutput startLine totalLines result.1 result.2 byDefault).content.utf8ByteSize ≤
      defaultReadMaxBytes := by
  by_cases hempty : result.1 = []
  · simp [pageOutput, hempty]
  have hfits := h.fits hempty
  have hpos : 0 < result.1.length := List.length_pos_iff.2 hempty
  unfold candidateSuffix at hfits
  by_cases hmore : startLine + result.1.length < totalLines
  · simp only [hmore, if_true] at hfits
    cases result.2 <;>
      simp only [pageOutput, hpos, hmore, decide_true, Bool.and_self, if_true,
        Bool.false_eq_true, if_false, String.utf8ByteSize_append]
    · rwa [utf8ByteSize_suffix _ _ _ .lines]
    · rwa [utf8ByteSize_suffix _ _ _ .bytes]
  · simp only [hmore, if_false] at hfits
    cases result.2 <;>
      simp only [pageOutput, hmore, decide_false, Bool.and_false, if_true, Bool.false_eq_true,
        if_false, String.utf8ByteSize_append] <;>
      exact hfits

theorem reads_readFile (htotal : (textLines content).length < 2 ^ 64) :
    Reads content offset (readFile content offset) := by
  have hwindow := lineWindow_cases offset (startOf content offset) (textLines content).length
  generalize hend : lineWindow (startOf content offset) (textLines content).length none
    (decide (0 < offset)) = window at hwindow
  obtain ⟨lines, hlines⟩ : ∃ lines,
      ((textLines content).zipIdx.drop (startOf content offset)).take
        (window.1 - startOf content offset) = lines := ⟨_, rfl⟩
  have hmap : ((textLines content).take window.1).drop (startOf content offset) =
      lines.map Prod.fst := by
    rw [← hlines, List.drop_take, List.map_take, List.map_drop, List.zipIdx_map_fst]
  have hlength : lines.length =
      min (window.1 - startOf content offset) ((textLines content).length - startOf content offset) := by
    rw [← hlines, List.length_take, List.length_drop, List.length_zipIdx]
  have hstart : startOf content offset ≤ (textLines content).length := Nat.min_le_right _ _
  have hpage : PageOf (startOf content offset) (textLines content).length window.1 lines
      (renderLines (startOf content offset) (textLines content).length window.1
        (lines.map Prod.fst) [] 0) := by
    have hnothing : Rendering (startOf content offset) (textLines content).length window.1 [] [] 0 :=
      ⟨rfl, rfl, fun hne => absurd rfl hne⟩
    refine renderLines_spec htotal lines hnothing ?_
    intro i line hline
    rw [List.nil_append, ← hlines, List.getElem?_take] at hline
    split at hline
    · rw [List.getElem?_drop, List.getElem?_zipIdx, Option.map_eq_some_iff] at hline
      obtain ⟨_, _, rfl⟩ := hline
      exact Nat.zero_add _
    · cases hline
  obtain ⟨result, hresult⟩ : ∃ result, renderLines (startOf content offset)
      (textLines content).length window.1 (lines.map Prod.fst) [] 0 = result := ⟨_, rfl⟩
  have hread : readFile content offset = pageOutput (startOf content offset)
      (textLines content).length result.1 result.2 window.2 := by
    rw [← hresult, ← hmap, ← hend]
    rfl
  rw [hresult] at hpage
  rw [hread]
  have hshown : result.1.length ≤ lines.length := by
    have := hpage.shows.length_eq
    rw [List.length_take] at this
    omega
  refine ⟨?_, ⟨_, rfl⟩, pageOutput_bounded hpage window.2, rfl, ?_, ?_⟩
  · have htake : lines.take result.1.length =
        ((textLines content).zipIdx.drop (startOf content offset)).take result.1.length := by
      rw [← hlines, List.take_take, Nat.min_eq_left (by omega)]
    exact htake ▸ hpage.shows
  · intro hlt
    refine hpage.progress (List.length_pos_iff.1 ?_)
    obtain hall | ⟨rfl, -, hlimit⟩ := hwindow
    · omega
    · have hzero : startOf content 0 = 0 := Nat.zero_min _
      have hpos : 0 < defaultLineLimit := by decide
      omega
  · rintro rfl huntruncated
    have hzero : startOf content 0 = 0 := Nat.zero_min _
    simp only [ReadFileOutput.truncated, pageOutput] at huntruncated
    split at huntruncated
    · cases huntruncated
    split at huntruncated
    · cases huntruncated
    next hcut hmore =>
      have hwhole := hpage.whole (by simpa using hcut)
      have hrendered : result.1.length = lines.length := by rw [hwhole, renderFull, List.length_map]
      obtain hall | ⟨-, hmany, hlimit⟩ := hwindow
      · have : lines = (textLines content).zipIdx := by
          rw [← hlines, hzero, hall, List.drop_zero, Nat.sub_zero]
          exact List.take_of_length_le (by simp)
        rw [← this, ← hwhole]
        simp only [pageOutput, hmore, hcut, if_false, Bool.false_eq_true, String.append_empty]
      · have hpos : 0 < defaultLineLimit := by decide
        simp only [Bool.and_eq_true, decide_eq_true_eq] at hmore
        omega

/-- The pages from an offset on show the lines from its start line on, and the last one returns no
further offset. -/
theorem readPages_shows (htotal : (textLines content).length < 2 ^ 64) (fuel : ℕ) :
    ∀ offset, (textLines content).length - startOf content offset < fuel →
      List.Forall₂ (ShowsLine (textLines content).length)
        ((readPages content fuel offset).flatMap ReadFileOutput.rendered)
        ((textLines content).zipIdx.drop (startOf content offset)) ∧
      ((readPages content fuel offset).getLast?.map ReadFileOutput.nextOffset) = some none := by
  induction fuel with
  | zero =>
    intro offset h
    omega
  | succ fuel ih =>
    intro offset hfuel
    have h := reads_readFile offset htotal
    have hnext := h.next
    rw [readPages, List.flatMap_cons]
    split_ifs at hnext with hmore
    · simp only [Bool.and_eq_true, decide_eq_true_eq] at hmore
      have hstart : startOf content
          (startOf content offset + (readFile content offset).rendered.length + 1) =
          startOf content offset + (readFile content offset).rendered.length :=
        Nat.min_eq_left (Nat.le_of_lt hmore.2)
      obtain ⟨hrest, hlast⟩ := ih
        (startOf content offset + (readFile content offset).rendered.length + 1) (by omega)
      rw [hstart, ← List.drop_drop] at hrest
      simp only [hnext]
      refine ⟨?_, ?_⟩
      · have happend := List.rel_append h.shows hrest
        simp only [List.take_append_drop] at happend
        exact happend
      · cases hpages : readPages content fuel
            (startOf content offset + (readFile content offset).rendered.length + 1) with
        | nil => simp [hpages] at hlast
        | cons page pages => rwa [List.getLast?_cons_cons, ← hpages]
    · simp only [hnext, List.flatMap_nil, List.append_nil, List.getLast?_singleton, Option.map_some]
      refine ⟨?_, trivial⟩
      have hall : (textLines content).zipIdx.length - startOf content offset ≤
          (readFile content offset).rendered.length := by
        rw [List.length_zipIdx]
        simp only [Bool.and_eq_true, decide_eq_true_eq, not_and, Nat.not_lt] at hmore
        by_cases hlt : startOf content offset < (textLines content).length
        · have := hmore (List.length_pos_iff.2 (h.progress hlt))
          omega
        · omega
      have hshows := h.shows
      rwa [List.take_of_length_le (by rwa [List.length_drop])] at hshows

end Read

/-- A text of empty lines. -/
def blankText (n : ℕ) : String := String.ofList (List.replicate n '\n')

theorem splitOn_replicate (n : ℕ) :
    (List.replicate n '\n').splitOn '\n' = List.replicate (n + 1) [] := by
  induction n with
  | zero => rfl
  | succ n ih =>
    rw [List.splitOn] at ih ⊢
    rw [List.replicate_succ, List.splitOnP_cons_eq_if_modifyHead, ih]
    rfl

theorem length_textLines_blankText (n : ℕ) : (textLines (blankText n)).length = n := by
  rw [textLines, blankText, String.toList_ofList, splitOn_replicate]
  simp [List.getLast?_replicate, List.dropLast_replicate]

theorem length_le_join (rendered : List String) :
    rendered.length ≤ ("\n".intercalate rendered).utf8ByteSize + 1 := by
  have hone : "\n".utf8ByteSize = 1 := rfl
  induction rendered with
  | nil => exact Nat.zero_le _
  | cons first rest ih =>
    cases rest with
    | nil => simp
    | cons second rest =>
      rw [String.intercalate_cons_cons, String.utf8ByteSize_append, String.utf8ByteSize_append, hone,
        List.length_cons]
      omega

end Ironclaw.Coding
