import Mathlib.Data.List.Infix
import Mathlib.Data.List.DropRight

/-! # Texts cut into segments

A text over `α` is cut at a separator and the segments a test rejects are dropped. The lemmas
say how this reading meets the operations a path goes through: joining two texts at a separator,
trimming separators at either end, and writing the segments out again. A text that continues
another one behind a separator has that one's segments as a prefix (`segments_of_continues`); two
lists under prefixes of one length are apart unless the prefixes agree
(`eq_of_append_isPrefix_append`). -/

namespace Ironclaw

variable {α : Type} [BEq α] [LawfulBEq α] {sep : α} {keep : List α → Bool}

omit [LawfulBEq α] in
/-- The segments of `text` between separators, without those `keep` rejects. -/
def segments (sep : α) (keep : List α → Bool) (text : List α) : List (List α) :=
  (text.splitOn sep).filter keep

omit [BEq α] [LawfulBEq α] in
/-- The segments written out, each behind a separator. -/
def render (sep : α) (parts : List (List α)) : List α :=
  parts.flatMap fun part => sep :: part

variable {parts : List (List α)}

omit [BEq α] [LawfulBEq α] in
theorem render_eq_intercalate (hne : parts ≠ []) :
    render sep parts = sep :: [sep].intercalate parts := by
  induction parts with
  | nil => exact absurd rfl hne
  | cons part rest ih =>
    rw [render, List.flatMap_cons]
    rcases eq_or_ne rest [] with rfl | hrest
    · rw [List.flatMap_nil, List.append_nil, List.intercalate_singleton]
    · rw [List.intercalate_cons_of_ne_nil hrest, List.append_assoc, List.singleton_append,
        ← ih hrest]
      rfl

omit [BEq α] [LawfulBEq α] in
theorem render_append (xs ys : List (List α)) :
    render sep (xs ++ ys) = render sep xs ++ render sep ys :=
  List.flatMap_append

omit [BEq α] [LawfulBEq α] in
theorem intercalate_append {xs ys : List (List α)} (hxs : xs ≠ []) (hys : ys ≠ []) :
    [sep].intercalate (xs ++ ys) = [sep].intercalate xs ++ sep :: [sep].intercalate ys := by
  have h : render sep (xs ++ ys) = _ := render_append xs ys
  rw [render_eq_intercalate hxs, render_eq_intercalate hys,
    render_eq_intercalate (List.append_ne_nil_of_left_ne_nil hxs _), List.cons_append] at h
  exact List.tail_eq_of_cons_eq h

omit [BEq α] [LawfulBEq α] in
theorem length_le_length_render (parts : List (List α)) :
    parts.length ≤ (render sep parts).length := by
  induction parts with
  | nil => exact Nat.zero_le _
  | cons part rest ih =>
    rw [← List.singleton_append, render_append, List.length_append, List.length_append]
    refine Nat.add_le_add ?_ ih
    simp [render]

omit [BEq α] [LawfulBEq α] in
/-- What is written out consists of the separator and the parts. -/
theorem of_mem_render {c : α} (h : c ∈ render sep parts) : c = sep ∨ ∃ part ∈ parts, c ∈ part := by
  obtain ⟨part, hpart, hc⟩ := List.mem_flatMap.1 h
  rcases List.mem_cons.1 hc with rfl | hc
  · exact .inl rfl
  · exact .inr ⟨part, hpart, hc⟩

/-- Trimming what was written out takes the first separator off. -/
theorem dropWhile_render (h : ∀ part ∈ parts, part ≠ [] ∧ sep ∉ part) :
    (render sep parts).dropWhile (· == sep) = [sep].intercalate parts := by
  cases parts with
  | nil => rfl
  | cons part rest =>
    rw [render_eq_intercalate (List.cons_ne_nil part rest), List.dropWhile_cons_of_pos (by simp)]
    obtain ⟨hne, hsep⟩ := h part List.mem_cons_self
    cases part with
    | nil => exact absurd rfl hne
    | cons c part =>
      rw [List.intercalate_cons_cons_left, List.dropWhile_cons_of_neg]
      intro hc
      exact hsep (by simp [eq_of_beq hc])

/-- What was written out does not end with a separator. -/
theorem rdropWhile_render (h : ∀ part ∈ parts, part ≠ [] ∧ sep ∉ part) :
    (render sep parts).rdropWhile (· == sep) = render sep parts := by
  rcases List.eq_nil_or_concat' parts with rfl | ⟨parts, part, rfl⟩
  · rfl
  · obtain ⟨hne, hsep⟩ := h part (by simp)
    obtain ⟨init, c, rfl⟩ := (List.eq_nil_or_concat' part).resolve_left hne
    have hc : ¬ (c == sep) = true := fun heq => hsep (by simp [eq_of_beq heq])
    have hend : render sep (parts ++ [init ++ [c]]) = (render sep parts ++ sep :: init) ++ [c] := by
      rw [render_append]
      simp [render]
    rw [hend, List.rdropWhile_concat_neg (· == sep) _ c hc]

theorem rdropWhile_append_sep {text last : List α} (h : sep ∉ last) :
    (text ++ sep :: last).rdropWhile (· != sep) = text ++ [sep] := by
  have hlast : ∀ c ∈ last.reverse, (c != sep) = true := by
    intro c hc
    rw [bne_iff_ne]
    rintro rfl
    exact h (List.mem_reverse.1 hc)
  rw [List.rdropWhile, List.reverse_append, List.reverse_cons, List.append_assoc,
    List.dropWhile_append_of_pos hlast, List.singleton_append, List.dropWhile_cons_of_neg (by simp),
    List.reverse_cons, List.reverse_reverse]

/-- A segment holds elements of the text, and no separator. -/
theorem mem_of_mem_splitOn {text part : List α} (h : part ∈ text.splitOn sep) :
    ∀ c ∈ part, c ∈ text ∧ c ≠ sep := by
  induction text generalizing part with
  | nil =>
    rw [List.splitOn_nil, List.mem_singleton] at h
    rw [h]
    exact fun c hc => absurd hc List.not_mem_nil
  | cons x text ih =>
    rw [List.splitOn_cons_eq_if_modifyHead] at h
    obtain ⟨first, rest, hsplit⟩ := List.exists_cons_of_ne_nil (List.splitOn_ne_nil sep text)
    rw [hsplit] at h ih
    have later : ∀ {part}, part ∈ first :: rest → ∀ c ∈ part, c ∈ x :: text ∧ c ≠ sep :=
      fun hp c hc => ⟨List.mem_cons_of_mem _ (ih hp c hc).1, (ih hp c hc).2⟩
    split at h
    · rcases List.mem_cons.1 h with rfl | h
      · exact fun c hc => absurd hc List.not_mem_nil
      · exact later h
    · rename_i hx
      rcases List.mem_cons.1 h with rfl | h
      -- `x` is no separator, and it was put in front of a segment that has none
      · intro c hc
        rcases List.mem_cons.1 hc with rfl | hc
        · exact ⟨List.mem_cons_self, fun heq => hx (by simp [heq])⟩
        · exact later List.mem_cons_self c hc
      · exact later (List.mem_cons_of_mem _ h)

theorem not_mem_of_mem_splitOn {text part : List α} (h : part ∈ text.splitOn sep) : sep ∉ part :=
  fun hsep => (mem_of_mem_splitOn h sep hsep).2 rfl

theorem segments_append_sep (xs ys : List α) :
    segments sep keep (xs ++ sep :: ys) = segments sep keep xs ++ segments sep keep ys := by
  rw [segments, List.splitOn_append_cons_self, List.filter_append]
  rfl

theorem of_mem_segments {text part : List α} (h : part ∈ segments sep keep text) :
    sep ∉ part ∧ keep part = true :=
  ⟨not_mem_of_mem_splitOn (List.mem_of_mem_filter h), List.of_mem_filter h⟩

/-- Putting a part without separators between two texts cuts as the two texts do: the part stays
inside one segment. -/
theorem splitOn_append_append (first last : List α) :
    ∃ init before after rest, ∀ part, sep ∉ part →
      (first ++ part ++ last).splitOn sep = init ++ (before ++ part ++ after) :: rest := by
  induction first with
  | nil =>
    obtain ⟨after, rest, hlast⟩ := List.exists_cons_of_ne_nil (List.splitOn_ne_nil sep last)
    refine ⟨[], [], after, rest, fun part hpart => ?_⟩
    simp only [List.nil_append]
    induction part with
    | nil => exact hlast
    | cons c part ih =>
      have hc : ¬ (c == sep) = true := fun heq => hpart (by simp [eq_of_beq heq])
      rw [List.cons_append, List.splitOn_cons_eq_if_modifyHead, if_neg hc,
        ih fun hmem => hpart (List.mem_cons_of_mem _ hmem)]
      rfl
  | cons c first ih =>
    obtain ⟨init, before, after, rest, ih⟩ := ih
    simp only [List.cons_append, List.splitOn_cons_eq_if_modifyHead]
    by_cases hc : (c == sep) = true
    · exact ⟨[] :: init, before, after, rest, fun part hpart => by rw [if_pos hc, ih part hpart]; rfl⟩
    cases init with
    | nil =>
      refine ⟨[], c :: before, after, rest, fun part hpart => ?_⟩
      rw [if_neg hc, ih part hpart]
      rfl
    | cons segment init =>
      refine ⟨(c :: segment) :: init, before, after, rest, fun part hpart => ?_⟩
      rw [if_neg hc, ih part hpart]
      rfl

/-- Cutting what was written out: the leading separator leaves one empty segment. -/
theorem splitOn_render (hne : parts ≠ []) (h : ∀ part ∈ parts, sep ∉ part) :
    (render sep parts).splitOn sep = [] :: parts := by
  have hcut := List.splitOn_append_cons_self (a := sep) [] ([sep].intercalate parts)
  rw [List.splitOn_intercalate sep h hne] at hcut
  rw [render_eq_intercalate hne]
  simpa using hcut

/-- Writing segments out and cutting the result gives them back. -/
theorem segments_render (hne : parts ≠ [])
    (h : ∀ part ∈ parts, sep ∉ part ∧ keep part = true) (hempty : keep [] = false) :
    segments sep keep (render sep parts) = parts := by
  rw [segments, splitOn_render hne fun part hp => (h part hp).1,
    List.filter_cons_of_neg (by simp [hempty])]
  exact List.filter_eq_self.2 fun part hp => (h part hp).2

/-- A text, or one that continues it behind a separator, starts with its segments. -/
theorem segments_of_continues {root text : List α} (h : text = root ∨ ∃ tail, text = root ++ sep :: tail) :
    segments sep keep root <+: segments sep keep text := by
  rcases h with rfl | ⟨tail, rfl⟩
  · exact List.prefix_rfl
  · rw [segments_append_sep]
    exact List.prefix_append _ _

end Ironclaw
