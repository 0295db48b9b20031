/-
# The lines that carry meaning

Reading a text line by line leaves lines that are trimmed, hold no line feed, are not empty
and are no comments. Lines of that kind, joined by line feeds, are read back one by one, so
whoever writes a text can reason about its lines alone. What becomes of the other lines of a
text is not said here.
-/

import Kata.Proofs.Text.Trim
import Kata.Text.Lines

namespace Kata.Text

variable {c : Char} {s line piece : List Char}

/-! ## Joining and cutting -/

/-- What stands in front of a character, if it has not come before. -/
theorem takeWhile_bne (absent : c ∉ s) (t : List Char) :
    (s ++ c :: t).takeWhile (· != c) = s := by
  have others : ∀ d ∈ s, (d != c) = true := by
    intro d inside
    simpa using fun same : d = c => absent (same ▸ inside)
  rw [List.takeWhile_append_of_pos others]
  simp

theorem dropWhile_bne (absent : c ∉ s) (t : List Char) :
    (s ++ c :: t).dropWhile (· != c) = c :: t := by
  have others : ∀ d ∈ s, (d != c) = true := by
    intro d inside
    simpa using fun same : d = c => absent (same ▸ inside)
  rw [List.dropWhile_append_of_pos others]
  simp

theorem not_mem_of_mem_splitOn (inside : piece ∈ s.splitOn c) : c ∉ piece := by
  induction s generalizing piece with
  | nil =>
      obtain rfl : piece = [] := by simpa using inside
      simp
  | cons d rest ih =>
      obtain ⟨first, more, pieces⟩ :=
        List.exists_cons_of_ne_nil (List.splitOn_ne_nil c rest)
      rw [List.splitOn_cons_eq_if_modifyHead, pieces] at inside
      rw [pieces] at ih
      split at inside
      · rcases List.mem_cons.mp inside with rfl | later
        · simp
        · exact ih later
      · rename_i other
        rcases List.mem_cons.mp inside with rfl | later
        · have same : c ≠ d := fun same => other (by simp [same])
          simpa [same] using ih List.mem_cons_self
        · exact ih (List.mem_cons_of_mem _ later)

theorem mem_intercalate_of_mem {separator : List Char} {pieces : List (List Char)}
    (inside : piece ∈ pieces) (held : c ∈ piece) : c ∈ separator.intercalate pieces := by
  induction pieces with
  | nil => exact absurd inside List.not_mem_nil
  | cons first rest ih =>
      cases rest with
      | nil =>
          obtain rfl : piece = first := by simpa using inside
          simpa using held
      | cons second rest =>
          rw [List.intercalate_cons_cons]
          rcases List.mem_cons.mp inside with rfl | later
          · exact List.mem_append_left _ (List.mem_append_left _ held)
          · exact List.mem_append_right _ (ih later)

/-- A character of a joined text comes from a piece or from the separator. -/
theorem mem_or_of_mem_intercalate {separator : List Char} {pieces : List (List Char)}
    (inside : c ∈ separator.intercalate pieces) :
    c ∈ separator ∨ ∃ piece ∈ pieces, c ∈ piece := by
  induction pieces with
  | nil => exact absurd inside List.not_mem_nil
  | cons first rest ih =>
      cases rest with
      | nil =>
          rw [List.intercalate_singleton] at inside
          exact .inr ⟨first, List.mem_cons_self, inside⟩
      | cons second rest =>
          rw [List.intercalate_cons_cons, List.mem_append, List.mem_append] at inside
          rcases inside with (held | sep) | later
          · exact .inr ⟨first, List.mem_cons_self, held⟩
          · exact .inl sep
          · rcases ih later with sep | ⟨piece, among, held⟩
            · exact .inl sep
            · exact .inr ⟨piece, List.mem_cons_of_mem _ among, held⟩

/-- Cutting makes no characters up. -/
theorem mem_of_mem_splitOn {d : Char} (inside : piece ∈ s.splitOn c) (held : d ∈ piece) :
    d ∈ s := by
  have again : d ∈ [c].intercalate (s.splitOn c) := mem_intercalate_of_mem inside held
  rwa [List.intercalate_splitOn] at again

/-! ## The first line -/

/-- What stands in front of the first line feed. -/
def firstLine (s : List Char) : List Char := s.takeWhile (· != '\n')

/-- Without a line feed the first line is the whole text. -/
theorem firstLine_eq_self (unbroken : '\n' ∉ s) : firstLine s = s := by
  rw [firstLine, List.takeWhile_eq_self_iff]
  intro c inside
  simpa using fun same : c = '\n' => unbroken (same ▸ inside)

/-- What is put in front of a text becomes a part of its first line. -/
theorem trimmedLines_append (unbroken : '\n' ∉ s) (t : List Char) :
    trimmedLines (s ++ t) = trim (s ++ firstLine t) :: (trimmedLines t).tail := by
  by_cases broken : '\n' ∈ t
  · obtain ⟨before, after, rfl, first⟩ := List.eq_append_cons_of_mem broken
    have absent : '\n' ∉ s ++ before := by simp [unbroken, first]
    rw [trimmedLines, trimmedLines, firstLine, takeWhile_bne first, ← List.append_assoc,
      List.splitOn_append_cons_self_of_not_mem absent,
      List.splitOn_append_cons_self_of_not_mem first]
    rfl
  · have absent : '\n' ∉ s ++ t := by simp [unbroken, broken]
    rw [trimmedLines, trimmedLines, firstLine_eq_self broken, List.splitOn_eq_singleton absent,
      List.splitOn_eq_singleton broken]
    rfl

theorem tail_trimmedLines (unbroken : '\n' ∉ s) : (trimmedLines s).tail = [] := by
  rw [trimmedLines, List.splitOn_eq_singleton unbroken]
  rfl

/-! ## Lines with a meaning -/

/-- A text that is read as one line with a meaning. -/
structure Significant (line : List Char) : Prop where
  filled : line ≠ []
  trim_eq : trim line = line
  unbroken : '\n' ∉ line
  no_comment : isComment line = false

theorem significant_of_mem_significantLines (inside : line ∈ significantLines s) :
    Significant line := by
  obtain ⟨among, kept⟩ := List.mem_filter.mp inside
  obtain ⟨raw, split, rfl⟩ := List.mem_map.mp among
  simp only [Bool.and_eq_true, Bool.not_eq_true', List.isEmpty_eq_false_iff] at kept
  refine ⟨kept.1, trim_trim raw, ?_, kept.2⟩
  intro broken
  exact not_mem_of_mem_splitOn split (mem_of_mem_trim broken)

theorem trimmedLines_intercalate {lines : List (List Char)} (some_ : lines ≠ [])
    (significant : ∀ line ∈ lines, Significant line) :
    trimmedLines (['\n'].intercalate lines) = lines := by
  have trimmed : lines.map trim = lines := by
    conv_rhs => rw [← List.map_id lines]
    apply List.map_congr_left
    intro line inside
    exact (significant line inside).trim_eq
  rw [trimmedLines,
    List.splitOn_intercalate '\n' (fun line inside => (significant line inside).unbroken) some_,
    trimmed]

/-- Lines with a meaning are read back from the text that they make up. -/
theorem significantLines_intercalate {lines : List (List Char)}
    (significant : ∀ line ∈ lines, Significant line) :
    significantLines (['\n'].intercalate lines) = lines := by
  by_cases nothing : lines = []
  · subst nothing
    rfl
  · rw [significantLines, trimmedLines_intercalate nothing significant]
    apply List.filter_eq_self.mpr
    intro line inside
    obtain ⟨filled, -, -, no_comment⟩ := significant line inside
    simp [filled, no_comment]

end Kata.Text
