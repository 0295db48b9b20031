/-
# Layout

How a text is laid out: how its lines end, what blanks stand at their ends, and which of
them are blank or comments. `Relayout` is one change of layout, and `Alike` is any number of
changes made or taken back. None of them reaches the lines that carry meaning, so whoever
reads those lines alone reads texts of one layout like those of another. The inside of a
line is not layout; a blank there may count.
-/

import Kata.Proofs.Text.Lines
import Mathlib.Logic.Relation

namespace Kata.Text

/-- The text of some lines, with a line feed between each two. -/
def ofLines (lines : List (List Char)) : List Char := ['\n'].intercalate lines

/-- Blanks that stay on their line. -/
structure Padding (w : List Char) : Prop where
  blank : allBlank w = true
  unbroken : '\n' ∉ w

/-- A line without meaning: a blank one, or a comment behind any indentation. -/
structure Idle (line : List Char) : Prop where
  unbroken : '\n' ∉ line
  blank_or_comment : allBlank line = true ∨ isComment (trimStart line) = true

/-- One change of layout. -/
inductive Relayout : List Char → List Char → Prop
  /-- A line ends in a carriage return and a line feed instead of a line feed. -/
  | lineEnd (before after : List Char) :
      Relayout (before ++ '\n' :: after) (before ++ '\r' :: '\n' :: after)
  /-- A line gets blanks in front and behind. -/
  | pad (earlier later : List (List Char)) {front line back : List Char}
      (unbroken : '\n' ∉ line) (indented : Padding front) (trailed : Padding back) :
      Relayout (ofLines (earlier ++ line :: later))
        (ofLines (earlier ++ (front ++ line ++ back) :: later))
  /-- A line without meaning comes between two lines, in front of all or behind all. -/
  | addLine (earlier later : List (List Char)) {line : List Char} (idle : Idle line) :
      Relayout (ofLines (earlier ++ later)) (ofLines (earlier ++ line :: later))

/-- Two texts differ in layout only. -/
def Alike : List Char → List Char → Prop := Relation.EqvGen Relayout

variable {s t w line : List Char}

/-! ## Lines of a text that is put together -/

theorem significantLines_append_cons (s t : List Char) :
    significantLines (s ++ '\n' :: t) = significantLines s ++ significantLines t := by
  simp only [significantLines, trimmedLines, List.splitOn_append_cons_self, List.map_append,
    List.filter_append]

theorem significantLines_of_unbroken (unbroken : '\n' ∉ s) :
    significantLines s = [trim s].filter fun line => !line.isEmpty && !isComment line := by
  rw [significantLines, trimmedLines, List.splitOn_eq_singleton unbroken, List.map_singleton]

/-- The lines with a meaning are found line by line. -/
theorem significantLines_ofLines (lines : List (List Char)) :
    significantLines (ofLines lines) = lines.flatMap significantLines := by
  induction lines with
  | nil => rfl
  | cons first rest ih =>
      cases rest with
      | nil => simp [ofLines]
      | cons second rest =>
          have joined : ofLines (first :: second :: rest) =
              first ++ '\n' :: ofLines (second :: rest) := by
            simp [ofLines, List.intercalate_cons_cons]
          rw [joined, significantLines_append_cons, ih]
          exact List.flatMap_cons.symm

/-! ## Layout has no meaning -/

theorem significantLines_pad (unbroken : '\n' ∉ line) {front back : List Char}
    (indented : Padding front) (trailed : Padding back) :
    significantLines (front ++ line ++ back) = significantLines line := by
  have whole : '\n' ∉ front ++ line ++ back := by
    simp [indented.unbroken, unbroken, trailed.unbroken]
  rw [significantLines_of_unbroken whole, significantLines_of_unbroken unbroken,
    trim_append_right _ trailed.blank, trim_append_left indented.blank]

/-- A comment is still one when the blanks behind it are gone. -/
theorem isComment_trimEnd (comment : isComment s = true) : isComment (trimEnd s) = true := by
  obtain ⟨rest, rfl⟩ := List.isPrefixOf_iff_prefix.mp comment
  have closed : endsBlank ['/', '/'] = false := rfl
  -- What is trimmed away is blank, so it stops behind the slashes.
  rw [trimEnd_append _ (.inr closed)]
  exact List.isPrefixOf_iff_prefix.mpr ⟨trimEnd rest, rfl⟩

theorem Idle.significantLines_eq_nil (idle : Idle line) : significantLines line = [] := by
  rw [significantLines_of_unbroken idle.unbroken]
  rcases idle.blank_or_comment with blank | comment
  · simp [trim_eq_nil_of_allBlank blank]
  · simp [trim, isComment_trimEnd comment]

/-- Blanks behind the last line of a text are those of a line. -/
theorem significantLines_append_padding (s : List Char) (trailed : Padding w) :
    significantLines (s ++ w) = significantLines s := by
  have single {line : List Char} (unbroken : '\n' ∉ line) :
      significantLines (line ++ w) = significantLines line := by
    have bare : Padding [] := ⟨rfl, List.not_mem_nil⟩
    exact significantLines_pad unbroken bare trailed
  by_cases broken : '\n' ∈ s
  · obtain ⟨back, front, whole, unbroken⟩ :=
      List.eq_append_cons_of_mem (List.mem_reverse.mpr broken)
    have last : s = front.reverse ++ '\n' :: back.reverse := by
      rw [← List.reverse_reverse s, whole]
      simp
    rw [last, List.append_assoc, List.cons_append, significantLines_append_cons,
      significantLines_append_cons, single (by simpa using unbroken)]
  · exact single broken

theorem Relayout.significantLines_eq (change : Relayout s t) :
    significantLines s = significantLines t := by
  cases change with
  | lineEnd before after =>
      have ended : Padding ['\r'] := ⟨by decide, by decide⟩
      have returned : before ++ '\r' :: '\n' :: after = (before ++ ['\r']) ++ '\n' :: after := by
        simp
      rw [returned, significantLines_append_cons, significantLines_append_cons,
        significantLines_append_padding before ended]
  | pad earlier later unbroken indented trailed =>
      simp only [significantLines_ofLines, List.flatMap_append, List.flatMap_cons,
        significantLines_pad unbroken indented trailed]
  | addLine earlier later idle =>
      simp only [significantLines_ofLines, List.flatMap_append, List.flatMap_cons,
        idle.significantLines_eq_nil, List.nil_append]

/-- Texts that differ in layout only have the same lines with a meaning. -/
theorem Alike.significantLines_eq (alike : Alike s t) :
    significantLines s = significantLines t := by
  induction alike with
  | rel s t change => exact change.significantLines_eq
  | refl s => rfl
  | symm s t _ ih => exact ih.symm
  | trans s t u _ _ first second => exact first.trans second

end Kata.Text
