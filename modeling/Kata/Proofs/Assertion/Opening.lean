/-
# Lines that are cut behind the call

An assertion line may be any text behind its keyword. This file is about the lines that are
made of a call text without the marker, the marker, and whatever is expected, with a space
between them. Trimming such a line is trimming what is expected, and if that is more than
blanks the line is cut in front of it, even if it holds further markers. Neither text has to
make sense: they are read later.
-/

import Kata.Proofs.Assertion.Lines
import Kata.Proofs.Assertion.Reading

namespace Kata.Assertion

/-- A text that can stand for the call on a line of a style. It need not be a call. -/
structure Callable (style : Style) (call : List Char) : Prop where
  filled : call ≠ []
  bare : Text.trim call = call
  unmarked : ¬ style.marker.toList <:+: call

/-- A line up to its marker. -/
def opening (style : Style) (call : List Char) : List Char :=
  style.keyword.toList ++ ' ' :: (call ++ ' ' :: style.marker.toList)

variable {style : Style} {call expected : List Char}

theorem unbroken_opening (style : Style) (unbroken : '\n' ∉ call) :
    '\n' ∉ opening style call ++ [' '] := by
  have keyword : '\n' ∉ style.keyword.toList := by cases style <;> decide
  have marker : '\n' ∉ style.marker.toList := by cases style <;> decide
  simp [opening, keyword, marker, unbroken]

/-- A line opens and its marker closes without a blank, so only what is behind is trimmed. -/
theorem trim_opening_append (style : Style) (call behind : List Char) :
    Text.trim (opening style call ++ behind) = opening style call ++ Text.trimEnd behind := by
  have front : Text.startsBlank (opening style call ++ behind) = false := by
    cases style <;> rfl
  have back : Text.endsBlank (opening style call) = false := by
    have marker : Text.endsBlank style.marker.toList = false := by cases style <;> decide
    have shape : opening style call = (style.keyword.toList ++ ' ' :: (call ++ [' '])) ++
        style.marker.toList := by simp [opening]
    rw [shape, Text.endsBlank_append _ (marker_ne_nil style), marker]
  rw [Text.trim, Text.trimStart_eq_self front, Text.trimEnd_append _ (.inr back)]

theorem style?_trim_opening_append (style : Style) (call behind : List Char) :
    style? (Text.trim (opening style call ++ behind)) = some style := by
  rw [trim_opening_append]
  cases style <;> rfl

/-! ## Reading -/

namespace Callable

theorem startsBlank_eq_false (callable : Callable style call) :
    Text.startsBlank call = false := by
  rw [← callable.bare, Text.startsBlank_trim]

theorem allBlank_eq_false (callable : Callable style call) : Text.allBlank call = false := by
  apply Text.allBlank_eq_false_of_trim_ne_nil
  rw [callable.bare]
  exact callable.filled

/-- Behind the keyword stands the call, so that is where the line is looked at. -/
theorem read_opening_append (callable : Callable style call) (behind : List Char) :
    read style (opening style call ++ behind) =
      (cut? style (call ++ ' ' :: (style.marker.toList ++ behind))).elim
        (.error style.complaint) .ok := by
  rw [← read_keyword_append, opening]
  · simp
  · rw [Text.startsBlank_append callable.filled, callable.startsBlank_eq_false]

/-- If something is expected, the line is read as the two texts that it is made of. -/
theorem read_of_solid (callable : Callable style call)
    (solid : Text.allBlank expected = false) :
    read style (Text.trim (opening style call ++ ' ' :: expected)) =
      .ok ⟨call, Text.trim expected⟩ := by
  obtain ⟨back, blank, whole⟩ := Text.exists_trimEnd_append expected
  have kept : Text.allBlank (Text.trimEnd expected) = false := by
    rw [whole, Text.allBlank_append, blank, Bool.and_true] at solid
    exact solid
  have trimmed : Text.trim (Text.trimEnd expected) = Text.trim expected := by
    conv_rhs => rw [whole, Text.trim_append_right _ blank]
  rw [trim_opening_append, ← List.singleton_append, Text.trimEnd_append _ (.inl solid),
    callable.read_opening_append, List.singleton_append,
    cut?_of_not_infix callable.allBlank_eq_false kept callable.unmarked, callable.bare, trimmed]
  rfl

/-- If nothing is, there is nowhere to cut. -/
theorem read_of_blank (callable : Callable style call) (blank : Text.allBlank expected = true) :
    read style (Text.trim (opening style call ++ ' ' :: expected)) = .error style.complaint := by
  have nothing : Text.trimEnd (' ' :: expected) = [] := by
    rw [Text.trimEnd_eq_nil_iff, Text.allBlank_cons, blank]
    rfl
  rw [trim_opening_append, nothing, callable.read_opening_append, List.append_nil,
    cut?_of_nothing_behind callable.unmarked]
  rfl

end Callable

/-! ## The lines of a case -/

/-- The assertion lines behind the first line of a text. -/
def later (expected : List Char) : List (Style × List Char) :=
  (Text.trimmedLines expected).tail.filterMap fun line => (style? line).map (·, line)

theorem later_eq_nil (unbroken : '\n' ∉ expected) : later expected = [] := by
  rw [later, Text.tail_trimmedLines unbroken, List.filterMap_nil]

/-- The first line of what is expected belongs to the assertion line, and the others are on
their own. -/
theorem lines_opening_append (style : Style) (unbroken : '\n' ∉ call) (expected : List Char) :
    lines (opening style call ++ ' ' :: expected) =
      (style, Text.trim (opening style call ++ ' ' :: Text.firstLine expected)) ::
        later expected := by
  have parted := Text.trimmedLines_append (unbroken_opening style unbroken) expected
  simp only [List.append_assoc, List.singleton_append] at parted
  rw [lines, parted, List.filterMap_cons, style?_trim_opening_append]
  rfl

end Kata.Assertion
