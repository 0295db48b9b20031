/-
# Where an assertion is cut

A documented assertion is a keyword, a written call, the marker of its style and a written
literal, with a space between them. The search for the marker does not mind quotes, so an
argument that holds the marker itself, between blanks where the style asks for them, is
where the line is cut. `Obscured` names these lines. Every other one is read as it is
meant; an obscured one is cut inside a quoted argument, which leaves a quote open in the
text that is then taken for the call.
-/

import Kata.Assertion
import Kata.Proofs.Call.Grammar
import Kata.Proofs.Text.Cuts

namespace Kata.Assertion

/-- An assertion as the documentation spells it. -/
structure Spelling where
  style : Style
  call : Call.Spelling
  expected : Literal.Spelling

/-- A text holds a marker at which a line of the style would be cut. -/
def Marks (style : Style) (s : List Char) : Prop :=
  ∃ before after, s = before ++ style.marker.toList ++ after ∧
    separates style (before, after) = true

namespace Spelling

variable (a : Spelling)

/-- The marker and what follows it. -/
def tail : List Char := a.style.marker.toList ++ ' ' :: a.expected.chars

/-- What follows the keyword. -/
def body : List Char := a.call.chars ++ ' ' :: a.tail

/-- The whole line. -/
def chars : List Char := a.style.keyword.toList ++ ' ' :: a.body

/-- The marker is found in an argument before it is found behind the call. -/
def Obscured : Prop := ∃ arg ∈ a.call.args, Marks a.style arg.chars

end Spelling

/-! ## Markers -/

/-- A marker holds neither blanks nor quotes nor the separators of a call. -/
theorem not_mem_marker (style : Style) :
    ∀ c ∈ ['(', ')', ',', ' ', Text.doubleQuote, Text.singleQuote],
      c ∉ style.marker.toList := by
  cases style <;> simp [Style.marker, Text.doubleQuote, Text.singleQuote]

/-- A marker is not empty, and its first character is none of those that literals have
outside quotes. -/
theorem exists_cons_marker (style : Style) :
    ∃ c rest, style.marker.toList = c :: rest ∧ c.isDigit = false ∧ c ≠ '-' ∧ c ≠ '.' ∧
      c.isLower = false := by
  cases style
  · exact ⟨'=', ['='], by decide⟩
  · exact ⟨'T', ['O', '_', 'B', 'E'], by decide⟩

@[simp]
theorem marker_ne_empty (style : Style) : style.marker ≠ "" := by
  cases style <;> decide

theorem marker_ne_nil (style : Style) : style.marker.toList ≠ [] := by
  simp

theorem quote_not_mem_marker (style : Style) {q : Char} (opens : Text.isQuote q = true) :
    q ∉ style.marker.toList := by
  simp only [Text.isQuote, Bool.or_eq_true, beq_iff_eq] at opens
  rcases opens with rfl | rfl <;> exact not_mem_marker style _ (by decide)

variable {style : Style} {x y front back before after : List Char}

/-- What counts at a cut are the characters next to the marker. -/
theorem separates_append (filled : x ≠ []) (filled' : y ≠ []) :
    separates style (front ++ x, y ++ back) = separates style (x, y) := by
  cases style with
  | assert => rfl
  | expect => rw [separates, separates, Text.endsBlank_append front filled,
      Text.startsBlank_append filled' back]

/-- No name holds a marker at which a line would be cut: it has neither an equals sign nor
a blank. -/
theorem not_separates_of_isName {name : List Char} (named : Text.isName name = true)
    (shape : name = before ++ style.marker.toList ++ y) :
    separates style (before, after) = false := by
  simp only [Text.isName, Bool.and_eq_true, List.all_eq_true] at named
  cases style with
  | assert =>
      have sign := named.2 '=' (by rw [shape]; simp [Style.marker])
      exact absurd sign (by decide)
  | expect =>
      cases last : before.getLast? with
      | none => simp [separates, Text.endsBlank, last]
      | some c =>
          have inside : c ∈ name := by
            rw [shape]
            exact List.mem_append_left _ (List.mem_append_left _ (List.mem_of_getLast? last))
          have plain := Text.isPlain_of_isNameChar (named.2 c inside)
          simp [separates, Text.endsBlank, last,
            (Text.not_isBlank_and_not_isQuote_of_isPlain plain).1]

/-- A literal that holds a marker is quoted, so it goes on on either side of the marker and
a quote is open where the marker starts. -/
theorem quote_open_of_literal_eq (l : Literal.Spelling)
    (holds : l.chars = x ++ style.marker.toList ++ y) :
    x ≠ [] ∧ y ≠ [] ∧ Text.quoteAfter none x ≠ none := by
  obtain ⟨c, rest, marker, digit, sign, point, small⟩ := exists_cons_marker style
  obtain ⟨q, body, opens, plain, quoted⟩ := Literal.exists_quoted_of_mem l.written
    (c := c) (by simp [holds, marker]) digit sign point small
  have absent := quote_not_mem_marker style opens
  rw [quoted] at holds
  rcases Text.append_eq_append_cons (s := []) absent holds.symm with
    ⟨gap, nothing, -⟩ | ⟨inner, rfl, goesOn⟩
  · simp at nothing
  · rcases Text.append_eq_append_cons absent goesOn.symm with
      ⟨gap, rfl, rfl⟩ | ⟨gap, -, nothing⟩
    · refine ⟨by simp, by simp, ?_⟩
      have closed : q ∉ inner := fun inside => plain (by simp [inside])
      simp [Text.afterChar, opens, Text.quoteAfter_some_of_not_mem closed]
    · simp at nothing

/-- At a marker that counts, or in front of it, there is a cut that counts: equals signs
always count, and the other marker cannot overlap itself. -/
theorem exists_counting_cut {s : List Char} (shape : before ++ style.marker.toList ++ after = s)
    (counts : separates style (before, after) = true) :
    ∃ cut ∈ Text.cuts style.marker.toList s, separates style cut = true ∧
      cut.1.length ≤ before.length := by
  cases style with
  | assert =>
      obtain ⟨cut, inside, early⟩ := Text.exists_cut_le (marker_ne_nil .assert) shape
      exact ⟨cut, inside, rfl, early⟩
  | expect =>
      have single : 'T' ∉ ['O', '_', 'B', 'E'] := by decide
      exact ⟨_, Text.mem_cuts_of_not_mem_tail single shape, counts, Nat.le_refl _⟩

/-- A text marks exactly when one of its cuts counts, so looking at the cuts decides it. -/
theorem marks_iff {s : List Char} :
    Marks style s ↔ ∃ cut ∈ Text.cuts style.marker.toList s, separates style cut = true := by
  constructor
  · rintro ⟨before, after, shape, counts⟩
    obtain ⟨cut, inside, counts, -⟩ := exists_counting_cut shape.symm counts
    exact ⟨cut, inside, counts⟩
  · rintro ⟨⟨before, after⟩, inside, counts⟩
    exact ⟨before, after, (Text.append_of_mem_cuts inside).symm, counts⟩

instance (style : Style) (s : List Char) : Decidable (Marks style s) :=
  decidable_of_iff _ marks_iff.symm

instance (a : Spelling) : Decidable a.Obscured :=
  inferInstanceAs (Decidable (∃ arg ∈ a.call.args, Marks a.style arg.chars))

/-! ## Cuts inside the call -/

/-- Whether a line of a style is cut here: the cut counts, and something stands on either
side. -/
def fits (style : Style) (cut : List Char × List Char) : Bool :=
  separates style cut && (!Text.allBlank cut.1 && !Text.allBlank cut.2)

theorem cut?_eq_map_find? (style : Style) (s : List Char) :
    cut? style s = ((Text.cuts style.marker.toList s).find? (fits style)).map
      fun cut => ⟨Text.trim cut.1, Text.trim cut.2⟩ := by
  rw [cut?, List.find?_filter]
  congr 2
  funext cut
  simp [fits]

variable {call expected body : List Char}

/-- A line is meant to be cut at the marker that has a space on either side. -/
theorem append_mem_cuts (style : Style) (solid : Text.allBlank call = false)
    (solid' : Text.allBlank expected = false) :
    (call ++ [' '], ' ' :: expected) ∈ Text.cuts style.marker.toList
        (call ++ ' ' :: (style.marker.toList ++ ' ' :: expected)) ∧
      fits style (call ++ [' '], ' ' :: expected) = true := by
  have counts : separates style (call ++ [' '], ' ' :: expected) = true := by
    cases style with
    | assert => rfl
    | expect => simp [separates, show Text.isBlank ' ' = true by decide]
  refine ⟨Text.mem_cuts_behind (marker_ne_nil _) (not_mem_marker _ ' ' (by simp)) rfl, ?_⟩
  simp [fits, counts, solid, solid']

/-- It is cut there if no cut that counts is further left. -/
theorem cut?_of_late (solid : Text.allBlank call = false) (solid' : Text.allBlank expected = false)
    (late : ∀ cut ∈ Text.cuts style.marker.toList
      (call ++ ' ' :: (style.marker.toList ++ ' ' :: expected)),
      separates style cut = true → call.length < cut.1.length) :
    cut? style (call ++ ' ' :: (style.marker.toList ++ ' ' :: expected)) =
      some ⟨Text.trim call, Text.trim expected⟩ := by
  obtain ⟨meant, fit⟩ := append_mem_cuts style solid solid'
  obtain ⟨found, inside, first, fits', early⟩ := Text.exists_find?_cuts meant fit
  have counts : separates style found = true := (Bool.and_eq_true_iff.mp fits').1
  obtain rfl := Text.eq_of_mem_cuts inside meant
    (Nat.le_antisymm early (by simpa using Nat.succ_le_of_lt (late found inside counts)))
  have space : Text.trim (' ' :: expected) = Text.trim expected :=
    Text.trim_append_left (w := [' ']) (by decide) expected
  rw [cut?_eq_map_find?, first, Option.map_some, Text.trim_append_right _ (by decide), space]

/-- In particular if the call does not hold the marker. -/
theorem cut?_of_not_infix (solid : Text.allBlank call = false)
    (solid' : Text.allBlank expected = false) (absent : ¬ style.marker.toList <:+: call) :
    cut? style (call ++ ' ' :: (style.marker.toList ++ ' ' :: expected)) =
      some ⟨Text.trim call, Text.trim expected⟩ := by
  refine cut?_of_late solid solid' fun cut inside _ => ?_
  rcases Text.append_eq_append_cons (not_mem_marker style ' ' (by simp))
      (Text.append_of_mem_cuts inside) with ⟨middle, inCall, -⟩ | ⟨middle, behind, -⟩
  · exact absurd ⟨cut.1, middle, inCall.symm⟩ absent
  · simp only [behind, List.length_append, List.length_cons]
    omega

/-- With nothing behind the marker such a line is not cut at all. -/
theorem cut?_of_nothing_behind (absent : ¬ style.marker.toList <:+: call) :
    cut? style (call ++ ' ' :: style.marker.toList) = none := by
  rw [cut?_eq_map_find?, Option.map_eq_none_iff, List.find?_eq_none]
  intro cut inside
  rcases Text.append_eq_append_cons (not_mem_marker style ' ' (by simp))
      (Text.append_of_mem_cuts inside) with ⟨middle, inCall, -⟩ | ⟨middle, -, behind⟩
  · exact absurd ⟨cut.1, middle, inCall.symm⟩ absent
  · have nothing : cut.2 = [] := by
      have size := congrArg List.length behind
      simp only [List.length_append] at size
      exact List.eq_nil_of_length_eq_zero (by omega)
    simp [fits, nothing]

/-- Behind the keyword and a space the rest of a line is looked at. -/
theorem read_keyword_append (bare : Text.startsBlank body = false) :
    read style (style.keyword.toList ++ ' ' :: body) =
      (cut? style body).elim (.error style.complaint) .ok := by
  have opened : Text.trimStart (' ' :: body) = body := by
    rw [← List.singleton_append, Text.trimStart_append_left (by decide),
      Text.trimStart_eq_self bare]
  rw [read, Text.isPrefixOf?_append]
  simp only [opened]
  cases cut? style body <;> rfl

namespace Spelling

variable {a : Spelling} {cut : List Char × List Char}

theorem allBlank_call (a : Spelling) : Text.allBlank a.call.chars = false := by
  rw [Call.Spelling.chars, Text.allBlank_append,
    (Text.atom_of_isName a.call.named).allBlank_eq_false]
  rfl

/-- A cut in front of the place where the line is meant to be cut has its marker in the
call and all that follows the call behind it. -/
theorem exists_of_early_cut (inside : cut ∈ Text.cuts a.style.marker.toList a.body)
    (early : cut.1.length ≤ a.call.chars.length) :
    ∃ middle, a.call.chars = cut.1 ++ a.style.marker.toList ++ middle ∧
      cut.2 = middle ++ ' ' :: a.tail := by
  rcases Text.append_eq_append_cons (not_mem_marker a.style ' ' (by simp))
      (Text.append_of_mem_cuts inside) with found | ⟨middle, late, -⟩
  · exact found
  · simp only [late, List.length_append, List.length_cons] at early
    omega

/-- A counting cut in front of the place where the line is meant to be cut lies in an
argument that marks, and a quote is open there. -/
theorem obscured_of_early_cut (inside : cut ∈ Text.cuts a.style.marker.toList a.body)
    (counts : separates a.style cut = true) (early : cut.1.length ≤ a.call.chars.length) :
    a.Obscured ∧ Text.quoteAfter none cut.1 ≠ none := by
  obtain ⟨middle, inCall, behind⟩ := exists_of_early_cut inside early
  obtain ⟨before, after⟩ := cut
  simp only at inCall behind ⊢
  rcases Call.Spelling.name_or_arg_of_chars_eq (marker_ne_nil _)
      (fun c among => not_mem_marker a.style c (by simp at among ⊢; tauto)) inCall.symm with
    ⟨rest, inName⟩ | ⟨arg, among, front, x, y, back, holds, rfl, rfl, closed⟩
  · simp [not_separates_of_isName a.call.named inName] at counts
  · obtain ⟨filled, filled', opened⟩ := quote_open_of_literal_eq arg holds
    rw [behind, List.append_assoc y, separates_append filled filled'] at counts
    refine ⟨⟨arg, among, x, y, holds, counts⟩, ?_⟩
    rwa [Text.quoteAfter_append, closed]

/-- An argument that marks puts a fitting cut in front of the place where the line is meant
to be cut. -/
theorem exists_early_cut (obscured : a.Obscured) :
    ∃ cut ∈ Text.cuts a.style.marker.toList a.body, fits a.style cut = true ∧
      cut.1.length ≤ a.call.chars.length := by
  obtain ⟨arg, among, x, y, holds, marks⟩ := obscured
  obtain ⟨filled, filled', -⟩ := quote_open_of_literal_eq arg holds
  obtain ⟨front, back, args⟩ := Call.exists_argChars_eq_of_mem among
  have call : a.call.chars =
      (a.call.name ++ '(' :: front) ++ x ++ a.style.marker.toList ++ (y ++ (back ++ [')'])) := by
    simp [Call.Spelling.chars, args, holds]
  have shape : (a.call.name ++ '(' :: front) ++ x ++ a.style.marker.toList ++
      (y ++ (back ++ [')'] ++ ' ' :: a.tail)) = a.body := by
    simp [body, call]
  obtain ⟨cut, inside, counts, early⟩ := exists_counting_cut shape
    (by rw [separates_append filled filled', marks])
  have early : cut.1.length ≤ a.call.chars.length := by
    rw [call]
    simp only [List.length_append] at early ⊢
    omega
  refine ⟨cut, inside, ?_, early⟩
  have front : Text.allBlank cut.1 = false := by
    by_contra blank
    exact (obscured_of_early_cut inside counts early).2
      (Text.quoteAfter_of_allBlank (by simpa using blank))
  have behind : Text.allBlank cut.2 = false := by
    obtain ⟨middle, -, rest⟩ := exists_of_early_cut inside early
    simp [rest, tail, a.expected.written.atom.allBlank_eq_false]
  simp [fits, counts, front, behind]

/-! ## Reading a documented line -/

/-- Behind the keyword and the space the body of the line is looked at. -/
theorem read_chars (a : Spelling) :
    read a.style a.chars = (cut? a.style a.body).elim (.error a.style.complaint) .ok := by
  have atom := Text.atom_of_isName a.call.named
  refine read_keyword_append ?_
  rw [body, Call.Spelling.chars, List.append_assoc, Text.startsBlank_append atom.ne_nil,
    atom.startsBlank_eq_false]

/-- A line that is not obscured is read as it is meant. -/
theorem read_of_not_obscured (clear : ¬ a.Obscured) :
    read a.style a.chars = .ok ⟨a.call.chars, a.expected.chars⟩ := by
  have atom := a.expected.written.atom
  have cut : cut? a.style a.body = some ⟨Text.trim a.call.chars, Text.trim a.expected.chars⟩ := by
    refine cut?_of_late a.allBlank_call atom.allBlank_eq_false fun cut inside counts => ?_
    by_contra inCall
    exact clear (obscured_of_early_cut inside counts (Nat.not_lt.mp inCall)).1
  rw [read_chars, cut, Call.trim_chars, atom.trim_eq_self]
  rfl

/-- An obscured line is cut where a quote is open. -/
theorem read_of_obscured (obscured : a.Obscured) :
    ∃ assertion, read a.style a.chars = .ok assertion ∧
      Text.quoteAfter none assertion.call ≠ none := by
  obtain ⟨cut, inside, fit, early⟩ := exists_early_cut obscured
  obtain ⟨found, inside, first, fits', earlier⟩ := Text.exists_find?_cuts inside fit
  have counts : separates a.style found = true := (Bool.and_eq_true_iff.mp fits').1
  have opened := (obscured_of_early_cut inside counts (Nat.le_trans earlier early)).2
  refine ⟨⟨Text.trim found.1, Text.trim found.2⟩, ?_, fun closed => ?_⟩
  · rw [read_chars, cut?_eq_map_find?, first]
    rfl
  · exact opened (Text.quoteAfter_eq_none_of_trim closed)

end Spelling

end Kata.Assertion
