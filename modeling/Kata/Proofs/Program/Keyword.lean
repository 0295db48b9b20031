/-
# Which headers open a function

Two readers look at the keyword of a header. The one for headers takes any blank behind it,
the one for programs hands a line on only if that blank is a space. So a header is opened
exactly if it is spaced. Behind any other blank, a tab or a no-break space, the line is no
header to the program and, since no statement begins with that keyword, it is nothing else
either: it may as well not be there, and a function that is open above it stays open.

Headers are told here by the line alone. What the lines below add to the function that was
opened is left to the reader of programs.
-/

import Kata.Proofs.Interpreter.Loading

namespace Kata

namespace Routine

variable {line : List Char} {name : String} {parameters : List String}

/-- The keyword of a header stands in front of a blank. -/
theorem exists_blank_of_header? (read : header? line = some (name, parameters)) :
    ∃ blank rest, line = "FUNCTION".toList ++ blank :: rest ∧ Text.isBlank blank = true := by
  rw [header?] at read
  split at read
  · cases read
  · rename_i behind keyword
    split at read
    · cases read
    · rename_i spaced
      cases behind with
      | nil => exact absurd rfl spaced
      | cons blank rest =>
          rw [Text.startsBlank_cons] at spaced
          exact ⟨blank, rest, (Text.append_of_isPrefixOf? keyword).symm, by simpa using spaced⟩

end Routine

namespace Program

variable {line : List Char}

/-- The reader of programs asks for one blank in particular. -/
theorem opens_keyword_iff (blank : Char) (rest : List Char) :
    opens ("FUNCTION".toList ++ blank :: rest) = true ↔ blank = ' ' := by
  have spelled : "FUNCTION ".toList = "FUNCTION".toList ++ [' '] := rfl
  rw [opens, List.isPrefixOf_iff_prefix, spelled, List.prefix_append_right_inj,
    List.cons_prefix_cons]
  simp [eq_comm]

theorem closes_keyword (behind : List Char) : closes ("FUNCTION".toList ++ behind) = false := rfl

/-- A line with the keyword of a header carries a meaning. -/
theorem significant_keyword {behind : List Char}
    (trim_eq : Text.trim ("FUNCTION".toList ++ behind) = "FUNCTION".toList ++ behind)
    (unbroken : '\n' ∉ "FUNCTION".toList ++ behind) :
    Text.Significant ("FUNCTION".toList ++ behind) :=
  ⟨by simp, trim_eq, unbroken, rfl⟩

theorem significantLines_eq_singleton (significant : Text.Significant line) :
    Text.significantLines line = [line] := by
  obtain ⟨filled, trim_eq, unbroken, no_comment⟩ := significant
  rw [Text.significantLines_of_unbroken unbroken, trim_eq]
  simp [filled, no_comment]

/-- A line with the keyword of a header that is not opened leaves the open function alone: it
is no statement either. -/
theorem openAfter_keyword {behind : List Char}
    (unopened : opens ("FUNCTION".toList ++ behind) = false) (current : Option Routine) :
    openAfter current ("FUNCTION".toList ++ behind) = current := by
  have added (routine : Routine) : routine.addLine ("FUNCTION".toList ++ behind) = routine := rfl
  rw [openAfter, unopened, closes_keyword]
  cases current with
  | none => rfl
  | some routine => exact congrArg some (added routine)

/-- One line by itself is a function if it is a header that is opened. -/
theorem routines_of_unbroken (trim_eq : Text.trim line = line) (unbroken : '\n' ∉ line) :
    routines line = if opens line then (Routine.opened? line).toList else [] := by
  have spelled (opening : opens line = true) : Text.Significant line := by
    obtain ⟨rest, rfl⟩ := List.isPrefixOf_iff_prefix.mp opening
    have keyword : "FUNCTION ".toList ++ rest = "FUNCTION".toList ++ ' ' :: rest := rfl
    rw [keyword] at trim_eq unbroken ⊢
    exact significant_keyword trim_eq unbroken
  cases opening : opens line with
  | true =>
      rw [routines, significantLines_eq_singleton (spelled opening), routinesFrom, if_pos opening]
      rfl
  | false =>
      have lines : Text.significantLines line = [] ∨ Text.significantLines line = [line] := by
        rw [Text.significantLines_of_unbroken unbroken, trim_eq, List.filter_singleton]
        cases !line.isEmpty && !Text.isComment line with
        | true => exact .inr rfl
        | false => exact .inl rfl
      rw [routines]
      rcases lines with none | one
      · rw [none]
        rfl
      · rw [one, routinesFrom, opening]
        cases closes line <;> rfl

/-- A header that is opened closes what is open above it and takes the lines below. -/
theorem routines_ofLines_of_opens (significant : Text.Significant line)
    (opening : opens line = true) (earlier later : List (List Char)) :
    routines (Text.ofLines (earlier ++ line :: later)) =
      routines (Text.ofLines earlier) ++
        routinesFrom (Routine.opened? line) (Text.significantLines (Text.ofLines later)) := by
  have seam : Seam (earlier.flatMap Text.significantLines)
      (line :: later.flatMap Text.significantLines) := .inr (.inr (.inr opening))
  rw [routines, routines, Text.significantLines_ofLines, Text.significantLines_ofLines,
    Text.significantLines_ofLines, List.flatMap_append, List.flatMap_cons,
    significantLines_eq_singleton significant, List.singleton_append, seam.routinesFrom_append,
    routinesFrom_cons none, opening, openAfter, if_pos opening]
  rfl

/-- A header that is not opened is left out. -/
theorem routines_ofLines_keyword {behind : List Char}
    (significant : Text.Significant ("FUNCTION".toList ++ behind))
    (unopened : opens ("FUNCTION".toList ++ behind) = false) (earlier later : List (List Char)) :
    routines (Text.ofLines (earlier ++ ("FUNCTION".toList ++ behind) :: later)) =
      routines (Text.ofLines (earlier ++ later)) := by
  obtain ⟨closed, below⟩ := exists_routinesFrom_append none (earlier.flatMap Text.significantLines)
  rw [routines, routines, Text.significantLines_ofLines, Text.significantLines_ofLines,
    List.flatMap_append, List.flatMap_append, List.flatMap_cons,
    significantLines_eq_singleton significant, List.singleton_append, below, below,
    routinesFrom_cons, unopened, closes_keyword, openAfter_keyword unopened]
  rfl

/-- A line by itself is a program of one function exactly if it is read as a header and its
keyword stands in front of a space. Among the lines that are read as headers the blank behind
the keyword alone decides. Behind a space the line opens its function wherever it is put,
closing the one that was open; behind any other blank a program is the same without it. -/
theorem header_opens_iff_spaced (trim_eq : Text.trim line = line) (unbroken : '\n' ∉ line)
    (name : String) (parameters : List String) :
    (routines line = [⟨name, parameters, []⟩] ↔
      Routine.header? line = some (name, parameters) ∧ opens line = true) ∧
    (Routine.header? line = some (name, parameters) →
      ∃ blank rest, line = "FUNCTION".toList ++ blank :: rest ∧ Text.isBlank blank = true ∧
        (opens line = true ↔ blank = ' ') ∧
        ∀ earlier later : List (List Char),
          routines (Text.ofLines (earlier ++ line :: later)) =
            if blank = ' ' then
              routines (Text.ofLines earlier) ++ routinesFrom (some ⟨name, parameters, []⟩)
                (Text.significantLines (Text.ofLines later))
            else routines (Text.ofLines (earlier ++ later))) := by
  constructor
  · rw [routines_of_unbroken trim_eq unbroken]
    cases opens line with
    | false => simp
    | true =>
        cases read : Routine.header? line with
        | none => simp [Routine.opened?, read]
        | some header =>
            obtain ⟨other, others⟩ := header
            simp [Routine.opened?, read]
  · intro read
    obtain ⟨blank, rest, rfl, isBlank⟩ := Routine.exists_blank_of_header? read
    have significant := significant_keyword trim_eq unbroken
    have spaced := opens_keyword_iff blank rest
    refine ⟨blank, rest, rfl, isBlank, spaced, fun earlier later => ?_⟩
    split
    · rename_i space
      have opened : Routine.opened? ("FUNCTION".toList ++ blank :: rest) =
          some ⟨name, parameters, []⟩ := by
        rw [Routine.opened?, read]
        rfl
      rw [routines_ofLines_of_opens significant (spaced.mpr space), opened]
    · rename_i other
      have unopened : opens ("FUNCTION".toList ++ blank :: rest) = false := by
        rw [Bool.eq_false_iff]
        exact fun opening => other (spaced.mp opening)
      exact routines_ofLines_keyword significant unopened earlier later

/-- The function above is never closed, but the header behind the comment closes it. -/
theorem header_opens_below_unclosed :
    let line := "FUNCTION  twice (a, ) // doubles".toList
    let earlier := ["FUNCTION g()".toList, "RETURN 1".toList, "// next".toList]
    let later := ["RETURN a + a".toList]
    Text.trim line = line ∧ '\n' ∉ line ∧
      Routine.header? line = some ("twice", ["a"]) ∧
      routines (Text.ofLines (earlier ++ line :: later)) =
        routines (Text.ofLines earlier) ++
          routinesFrom (some ⟨"twice", ["a"], []⟩) (Text.significantLines (Text.ofLines later)) ∧
      (routines (Text.ofLines (earlier ++ line :: later))).map (fun r => (r.name, r.body.length)) =
        [("g", 1), ("twice", 1)] := by
  intro line earlier later
  have trim_eq : Text.trim line = line := by decide
  have unbroken : '\n' ∉ line := by decide
  have read : Routine.header? line = some ("twice", ["a"]) := by decide
  obtain ⟨blank, rest, keyword, -, spaced, placed⟩ :=
    (header_opens_iff_spaced trim_eq unbroken "twice" ["a"]).2 read
  have space : blank = ' ' := spaced.mp (by decide)
  have opened := placed earlier later
  rw [if_pos space] at opened
  exact ⟨trim_eq, unbroken, read, opened, by decide⟩

/-- A tab is a blank to the reader of headers and not to the reader of programs: the line is
read as a header, and the program that it makes has no function. -/
theorem header_unopened_behind_tab :
    let line := "FUNCTION\tf()".toList
    Text.trim line = line ∧ '\n' ∉ line ∧
      ¬ (Routine.header? line = some ("f", []) ↔ routines line = [⟨"f", [], []⟩]) := by
  intro line
  have read : Routine.header? line = some ("f", []) := by decide
  have missed : (routines line).length = 0 := by decide
  refine ⟨by decide, by decide, fun agree => ?_⟩
  rw [agree.mp read] at missed
  cases missed

end Program

end Kata
