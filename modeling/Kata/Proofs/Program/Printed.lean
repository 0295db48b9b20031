/-
# Programs as they are written

Functions are written one behind the other, each from its header over the lines of its
statements to `END`, and lines are joined by line feeds. The reader of programs keeps one
function open at a time, and on written lines it opens, fills and closes them in order. On
any other lines it may leave out what it likes, but whatever it puts into the open function
can be written, so the functions of a program are always of a kind that is read back.

The two directions together say that writing and reading are inverse on exactly the
functions that programs have. Sources are compared as they are kept: how the learner had
spaced a line is lost when it is read.
-/

import Kata.Proofs.Program.Header
import Kata.Proofs.Statement.Printed

namespace Kata

namespace Routine

/-- A function that a program can have. -/
structure Printable (routine : Routine) : Prop where
  named : Text.isName routine.name.toList = true
  plain : ∀ p ∈ routine.parameters, PlainParameter p.toList
  body : ∀ statement ∈ routine.body, statement.Printable

/-- The lines of a function. -/
def lines (routine : Routine) : List (List Char) :=
  header routine.name routine.parameters :: (routine.body.map Statement.line ++ ["END".toList])

end Routine

namespace Program

/-- Write functions, in order. -/
def render (routines : List Routine) : List Char :=
  ['\n'].intercalate (routines.flatMap Routine.lines)

/-! ## Reading what is written -/

variable {routine : Routine} {statement : Statement}

/-- No statement opens with the keyword of a header, and none is `END`. -/
theorem opens_line (statement : Statement) : opens statement.line = false := by
  cases statement <;> rfl

theorem closes_line (statement : Statement) : closes statement.line = false := by
  cases statement <;> rfl

/-- The lines of a body fill the function that is open. -/
theorem routinesFrom_body (routine : Routine) {body : List Statement}
    (printable : ∀ statement ∈ body, statement.Printable) (rest : List (List Char)) :
    routinesFrom (some routine) (body.map Statement.line ++ rest) =
      routinesFrom (some { routine with body := routine.body ++ body }) rest := by
  induction body generalizing routine with
  | nil =>
      rw [List.append_nil]
      rfl
  | cons statement body ih =>
      have here := printable statement List.mem_cons_self
      have later : ∀ statement ∈ body, statement.Printable := fun other inside =>
        printable other (List.mem_cons_of_mem _ inside)
      have added : routine.addLine statement.line =
          { routine with body := routine.body ++ [statement] } := by
        rw [Routine.addLine, Statement.read?_line here]
      rw [List.map_cons, List.cons_append, routinesFrom, opens_line, closes_line]
      simp only [Bool.false_eq_true, if_false, Option.map_some, added]
      rw [ih _ later]
      simp

/-- The lines of a function, read while none is open, give it. -/
theorem routinesFrom_lines (printable : routine.Printable) (rest : List (List Char)) :
    routinesFrom none (routine.lines ++ rest) = routine :: routinesFrom none rest := by
  have opened : Routine.opened? (Routine.header routine.name routine.parameters) =
      some ⟨routine.name, routine.parameters, []⟩ := by
    rw [Routine.opened?, Routine.header?_header printable.named printable.plain]
    rfl
  have opening : opens (Routine.header routine.name routine.parameters) = true := rfl
  have filled : routinesFrom (some ⟨routine.name, routine.parameters, []⟩)
      (routine.body.map Statement.line ++ ("END".toList :: rest)) =
      routinesFrom (some routine) ("END".toList :: rest) :=
    routinesFrom_body ⟨routine.name, routine.parameters, []⟩ printable.body _
  rw [Routine.lines, List.cons_append, List.append_assoc, List.singleton_append, routinesFrom,
    opening, opened]
  exact filled

theorem routinesFrom_flatMap_lines {routines : List Routine}
    (printable : ∀ routine ∈ routines, routine.Printable) :
    routinesFrom none (routines.flatMap Routine.lines) = routines := by
  induction routines with
  | nil => rfl
  | cons routine rest ih =>
      rw [List.flatMap_cons, routinesFrom_lines (printable routine List.mem_cons_self), ih]
      intro other inside
      exact printable other (List.mem_cons_of_mem _ inside)

theorem significant_of_mem_lines (printable : routine.Printable) {line : List Char}
    (inside : line ∈ routine.lines) : Text.Significant line := by
  rcases List.mem_cons.mp inside with rfl | inside
  · exact Routine.significant_header printable.named printable.plain
  · rcases List.mem_append.mp inside with written | last
    · obtain ⟨statement, among, rfl⟩ := List.mem_map.mp written
      exact Statement.significant_line (printable.body statement among)
    · obtain rfl := List.mem_singleton.mp last
      exact ⟨by decide, rfl, by decide, rfl⟩

theorem routines_render {routines : List Routine}
    (printable : ∀ routine ∈ routines, routine.Printable) :
    Program.routines (render routines) = routines := by
  rw [Program.routines, render, Text.significantLines_intercalate]
  · exact routinesFrom_flatMap_lines printable
  · intro line inside
    obtain ⟨routine, among, held⟩ := List.mem_flatMap.mp inside
    exact significant_of_mem_lines (printable routine among) held

/-! ## What is read -/

variable {line : List Char} {lines : List (List Char)} {current : Option Routine}

theorem printable_opened? (significant : Text.Significant line)
    (opened : Routine.opened? line = some routine) : routine.Printable := by
  obtain ⟨⟨name, parameters⟩, read, rfl⟩ := Option.map_eq_some_iff.mp opened
  obtain ⟨named, plain⟩ := Routine.plain_of_header? read significant.unbroken
  exact ⟨named, plain, fun statement inside => absurd inside List.not_mem_nil⟩

theorem printable_addLine (printable : routine.Printable) (significant : Text.Significant line) :
    (routine.addLine line).Printable := by
  rw [Routine.addLine]
  split
  · rename_i statement read
    refine ⟨printable.named, printable.plain, ?_⟩
    intro other inside
    rcases List.mem_append.mp inside with earlier | last
    · exact printable.body other earlier
    · obtain rfl := List.mem_singleton.mp last
      exact Statement.printable_of_read? read significant.trim_eq significant.unbroken
  · exact printable

/-- The invariant of the reader: the function that is open can be written, so those that are
closed later can be written as well. -/
theorem printable_of_mem_routinesFrom (significant : ∀ line ∈ lines, Text.Significant line)
    (opened : ∀ routine, current = some routine → routine.Printable)
    (inside : routine ∈ routinesFrom current lines) : routine.Printable := by
  induction lines generalizing current with
  | nil => exact opened routine (Option.mem_toList.mp inside)
  | cons line rest ih =>
      have here := significant line List.mem_cons_self
      have later : ∀ line ∈ rest, Text.Significant line := fun other among =>
        significant other (List.mem_cons_of_mem _ among)
      rw [routinesFrom] at inside
      split at inside
      · rcases List.mem_append.mp inside with closed | inside
        · exact opened routine (Option.mem_toList.mp closed)
        · apply ih later _ inside
          intro next header
          exact printable_opened? here header
      · split at inside
        · rcases List.mem_append.mp inside with closed | inside
          · exact opened routine (Option.mem_toList.mp closed)
          · apply ih later _ inside
            intro next nothing
            simp at nothing
        · apply ih later _ inside
          intro next added
          obtain ⟨before, isOpen, rfl⟩ := Option.map_eq_some_iff.mp added
          exact printable_addLine (opened before isOpen) here

theorem printable_of_mem_routines {source : List Char}
    (inside : routine ∈ Program.routines source) : routine.Printable := by
  apply printable_of_mem_routinesFrom _ _ inside
  · intro line among
    exact Text.significant_of_mem_significantLines among
  · intro next nothing
    simp at nothing

/-- Writing functions and reading them gives them back exactly if each can be written, and
the functions of every program can. So the written form of a program has the functions of
that program, whatever its text was. -/
theorem routines_render_eq_iff_printable :
    (∀ routines : List Routine, Program.routines (render routines) = routines ↔
      ∀ routine ∈ routines, routine.Printable) ∧
    ∀ source : List Char,
      (∀ routine ∈ Program.routines source, routine.Printable) ∧
        Program.routines (render (Program.routines source)) = Program.routines source := by
  have image (source : List Char) : ∀ routine ∈ Program.routines source, routine.Printable :=
    fun routine inside => printable_of_mem_routines inside
  refine ⟨fun routines => ⟨fun again => ?_, routines_render⟩, fun source => ?_⟩
  · rw [← again]
    exact image _
  · exact ⟨image source, routines_render (image source)⟩

/-- Two functions of one name, the first with parameters and sources that hold what lines
are cut at. -/
def awkward : List Routine := [
  ⟨"7", ["a b", "x("], [
    .assign "_" (.ofChars "a = b".toList),
    .branch (.ofChars "x THEN y".toList) [] [],
    .result (.ofChars "'// END'".toList)]⟩,
  ⟨"7", [], []⟩]

theorem routines_render_awkward :
    (∀ routine ∈ awkward, routine.Printable) ∧ Program.routines (render awkward) = awkward := by
  have body : ∀ statement ∈ [
      Statement.assign "_" (.ofChars "a = b".toList),
      .branch (.ofChars "x THEN y".toList) [] [],
      .result (.ofChars "'// END'".toList)], statement.Printable := by
    simp only [List.forall_mem_cons]
    refine ⟨⟨by decide, ?_⟩, ⟨?_, rfl, rfl⟩, ?_, fun other inside => absurd inside List.not_mem_nil⟩
    · exact Expression.printable_ofChars (by decide) (by decide)
    · exact Expression.printable_ofChars (by decide) (by decide)
    · exact Expression.printable_ofChars (by decide) (by decide)
  have printable : ∀ routine ∈ awkward, routine.Printable := by
    simp only [awkward, List.forall_mem_cons]
    refine ⟨⟨by decide, by decide, body⟩, ⟨by decide, by decide, ?_⟩, ?_⟩
    · exact fun other inside => absurd inside List.not_mem_nil
    · exact fun other inside => absurd inside List.not_mem_nil
  exact ⟨printable, (routines_render_eq_iff_printable.1 awkward).mpr printable⟩

end Program

end Kata
