/-
# Loading in pieces

A program can be cut into two texts that are loaded one after the other, as long as the cut
goes through no function. While lines are read at most one function is open, and only that
one can still be changed by the lines below. So a cut is harmless where no function is open,
as at either end of the program and behind `END`, and where a header follows, since a header
closes what is open just as the end of a text does. What a piece leaves open elsewhere would
take statements from the next piece; no claim is made about such cuts.

Loading either way leads to the same interpreter, with its functions in the same order. What
a name stands for after loading is told by the last function of that name.
-/

import Kata.Proofs.Runner.Isolation
import Kata.Proofs.Text.Layout

namespace Kata

namespace Program

variable {above below : List (List Char)}

/-! ## The open function -/

/-- The function that is open behind a line, given the one that is open in front of it. -/
def openAfter (current : Option Routine) (line : List Char) : Option Routine :=
  if opens line then Routine.opened? line
  else if closes line then none
  else current.map (·.addLine line)

/-- A header or `END` closes the function that is open, and no other line does. -/
theorem routinesFrom_cons (current : Option Routine) (line : List Char)
    (below : List (List Char)) :
    routinesFrom current (line :: below) =
      (if opens line || closes line then current.toList else []) ++
        routinesFrom (openAfter current line) below := by
  rw [routinesFrom, openAfter]
  cases opens line with
  | true => rfl
  | false => cases closes line <;> rfl

/-- Of what some lines give, the lines below reach only the function that is left open. -/
theorem exists_routinesFrom_append (current : Option Routine) (above : List (List Char)) :
    ∃ closed, ∀ below, routinesFrom current (above ++ below) =
      closed ++ routinesFrom (above.foldl openAfter current) below := by
  induction above generalizing current with
  | nil => exact ⟨[], fun below => rfl⟩
  | cons line rest ih =>
      obtain ⟨closed, later⟩ := ih (openAfter current line)
      refine ⟨(if opens line || closes line then current.toList else []) ++ closed, fun below => ?_⟩
      rw [List.cons_append, routinesFrom_cons, later, List.foldl_cons, List.append_assoc]

/-- Behind `END` no function is open. -/
theorem openAfter_of_closes {line : List Char} (closing : closes line = true)
    (current : Option Routine) : openAfter current line = none := by
  obtain rfl : line = "END".toList := by simpa [closes] using closing
  rfl

/-! ## Cuts -/

/-- A program may be cut between these lines: nothing stands above or below the cut, the last
line above closes a function, or the first one below is a header. -/
def Seam (above below : List (List Char)) : Prop :=
  above = [] ∨ below = [] ∨ above.getLast?.any closes = true ∨ below.head?.any opens = true

instance (above below : List (List Char)) : Decidable (Seam above below) :=
  inferInstanceAs (Decidable (_ ∨ _))

/-- At a seam the function that is open is closed before anything is added to it. -/
theorem Seam.routinesFrom_below (seam : Seam above below) :
    routinesFrom (above.foldl openAfter none) below =
      (above.foldl openAfter none).toList ++ routinesFrom none below := by
  rcases seam with rfl | rfl | closed | header
  · rfl
  · exact (List.append_nil _).symm
  · obtain ⟨line, last, closing⟩ := (Option.any_eq_true _ _).mp closed
    obtain ⟨earlier, rfl⟩ := List.getLast?_eq_some_iff.mp last
    rw [List.foldl_concat, openAfter_of_closes closing]
    rfl
  · obtain ⟨line, first, opening⟩ := (Option.any_eq_true _ _).mp header
    obtain ⟨rest, rfl⟩ := List.head?_eq_some_iff.mp first
    rw [routinesFrom_cons, routinesFrom_cons, opening, Bool.true_or, if_pos rfl, if_pos rfl,
      openAfter, openAfter, if_pos opening, if_pos opening]
    rfl

theorem Seam.routinesFrom_append (seam : Seam above below) :
    routinesFrom none (above ++ below) = routinesFrom none above ++ routinesFrom none below := by
  obtain ⟨closed, later⟩ := exists_routinesFrom_append none above
  have finished : routinesFrom none above = closed ++ (above.foldl openAfter none).toList := by
    simpa only [List.append_nil, routinesFrom] using later []
  rw [later, finished, seam.routinesFrom_below, List.append_assoc]

/-- The functions of a program are those of its pieces. -/
theorem Seam.routines_append {a b : List Char}
    (seam : Seam (Text.significantLines a) (Text.significantLines b)) :
    routines (a ++ '\n' :: b) = routines a ++ routines b := by
  rw [routines, Text.significantLines_append_cons]
  exact seam.routinesFrom_append

end Program

namespace Interpreter

theorem add_append (i : Interpreter) (first second : List Routine) :
    i.add (first ++ second) = (i.add first).add second := by
  rw [add, add, add, List.foldl_append]

/-- Loading a program in pieces. If a text is cut at a line end that is a seam, its functions
are those of the first piece and then those of the second, and loading it counts them all and
leads to the interpreter to which loading the pieces in turn leads. Whatever is loaded, a name
stands afterwards for the last function of that name, or else for what it stood for before,
and variables are as they were. -/
theorem load_in_pieces (i : Interpreter) :
    (∀ a b : String,
      Program.Seam (Text.significantLines a.toList) (Text.significantLines b.toList) →
      Program.routines (a ++ "\n" ++ b).toList =
        Program.routines a.toList ++ Program.routines b.toList ∧
      i.load (a ++ "\n" ++ b) = ((i.load a).1 + ((i.load a).2.load b).1, ((i.load a).2.load b).2)) ∧
    ∀ source : String,
      (i.load source).2.scopes = i.scopes ∧
      ∀ name, (i.load source).2.routines.get? name =
        ((Program.routines source.toList).reverse.find? (·.name == name)).or
          (i.routines.get? name) := by
  refine ⟨fun a b seam => ?_, fun source => ⟨rfl, i.get?_routines_add _⟩⟩
  have whole : (a ++ "\n" ++ b).toList = a.toList ++ '\n' :: b.toList := by simp
  have joined : Program.routines (a ++ "\n" ++ b).toList =
      Program.routines a.toList ++ Program.routines b.toList := by
    rw [whole, seam.routines_append]
  refine ⟨joined, ?_⟩
  simp only [load, joined, List.length_append, add_append]

/-- The first piece leaves a function open, and the header in the second one closes it. Of
the two functions of one name the later counts. -/
theorem load_in_pieces_of_unclosed :
    let a := "FUNCTION f(x)\nRETURN x\r"
    let b := "// again\nFUNCTION f(y, z)\nRETURN z"
    Program.Seam (Text.significantLines a.toList) (Text.significantLines b.toList) ∧
      (empty.load (a ++ "\n" ++ b)).1 = 2 ∧
      ((empty.load (a ++ "\n" ++ b)).2.routines.get? "f").map Routine.parameters =
        some ["y", "z"] := by
  intro a b
  have seam : Program.Seam (Text.significantLines a.toList) (Text.significantLines b.toList) := by
    decide
  have loaded := ((load_in_pieces empty).1 a b seam).2
  exact ⟨seam, by rw [loaded]; decide, by rw [loaded]; decide⟩

end Interpreter

end Kata
