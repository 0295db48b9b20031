/-
# Lines that no call hears of

A line of a program may go without any call noticing if it is no assignment and no result,
if no function is open where it stands, or if the function that is open there has already
given its result. `Erasable` says this of a line and the lines above it, without looking at
functions. Here it is shown that without such lines, all at once, a program has the same
functions up to their essence: name, parameters, and the statements that a call can reach
and that do something. Lines that open or close a function stay; what happens without them is
not said.
-/

import Kata.Interpreter
import Kata.Proofs.Text.Layout

namespace Kata

/-! ## Statements that count -/

namespace Statement

/-- Whether a statement does something when it is reached. Branches do not. -/
def acts : Statement → Bool
  | .branch _ _ _ => false
  | _ => true

/-- Whether a statement ends its body. -/
def isResult : Statement → Bool
  | .result _ => true
  | _ => false

/-- The statements of a body that act, up to the first result. -/
def live : List Statement → List Statement
  | [] => []
  | .assign name value :: rest => .assign name value :: live rest
  | .result value :: _ => [.result value]
  | .branch _ _ _ :: rest => live rest

/-- Nothing else in a body makes a difference. -/
theorem run_live (body : List Statement) (s : Scopes) : run (live body) s = run body s := by
  induction body generalizing s with
  | nil => rfl
  | cons statement rest ih =>
      cases statement with
      | assign name value => exact ih _
      | result value => rfl
      | branch condition thenBlock elseBlock => exact ih s

/-- A statement behind a body counts unless the body has a result. -/
theorem live_append_singleton (body : List Statement) (statement : Statement) :
    live (body ++ [statement]) =
      if body.any isResult then live body else live body ++ live [statement] := by
  induction body with
  | nil => simp [live]
  | cons first rest ih =>
      cases first with
      | assign name value =>
          simp only [List.cons_append, live, ih, List.any_cons, isResult, Bool.false_or]
          split <;> rfl
      | result value => simp [live, isResult]
      | branch condition thenBlock elseBlock =>
          simpa only [List.cons_append, live, List.any_cons, isResult, Bool.false_or] using ih

theorem any_isResult_live (body : List Statement) :
    (live body).any isResult = body.any isResult := by
  induction body with
  | nil => rfl
  | cons first rest ih =>
      cases first with
      | assign name value => simpa [live, isResult] using ih
      | result value => rfl
      | branch condition thenBlock elseBlock => simpa [live, isResult] using ih

theorem live_singleton_of_not_acts {statement : Statement} (idle : statement.acts = false) :
    live [statement] = [] := by
  cases statement with
  | assign name value => simp [acts] at idle
  | result value => simp [acts] at idle
  | branch condition thenBlock elseBlock => rfl

end Statement

namespace Routine

/-- A function without the statements that make no difference. -/
def essence (routine : Routine) : Routine := { routine with body := Statement.live routine.body }

variable {routine other : Routine} {line : List Char}

/-- The essence of a function that gets a line depends on its essence alone. -/
theorem essence_addLine_congr (same : routine.essence = other.essence) (line : List Char) :
    (routine.addLine line).essence = (other.addLine line).essence := by
  obtain ⟨name, parameters, body⟩ := routine
  obtain ⟨otherName, otherParameters, otherBody⟩ := other
  simp only [essence, mk.injEq] at same
  obtain ⟨rfl, rfl, bodies⟩ := same
  have ended : body.any Statement.isResult = otherBody.any Statement.isResult := by
    rw [← Statement.any_isResult_live, bodies, Statement.any_isResult_live]
  rw [addLine, addLine]
  split
  · simp only [essence, Statement.live_append_singleton, bodies, ended]
  · simp only [essence, bodies]

/-- A line that does nothing does not reach the essence. -/
theorem essence_addLine_of_not_acts
    (idle : (Statement.read? line).any Statement.acts = false) (routine : Routine) :
    (routine.addLine line).essence = routine.essence := by
  rw [addLine]
  split
  · rename_i statement read
    have still : statement.acts = false := by simpa [read] using idle
    simp [essence, Statement.live_append_singleton, Statement.live_singleton_of_not_acts still]
  · rfl

/-- Neither does any line behind a result. -/
theorem essence_addLine_of_result (ended : routine.body.any Statement.isResult = true)
    (line : List Char) : (routine.addLine line).essence = routine.essence := by
  rw [addLine]
  split
  · simp only [essence, Statement.live_append_singleton, ended, if_true]
  · rfl

theorem any_isResult_addLine (routine : Routine) (line : List Char) :
    (routine.addLine line).body.any Statement.isResult =
      (routine.body.any Statement.isResult ||
        (Statement.read? line).any Statement.isResult) := by
  rw [addLine]
  split
  · rename_i statement read
    simp [read]
  · rename_i unread
    simp [unread]

end Routine

/-! ## Lines and what stands above them -/

namespace Program

/-- Whether a line opens or closes a function, or would with a proper header. -/
def bounds (line : List Char) : Bool := opens (Text.trim line) || closes (Text.trim line)

/-- The header of the function that is open below some lines: that of the last bound among
them, if it has one. -/
def openHeader? (above : List (List Char)) : Option (String × List String) :=
  (above.reverse.find? bounds).bind fun line => Routine.header? (Text.trim line)

/-- Whether there is a result among the lines below the last bound. -/
def returned (above : List (List Char)) : Bool :=
  (above.reverse.takeWhile fun line => !bounds line).any fun line =>
    (Statement.read? (Text.trim line)).any Statement.isResult

/-- A line, below some lines, that a program can do without. -/
structure Erasable (above : List (List Char)) (line : List Char) : Prop where
  inside : bounds line = false
  unheard : (Statement.read? (Text.trim line)).any Statement.acts = false ∨
    openHeader? above = none ∨ returned above = true

/-- The lines that are left of some lines, the first of which has the given place. -/
def keptLines (erased : Nat → Bool) (place : Nat) (lines : List (List Char)) :
    List (List Char) :=
  ((lines.zipIdx place).filter fun line => !erased line.2).map (·.1)

/-- A text without the lines at some places. -/
def eraseLines (erased : Nat → Bool) (source : List Char) : List Char :=
  Text.ofLines (keptLines erased 0 (source.splitOn '\n'))

variable {above rest : List (List Char)} {line : List Char} {erased : Nat → Bool}

theorem openHeader?_concat (above : List (List Char)) (line : List Char) :
    openHeader? (above ++ [line]) =
      if bounds line then Routine.header? (Text.trim line) else openHeader? above := by
  rw [openHeader?, List.reverse_concat, List.find?_cons]
  cases bounds line <;> rfl

theorem returned_concat (above : List (List Char)) (line : List Char) :
    returned (above ++ [line]) =
      (!bounds line && ((Statement.read? (Text.trim line)).any Statement.isResult ||
        returned above)) := by
  rw [returned, List.reverse_concat, List.takeWhile_cons]
  cases bounds line <;> rfl

/-! ## Reading with and without some lines -/

/-- What the lines above say about the function that the reader has open. -/
structure Follows (above : List (List Char)) (current : Option Routine) : Prop where
  closed : openHeader? above = none → current = none
  ended : returned above = true →
    ∀ routine, current = some routine → routine.body.any Statement.isResult = true

namespace Follows

variable {current : Option Routine}

/-- While no function is open there is nothing to know of it. -/
theorem none (above : List (List Char)) : Follows above none := ⟨fun _ => rfl, by simp⟩

theorem opened (opening : opens (Text.trim line) = true) :
    Follows (above ++ [line]) (Routine.opened? (Text.trim line)) where
  closed := by
    intro absent
    rw [openHeader?_concat, bounds, opening, Bool.true_or, if_pos rfl] at absent
    rw [Routine.opened?, absent]
    rfl
  ended := by
    intro ended
    simp [returned_concat, bounds, opening] at ended

theorem addLine (follows : Follows above current) (inside : bounds line = false) :
    Follows (above ++ [line]) (current.map (·.addLine (Text.trim line))) where
  closed := by
    intro absent
    rw [openHeader?_concat, inside] at absent
    rw [follows.closed absent]
    rfl
  ended := by
    intro ended routine isOpen
    obtain ⟨before, wasOpen, rfl⟩ := Option.map_eq_some_iff.mp isOpen
    simp only [returned_concat, inside, Bool.not_false, Bool.true_and, Bool.or_eq_true] at ended
    rw [Routine.any_isResult_addLine]
    rcases ended with here | earlier
    · simp [here]
    · simp [follows.ended earlier before wasOpen]

/-- A line that can go leaves the essence of the open function alone. -/
theorem essence_addLine (follows : Follows above current) (erasable : Erasable above line) :
    (current.map (·.addLine (Text.trim line))).map Routine.essence =
      current.map Routine.essence := by
  cases current with
  | none => rfl
  | some routine =>
      rcases erasable.unheard with idle | closed | ended
      · simp [Routine.essence_addLine_of_not_acts idle]
      · simpa using follows.closed closed
      · simp [Routine.essence_addLine_of_result (follows.ended ended routine rfl)]

end Follows

theorem map_essence_addLine {current other : Option Routine}
    (same : current.map Routine.essence = other.map Routine.essence) (line : List Char) :
    (current.map (·.addLine line)).map Routine.essence =
      (other.map (·.addLine line)).map Routine.essence := by
  cases current with
  | none =>
      obtain rfl : other = none := by simpa using same.symm
      rfl
  | some routine =>
      obtain ⟨before, rfl, essences⟩ := Option.map_eq_some_iff.mp same.symm
      simp [Routine.essence_addLine_congr essences.symm line]

/-- The invariant of reading a source and, beside it, the lines that are left of it: the open
functions have the same essence, so those that are closed later have as well. -/
theorem map_essence_routinesFrom {current other : Option Routine} (follows : Follows above current)
    (same : current.map Routine.essence = other.map Routine.essence)
    (allowed : ∀ place line, rest[place]? = some line →
      erased (above.length + place) = true → Erasable (above ++ rest.take place) line) :
    (routinesFrom current (rest.map Text.trim)).map Routine.essence =
      (routinesFrom other ((keptLines erased above.length rest).map Text.trim)).map
        Routine.essence := by
  have finished {current other : Option Routine}
      (same : current.map Routine.essence = other.map Routine.essence) :
      current.toList.map Routine.essence = other.toList.map Routine.essence := by
    rw [← Option.toList_map, same, Option.toList_map]
  induction rest generalizing above current other with
  | nil => exact finished same
  | cons line rest ih =>
      have later : ∀ place next, rest[place]? = some next →
          erased ((above ++ [line]).length + place) = true →
          Erasable ((above ++ [line]) ++ rest.take place) next := by
        intro place next found gone
        have there := allowed (place + 1) next (by simpa using found)
          (by simpa [Nat.add_assoc, Nat.add_comm 1] using gone)
        simpa using there
      have place : (above ++ [line]).length = above.length + 1 := by simp
      cases gone : erased above.length with
      | true =>
          have erasable : Erasable above line := by simpa using allowed 0 line rfl gone
          have left : keptLines erased above.length (line :: rest) =
              keptLines erased (above ++ [line]).length rest := by
            simp [keptLines, gone]
          have inside := erasable.inside
          simp only [bounds, Bool.or_eq_false_iff] at inside
          rw [left, List.map_cons, routinesFrom]
          simp only [inside.1, inside.2, Bool.false_eq_true, if_false]
          exact ih (follows.addLine erasable.inside)
            ((follows.essence_addLine erasable).trans same) later
      | false =>
          have left : keptLines erased above.length (line :: rest) =
              line :: keptLines erased (above ++ [line]).length rest := by
            simp [keptLines, gone]
          rw [left, List.map_cons, List.map_cons, routinesFrom, routinesFrom]
          by_cases opening : opens (Text.trim line) = true
          · rw [if_pos opening, if_pos opening, List.map_append, List.map_append, finished same,
              ih (Follows.opened opening) rfl later]
          · by_cases closing : closes (Text.trim line) = true
            · rw [if_neg opening, if_neg opening, if_pos closing, if_pos closing,
                List.map_append, List.map_append, finished same,
                ih (Follows.none _) rfl later]
            · have inside : bounds line = false := by simp [bounds, opening, closing]
              rw [if_neg opening, if_neg opening, if_neg closing, if_neg closing]
              exact ih (follows.addLine inside) (map_essence_addLine same _) later

/-! ## Sources -/

/-- Lines that carry no meaning open, fill and close nothing, so they need not be left out
before functions are read. -/
theorem routinesFrom_filter (current : Option Routine) (lines : List (List Char)) :
    routinesFrom current (lines.filter fun line => !line.isEmpty && !Text.isComment line) =
      routinesFrom current lines := by
  induction lines generalizing current with
  | nil => rfl
  | cons line rest ih =>
      cases kept : !line.isEmpty && !Text.isComment line with
      | true =>
          rw [List.filter_cons, if_pos kept, routinesFrom, routinesFrom]
          simp only [ih]
      | false =>
          have silent : opens line = false ∧ closes line = false ∧ Statement.read? line = none := by
            rw [Bool.and_eq_false_iff, Bool.not_eq_false', Bool.not_eq_false'] at kept
            rcases kept with empty | comment
            · rw [List.isEmpty_iff.mp empty]
              decide +kernel
            · obtain ⟨text, rfl⟩ := List.isPrefixOf_iff_prefix.mp comment
              exact ⟨rfl, rfl, rfl⟩
          have unchanged : current.map (·.addLine line) = current := by
            simp [Routine.addLine, silent.2.2]
          rw [List.filter_cons, kept, if_neg Bool.false_ne_true, ih, routinesFrom]
          simp [silent.1, silent.2.1, unchanged]

theorem routinesFrom_splitOn_ofLines {lines : List (List Char)}
    (unbroken : ∀ line ∈ lines, '\n' ∉ line) :
    routinesFrom none (((Text.ofLines lines).splitOn '\n').map Text.trim) =
      routinesFrom none (lines.map Text.trim) := by
  by_cases nothing : lines = []
  · subst nothing
    rfl
  · rw [Text.ofLines, List.splitOn_intercalate '\n' unbroken nothing]

/-- Without lines that no call hears of, a program has the same functions up to their
essence. -/
theorem map_essence_routines_eraseLines {source : List Char}
    (allowed : ∀ place line, (source.splitOn '\n')[place]? = some line →
      erased place = true → Erasable ((source.splitOn '\n').take place) line) :
    (Program.routines (eraseLines erased source)).map Routine.essence =
      (Program.routines source).map Routine.essence := by
  have unbroken : ∀ line ∈ keptLines erased 0 (source.splitOn '\n'), '\n' ∉ line := by
    intro line inside
    obtain ⟨⟨kept, place⟩, among, rfl⟩ := List.mem_map.mp inside
    have found := List.fst_mem_of_mem_zipIdx (List.mem_filter.mp among).1
    exact Text.not_mem_of_mem_splitOn found
  have both : (routinesFrom none ((source.splitOn '\n').map Text.trim)).map Routine.essence =
      (routinesFrom none ((keptLines erased 0 (source.splitOn '\n')).map Text.trim)).map
        Routine.essence :=
    map_essence_routinesFrom (Follows.none []) rfl (by simpa using allowed)
  simp only [Program.routines, Text.significantLines, Text.trimmedLines, routinesFrom_filter,
    eraseLines, routinesFrom_splitOn_ofLines unbroken]
  exact both.symm

end Program

end Kata
