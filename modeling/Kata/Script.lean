/-
# Test scripts

A script is read like a program: `TEST` opens a case, `END` or `END TEST` closes it,
and so do the next `TEST` and the end of the text. The lines in between are the code
of the case. Lines outside cases are left out.
-/

import Kata.Case
import Kata.Text.Lines
import Kata.Text.Occurrence

namespace Kata.Script

/-- A case that is still open: its name and its lines so far. -/
structure Draft where
  name : List Char
  lines : List (List Char)

/-- The case that a draft becomes, its lines joined by line feeds. -/
def Draft.case (draft : Draft) : Case where
  name := String.ofList draft.name
  code := String.ofList (['\n'].intercalate draft.lines)

/-- Add a line to a draft. -/
def Draft.addLine (draft : Draft) (line : List Char) : Draft :=
  { draft with lines := draft.lines ++ [line] }

/-- Whether a significant line closes a case. -/
def closes (line : List Char) : Bool := line == "END TEST".toList || line == "END".toList

/-- The cases of the remaining lines, given the one that is open. -/
def casesFrom : Option Draft → List (List Char) → List Case
  | current, [] => (current.map Draft.case).toList
  | current, line :: rest =>
    match "TEST ".toList.isPrefixOf? line with
    | some name => (current.map Draft.case).toList ++ casesFrom (some ⟨Text.trim name, []⟩) rest
    | none =>
      if closes line then (current.map Draft.case).toList ++ casesFrom none rest
      else casesFrom (current.map (·.addLine line)) rest

/-- The cases of a script, in order, none of them run. -/
def cases (script : List Char) : List Case := casesFrom none (Text.significantLines script)

end Kata.Script
