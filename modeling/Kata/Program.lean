/-
# Programs

A program is a sequence of functions, each from its header to `END`. The next header
closes a function as well, and so does the end of the text. Lines outside functions
and lines that are no statement are left out; a header that cannot be read opens
nothing, so the lines below it are outside too.
-/

import Kata.Statement
import Kata.Text.Lines

namespace Kata

/-- A function as it was written. -/
structure Routine where
  name : String
  parameters : List String
  body : List Statement
  deriving Inhabited

namespace Routine

/-- Read a header: the keyword, a blank, a name, and parameters between parentheses.
Parameters are parted by commas and trimmed, empty ones do not count, and what follows
the closing parenthesis is ignored. -/
def header? (line : List Char) : Option (String × List String) :=
  match "FUNCTION".toList.isPrefixOf? line with
  | none => none
  | some rest =>
    if !Text.startsBlank rest then none
    else
      let rest := Text.trimStart rest
      let name := Text.trimEnd (rest.takeWhile (· != '('))
      let behind := (rest.dropWhile (· != '(')).drop 1
      if Text.isName name && rest.contains '(' && behind.contains ')' then
        let parameters := (((behind.takeWhile (· != ')')).splitOn ',').map Text.trim).filter
          fun parameter => !parameter.isEmpty
        some (String.ofList name, parameters.map String.ofList)
      else none

/-- The function that a header opens. -/
def opened? (line : List Char) : Option Routine :=
  (header? line).map fun (name, parameters) => ⟨name, parameters, []⟩

/-- Add a body line, unless it is no statement. -/
def addLine (routine : Routine) (line : List Char) : Routine :=
  match Statement.read? line with
  | some statement => { routine with body := routine.body ++ [statement] }
  | none => routine

end Routine

namespace Program

/-- Whether a significant line opens a function, or would with a proper header. -/
def opens (line : List Char) : Bool := "FUNCTION ".toList.isPrefixOf line

/-- Whether a significant line closes a function. -/
def closes (line : List Char) : Bool := line == "END".toList

/-- The functions of the remaining lines, given the one that is open. -/
def routinesFrom : Option Routine → List (List Char) → List Routine
  | current, [] => current.toList
  | current, line :: rest =>
    if opens line then current.toList ++ routinesFrom (Routine.opened? line) rest
    else if closes line then current.toList ++ routinesFrom none rest
    else routinesFrom (current.map (·.addLine line)) rest

/-- The functions of a program, in order. -/
def routines (source : List Char) : List Routine :=
  routinesFrom none (Text.significantLines source)

end Program

end Kata
