/-
# Calls

The left side of an assertion calls one function on literals. The name ends at the
first parenthesis, the arguments reach to the closing parenthesis that ends the text,
and commas part them where no quote is open. A text without that outline is no call
at all; within it, the leftmost argument that is no literal is the one reported.
-/

import Kata.Literal
import Kata.Text.Word

namespace Kata

/-- A call of a named function on values. -/
structure Call where
  name : String
  args : List Value

namespace Call

/-- The name and the text between the parentheses of a trimmed call. -/
def outline? (s : List Char) : Option (List Char × List Char) :=
  match s.dropWhile (· != '(') with
  | [] => none
  | _ :: inner =>
    let name := Text.trimEnd (s.takeWhile (· != '('))
    if inner.getLast? == some ')' && Text.isName name then some (name, inner.dropLast) else none

/-- The argument texts between the parentheses; a blank has none. -/
def argTexts (inner : List Char) : List (List Char) :=
  if Text.allBlank inner then [] else Text.splitOutsideQuotes ',' none inner

/-- Read a call. -/
def read (s : List Char) : Except ReadError Call :=
  match outline? (Text.trim s) with
  | none => .error (.notACall (String.ofList (Text.trim s)))
  | some (name, inner) => do
    let args ← (argTexts inner).mapM Literal.read
    return ⟨String.ofList name, args⟩

end Call

end Kata
