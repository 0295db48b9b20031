/-
# Statements

A body line is an assignment, a result or a branch. Branches are read so that a
learner may write them, but only their condition is kept and nothing runs it. A line
of any other form is no statement.
-/

import Kata.Expr.Compile
import Kata.Text.Occurrence

namespace Kata

/-- A line of a function body. -/
inductive Statement
  /-- `SET variable = value`. -/
  | assign (variableName : String) (value : Expression)
  /-- `RETURN value`. -/
  | result (value : Expression)
  /-- `IF condition THEN`. A line never fills the blocks. -/
  | branch (condition : Expression) (thenBlock elseBlock : List Statement)
  deriving Inhabited

namespace Statement

/-- Read what follows `SET`: a name, an equals sign and a value that is not blank. -/
def assignment? (s : List Char) : Option Statement :=
  let s := Text.trimStart s
  let variableName := s.takeWhile Text.isNameChar
  match Text.trimStart (s.dropWhile Text.isNameChar) with
  | '=' :: value =>
    if variableName.isEmpty || Text.allBlank value then none
    else some (.assign (String.ofList variableName) (.ofChars value))
  | _ => none

/-- Read what follows `IF`: a condition up to the last `THEN` that stands behind a
blank. -/
def branch? (s : List Char) : Option Statement :=
  match ((Text.cuts "THEN".toList s).filter fun cut => Text.endsBlank cut.1).getLast? with
  | some (condition, _) =>
    if Text.allBlank condition then none else some (.branch (.ofChars condition) [] [])
  | none => none

/-- Read a body line. The keywords need a space behind them. -/
def read? (line : List Char) : Option Statement :=
  match "SET ".toList.isPrefixOf? line with
  | some rest => assignment? rest
  | none =>
    match "RETURN ".toList.isPrefixOf? line with
    | some value => some (.result (.ofChars value))
    | none =>
      match "IF".toList.isPrefixOf? line with
      | some (' ' :: rest) => branch? (' ' :: rest)
      | _ => none

end Statement

end Kata
