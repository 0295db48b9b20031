/-
# The language reference

One text that lists what learners can write. The operators come from the table that
the expression compiler goes by, so the two cannot drift apart.
-/

import Kata.Expr

namespace Kata.Reference

/-- The forms of statements, each with a description. -/
def statementForms : List (String × String) :=
  [("FUNCTION name(a, b)", "Open a function with positional parameters"),
    ("SET name = expr", "Bind a variable in the current call"),
    ("RETURN expr", "Stop and yield the value of expr"),
    ("IF cond THEN", "Accepted but not executed"),
    ("END", "Close the open function"),
    ("// text", "Comment line")]

/-- The forms of test scripts, each with a description. -/
def testForms : List (String × String) :=
  [("TEST \"name\"", "Open a named test"),
    ("ASSERT f(1, 2) == 3", "Call f with literal arguments and compare"),
    ("EXPECT f(1, 2) TO_BE 3", "Same check, alternate spelling"),
    ("END  or  END TEST", "Close the test")]

/-- A table of forms, the descriptions in one column. -/
def table (rows : List (String × String)) : List String :=
  let width := rows.foldl (fun width row => max width row.1.length) 0
  rows.map fun row =>
    "  " ++ row.1 ++ String.ofList (List.replicate (width - row.1.length) ' ') ++ "  " ++ row.2

/-- The operators of each level on a line of their own, loosest first. -/
def operatorLines : List String :=
  Op.levels.map fun level => "               " ++ "  ".intercalate (level.map Op.symbol)

/-- The lines of the reference. -/
def lines : List String :=
  ["# Pseudocode reference", "", "## Statements"] ++ table statementForms ++
    ["", "## Expressions",
      "  literals     42  -1.5  \"text\"  'text'  true  false  null",
      "  variables    letters, digits and _ ; unbound names are null",
      "  operators    need one space on each side, loosest first:"] ++ operatorLines ++
    ["  no parentheses, no calls inside expressions", "", "## Tests"] ++ table testForms ++
    ["  arguments and expected values must be literals",
      "  only the first ASSERT/EXPECT of a test is checked by default",
      "", "## Not supported",
      "  IF/ELSE bodies, FOR and WHILE loops, AND/OR/NOT, != < > <= >=",
      "", "## Example",
      "FUNCTION add(a, b)", "  RETURN a + b", "END", "",
      "TEST \"add returns the sum\"", "  ASSERT add(2, 3) == 5", "END", "",
      "TEST \"add handles negatives\"", "  EXPECT add(-1, 1) TO_BE 0", "END"]

/-- The reference. -/
def text : String := String.join (lines.map (· ++ "\n"))

end Kata.Reference
