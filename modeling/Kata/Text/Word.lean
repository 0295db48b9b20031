/-
# Names

A name is a run of ASCII letters, digits and underscores. Nothing asks that it start
with a letter: `7` and `_` are names as far as this file goes, and it is the order in
which an expression is understood that makes `7` a number there.
-/

namespace Kata.Text

/-- The characters of names. The language keeps them to ASCII. -/
def isNameChar (c : Char) : Bool := c.isAlphanum || c == '_'

/-- A name has at least one character, and name characters only. -/
def isName (s : List Char) : Bool := !s.isEmpty && s.all isNameChar

end Kata.Text
