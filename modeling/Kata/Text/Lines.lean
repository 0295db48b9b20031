/-
# Lines

Programs and test scripts are read line by line. Lines end at line feeds; a
carriage return before a line feed is a blank, so it disappears with the other
blanks when the line is trimmed and needs no rule of its own.
-/

import Kata.Text.Blank

namespace Kata.Text

/-- The lines of a text, each trimmed, in order. -/
def trimmedLines (s : List Char) : List (List Char) := (s.splitOn '\n').map trim

/-- A line that opens with two slashes is a comment. -/
def isComment (line : List Char) : Bool := ['/', '/'].isPrefixOf line

/-- The trimmed lines that are neither empty nor comments. Only these carry meaning. -/
def significantLines (s : List Char) : List (List Char) :=
  (trimmedLines s).filter fun line => !line.isEmpty && !isComment line

end Kata.Text
