/-
# Assertion lines

Two spellings say the same: `ASSERT call == expected` and `EXPECT call TO_BE expected`.
The marker of the first may touch its neighbours, so `f()==1` is understood; the marker
of the second needs a blank on either side. In both the line is cut at the first marker
that leaves something on both sides. The parts stay text: the call is made before the
expected value is looked at.
-/

import Kata.ReadError
import Kata.Text.Lines
import Kata.Text.Occurrence

namespace Kata

/-- The spelling of an assertion. -/
inductive Style
  | assert
  | expect
  deriving DecidableEq, Repr

/-- The keyword that opens a line of a style. -/
def Style.keyword : Style → String
  | .assert => "ASSERT"
  | .expect => "EXPECT"

/-- The word between call and expected value in a style. -/
def Style.marker : Style → String
  | .assert => "=="
  | .expect => "TO_BE"

/-- The complaint about a line of a style that cannot be cut. -/
def Style.complaint : Style → ReadError
  | .assert => .assertSyntax
  | .expect => .expectSyntax

/-- The two texts of an assertion line. -/
structure Assertion where
  call : List Char
  expected : List Char

namespace Assertion

/-- The style of a trimmed line, if it opens like an assertion. -/
def style? (line : List Char) : Option Style :=
  if "ASSERT ".toList.isPrefixOf line then some .assert
  else if "EXPECT ".toList.isPrefixOf line then some .expect
  else none

/-- The assertion lines of a case, trimmed, in order. -/
def lines (code : List Char) : List (Style × List Char) :=
  (Text.trimmedLines code).filterMap fun line => (style? line).map (·, line)

/-- Whether a cut at the marker counts in a style. -/
def separates (style : Style) (cut : List Char × List Char) : Bool :=
  match style with
  | .assert => true
  | .expect => Text.endsBlank cut.1 && Text.startsBlank cut.2

/-- Cut what follows the keyword at the first marker with something on both sides. -/
def cut? (style : Style) (s : List Char) : Option Assertion :=
  (((Text.cuts style.marker.toList s).filter (separates style)).find? fun cut =>
    !Text.allBlank cut.1 && !Text.allBlank cut.2).map fun cut =>
      ⟨Text.trim cut.1, Text.trim cut.2⟩

/-- Read a line of a style. -/
def read (style : Style) (line : List Char) : Except ReadError Assertion :=
  match style.keyword.toList.isPrefixOf? line with
  | none => .error style.complaint
  | some rest =>
    match cut? style (Text.trimStart rest) with
    | some assertion => .ok assertion
    | none => .error style.complaint

end Assertion

end Kata
