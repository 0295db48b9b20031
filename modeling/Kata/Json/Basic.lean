/-
# JSON trees

The tree of a JSON text keeps numbers as numerals and members in order, so nothing
that a reader might ask about is lost. One constructor has no counterpart among
values: `unreadable` stands for a string, or an object with a key, that names half
of a surrogate pair. Such a piece may be skipped over but never read.
-/

import Kata.Number.Numeral
import Kata.Json.Quoted

namespace Kata

/-- A JSON text, parsed. -/
inductive Json
  | null
  | bool (value : Bool)
  | num (numeral : Numeral)
  | text (value : String)
  | list (items : List Json)
  | object (members : List (String × Json))
  | unreadable
  deriving Repr, Inhabited

namespace Json

/-- JSON numbers always show a point or an exponent, and negative zero keeps its sign. -/
def numberStyle : NumeralStyle where
  leastPlain := -5
  greatestPlain := 15
  pointAlways := true
  signedZero := true
  tie := .toEven

/-- A double as JSON; what is not finite has no numeral and becomes null. -/
def ofFloat (x : Float) : Json :=
  if Double.isFinite x then .num (Numeral.ofFloat numberStyle x) else .null

/-- A count as JSON. -/
def ofCount (n : Nat) : Json := .num ⟨false, Nat.toDigits 10 n, [], none⟩

/-- An object of the members that are present. -/
def ofMembers (members : List (String × Option Json)) : Json :=
  .object (members.filterMap fun member => member.2.map (member.1, ·))

end Json

end Kata
