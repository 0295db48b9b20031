/-
# Values as JSON

A value is written as the JSON that looks like it. Numbers that are not finite have no
JSON and become null. Every JSON text but one with an object in it is read as a value.
-/

import Kata.Json.Reader
import Kata.Value

namespace Kata.Value

mutual

/-- The JSON of a value. -/
def toJson : Value → Json
  | .null => .null
  | .bool b => .bool b
  | .number x => .ofFloat x
  | .text s => .text s
  | .list items => .list (itemsToJson items)

/-- The JSON of each item of a list. -/
def itemsToJson : List Value → List Json
  | [] => []
  | item :: rest => toJson item :: itemsToJson rest

end

/-- Read a value. A number too large is no value. -/
def ofJson? : Nat → Json → Option Value
  | _, .null => some .null
  | _, .bool b => some (.bool b)
  | _, .num numeral => (Json.double? numeral).map .number
  | _, .text s => some (.text s)
  | room + 1, .list items => (items.mapM (ofJson? room)).map .list
  | _, _ => none

end Kata.Value
