/-
# Assertion styles as JSON

A style is written as its keyword.
-/

import Kata.Assertion
import Kata.Json.Reader

namespace Kata

/-- Read a style. -/
def Style.ofJson? (room : Nat) (json : Json) : Option Style :=
  json.word? ([Style.assert, .expect].map fun s => (s.keyword, s)) false room

end Kata
