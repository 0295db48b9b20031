/-
# Settings as JSON

Every setting may be missing, so an empty object is a good settings file. The whole
must be a record, though; null is none.
-/

import Kata.Json.Parser
import Kata.Json.Reader
import Kata.Settings

namespace Kata

/-- The word for a mode. -/
def Mode.word : Mode → String
  | .firstOnly => "first_only"
  | .all => "all"

/-- Read a mode. -/
def Mode.ofJson? (room : Nat) (json : Json) : Option Mode :=
  json.word? ([Mode.firstOnly, .all].map fun m => (m.word, m)) false room

namespace Settings

/-- The JSON of settings. -/
def toJson (s : Settings) : Json :=
  .object [("assertion_mode", .text s.mode.word), ("default_suite_name", .text s.defaultSuite)]

/-- Read settings. -/
def ofJson? : Nat → Json → Option Settings
  | room + 1, json => do
    let [mode, defaultSuite] ← json.fields? ["assertion_mode", "default_suite_name"] | none
    return ⟨← Json.defaulted? ({} : Settings).mode (Mode.ofJson? room) mode,
      ← Json.defaulted? ({} : Settings).defaultSuite Json.text? defaultSuite⟩
  | 0, _ => none

/-- Read settings from JSON text. -/
def parse? (text : String) : Option Settings := (Json.parse? text).bind (ofJson? Json.deepest)

end Settings

end Kata
