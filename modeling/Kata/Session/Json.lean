/-
# Journals as JSON

An entry without a run leaves the member out.
-/

import Kata.Session
import Kata.Suite.Json

namespace Kata.Entry

/-- The JSON of an entry. -/
def toJson (e : Entry) : Json :=
  .ofMembers [("sequence", some (.ofCount e.sequence)), ("status", some e.status.toJson),
    ("suite", e.suite.map Suite.toJson), ("implementation_digest", some (.text e.digest))]

/-- Read an entry. -/
def ofJson? : Nat → Json → Option Entry
  | room + 1, json => do
    let [sequence, status, suite, digest] ←
      json.fields? ["sequence", "status", "suite", "implementation_digest"] | none
    return ⟨← Json.required? Json.count? sequence,
      ← Json.required? (Status.ofJson? room) status,
      ← Json.optional? (Suite.ofJson? room) suite, ← Json.required? Json.text? digest⟩
  | 0, _ => none

end Kata.Entry
