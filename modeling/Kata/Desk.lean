/-
# A desk for editors

An editor talks to a runner in texts: what it sends and what it gets back is JSON or
plain text. A desk is a runner with that manner of speaking.
-/

import Kata.Json.Parser
import Kata.Json.Printer
import Kata.Reference
import Kata.Runner
import Kata.Suite.Json

namespace Kata

/-- The version that programs and editors are told. -/
def version : String := "0.1.0"

/-- A runner behind a desk. -/
structure Desk where
  runner : Runner := {}
  deriving Inhabited

namespace Desk

/-- The text sent is no suite. -/
structure UnreadableSuite where
  deriving DecidableEq, Repr

/-- What an editor is told then. -/
def UnreadableSuite.message (_ : UnreadableSuite) : String := "Invalid test suite"

/-- A desk that checks assertions in a mode. -/
def start (mode : Mode) : Desk := { runner := { settings := { mode := mode } } }

/-- Run a script and answer with the suite. -/
def run (d : Desk) (implementation script suiteName : String) : String × Desk :=
  let (suite, runner) := d.runner.run implementation script suiteName
  (suite.toJson.compact, { d with runner := runner })

/-- The status of a suite that is sent as JSON text, as a JSON text. -/
def status (text : String) : Except UnreadableSuite String :=
  match (Json.parse? text).bind (Suite.ofJson? Json.deepest) with
  | some suite => .ok suite.status.toJson.compact
  | none => .error {}

/-- The stored suite of a name, or null. -/
def suite (d : Desk) (suiteName : String) : String :=
  (((d.runner.suites.get? suiteName).map Suite.toJson).getD .null).compact

/-- All stored suites, in the order in which their names came up. -/
def suites (d : Desk) : String := (Json.list (d.runner.suites.values.map Suite.toJson)).compact

/-- Remove all stored suites. -/
def clear (d : Desk) : Desk := { d with runner := d.runner.clear }

end Desk

end Kata
