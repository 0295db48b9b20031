/-
# Settings of a run

Both settings have a value that is used when nothing else is said.
-/

namespace Kata

/-- How many assertion lines decide a case. -/
inductive Mode
  /-- The first one; the others are not even looked at. -/
  | firstOnly
  /-- All of them, and one failure is enough. -/
  | all
  deriving DecidableEq, Repr, Inhabited

/-- The settings of a runner. -/
structure Settings where
  mode : Mode := .firstOnly
  /-- The name of a suite that is run without one. -/
  defaultSuite : String := "Default"
  deriving DecidableEq, Repr, Inhabited

end Kata
