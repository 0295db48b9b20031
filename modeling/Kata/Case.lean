/-
# Test cases

A case has a name and the lines between its `TEST` and its `END`. Once it has run it
also has a result, and every part of a result is optional, because cases travel as
JSON with any of the parts present.
-/

import Kata.Value

namespace Kata

/-- Why a case failed, for whoever wants to branch on it without reading messages. -/
inductive Failure
  | mismatch
  | functionNotFound
  | invalidAssertSyntax
  | invalidExpectSyntax
  | invalidFunctionCall
  | unparsableLiteral
  | noAssertions
  deriving DecidableEq, Repr

/-- A test case and what is known of its last run. -/
structure Case where
  name : String
  code : String
  /-- Missing until the case has run. -/
  passed : Option Bool := none
  error : Option String := none
  failure : Option Failure := none
  /-- What the decisive assertion evaluated to, a null included. -/
  actual : Option Value := none
  expected : Option Value := none
  deriving Inhabited

namespace Case

/-- Whether the case has not run yet. -/
def isPending (case : Case) : Bool := case.passed.isNone

/-- The case, failed. Values it carries from elsewhere stay. -/
def fail (case : Case) (failure : Failure) (message : String) : Case :=
  { case with passed := some false, error := some message, failure := some failure }

/-- The case in one line of a report. -/
def line (case : Case) : String :=
  match case.passed with
  | some true => "  ✓ " ++ case.name
  | some false => "  ✗ " ++ case.name ++ " — " ++ case.error.getD "unknown error"
  | none => "  · " ++ case.name

end Case

end Kata
