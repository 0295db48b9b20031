/-
# Suites

A suite is a run of cases under a name, with counts. The counts of a suite that was
run are those of its cases; a suite that comes from elsewhere brings its own, and the
status goes by the counts.
-/

import Kata.Case

namespace Kata

/-- Where an exercise stands. -/
inductive Status
  | idle
  | red
  | green
  | refactor
  deriving DecidableEq, Repr, Inhabited

/-- The word for a status. -/
def Status.word : Status → String
  | .idle => "idle"
  | .red => "red"
  | .green => "green"
  | .refactor => "refactor"

/-- A named run of cases. -/
structure Suite where
  name : String
  cases : List Case
  passed : Nat
  failed : Nat
  total : Nat
  deriving Inhabited

namespace Suite

/-- The suite of some cases, counted. -/
def ofCases (name : String) (cases : List Case) : Suite where
  name := name
  cases := cases
  passed := cases.countP fun case => case.passed == some true
  failed := cases.countP fun case => case.passed == some false
  total := cases.length

/-- A suite is red with any failure and green when everything passed. Without cases,
or with cases that have not run, it is idle. Refactoring is a decision of the learner
and never a property of a suite. -/
def status (suite : Suite) : Status :=
  if suite.total = 0 then .idle
  else if 0 < suite.failed then .red
  else if suite.passed = suite.total then .green
  else .idle

/-- The suite as a report: its name, a line for each case, and the counts. -/
def report (suite : Suite) : String :=
  suite.name ++ "\n" ++ String.join (suite.cases.map fun case => case.line ++ "\n") ++
    "\n" ++ toString suite.passed ++ " passed, " ++ toString suite.failed ++ " failed, " ++
    toString suite.total ++ " total"

end Suite

end Kata
