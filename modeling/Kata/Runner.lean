/-
# Running tests

A run starts from an interpreter that knows nothing but the implementation under test,
and judges every case of the script by it. What goes wrong in a case is the result of
that case and stops nothing else. The suite is stored under its name, and the runner
keeps the last suite of every name.
-/

import Kata.Assertion
import Kata.Call
import Kata.Interpreter
import Kata.Script
import Kata.Settings
import Kata.Suite
import Kata.Value.Display

namespace Kata

/-- The two sides of an assertion, evaluated. -/
structure Sides where
  actual : Value
  expected : Value

/-- Whether an assertion with these sides holds. -/
def Sides.agree (sides : Sides) : Bool := sides.actual == sides.expected

/-- Why an assertion does not hold. -/
inductive Fault
  | unread (error : ReadError)
  | missing (error : MissingFunction)
  | noAssertions
  | mismatch (sides : Sides)

namespace Fault

/-- The kind of failure that a fault is. -/
def failure : Fault → Failure
  | .unread .assertSyntax => .invalidAssertSyntax
  | .unread .expectSyntax => .invalidExpectSyntax
  | .unread (.notACall _) => .invalidFunctionCall
  | .unread (.notALiteral _) => .unparsableLiteral
  | .missing _ => .functionNotFound
  | .noAssertions => .noAssertions
  | .mismatch _ => .mismatch

/-- What the learner is told. -/
def message : Fault → String
  | .unread error => error.message
  | .missing error => error.message
  | .noAssertions => "No assertions found in test"
  | .mismatch sides =>
    "Expected " ++ sides.expected.display ++ ", but got " ++ sides.actual.display

end Fault

/-- What checking one assertion comes to: two sides, which may or may not agree, or the
fault that kept one of them from being evaluated. -/
abbrev Finding := Except Fault Sides

namespace Interpreter

/-- Check one assertion line. The line is cut, the call is read and made, and only then
is the expected value read, so a missing function is reported ahead of a bad value. -/
def check (i : Interpreter) (line : Style × List Char) : Finding × Interpreter :=
  match Assertion.read line.1 line.2 with
  | .error error => (.error (.unread error), i)
  | .ok assertion =>
    match Call.read assertion.call with
    | .error error => (.error (.unread error), i)
    | .ok call =>
      match i.call call.name call.args with
      | (.error error, i) => (.error (.missing error), i)
      | (.ok actual, i) =>
        match Literal.read assertion.expected with
        | .error error => (.error (.unread error), i)
        | .ok expected => (.ok ⟨actual, expected⟩, i)

end Interpreter

/-- What is kept of the assertions of a case while all of them are checked. -/
structure Tally where
  /-- What the learner is told about every assertion that does not hold, in order. -/
  messages : List String := []
  /-- The failure of the first of them, with its sides where it has any. -/
  first : Option (Failure × Option Sides) := none
  /-- The sides of the last assertion that holds. -/
  lastPass : Option Sides := none

namespace Tally

/-- Count a fault, with the sides where both were evaluated. -/
def blame (tally : Tally) (fault : Fault) (sides : Option Sides) : Tally :=
  { tally with
    messages := tally.messages ++ [fault.message]
    first := tally.first.or (some (fault.failure, sides)) }

/-- Count a finding. -/
def add (tally : Tally) : Finding → Tally
  | .ok sides =>
    if sides.agree then { tally with lastPass := some sides }
    else tally.blame (.mismatch sides) (some sides)
  | .error fault => tally.blame fault none

end Tally

/-- Check assertion lines in order and count what they come to. -/
def Interpreter.checkAll (i : Interpreter) (tally : Tally) :
    List (Style × List Char) → Tally × Interpreter
  | [] => (tally, i)
  | line :: rest =>
    let (finding, i) := i.check line
    i.checkAll (tally.add finding) rest

namespace Case

/-- Fail a case for a fault. -/
def blame (case : Case) (fault : Fault) : Case := case.fail fault.failure fault.message

/-- Record the sides of an assertion, if there are any. -/
def withSides (case : Case) : Option Sides → Case
  | some sides => { case with actual := some sides.actual, expected := some sides.expected }
  | none => case

/-- Judge a case by one finding. What a judgement does not set stays as it was. -/
def judge (case : Case) : Finding → Case
  | .ok sides =>
    (if sides.agree then { case with passed := some true }
      else case.blame (.mismatch sides)).withSides (some sides)
  | .error fault => case.blame fault

/-- Judge a case by all its findings. A failed case tells every fault but is classified by
the first, a passed one shows the sides of the last assertion. -/
def conclude (case : Case) (tally : Tally) : Case :=
  match tally.first with
  | some (failure, sides) => (case.fail failure ("; ".intercalate tally.messages)).withSides sides
  | none => { case with passed := some true }.withSides tally.lastPass

/-- Run a case in an interpreter. A case without assertions has nothing to go by. -/
def run (case : Case) (mode : Mode) (i : Interpreter) : Case × Interpreter :=
  match mode, Assertion.lines case.code.toList with
  | _, [] => (case.blame .noAssertions, i)
  | .firstOnly, line :: _ =>
    let (finding, i) := i.check line
    (case.judge finding, i)
  | .all, lines =>
    let (tally, i) := i.checkAll {} lines
    (case.conclude tally, i)

/-- Run cases in order. -/
def runAll (mode : Mode) (i : Interpreter) : List Case → List Case × Interpreter
  | [] => ([], i)
  | case :: rest =>
    let (case, i) := case.run mode i
    let (rest, i) := runAll mode i rest
    (case :: rest, i)

end Case

/-- An interpreter, the settings, and the last suite of every name. -/
structure Runner where
  interpreter : Interpreter := .empty
  suites : Roster Suite := .empty
  settings : Settings := {}
  deriving Inhabited

namespace Runner

/-- Run one case by what is loaded. -/
def runCase (r : Runner) (case : Case) : Case × Runner :=
  let (case, i) := case.run r.settings.mode r.interpreter
  (case, { r with interpreter := i })

/-- Run a script against an implementation and store the suite. -/
def run (r : Runner) (implementation script suiteName : String) : Suite × Runner :=
  let (_, i) := r.interpreter.reset.load implementation
  let (cases, i) := Case.runAll r.settings.mode i (Script.cases script.toList)
  let suite := Suite.ofCases suiteName cases
  (suite, { r with interpreter := i, suites := r.suites.insert suite.name suite })

/-- Run a script under the name that the settings give. -/
def runDefault (r : Runner) (implementation script : String) : Suite × Runner :=
  r.run implementation script r.settings.defaultSuite

/-- Remove a stored suite: the suite, and the runner without it. -/
def remove (r : Runner) (suiteName : String) : Option Suite × Runner :=
  (r.suites.get? suiteName, { r with suites := r.suites.erase suiteName })

/-- Remove all stored suites. -/
def clear (r : Runner) : Runner := { r with suites := .empty }

end Runner

end Kata
