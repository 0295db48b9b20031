/-
# Exercise sessions

A session leads a learner round red, green and refactor. It keeps the implementation
and the tests as text, the status of the last run and a journal of every change of
status. Runs need both texts; refactoring starts from green only and ends with a run.
What is refused changes nothing.
-/

import Kata.Digest.Sha256
import Kata.Runner

namespace Kata

/-- One change of status. -/
structure Entry where
  /-- The place in the journal, from zero. -/
  sequence : Nat
  status : Status
  /-- The run that brought the change; starting to refactor needs none. -/
  suite : Option Suite
  /-- The digest of the implementation at that point. -/
  digest : String
  deriving Inhabited

/-- A learner at work on an exercise. -/
structure Session where
  runner : Runner := {}
  implementation : String := ""
  tests : String := ""
  current : Option Suite := none
  status : Status := .idle
  journal : List Entry := []
  /-- The place of the next entry. -/
  nextSequence : Nat := 0
  deriving Inhabited

namespace Session

/-- The name of every suite that a session runs. -/
def suiteName : String := "Current Exercise"

/-- A new session. -/
def start (settings : Settings) : Session := { runner := { settings := settings } }

/-- Replace the implementation. -/
def setImplementation (s : Session) (text : String) : Session := { s with implementation := text }

/-- Replace the tests. -/
def setTests (s : Session) (text : String) : Session := { s with tests := text }

/-- A run needs an implementation and tests that are not blank. -/
def canRun (s : Session) : Bool :=
  !Text.allBlank s.implementation.toList && !Text.allBlank s.tests.toList

/-- Change the status and say so in the journal. -/
def record (s : Session) (status : Status) (suite : Option Suite) : Session :=
  { s with
    status := status
    journal := s.journal ++ [⟨s.nextSequence, status, suite, Sha256.ofText s.implementation⟩]
    nextSequence := s.nextSequence + 1 }

/-- Run the tests, if both texts allow it. -/
def run (s : Session) : Option Suite × Session :=
  if s.canRun then
    let (suite, runner) := s.runner.run s.implementation s.tests suiteName
    (some suite, { s.record suite.status (some suite) with
      runner := runner, current := some suite })
  else (none, s)

/-- Start to refactor, if the last run was green, and say whether that happened. -/
def beginRefactor (s : Session) : Bool × Session :=
  if s.status = .green then (true, s.record .refactor none) else (false, s)

/-- End refactoring with a run; outside of it nothing happens. -/
def endRefactor (s : Session) : Option Suite × Session :=
  if s.status = .refactor then s.run else (none, s)

/-- Forget the texts, the status and the journal. Suites that the runner stored stay. -/
def reset (s : Session) : Session := { runner := s.runner }

end Session

end Kata
