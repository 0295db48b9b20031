/-
# What a journal shows

Whatever a learner does, the journal numbers its entries from zero and ends with the
status of the session. Every run is in it with its suite, and a decision to refactor
follows a green entry only, so two of them never meet. Between two resets the journal
grows at its end.

All of it follows from three ways to change a session: texts are replaced, a run is
recorded, and refactoring starts after green. `Step` says what each of them does, and
`Consistent` is what all of them keep.
-/

import Kata.Proofs.Runner.Isolation
import Kata.Proofs.Suite.Status
import Kata.Session

namespace Kata

/-! ## Journals -/

/-- The status in which a journal leaves the session. -/
def Entry.lastStatus (journal : List Entry) : Status :=
  (journal.getLast?.map Entry.status).getD .idle

/-- The suite of the last run in a journal. -/
def Entry.lastSuite (journal : List Entry) : Option Suite :=
  (journal.filterMap Entry.suite).getLast?

/-- An entry can stand after the ones before it. -/
structure Entry.Follows (entry : Entry) (earlier : List Entry) : Prop where
  sequence_eq : entry.sequence = earlier.length
  refactor_iff : entry.status = .refactor ↔ entry.suite = none
  after_green : entry.status = .refactor → lastStatus earlier = .green
  of_run : ∀ suite, entry.suite = some suite →
    suite.name = Session.suiteName ∧ suite.status = entry.status

namespace Entry

theorem lastStatus_concat (journal : List Entry) (entry : Entry) :
    lastStatus (journal ++ [entry]) = entry.status := by
  simp [lastStatus]

theorem lastSuite_concat (journal : List Entry) (entry : Entry) :
    lastSuite (journal ++ [entry]) = entry.suite.or (lastSuite journal) := by
  cases suite : entry.suite <;> simp [lastSuite, suite]

end Entry

namespace Session

/-! ## Steps -/

/-- What a learner can do in a session. -/
inductive Action
  | setImplementation (text : String)
  | setTests (text : String)
  | run
  | beginRefactor
  | endRefactor
  | reset
  deriving DecidableEq

/-- The session after an action. -/
def perform (s : Session) : Action → Session
  | .setImplementation text => s.setImplementation text
  | .setTests text => s.setTests text
  | .run => s.run.2
  | .beginRefactor => s.beginRefactor.2
  | .endRefactor => s.endRefactor.2
  | .reset => s.reset

/-- What an action other than a reset does. Refused actions edit nothing. -/
inductive Step (s : Session) : Session → Prop
  | edit (implementation tests : String) :
    Step s { s with implementation := implementation, tests := tests }
  | ran (suite : Suite) (runner : Runner) (named : suite.name = suiteName)
    (stored : runner.suites.get? suiteName = some suite) :
    Step s { s.record suite.status (some suite) with runner := runner, current := some suite }
  | refactor (green : s.status = .green) : Step s (s.record .refactor none)

theorem step_refused (s : Session) : Step s s := .edit s.implementation s.tests

theorem step_run (s : Session) : Step s s.run.2 := by
  rw [run]
  split
  · have ran := s.runner.run_eq s.implementation s.tests suiteName
    apply Step.ran
    · rw [ran]
      rfl
    · rw [ran]
      exact (Roster.get?_insert ..).trans (if_pos rfl)
  · exact s.step_refused

theorem step_beginRefactor (s : Session) : Step s s.beginRefactor.2 := by
  rw [beginRefactor]
  split
  case isTrue green => exact .refactor green
  case isFalse => exact s.step_refused

theorem step_endRefactor (s : Session) : Step s s.endRefactor.2 := by
  rw [endRefactor]
  split
  · exact s.step_run
  · exact s.step_refused

theorem step_perform (s : Session) {action : Action} (kept : action ≠ .reset) :
    Step s (s.perform action) := by
  cases action with
  | setImplementation text => exact .edit text s.tests
  | setTests text => exact .edit s.implementation text
  | run => exact s.step_run
  | beginRefactor => exact s.step_beginRefactor
  | endRefactor => exact s.step_endRefactor
  | reset => exact absurd rfl kept

/-- A step writes one entry at the end of the journal, or none. -/
theorem Step.journal_eq {s s' : Session} (step : Step s s') :
    ∃ new : List Entry, s'.journal = s.journal ++ new ∧ new.length ≤ 1 := by
  cases step with
  | edit => exact ⟨[], (List.append_nil _).symm, Nat.zero_le 1⟩
  | ran => exact ⟨_, rfl, Nat.le_refl 1⟩
  | refactor => exact ⟨_, rfl, Nat.le_refl 1⟩

/-! ## The invariant -/

/-- The parts of a session agree with its journal, and every entry of the journal with
those before it. -/
structure Consistent (s : Session) : Prop where
  follows : ∀ earlier entry later, s.journal = earlier ++ entry :: later → entry.Follows earlier
  nextSequence_eq : s.nextSequence = s.journal.length
  status_eq : s.status = Entry.lastStatus s.journal
  current_eq : s.current = Entry.lastSuite s.journal
  stored : ∀ suite, s.current = some suite →
    suite.name = suiteName ∧ s.runner.suites.get? suiteName = some suite

namespace Consistent

/-- A session that has recorded nothing. -/
theorem of_runner (runner : Runner) : Consistent { runner := runner } where
  follows := by
    intro earlier entry later split
    simp at split
  nextSequence_eq := rfl
  status_eq := rfl
  current_eq := rfl
  stored := by
    intro suite current
    cases current

variable {s s' : Session}

/-- An entry that follows the journal can be written at its end. -/
theorem follows_concat (h : Consistent s) {new : Entry} (fits : new.Follows s.journal) :
    ∀ earlier entry later, s.journal ++ [new] = earlier ++ entry :: later →
      entry.Follows earlier := by
  intro earlier entry later split
  -- The new entry is the one at the split, or else the last of those behind it.
  rcases List.eq_nil_or_concat later with rfl | ⟨later, last, rfl⟩
  · have parts := List.append_inj' split rfl
    rw [← parts.1, ← List.head_eq_of_cons_eq parts.2]
    exact fits
  · have split : s.journal ++ [new] = (earlier ++ entry :: later) ++ [last] := by
      simpa only [List.concat_eq_append, List.append_assoc, List.cons_append] using split
    exact h.follows earlier entry later (List.append_inj' split rfl).1

/-- The entry of a run follows the journal. -/
theorem follows_of_run (h : Consistent s) {suite : Suite} (named : suite.name = suiteName)
    (digest : String) :
    Entry.Follows ⟨s.nextSequence, suite.status, some suite, digest⟩ s.journal := by
  constructor
  · exact h.nextSequence_eq
  · simp [suite.status_ne_refactor]
  · intro refactor
    exact absurd refactor suite.status_ne_refactor
  · intro other same
    cases same
    exact ⟨named, rfl⟩

/-- After green, the entry of a decision to refactor follows the journal. -/
theorem follows_of_green (h : Consistent s) (green : s.status = .green) (digest : String) :
    Entry.Follows ⟨s.nextSequence, .refactor, none, digest⟩ s.journal := by
  constructor
  · exact h.nextSequence_eq
  · simp
  · intro _
    rw [← h.status_eq, green]
  · intro suite absent
    cases absent

/-- What is recorded keeps the session consistent, if it follows the journal and the current
suite is the recorded one, should there be one. -/
theorem record (h : Consistent s) {status : Status} {suite current : Option Suite}
    {runner : Runner}
    (fits : Entry.Follows ⟨s.nextSequence, status, suite, Sha256.ofText s.implementation⟩ s.journal)
    (latest : current = suite.or s.current)
    (stored : ∀ suite, current = some suite →
      suite.name = suiteName ∧ runner.suites.get? suiteName = some suite) :
    Consistent { s.record status suite with runner := runner, current := current } := by
  constructor
  · exact h.follows_concat fits
  · simp [Session.record, h.nextSequence_eq]
  · exact (Entry.lastStatus_concat s.journal ⟨s.nextSequence, status, suite, _⟩).symm
  · rw [latest, h.current_eq]
    exact (Entry.lastSuite_concat s.journal ⟨s.nextSequence, status, suite, _⟩).symm
  · exact stored

theorem step (h : Consistent s) (step : Step s s') : Consistent s' := by
  cases step with
  | edit => exact ⟨h.follows, h.nextSequence_eq, h.status_eq, h.current_eq, h.stored⟩
  | ran suite runner named stored =>
      apply h.record (h.follows_of_run named _) rfl
      intro other current
      cases current
      exact ⟨named, stored⟩
  | refactor green => exact h.record (h.follows_of_green green _) rfl h.stored

theorem perform (h : Consistent s) (action : Action) : Consistent (s.perform action) := by
  by_cases kept : action = .reset
  · rw [kept]
    exact of_runner s.runner
  · exact h.step (s.step_perform kept)

theorem foldl_perform (h : Consistent s) (actions : List Action) :
    Consistent (actions.foldl Session.perform s) := by
  induction actions generalizing s with
  | nil => exact h
  | cons action rest ih => exact ih (h.perform action)

/-! ## Entries by their places -/

theorem follows_take (h : Consistent s) {place : Nat} {entry : Entry}
    (here : s.journal[place]? = some entry) : entry.Follows (s.journal.take place) := by
  obtain ⟨inside, rfl⟩ := List.getElem?_eq_some_iff.mp here
  apply h.follows _ _ (s.journal.drop (place + 1))
  rw [List.getElem_cons_drop, List.take_append_drop]

/-- The status before a place is that of the entry in front of it. -/
theorem exists_of_lastStatus_take {journal : List Entry} {place : Nat}
    (inside : place < journal.length) {status : Status} (busy : status ≠ .idle)
    (last : Entry.lastStatus (journal.take place) = status) :
    ∃ before entry, place = before + 1 ∧ journal[before]? = some entry ∧ entry.status = status := by
  cases place with
  | zero => exact absurd last.symm busy
  | succ before =>
      have here : journal[before]? = some journal[before] := List.getElem?_eq_getElem (by omega)
      refine ⟨before, journal[before], rfl, here, ?_⟩
      simpa [Entry.lastStatus, List.getLast?_take, here] using last

end Consistent

/-- The history of a session. After any actions on a new session, entries are numbered by
their places, the status is that of the last entry, and the current suite is that of the
last run and still stored. A decision to refactor has no suite and stands right after a
green entry; every other entry has the suite that its status is read off. Whatever comes
next, short of a reset, leaves the entries as they are and writes at most one behind them. -/
theorem foldl_perform_consistent (settings : Settings) (actions : List Action) :
    let s := actions.foldl perform (start settings)
    (∀ place entry, s.journal[place]? = some entry →
      entry.sequence = place ∧
      (entry.status = .refactor ↔ entry.suite = none) ∧
      (entry.status = .refactor → ∃ before green, place = before + 1 ∧
        s.journal[before]? = some green ∧ green.status = .green) ∧
      (entry.status ≠ .refactor → ∃ suite, entry.suite = some suite ∧
        suite.name = "Current Exercise" ∧ suite.status = entry.status)) ∧
    s.status = (s.journal.getLast?.map Entry.status).getD .idle ∧
    s.current = (s.journal.filterMap Entry.suite).getLast? ∧
    (∀ suite, s.current = some suite → s.runner.suites.get? suite.name = some suite) ∧
    ∀ action, action ≠ .reset →
      ∃ new : List Entry, (s.perform action).journal = s.journal ++ new ∧ new.length ≤ 1 := by
  intro s
  have consistent : Consistent s :=
    (Consistent.of_runner { settings := settings }).foldl_perform actions
  refine ⟨?_, consistent.status_eq, consistent.current_eq, ?_, ?_⟩
  · intro place entry here
    have follows := consistent.follows_take here
    obtain ⟨inside, -⟩ := List.getElem?_eq_some_iff.mp here
    refine ⟨?_, follows.refactor_iff, ?_, ?_⟩
    · simpa [inside.le] using follows.sequence_eq
    · intro refactor
      exact Consistent.exists_of_lastStatus_take inside (by simp) (follows.after_green refactor)
    · intro ran
      obtain ⟨suite, some⟩ := Option.ne_none_iff_exists'.mp (mt follows.refactor_iff.mpr ran)
      exact ⟨suite, some, follows.of_run suite some⟩
  · intro suite current
    obtain ⟨named, stored⟩ := consistent.stored suite current
    rwa [named]
  · intro action kept
    exact (s.step_perform kept).journal_eq

/-- A run that is green, and the decision to refactor. -/
def greenThenRefactor : List Action :=
  [.setImplementation "FUNCTION f(a)\nRETURN a\nEND", .setTests "TEST t\nASSERT f('x') == 'x'\nEND",
    .run, .beginRefactor]

/-- The run that ends refactoring writes at most one entry behind the two that are there. -/
theorem foldl_perform_consistent_of_greenThenRefactor :
    let s := greenThenRefactor.foldl perform (start {})
    s.journal.map Entry.status = [.green, .refactor] ∧ Action.endRefactor ≠ .reset ∧
      ∃ new : List Entry,
        (s.perform .endRefactor).journal = s.journal ++ new ∧ new.length ≤ 1 := by
  intro s
  have statuses : s.journal.map Entry.status = [.green, .refactor] := by decide +kernel
  have kept : Action.endRefactor ≠ .reset := by decide
  have history := foldl_perform_consistent {} greenThenRefactor
  exact ⟨statuses, kept, history.2.2.2.2 .endRefactor kept⟩

end Session

end Kata
