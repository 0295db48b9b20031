/-
# What a session refuses and what it runs

A run needs two texts that are not blank, refactoring starts after green, and it ends only
where it has started. Whatever is refused leaves the session as it is, in all its parts. What
is accepted writes one entry, and a run depends on the settings and the two texts alone: the
runner of a session keeps its suites and its interpreter even through a reset, but a run
reads neither, and no action changes the settings. So a session that has been through
anything records what a new one would record; only the number of the entry is its own.
-/

import Kata.Proofs.Session.Journal

namespace Kata

namespace Session

variable {s : Session} {settings : Settings}

/-! ## Settings -/

theorem run_snd_settings (s : Session) : s.run.2.runner.settings = s.runner.settings := by
  rw [run]
  split
  · rfl
  · rfl

/-- No action changes the settings, a reset included. -/
theorem perform_settings (s : Session) (action : Action) :
    (s.perform action).runner.settings = s.runner.settings := by
  cases action with
  | setImplementation text => rfl
  | setTests text => rfl
  | run => exact s.run_snd_settings
  | beginRefactor =>
      rw [perform, beginRefactor]
      split <;> rfl
  | endRefactor =>
      rw [perform, endRefactor]
      split
      · exact s.run_snd_settings
      · rfl
  | reset => rfl

theorem foldl_perform_settings (s : Session) (actions : List Action) :
    (actions.foldl perform s).runner.settings = s.runner.settings := by
  induction actions generalizing s with
  | nil => rfl
  | cons action rest ih => exact (ih (s.perform action)).trans (s.perform_settings action)

/-! ## Runs -/

/-- There is nothing to run, or nothing to run it by. -/
def Blank (s : Session) : Prop :=
  Text.allBlank s.implementation.toList = true ∨ Text.allBlank s.tests.toList = true

instance (s : Session) : Decidable s.Blank := inferInstanceAs (Decidable (_ ∨ _))

theorem canRun_eq_false_iff : s.canRun = false ↔ s.Blank := by
  rw [canRun, Bool.and_eq_false_iff, Bool.not_eq_false', Bool.not_eq_false', Blank]

theorem run_of_blank (blank : s.Blank) : s.run = (none, s) := by
  rw [run, canRun_eq_false_iff.mpr blank]
  rfl

/-- A run that is not refused gives a suite and writes the entry of that suite. -/
theorem run_of_not_blank (filled : ¬ s.Blank) :
    let suite := (s.runner.run s.implementation s.tests suiteName).1
    s.run.1 = some suite ∧ s.run.2.journal = s.journal ++
      [⟨s.nextSequence, suite.status, some suite, Sha256.ofText s.implementation⟩] := by
  have allowed : s.canRun = true := by
    rw [← Bool.not_eq_false, canRun_eq_false_iff]
    exact filled
  rw [run, if_pos allowed]
  exact ⟨rfl, rfl⟩

/-- A new session with the texts of another one. -/
def afresh (settings : Settings) (s : Session) : Session :=
  ((start settings).setImplementation s.implementation).setTests s.tests

/-- What a run gives and records in a session is what it gives and records in a new session
with the same texts, except that the entry is numbered by its place. -/
def RunsAfresh (settings : Settings) (s : Session) (result : Option Suite × Session) : Prop :=
  ∃ suite entry,
    (s.afresh settings).run.1 = some suite ∧ (s.afresh settings).run.2.journal = [entry] ∧
    entry.suite = some suite ∧ result.1 = some suite ∧
    result.2.journal = s.journal ++ [{ entry with sequence := s.journal.length }]

/-- Settings and texts are all that a run reads. -/
theorem Consistent.runsAfresh (consistent : s.Consistent)
    (same : s.runner.settings = settings) (filled : ¬ s.Blank) :
    s.RunsAfresh settings s.run := by
  have here := run_of_not_blank filled
  have there := run_of_not_blank (s := s.afresh settings) filled
  have suites : (s.runner.run s.implementation s.tests suiteName).1 =
      ((s.afresh settings).runner.run s.implementation s.tests suiteName).1 :=
    Runner.run_fst_congr _ _ _ same
  rw [suites, consistent.nextSequence_eq] at here
  exact ⟨_, _, there.1, there.2, rfl, here.1, here.2⟩

/-- What is refused and what is not. After any actions on a new session, a run with a blank
text, a start of refactoring without green and an end of refactoring outside of it or with a
blank text do not happen, and leave the session as it is. Otherwise refactoring starts with
one entry that has no suite, and a run, be it the end of refactoring or not, writes one entry
and gives the suite that it would in a new session with these settings and texts. -/
theorem refused_or_run_afresh (settings : Settings) (actions : List Action) :
    let s := actions.foldl perform (start settings)
    (s.Blank → s.run = (none, s)) ∧
    (s.status ≠ .green → s.beginRefactor = (false, s)) ∧
    (s.status ≠ .refactor ∨ s.Blank → s.endRefactor = (none, s)) ∧
    (¬ s.Blank → s.RunsAfresh settings s.run) ∧
    (s.status = .green → s.beginRefactor.1 = true ∧ s.beginRefactor.2.journal = s.journal ++
      [⟨s.journal.length, .refactor, none, Sha256.ofText s.implementation⟩]) ∧
    (s.status = .refactor → ¬ s.Blank → s.RunsAfresh settings s.endRefactor) := by
  intro s
  have consistent : s.Consistent :=
    (Consistent.of_runner { settings := settings }).foldl_perform actions
  have same : s.runner.settings = settings := foldl_perform_settings (start settings) actions
  refine ⟨run_of_blank, fun other => ?_, fun refused => ?_, consistent.runsAfresh same,
    fun green => ?_, fun refactor filled => ?_⟩
  · rw [beginRefactor, if_neg other]
  · rw [endRefactor]
    split
    case isTrue refactor =>
      exact run_of_blank (refused.resolve_left fun other => other refactor)
    case isFalse => rfl
  · rw [beginRefactor, if_pos green, ← consistent.nextSequence_eq]
    exact ⟨rfl, rfl⟩
  · rw [endRefactor, if_pos refactor]
    exact consistent.runsAfresh same filled

/-- Before anything is set there is nothing to run. After a green run refactoring starts, and
from there it cannot start again; the run that ends it records what a new session would, in
spite of the run and the reset that came before. -/
theorem refused_or_run_afresh_of_reset :
    let green := (greenThenRefactor.take 3).foldl perform (start {})
    let s := (greenThenRefactor ++ .reset :: greenThenRefactor).foldl perform (start {})
    (start {}).Blank ∧ (start {}).run = (none, start {}) ∧
      (start {}).endRefactor = (none, start {}) ∧
      green.status = .green ∧ green.beginRefactor.1 = true ∧
      s.status = .refactor ∧ ¬ s.Blank ∧ s.beginRefactor = (false, s) ∧
      s.RunsAfresh {} s.run ∧ s.RunsAfresh {} s.endRefactor := by
  intro green s
  have blank : (start {}).Blank := by decide
  have isGreen : green.status = .green := by decide +kernel
  have refactor : s.status = .refactor := by decide +kernel
  have filled : ¬ s.Blank := by decide +kernel
  have notGreen : s.status ≠ .green := by
    rw [refactor]
    decide
  obtain ⟨idle, -, unended, -⟩ := refused_or_run_afresh {} []
  obtain ⟨-, -, -, -, begins, -⟩ := refused_or_run_afresh {} (greenThenRefactor.take 3)
  obtain ⟨-, again, -, runs, -, ends⟩ :=
    refused_or_run_afresh {} (greenThenRefactor ++ .reset :: greenThenRefactor)
  exact ⟨blank, idle blank, unended (.inr blank), isGreen, (begins isGreen).1, refactor, filled,
    again notGreen, runs filled, ends refactor filled⟩

end Session

end Kata
