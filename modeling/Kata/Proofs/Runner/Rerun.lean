/-
# Cases that are run again

A case may be run that carries the result of an earlier run. The new run sets the parts of
its own result and looks at none of the old ones, but it does not take back what it does not
set: a case that passes keeps the error and the failure of before, and a case that fails
before both sides are evaluated keeps the sides of before. Such a case is not what the same
assertions would make of a new one. Here it is said what a second run makes of any case, and
exactly when the first one leaves no mark on it. Scripts only ever give new cases.
-/

import Kata.Proofs.Runner.WellFormed

namespace Kata.Case

/-- The case without any result. -/
def anew (case : Case) : Case := { name := case.name, code := case.code }

/-- A result, with the parts of an earlier one where it has none. -/
def keeping (result earlier : Case) : Case :=
  { result with
    error := result.error.or earlier.error
    failure := result.failure.or earlier.failure
    actual := result.actual.or earlier.actual
    expected := result.expected.or earlier.expected }

variable (case : Case)

/-! ## What a second run makes of a case -/

theorem blame_eq_keeping (fault : Fault) :
    case.blame fault = (case.anew.blame fault).keeping case := rfl

theorem judge_eq_keeping (finding : Finding) :
    case.judge finding = (case.anew.judge finding).keeping case := by
  cases finding with
  | error fault => rfl
  | ok sides => cases agree : sides.agree <;> simp [judge, agree] <;> rfl

theorem conclude_eq_keeping (tally : Tally) :
    case.conclude tally = (case.anew.conclude tally).keeping case := by
  obtain ⟨messages, first, lastPass⟩ := tally
  rcases first with _ | ⟨failure, sides⟩
  · cases lastPass <;> rfl
  · cases sides <;> rfl

/-- Whatever a run does not set stays as it was. -/
theorem run_eq_keeping (mode : Mode) (i : Interpreter) :
    (case.run mode i).1 = (case.anew.run mode i).1.keeping case := by
  have code : case.anew.code = case.code := rfl
  rw [run_fst_eq_settle, run_fst_eq_settle, code]
  cases (Assertion.lines case.code.toList).map fun line => (i.check line).1 with
  | nil => exact case.blame_eq_keeping .noAssertions
  | cons finding rest =>
      cases mode with
      | firstOnly => exact case.judge_eq_keeping finding
      | all => exact case.conclude_eq_keeping _

/-! ## When an earlier result leaves no mark -/

/-- Only where a result has no part can an earlier one show through. -/
theorem keeping_eq_self_iff (result earlier : Case) :
    result.keeping earlier = result ↔
      (result.error = none → earlier.error = none) ∧
      (result.failure = none → earlier.failure = none) ∧
      (result.actual = none → earlier.actual = none) ∧
      (result.expected = none → earlier.expected = none) := by
  have part {α : Type} (new old : Option α) : new.or old = new ↔ (new = none → old = none) := by
    cases new <;> simp
  obtain ⟨name, code, passed, error, failure, actual, expected⟩ := result
  simp only [keeping, mk.injEq, part, true_and]

/-- A new case has an error and a failure after a run unless it passes, and it has both sides
or neither. -/
structure Plain (result : Case) : Prop where
  error_iff : result.error = none ↔ result.passed = some true
  failure_iff : result.failure = none ↔ result.passed = some true
  sides_iff : result.expected = none ↔ result.actual = none

theorem plain_judge_anew (finding : Finding) : (case.anew.judge finding).Plain := by
  cases finding with
  | error fault => constructor <;> simp [judge, blame, fail, anew]
  | ok sides =>
      cases agree : sides.agree <;> constructor <;>
        simp [judge, withSides, agree, blame, fail, anew]

theorem plain_run_anew (mode : Mode) (i : Interpreter) : (case.anew.run mode i).1.Plain := by
  obtain ⟨finding, -, judged⟩ := case.anew.exists_judge_of_run mode i
  have plain := case.plain_judge_anew finding
  rcases judged with same | ⟨failed, message, same⟩
  · rw [same]
    exact plain
  · -- The error may be worded otherwise, but there is one in either case.
    rw [same]
    exact ⟨by simp [failed], plain.failure_iff, plain.sides_iff⟩

/-- Running a case that has a result already. It comes to what the case would come to as a
new one, with the old parts where a new run sets none. So the run depends on name and code
alone exactly if the case carried no error and no failure where it passes now, and no sides
where none are evaluated now. -/
theorem run_eq_run_anew_iff (mode : Mode) (i : Interpreter) :
    let again := (case.run mode i).1
    let new := (case.anew.run mode i).1
    again = new.keeping case ∧
    (again = new ↔
      (new.passed = some true → case.error = none ∧ case.failure = none) ∧
      (new.actual = none → case.actual = none ∧ case.expected = none)) := by
  intro again new
  have kept : again = new.keeping case := case.run_eq_keeping mode i
  have plain : new.Plain := case.plain_run_anew mode i
  refine ⟨kept, ?_⟩
  rw [kept, keeping_eq_self_iff, plain.error_iff, plain.failure_iff, plain.sides_iff]
  constructor
  · rintro ⟨error, failure, actual, expected⟩
    exact ⟨fun passed => ⟨error passed, failure passed⟩,
      fun absent => ⟨actual absent, expected absent⟩⟩
  · rintro ⟨passing, blind⟩
    exact ⟨fun passed => (passing passed).1, fun passed => (passing passed).2,
      fun absent => (blind absent).1, fun absent => (blind absent).2⟩

/-- A case for a function that gives back what it is given. -/
def echoes : Case := { name := "t", code := "ASSERT f('x') == 'x'" }

/-- The case fails by one implementation. By the next it passes, and still says why it has
failed. Without any implementation it fails for want of the function, and still shows the
sides that agreed. -/
theorem run_ne_run_anew_of_echoes :
    let wrong := (Interpreter.empty.load "FUNCTION f(a)\nRETURN 'y'\nEND").2
    let right := (Interpreter.empty.load "FUNCTION f(a)\nRETURN a\nEND").2
    let failed := (echoes.run .firstOnly wrong).1
    let passed := (failed.run .firstOnly right).1
    let missed := (passed.run .firstOnly .empty).1
    passed.passed = some true ∧ passed.failure = some .mismatch ∧
      passed.error = some "Expected \"x\", but got \"y\"" ∧
      passed ≠ (failed.anew.run .firstOnly right).1 ∧
      missed.failure = some .functionNotFound ∧ missed.actual.isSome = true ∧
      missed ≠ (passed.anew.run .firstOnly .empty).1 := by
  intro wrong right failed passed missed
  obtain ⟨passes, mismatch, message, notFound, shown, clean, blind⟩ :
      passed.passed = some true ∧ passed.failure = some .mismatch ∧
      passed.error = some "Expected \"x\", but got \"y\"" ∧
      missed.failure = some .functionNotFound ∧ missed.actual.isSome = true ∧
      (failed.anew.run .firstOnly right).1.failure = none ∧
      (passed.anew.run .firstOnly .empty).1.actual.isSome = false := by decide +kernel
  refine ⟨passes, mismatch, message, fun same => ?_, notFound, shown, fun same => ?_⟩
  · rw [same, clean] at mismatch
    cases mismatch
  · rw [same, blind] at shown
    cases shown

end Kata.Case
