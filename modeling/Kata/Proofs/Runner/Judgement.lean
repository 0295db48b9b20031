/-
# Running one case

Checking an assertion makes one call at most, so a case leaves the interpreter as it found
it, and what the case comes to is settled by what each of its lines comes to on its own. With a
single assertion line there is one finding, and it is judged alike whether the first assertion
decides the case or all of them do.
-/

import Kata.Runner
import Kata.Proofs.Assertion.Lines
import Kata.Proofs.Interpreter.Frame

namespace Kata

namespace Interpreter

variable (i : Interpreter)

/-- Checking an assertion leaves the interpreter alone. -/
@[simp]
theorem check_snd (line : Style × List Char) : (i.check line).2 = i := by
  unfold check
  split
  · rfl
  · split
    · rfl
    · rename_i call read
      have frame := i.call_snd call.name call.args
      split
      · rename_i error j called
        simpa [called] using frame
      · rename_i actual j called
        split <;> simpa [called] using frame

/-- So does checking one assertion after another: each is counted by what it comes to in
the same interpreter. -/
theorem checkAll_eq (tally : Tally) (lines : List (Style × List Char)) :
    i.checkAll tally lines = ((lines.map fun line => (i.check line).1).foldl Tally.add tally, i) := by
  induction lines generalizing tally with
  | nil => rfl
  | cons line rest ih => simp [checkAll, ih]

/-- What checking comes to, with the interpreter left out of it. -/
theorem check_fst_eq (line : Style × List Char) : (i.check line).1 =
    match Assertion.read line.1 line.2 with
    | .error error => .error (.unread error)
    | .ok assertion =>
      match Call.read assertion.call with
      | .error error => .error (.unread error)
      | .ok call =>
        match (i.call call.name call.args).1 with
        | .error error => .error (.missing error)
        | .ok actual =>
          match Literal.read assertion.expected with
          | .error error => .error (.unread error)
          | .ok expected => .ok ⟨actual, expected⟩ := by
  rw [check]
  cases Assertion.read line.1 line.2 with
  | error error => rfl
  | ok assertion =>
      dsimp only
      cases Call.read assertion.call with
      | error error => rfl
      | ok call =>
          dsimp only
          obtain ⟨_ | actual, j⟩ := i.call call.name call.args
          · rfl
          · dsimp only
            cases Literal.read assertion.expected <;> rfl

end Interpreter

namespace Case

variable (case : Case) (mode : Mode) (i : Interpreter)

/-- Running a case leaves the interpreter alone. -/
@[simp]
theorem run_snd : (case.run mode i).2 = i := by
  unfold run
  split
  · rfl
  · simp
  · simp [Interpreter.checkAll_eq]

/-! ## Judging by one finding -/

variable (sides : Sides) (fault : Fault)

@[simp]
theorem judge_ok_passed : (case.judge (.ok sides)).passed = some sides.agree := by
  cases agree : sides.agree <;> simp [judge, withSides, agree, blame, fail]

@[simp]
theorem judge_ok_actual : (case.judge (.ok sides)).actual = some sides.actual := rfl

@[simp]
theorem judge_ok_expected : (case.judge (.ok sides)).expected = some sides.expected := rfl

/-- A case with two sides can only fail for their mismatch, and passing sets no failure. -/
@[simp]
theorem judge_ok_failure :
    (case.judge (.ok sides)).failure = if sides.agree then case.failure else some .mismatch := by
  cases agree : sides.agree <;> simp [judge, withSides, agree, blame, fail, Fault.failure]

@[simp]
theorem judge_error_failure : (case.judge (.error fault)).failure = some fault.failure := rfl

/-- To conclude from a single finding is to judge by it. -/
theorem conclude_add (finding : Finding) :
    case.conclude (({} : Tally).add finding) = case.judge finding := by
  cases finding with
  | error fault => rfl
  | ok sides =>
      by_cases agree : sides.agree = true
      · simp [Tally.add, conclude, judge, agree]
      · simp [Tally.add, conclude, judge, agree, Tally.blame, blame]

/-! ## Settling a case by the findings of its lines -/

/-- What a mode makes of the findings. -/
def settle (case : Case) (mode : Mode) : List Finding → Case
  | [] => case.blame .noAssertions
  | finding :: rest =>
    match mode with
    | .firstOnly => case.judge finding
    | .all => case.conclude ((finding :: rest).foldl Tally.add {})

/-- A case is settled by what each of its lines comes to on its own. -/
theorem run_fst_eq_settle : (case.run mode i).1 =
    case.settle mode ((Assertion.lines case.code.toList).map fun line => (i.check line).1) := by
  unfold run
  cases Assertion.lines case.code.toList with
  | nil => rfl
  | cons line rest =>
      cases mode with
      | firstOnly => rfl
      | all => simp [Interpreter.checkAll_eq, settle]

/-- In either mode a case with one assertion line is judged by what that line comes to. -/
theorem run_fst_of_lines_eq_singleton {case : Case} {line : Style × List Char}
    (single : Assertion.lines case.code.toList = [line]) :
    (case.run mode i).1 = case.judge (i.check line).1 := by
  rw [run_fst_eq_settle, single]
  cases mode with
  | firstOnly => rfl
  | all => exact case.conclude_add (i.check line).1

/-- Cases that are run one after another are run in the same interpreter. -/
theorem runAll_eq (cases : List Case) :
    runAll mode i cases = (cases.map fun case => (case.run mode i).1, i) := by
  induction cases with
  | nil => rfl
  | cons case rest ih => simp [runAll, ih]

end Case

end Kata
