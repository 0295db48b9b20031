/-
# What a finished suite looks like

A suite that was run has the cases of its script, each with a result whose parts agree. A
case that passes carries the two sides that agreed and no error. A case that fails carries
an error and the kind of failure, and it carries sides exactly for a mismatch. No side is a
list, the expected one is never not-a-number, and the counts and the status of the suite are
those of its cases.

In both modes a case takes its result from one finding, apart from the text of its error. So
it is enough to say what a check can find, and what judging by it makes of a case that has
not run.
-/

import Kata.Proofs.Call.Grammar
import Kata.Proofs.Interpreter.Scalar
import Kata.Proofs.Runner.Isolation
import Kata.Proofs.Runner.Modes
import Kata.Proofs.Suite.Status

namespace Kata

/-! ## What a check can find -/

/-- The sides of an assertion in a program: no lists, and on the right a value that was
written down. -/
structure Sides.Proper (sides : Sides) : Prop where
  actual : sides.actual.IsScalar
  expected : sides.expected.IsScalar
  expected_number : ∀ x, sides.expected = .number x → x.isNaN = false

/-- A finding has proper sides, or else a fault that is no mismatch. -/
def Finding.Proper : Finding → Prop
  | .ok sides => sides.Proper
  | .error fault => fault.failure ≠ .mismatch

theorem Fault.failure_unread_ne_mismatch (error : ReadError) :
    (Fault.unread error).failure ≠ .mismatch := by
  cases error <;> simp [failure]

/-- The arguments of a call that was read were written down. -/
theorem Call.isScalar_of_mem_args {s : List Char} {call : Call} (read_eq : read s = .ok call) :
    ∀ arg ∈ call.args, arg.IsScalar := by
  rw [read] at read_eq
  split at read_eq
  · simp at read_eq
  · rename_i name inner outlined
    cases values : (argTexts inner).mapM Literal.read with
    | error e => simp [values, bind, Except.bind] at read_eq
    | ok args =>
        obtain rfl : ⟨String.ofList name, args⟩ = call := by
          simpa [values, bind, Except.bind, pure, Except.pure] using read_eq
        intro arg inside
        have among := List.mem_map_of_mem (f := Except.ok (ε := ReadError)) inside
        rw [← mapM_read_eq_ok_iff.mp values] at among
        obtain ⟨text, -, readText⟩ := List.mem_map.mp among
        exact (Literal.written_of_read readText).isScalar

namespace Interpreter

theorem programmed_load (source : String) : (empty.load source).2.Programmed where
  printable := by
    intro name routine loaded
    have found := (get?_routines_add empty _ name).symm.trans loaded
    have last : (Program.routines source.toList).reverse.find? (·.name == name) = some routine :=
      (Option.or_none).symm.trans found
    exact Program.printable_of_mem_routines (List.mem_reverse.mp (List.mem_of_find?_eq_some last))
  scalars := Scopes.holdsScalars_empty

theorem Programmed.proper_check {i : Interpreter} (programmed : i.Programmed)
    (line : Style × List Char) : Finding.Proper (i.check line).1 := by
  rw [check_fst_eq]
  split
  · exact Fault.failure_unread_ne_mismatch _
  · split
    · exact Fault.failure_unread_ne_mismatch _
    · rename_i call read
      split
      · simp [Finding.Proper, Fault.failure]
      · rename_i actual called
        have scalar : actual.IsScalar :=
          programmed.isScalar_of_call (Call.isScalar_of_mem_args read) called
        split
        · exact Fault.failure_unread_ne_mismatch _
        · rename_i expected readExpected
          have written := Literal.written_of_read readExpected
          constructor
          · exact scalar
          · exact written.isScalar
          · intro x number
            obtain rfl : expected = .number x := number
            exact Literal.isNaN_eq_false_of_written written

end Interpreter

/-! ## What judging makes of a case -/

namespace Case

/-- A case with a result whose parts agree. -/
structure Settled (case : Case) : Prop where
  ran : case.isPending = false
  of_passed : case.passed = some true → case.error = none ∧ case.failure = none ∧
    ∃ a e, case.actual = some a ∧ case.expected = some e ∧ (a == e) = true
  of_failed : case.passed = some false → (∃ message, case.error = some message) ∧
    ∃ failure, case.failure = some failure ∧
      (failure = .mismatch ↔
        ∃ a e, case.actual = some a ∧ case.expected = some e ∧ (a == e) = false) ∧
      (failure ≠ .mismatch → case.actual = none ∧ case.expected = none)
  actual : ∀ v, case.actual = some v → v.IsScalar
  expected : ∀ v, case.expected = some v → v.IsScalar
  expected_number : ∀ x, case.expected = some (.number x) → x.isNaN = false

/-- A case that carries nothing from an earlier run. -/
structure Fresh (case : Case) : Prop where
  error : case.error = none
  failure : case.failure = none
  actual : case.actual = none
  expected : case.expected = none

variable {case : Case} {finding : Finding}

theorem Fresh.settled_blame (fresh : case.Fresh) {fault : Fault}
    (other : fault.failure ≠ .mismatch) : (case.blame fault).Settled where
  ran := rfl
  of_passed := by
    intro passed
    simp [blame, fail] at passed
  of_failed := by
    intro _
    refine ⟨⟨fault.message, rfl⟩, fault.failure, rfl, ?_, ?_⟩
    · simp [blame, fail, other, fresh.actual]
    · intro _
      exact ⟨fresh.actual, fresh.expected⟩
  actual := by simp [blame, fail, fresh.actual]
  expected := by simp [blame, fail, fresh.expected]
  expected_number := by simp [blame, fail, fresh.expected]

theorem Fresh.settled_judge_ok (fresh : case.Fresh) {sides : Sides} (proper : sides.Proper) :
    (case.judge (.ok sides)).Settled where
  ran := by simp [isPending]
  of_passed := by
    intro passed
    have agree : sides.agree = true := by simpa using passed
    refine ⟨?_, ?_, sides.actual, sides.expected, rfl, rfl, agree⟩
    · simp [judge, withSides, agree, fresh.error]
    · simp [agree, fresh.failure]
  of_failed := by
    intro failed
    have agree : sides.agree = false := by simpa using failed
    refine ⟨⟨(Fault.mismatch sides).message, ?_⟩, .mismatch, ?_, ?_, ?_⟩
    · simp [judge, withSides, agree, blame, fail]
    · simp [agree]
    · exact iff_of_true rfl ⟨sides.actual, sides.expected, rfl, rfl, agree⟩
    · intro other
      exact absurd rfl other
  actual := by
    intro v shown
    obtain rfl := Option.some.inj shown
    exact proper.actual
  expected := by
    intro v shown
    obtain rfl := Option.some.inj shown
    exact proper.expected
  expected_number := by
    intro x shown
    exact proper.expected_number x (Option.some.inj shown)

theorem Fresh.settled_judge (fresh : case.Fresh) (proper : finding.Proper) :
    (case.judge finding).Settled := by
  cases finding with
  | error fault => exact fresh.settled_blame proper
  | ok sides => exact fresh.settled_judge_ok proper

/-- How the error of a failed case is worded does not matter. -/
theorem Settled.with_error (settled : case.Settled) (failed : case.passed = some false)
    (message : String) : { case with error := some message }.Settled where
  ran := settled.ran
  of_passed := by
    intro passed
    simp [failed] at passed
  of_failed := by
    intro _
    exact ⟨⟨message, rfl⟩, (settled.of_failed failed).2⟩
  actual := settled.actual
  expected := settled.expected
  expected_number := settled.expected_number

theorem judge_name_code (case : Case) (finding : Finding) :
    (case.judge finding).name = case.name ∧ (case.judge finding).code = case.code := by
  cases finding with
  | error fault => exact ⟨rfl, rfl⟩
  | ok sides => cases agree : sides.agree <;> simp [judge, withSides, agree, blame, fail]

/-- A case is judged by something that was found, but if it fails its error may tell more. -/
theorem exists_judge_of_run (case : Case) (mode : Mode) (i : Interpreter) :
    ∃ finding : Finding, (finding = .error .noAssertions ∨ ∃ line, finding = (i.check line).1) ∧
      ((case.run mode i).1 = case.judge finding ∨
        (case.judge finding).passed = some false ∧
          ∃ message, (case.run mode i).1 = { case.judge finding with error := some message }) := by
  cases lines : Assertion.lines case.code.toList with
  | nil =>
      refine ⟨.error .noAssertions, .inl rfl, .inl ?_⟩
      rw [run_fst_eq_settle, lines]
      rfl
  | cons line rest =>
      cases mode with
      | firstOnly =>
          have first : (Assertion.lines case.code.toList).head? = some line := by rw [lines]; rfl
          exact ⟨_, .inr ⟨line, rfl⟩, .inl (case.run_firstOnly_of_head? i first)⟩
      | all =>
          -- The first faulty line decides; if there is none, the last line does.
          cases found : (Assertion.lines case.code.toList).find?
              (fun line => (Finding.fault? (i.check line).1).isSome) with
          | some faulty =>
              have blamed := List.find?_some found
              have failed : (case.judge (i.check faulty).1).passed = some false := by
                rw [judge_passed, Option.isNone_eq_false_iff.mpr blamed]
              exact ⟨_, .inr ⟨faulty, rfl⟩, .inr ⟨failed, _, case.run_all_of_find? i found⟩⟩
          | none =>
              have clean : ∀ line ∈ Assertion.lines case.code.toList,
                  Finding.fault? (i.check line).1 = none := by
                simpa using List.find?_eq_none.mp found
              have last : (Assertion.lines case.code.toList).getLast? =
                  some ((line :: rest).getLast (by simp)) := by
                rw [lines, List.getLast?_eq_some_getLast]
              exact ⟨_, .inr ⟨_, rfl⟩, .inl (case.run_all_of_clean i clean last)⟩

variable (mode : Mode) {i : Interpreter}

theorem Fresh.settled_run (fresh : case.Fresh) (programmed : i.Programmed) :
    (case.run mode i).1.Settled := by
  obtain ⟨finding, source, judged⟩ := case.exists_judge_of_run mode i
  have proper : finding.Proper := by
    rcases source with rfl | ⟨line, rfl⟩
    · simp [Finding.Proper, Fault.failure]
    · exact programmed.proper_check line
  have settled := fresh.settled_judge proper
  rcases judged with same | ⟨failed, message, same⟩
  · rw [same]
    exact settled
  · rw [same]
    exact settled.with_error failed message

theorem run_name_code (case : Case) (i : Interpreter) :
    (case.run mode i).1.name = case.name ∧ (case.run mode i).1.code = case.code := by
  obtain ⟨finding, -, judged⟩ := case.exists_judge_of_run mode i
  rcases judged with same | ⟨-, message, same⟩
  · rw [same]
    exact case.judge_name_code finding
  · rw [same]
    exact case.judge_name_code finding

end Case

/-! ## Suites -/

theorem Script.fresh_of_mem_casesFrom {current : Option Draft} {lines : List (List Char)}
    {case : Case} (inside : case ∈ casesFrom current lines) : case.Fresh := by
  have closed {current : Option Draft} (inside : case ∈ (current.map Draft.case).toList) :
      case.Fresh := by
    obtain ⟨draft, -, rfl⟩ := Option.map_eq_some_iff.mp (Option.mem_toList.mp inside)
    exact ⟨rfl, rfl, rfl, rfl⟩
  induction lines generalizing current with
  | nil =>
      rw [casesFrom] at inside
      exact closed inside
  | cons line rest ih =>
      rw [casesFrom] at inside
      split at inside
      · rcases List.mem_append.mp inside with before | later
        · exact closed before
        · exact ih later
      · split at inside
        · rcases List.mem_append.mp inside with before | later
          · exact closed before
          · exact ih later
        · exact ih inside

namespace Runner

/-- Every suite that is run is well formed. It has the cases of the script in order, all of
them settled, so those that passed and those that failed add up to all, and its counts are
those that its cases give. It is idle without cases, red if a case failed, green if there are
cases and all of them passed, and it never says that the learner is refactoring. -/
theorem run_wellFormed (r : Runner) (implementation script suiteName : String) :
    let suite := (r.run implementation script suiteName).1
    (suite.cases.map fun case => (case.name, case.code)) =
      ((Script.cases script.toList).map fun case => (case.name, case.code)) ∧
    (∀ case ∈ suite.cases, case.Settled) ∧
    suite.passed + suite.failed = suite.total ∧ suite.total = suite.cases.length ∧
    Suite.ofCases suiteName suite.cases = suite ∧
    (suite.status = .idle ↔ suite.cases = []) ∧
    (suite.status = .red ↔ ∃ case ∈ suite.cases, case.passed = some false) ∧
    (suite.status = .green ↔
      suite.cases ≠ [] ∧ ∀ case ∈ suite.cases, case.passed = some true) ∧
    suite.status ≠ .refactor := by
  intro suite
  let alone := (Interpreter.empty.load implementation).2
  let results := (Script.cases script.toList).map fun case => (case.run r.settings.mode alone).1
  have counted : suite = Suite.ofCases suiteName results :=
    congrArg Prod.fst (r.run_eq implementation script suiteName)
  have settled : ∀ case ∈ results, case.Settled := by
    intro result inside
    obtain ⟨case, among, rfl⟩ := List.mem_map.mp inside
    have fresh : case.Fresh := Script.fresh_of_mem_casesFrom among
    exact fresh.settled_run r.settings.mode (Interpreter.programmed_load implementation)
  have ran : ∀ case ∈ results, case.isPending = false := fun case inside => (settled case inside).ran
  have kept : (results.map fun case => (case.name, case.code)) =
      (Script.cases script.toList).map fun case => (case.name, case.code) := by
    rw [List.map_map]
    apply List.map_congr_left
    intro case _
    obtain ⟨name, code⟩ := case.run_name_code r.settings.mode alone
    exact Prod.ext name code
  rw [counted]
  exact ⟨kept, settled, Suite.passed_add_failed_ofCases ran suiteName, rfl, rfl,
    Suite.status_ofCases_eq_idle_iff ran suiteName, Suite.status_ofCases_eq_red_iff ran suiteName,
    Suite.status_ofCases_eq_green_iff ran suiteName, Suite.status_ne_refactor _⟩

end Runner

end Kata
