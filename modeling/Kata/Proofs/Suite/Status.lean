/-
# Where a suite stands

Once every case has run, each counts as passed or as failed, and the status is decided by
the cases: there are none, one of them failed, or all of them passed. Suites that bring
counts of their own are left aside, apart from what is never the status of any suite.
-/

import Kata.Suite

namespace Kata.Suite

/-- No suite says that the learner is refactoring. -/
theorem status_ne_refactor (suite : Suite) : suite.status ≠ .refactor := by
  rw [status]
  split
  · simp
  · split
    · simp
    · split <;> simp

/-! ## Counts that add up -/

section

variable {suite : Suite} (counted : suite.passed + suite.failed = suite.total)

include counted

theorem status_eq_idle_iff : suite.status = .idle ↔ suite.total = 0 := by
  grind [status]

theorem status_eq_red_iff : suite.status = .red ↔ 0 < suite.failed := by
  grind [status]

theorem status_eq_green_iff :
    suite.status = .green ↔ suite.total ≠ 0 ∧ suite.passed = suite.total := by
  grind [status]

end

/-! ## Counts of cases that have run -/

variable {cases : List Case} (ran : ∀ case ∈ cases, case.isPending = false) (name : String)

include ran

/-- Passed and failed cases are all cases. -/
theorem passed_add_failed_ofCases :
    (ofCases name cases).passed + (ofCases name cases).failed = (ofCases name cases).total := by
  have all := List.length_eq_countP_add_countP (fun case : Case => case.passed == some true)
    (l := cases)
  have failed : cases.countP (fun case => case.passed == some false) =
      cases.countP fun case => decide ¬(case.passed == some true) = true := by
    apply List.countP_congr
    intro case member
    have settled := ran case member
    cases result : case.passed with
    | none => simp [Case.isPending, result] at settled
    | some passed => cases passed <;> simp
  rw [ofCases, failed]
  exact all.symm

theorem status_ofCases_eq_idle_iff : (ofCases name cases).status = .idle ↔ cases = [] := by
  rw [status_eq_idle_iff (passed_add_failed_ofCases ran name)]
  exact List.length_eq_zero_iff

theorem status_ofCases_eq_red_iff :
    (ofCases name cases).status = .red ↔ ∃ case ∈ cases, case.passed = some false := by
  rw [status_eq_red_iff (passed_add_failed_ofCases ran name)]
  simp [ofCases, List.countP_pos_iff]

theorem status_ofCases_eq_green_iff :
    (ofCases name cases).status = .green ↔
      cases ≠ [] ∧ ∀ case ∈ cases, case.passed = some true := by
  rw [status_eq_green_iff (passed_add_failed_ofCases ran name)]
  simp [ofCases, List.countP_eq_length]

end Kata.Suite
