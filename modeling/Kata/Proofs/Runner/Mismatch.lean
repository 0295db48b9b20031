/-
# A mismatch shows two different texts

Whoever reads that one value was expected and another one came back must see two texts that
differ. An assertion compares values and its message shows them, so this is a matter of what
equality and showing separate. They differ in not-a-number alone, which equals nothing but is
shown like itself; an expected value is written down, and no literal is not-a-number. The
message cannot be taken for another one either, because the first value ends at the comma.
-/

import Kata.Proofs.Runner.WellFormed
import Kata.Proofs.Value.Display

namespace Kata

/-! ## Two sides and their message -/

theorem Value.numeric_of_isScalar {v : Value} (scalar : v.IsScalar)
    (number : ∀ x, v = .number x → x.isNaN = false) : v.Numeric := by
  intro x inside
  cases v with
  | number y =>
      obtain rfl : x = y := List.mem_singleton.mp inside
      exact number x rfl
  | list items => exact absurd rfl (scalar items)
  | null | bool | text => cases inside

variable {sides : Sides}

theorem Sides.display_ne (proper : sides.Proper) (apart : sides.agree = false) :
    sides.expected.display ≠ sides.actual.display := by
  intro same
  have numeric : sides.expected.Numeric :=
    Value.numeric_of_isScalar proper.expected proper.expected_number
  have alike := Value.display_eq_iff.mp same
  have numeric' : sides.actual.Numeric := by
    rwa [← Value.numeric_unsigned_iff, ← alike, Value.numeric_unsigned_iff]
  have equal : (sides.actual == sides.expected) = true :=
    Value.beq_iff.mpr ⟨numeric', alike.symm⟩
  rw [Sides.agree, equal] at apart
  cases apart

/-- The first value of a message ends at the comma, so a message with two different texts does
not read like one with a text twice. -/
theorem Fault.message_mismatch_ne (differ : sides.expected.display ≠ sides.actual.display)
    (v : Value) :
    (Fault.mismatch sides).message ≠ "Expected " ++ v.display ++ ", but got " ++ v.display := by
  intro same
  have chars := congrArg String.toList same
  simp only [message, String.toList_append, List.append_assoc, List.append_cancel_left_eq,
    Value.display, String.toList_ofList] at chars
  have comma (rest : List Char) : Value.Ends (", but got ".toList ++ rest) :=
    Value.ends_cons (.inl rfl) _
  obtain ⟨alike, rest⟩ :=
    Value.readsOff sides.expected v _ _ (comma _) (comma _) chars
  have second : sides.actual.display = v.display :=
    congrArg String.ofList (List.append_cancel_left rest)
  exact differ ((Value.display_eq_iff.mpr alike).trans second.symm)

/-! ## Cases that fail for a mismatch -/

namespace Case

variable {case : Case} {finding : Finding} {i : Interpreter}

/-- Only two sides that do not agree make a mismatch, and the case tells about them. -/
theorem Fresh.exists_sides_of_judge (fresh : case.Fresh) (proper : finding.Proper)
    (failed : (case.judge finding).failure = some .mismatch) :
    ∃ sides : Sides, sides.Proper ∧ sides.agree = false ∧
      (case.judge finding).expected = some sides.expected ∧
      (case.judge finding).actual = some sides.actual ∧
      (case.judge finding).error = some (Fault.mismatch sides).message := by
  cases finding with
  | error fault => exact absurd (Option.some.inj failed) proper
  | ok sides =>
      have apart : sides.agree = false := by
        by_contra agree
        rw [judge_ok_failure, if_pos (by simpa using agree), fresh.failure] at failed
        cases failed
      have faulty : Finding.fault? (.ok sides) = some (.mismatch sides, some sides) := by
        simp [Finding.fault?, apart]
      exact ⟨sides, proper, apart, rfl, rfl, case.judge_error faulty⟩

theorem Fresh.exists_sides_of_run (fresh : case.Fresh) (programmed : i.Programmed)
    (failed : (case.run .firstOnly i).1.failure = some .mismatch) :
    ∃ sides : Sides, sides.Proper ∧ sides.agree = false ∧
      (case.run .firstOnly i).1.expected = some sides.expected ∧
      (case.run .firstOnly i).1.actual = some sides.actual ∧
      (case.run .firstOnly i).1.error = some (Fault.mismatch sides).message := by
  cases first : (Assertion.lines case.code.toList).head? with
  | none =>
      have ran : (case.run .firstOnly i).1 = case.blame .noAssertions := by
        rw [run_fst_eq_settle, List.head?_eq_none_iff.mp first]
        rfl
      rw [ran] at failed
      cases failed
  | some line =>
      rw [case.run_firstOnly_of_head? i first] at failed ⊢
      exact fresh.exists_sides_of_judge (programmed.proper_check line) failed

end Case

/-! ## Showing and equality -/

/-- Showing separates exactly what equality separates. Two values, the first of which has no
not-a-number at any depth, are shown alike exactly if they are equal, and both zeros are shown
as `0`. So where the first assertion decides, a case that fails for a mismatch shows its two
values differently, whatever the implementation and the script, and there is no value that its
error shows twice. -/
theorem display_separates_what_beq_separates :
    (∀ v w : Value, v.Numeric → (v.display = w.display ↔ (v == w) = true)) ∧
    (∀ x : Float, (x == 0) = true → (Value.number x).display = "0") ∧
    ∀ (r : Runner) (implementation script suiteName : String), r.settings.mode = .firstOnly →
      ∀ result ∈ (r.run implementation script suiteName).1.cases,
        result.failure = some .mismatch →
        ∃ expected actual : Value,
          result.expected = some expected ∧ result.actual = some actual ∧
          result.error =
            some ("Expected " ++ expected.display ++ ", but got " ++ actual.display) ∧
          expected.display ≠ actual.display ∧ ∀ v : Value,
            result.error ≠ some ("Expected " ++ v.display ++ ", but got " ++ v.display) := by
  refine ⟨fun v w numeric => ?_, fun x zero => ?_, ?_⟩
  · exact Value.display_eq_iff_of_numeric numeric
  · have shown : (Value.number 0).display = "0" := by decide
    rw [← shown, Value.display_eq_iff]
    exact congrArg Value.number
      (Double.unsignedZero_eq_iff.mpr (.inr ⟨zero, Double.beq_zero_iff.mpr (.inl rfl)⟩))
  · intro r implementation script suiteName mode result inside failed
    rw [r.run_eq implementation script suiteName, mode] at inside
    obtain ⟨case, among, rfl⟩ := List.mem_map.mp inside
    have fresh : case.Fresh := Script.fresh_of_mem_casesFrom among
    obtain ⟨sides, proper, apart, expected, actual, error⟩ :=
      fresh.exists_sides_of_run (Interpreter.programmed_load implementation) failed
    have differ := Sides.display_ne proper apart
    refine ⟨sides.expected, sides.actual, expected, actual, error, differ, fun v same => ?_⟩
    rw [error] at same
    exact Fault.message_mismatch_ne differ v (Option.some.inj same)

/-- Not-a-number in place of an expected zero, and two lists that differ in the sign of zero. -/
theorem display_separates_what_beq_separates_of_not_a_number :
    let run := (({} : Runner).run "FUNCTION f()\nRETURN 0 / 0\nEND"
      "TEST t\nASSERT f() == 0\nEND" "s").1
    let v : Value := .list [.text ",", .number 0]
    let w : Value := .list [.text ",", .number (-0)]
    v.Numeric ∧ v.display = w.display ∧ (Value.number (-0)).display = "0" ∧
      ∃ result ∈ run.cases, result.failure = some .mismatch ∧
        ∃ expected actual : Value,
          result.expected = some expected ∧ result.actual = some actual ∧
          expected.display ≠ actual.display := by
  intro run v w
  obtain ⟨alike, zeros, mismatches⟩ := display_separates_what_beq_separates
  have numeric : v.Numeric := by
    intro x inside
    obtain rfl : x = 0 := List.mem_singleton.mp inside
    decide
  obtain ⟨result, inside, failed⟩ :
      ∃ result ∈ run.cases, result.failure = some .mismatch := by decide +kernel
  obtain ⟨expected, actual, shown, shown', -, differ, -⟩ :=
    mismatches {} _ _ _ rfl result inside failed
  exact ⟨numeric, (alike v w numeric).mpr (by decide), zeros (-0) (by decide),
    result, inside, failed, expected, actual, shown, shown', differ⟩

end Kata
