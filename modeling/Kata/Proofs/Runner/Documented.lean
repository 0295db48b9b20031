/-
# Documented assertions that are run

A case that consists of one documented assertion is run in an interpreter that may have
anything loaded. If the line is not obscured, the call is made on the values of the written
literals and its result is compared with the written value; the only thing that can be
missing is the function. An obscured line is misread: the quote that is open where the line
is cut keeps the text in front of it from being a call. That some documented lines are
obscured is shown at the end.
-/

import Kata.Proofs.Assertion.Reading
import Kata.Proofs.Runner.Judgement

namespace Kata

/-- The failures that say a line was not understood. -/
def Failure.isMisreading : Failure → Bool
  | .invalidAssertSyntax | .invalidExpectSyntax | .invalidFunctionCall | .unparsableLiteral =>
    true
  | .mismatch | .functionNotFound | .noAssertions => false

namespace Assertion.Spelling

variable (a : Spelling)

/-- The case whose code is the line. -/
def case (name : String) : Case := { name := name, code := String.ofList a.chars }

/-! ## The line among the lines of its case -/

theorem unbroken : '\n' ∉ a.chars := by
  intro broken
  simp only [chars, body, tail, List.mem_append, List.mem_cons] at broken
  rcases broken with keyword | space | call | space | marker | space | expected
  · revert keyword
    cases a.style <;> decide
  · exact absurd space (by decide)
  · exact a.call.unbroken call
  · exact absurd space (by decide)
  · revert marker
    cases a.style <;> decide
  · exact absurd space (by decide)
  · exact a.expected.unbroken expected

/-- The line has nothing to trim: it starts with a keyword and ends with a literal. -/
theorem trim_chars : Text.trim a.chars = a.chars := by
  refine Text.trim_eq_self ?_ ?_
  · cases style : a.style <;> simp only [chars, style] <;> rfl
  · have atom := a.expected.written.atom
    have shape : a.chars = (a.style.keyword.toList ++ ' ' :: (a.call.chars ++
        ' ' :: (a.style.marker.toList ++ [' ']))) ++ a.expected.chars := by
      simp [chars, body, tail]
    rw [shape, Text.endsBlank_append _ atom.ne_nil, atom.endsBlank_eq_false]

theorem style?_chars : style? a.chars = some a.style := by
  cases style : a.style <;> simp [style?, chars, style, Style.keyword]

theorem lines_case (name : String) : lines (a.case name).code.toList = [(a.style, a.chars)] := by
  rw [case, String.toList_ofList]
  exact lines_eq_singleton (a.style, a.chars) a.unbroken a.trim_chars a.style?_chars

/-! ## Checking the line -/

variable {a} (i : Interpreter)

/-- In an obscured line the text in front of the cut is no call. -/
theorem check_of_obscured (obscured : a.Obscured) :
    ∃ fault, (i.check (a.style, a.chars)).1 = .error fault ∧
      fault.failure.isMisreading = true := by
  obtain ⟨assertion, read, opened⟩ := read_of_obscured obscured
  cases call : Call.read assertion.call with
  | ok call' => exact absurd (Call.quoteAfter_eq_none_of_read call) opened
  | error e =>
      refine ⟨.unread e, by simp [Interpreter.check, read, call], ?_⟩
      rcases Call.notACall_or_notALiteral_of_read call with ⟨t, rfl⟩ | ⟨t, rfl⟩ <;> rfl

/-- A line that is not obscured makes the call that is meant. -/
theorem check_of_not_obscured (clear : ¬ a.Obscured) :
    (i.check (a.style, a.chars)).1 =
      match (i.call a.call.call.name a.call.call.args).1 with
      | .error e => .error (.missing e)
      | .ok actual => .ok ⟨actual, a.expected.value⟩ := by
  have expected : Literal.read a.expected.chars = .ok a.expected.value :=
    Literal.read_spelling [] rfl a.expected
  cases called : (i.call a.call.call.name a.call.call.args).1 <;>
    simp only [Interpreter.check_fst_eq, read_of_not_obscured clear, Call.read_chars, expected,
      called]

/-! ## The result of the case -/

/-- Which documented assertions are understood, and what their cases then come to. A case
fails for not being understood exactly when its line is obscured. Otherwise it fails with a
missing function exactly when the function is not loaded, and with the function loaded it
records the value of the call, the written value, and whether the two are equal. -/
theorem run_case_understood_iff (i : Interpreter) (mode : Mode) (a : Spelling) (name : String) :
    let result := ((a.case name).run mode i).1
    let call := a.call.call
    (result.failure.any Failure.isMisreading = true ↔ a.Obscured) ∧
      (¬ a.Obscured →
        (result.failure = some .functionNotFound ↔ i.routines.get? call.name = none) ∧
        (i.routines.get? call.name ≠ none →
          ∃ value, (i.call call.name call.args).1 = .ok value ∧
            result.actual = some value ∧ result.expected = some a.expected.value ∧
            result.passed = some (value == a.expected.value))) := by
  intro result call
  have judged : result = (a.case name).judge (i.check (a.style, a.chars)).1 :=
    Case.run_fst_of_lines_eq_singleton mode i (a.lines_case name)
  by_cases obscured : a.Obscured
  · obtain ⟨fault, found, misread⟩ := check_of_obscured i obscured
    have failure : result.failure = some fault.failure := by
      rw [judged, found, Case.judge_error_failure]
    simp [failure, misread, obscured]
  · have checked := check_of_not_obscured i obscured
    by_cases loaded : i.routines.get? call.name = none
    · rw [i.call_fst_of_get?_eq_none _ _ loaded] at checked
      have failure : result.failure = some .functionNotFound := by
        rw [judged, checked, Case.judge_error_failure]
        rfl
      simp [failure, Failure.isMisreading, obscured, loaded]
    · obtain ⟨value, called⟩ := i.exists_call_fst_eq_ok call.name call.args loaded
      rw [called] at checked
      have failure : result.failure = none ∨ result.failure = some .mismatch := by
        rw [judged, checked, Case.judge_ok_failure]
        split
        · exact .inl rfl
        · exact .inr rfl
      refine ⟨?_, fun _ => ⟨?_, fun _ => ⟨value, called, ?_⟩⟩⟩
      · rcases failure with none | mismatch
        · simp [none, obscured]
        · simp [mismatch, Failure.isMisreading, obscured]
      · rcases failure with none | mismatch
        · simp [none, loaded]
        · simp [mismatch, loaded]
      · rw [judged, checked]
        simp [Sides.agree]

/-- A program that gives back what it is given. -/
def echo : Interpreter := (Interpreter.empty.load "FUNCTION f(a)\nRETURN a\nEND").2

/-- The line `EXPECT f('a == b, (') TO_BE 'a == b, ('`. -/
def harmlessLine : Spelling where
  style := .expect
  call := ⟨['f'], by decide, [.quoted "a == b, (".toList (by decide) (by decide)]⟩
  expected := .quoted "a == b, (".toList (by decide) (by decide)

/-- The marker of the other style, a comma and a parenthesis in an argument do no harm. -/
theorem run_case_understood_of_harmlessLine :
    let result := ((harmlessLine.case "t").run .all echo).1
    ¬ harmlessLine.Obscured ∧ echo.routines.get? "f" ≠ none ∧
      ∃ value, (echo.call "f" [.text "a == b, ("]).1 = .ok value ∧
        result.actual = some value ∧ result.expected = some (.text "a == b, (") ∧
        result.passed = some (value == .text "a == b, (") := by
  intro result
  have clear : ¬ harmlessLine.Obscured := by decide
  have loaded : echo.routines.get? "f" ≠ none := by decide
  exact ⟨clear, loaded,
    ((run_case_understood_iff echo .all harmlessLine "t").2 clear).2 loaded⟩

/-- The line `ASSERT f('a == b') == 'a == b'`. -/
def obscuredLine : Spelling where
  style := .assert
  call := ⟨['f'], by decide, [.quoted "a == b".toList (by decide) (by decide)]⟩
  expected := .quoted "a == b".toList (by decide) (by decide)

/-- Not every documented line is understood: `ASSERT f('a == b') == 'a == b'` is misread with
its function loaded. -/
theorem documented_line_misread :
    (obscuredLine.case "t").code = "ASSERT f('a == b') == 'a == b'" ∧
      echo.routines.get? "f" ≠ none ∧
      ((obscuredLine.case "t").run .firstOnly echo).1.failure = some .invalidFunctionCall := by
  decide

end Assertion.Spelling

end Kata
