/-
# What a run does not notice

A run reads the lines of its texts that carry meaning and asks the implementation nothing
but calls. So neither the layout of the two texts nor lines of the implementation that no
call hears of can be told from the suite.

For layout this holds of all that a run leaves behind. For lines that were erased it holds of
results only: the functions that are loaded afterwards are those of the shorter source.
-/

import Kata.Proofs.Program.Erasure
import Kata.Proofs.Runner.Isolation

namespace Kata

/-! ## Layout -/

namespace Runner

/-- Runs on texts that differ in layout only are the same run. -/
theorem run_eq_of_alike (r : Runner) (suiteName : String)
    {implementation laidOutImplementation script laidOutScript : String}
    (implementations : Text.Alike implementation.toList laidOutImplementation.toList)
    (scripts : Text.Alike script.toList laidOutScript.toList) :
    r.run laidOutImplementation laidOutScript suiteName =
      r.run implementation script suiteName := by
  have loaded (i : Interpreter) : i.load laidOutImplementation = i.load implementation := by
    simp only [Interpreter.load, Program.routines, implementations.significantLines_eq]
  have cases : Script.cases laidOutScript.toList = Script.cases script.toList := by
    simp only [Script.cases, scripts.significantLines_eq]
  simp only [run, loaded, cases]

/-- A program with indentation, a comment and carriage returns, and a script with a blank line
that says nothing. -/
theorem run_eq_of_alike_commented :
    let bare := "FUNCTION f(a)\nRETURN a\nEND"
    let laidOut := "FUNCTION f(a)\r\n// back\n\u3000RETURN a\t\nEND"
    let script := "TEST t\nASSERT f('x') == 'x'\nEND"
    let spaced := "TEST t\n \nASSERT f('x') == 'x'\nEND"
    Text.Alike bare.toList laidOut.toList ∧ Text.Alike script.toList spaced.toList ∧
      (({} : Runner).run laidOut spaced "s").1 = (({} : Runner).run bare script "s").1 := by
  intro bare laidOut script spaced
  have ended : Text.Relayout bare.toList "FUNCTION f(a)\r\nRETURN a\nEND".toList := by
    simpa [bare] using Text.Relayout.lineEnd "FUNCTION f(a)".toList "RETURN a\nEND".toList
  have padded : Text.Relayout "FUNCTION f(a)\r\nRETURN a\nEND".toList
      "FUNCTION f(a)\r\n\u3000RETURN a\t\nEND".toList := by
    have unbroken : '\n' ∉ "RETURN a".toList := by decide
    have indented : Text.Padding ['\u3000'] := ⟨by decide, by decide⟩
    have trailed : Text.Padding ['\t'] := ⟨by decide, by decide⟩
    simpa [Text.ofLines] using
      Text.Relayout.pad ["FUNCTION f(a)\r".toList] ["END".toList] unbroken indented trailed
  have commented : Text.Relayout "FUNCTION f(a)\r\n\u3000RETURN a\t\nEND".toList
      laidOut.toList := by
    have idle : Text.Idle "// back".toList := ⟨by decide, .inr (by decide)⟩
    simpa [Text.ofLines, laidOut] using Text.Relayout.addLine ["FUNCTION f(a)\r".toList]
      ["\u3000RETURN a\t".toList, "END".toList] idle
  have blank : Text.Relayout script.toList spaced.toList := by
    have idle : Text.Idle [' '] := ⟨by decide, .inl (by decide)⟩
    simpa [Text.ofLines, script, spaced] using Text.Relayout.addLine ["TEST t".toList]
      ["ASSERT f('x') == 'x'".toList, "END".toList] idle
  have implementations : Text.Alike bare.toList laidOut.toList :=
    .trans _ _ _ (.trans _ _ _ (.rel _ _ ended) (.rel _ _ padded)) (.rel _ _ commented)
  have scripts : Text.Alike script.toList spaced.toList := .rel _ _ blank
  exact ⟨implementations, scripts,
    congrArg Prod.fst (run_eq_of_alike {} "s" implementations scripts)⟩

end Runner

/-! ## Calls -/

namespace Interpreter

/-- Two interpreters answer every call alike. -/
def Answers (i j : Interpreter) : Prop := ∀ name args, (i.call name args).1 = (j.call name args).1

variable {i j : Interpreter}

/-- A call asks for the essence of a function and for the variables. -/
theorem call_fst_eq (i : Interpreter) (name : String) (args : List Value) :
    (i.call name args).1 =
      match (i.routines.get? name).map Routine.essence with
      | none => .error ⟨name⟩
      | some routine =>
        .ok (Statement.run routine.body (i.scopes.enter.bind routine.parameters args)).1 := by
  rw [call]
  cases i.routines.get? name with
  | none => rfl
  | some routine => simp [Routine.essence, Statement.run_live]

/-- Functions that are the same up to their essence answer alike once they are loaded. -/
theorem answers_add (i : Interpreter) {routines others : List Routine}
    (same : routines.map Routine.essence = others.map Routine.essence) :
    Answers (i.add routines) (i.add others) := by
  -- The essence of a function keeps its name, so the last function of a name has the same
  -- essence in both lists.
  have last (routines : List Routine) (name : String) :
      (routines.reverse.find? (·.name == name)).map Routine.essence =
        (routines.map Routine.essence).reverse.find? (·.name == name) := by
    rw [← List.map_reverse, List.find?_map]
    rfl
  intro name args
  have found : ((i.add routines).routines.get? name).map Routine.essence =
      ((i.add others).routines.get? name).map Routine.essence := by
    rw [get?_routines_add, get?_routines_add, Option.map_or, Option.map_or, last, last, same]
  rw [call_fst_eq, call_fst_eq, found]
  rfl

/-- A check makes one call, so what it finds depends on the answer alone. -/
theorem Answers.check_fst (same : Answers i j) (line : Style × List Char) :
    (i.check line).1 = (j.check line).1 := by
  simp only [check_fst_eq, same _ _]

end Interpreter

theorem Case.run_fst_of_answers {i j : Interpreter} (same : i.Answers j) (case : Case)
    (mode : Mode) : (case.run mode i).1 = (case.run mode j).1 := by
  have findings : (fun line => (i.check line).1) = fun line => (j.check line).1 :=
    funext same.check_fst
  rw [run_fst_eq_settle, run_fst_eq_settle, findings]

/-! ## Erased lines -/

namespace Program

/-- A source without some of the lines that no call hears of gives the same results. Every
run on it returns the suite of a run on the whole source, and every call, in whatever
interpreter it is loaded, gives back the same value or misses the same function. -/
theorem run_and_call_eraseLines {source : String} {erased : Nat → Bool}
    (allowed : ∀ place line, (source.toList.splitOn '\n')[place]? = some line →
      erased place = true → Erasable ((source.toList.splitOn '\n').take place) line) :
    let shortened := String.ofList (eraseLines erased source.toList)
    (∀ (r : Runner) (script suiteName : String),
      (r.run shortened script suiteName).1 = (r.run source script suiteName).1) ∧
    ∀ (i : Interpreter) (name : String) (args : List Value),
      ((i.load shortened).2.call name args).1 = ((i.load source).2.call name args).1 := by
  intro shortened
  have answers (i : Interpreter) : (i.load shortened).2.Answers (i.load source).2 := by
    apply i.answers_add
    simpa [shortened] using map_essence_routines_eraseLines allowed
  refine ⟨?_, fun i => answers i⟩
  intro r script suiteName
  simp only [Runner.run_eq]
  apply congrArg (Suite.ofCases suiteName)
  apply List.map_congr_left
  intro case _
  exact case.run_fst_of_answers (answers .empty) r.settings.mode

/-- A line outside, a branch, a line that is no statement, and two lines behind the result. -/
def padded : String :=
  "RETURN 0\nFUNCTION f(a)\nIF a THEN\nSET b = a\nPRINT b\nRETURN b\nSET b = 1\nRETURN 2\nEND"

/-- All of them can go at once. -/
theorem run_and_call_eraseLines_padded :
    let erased : Nat → Bool := fun place => [0, 2, 4, 6, 7].contains place
    let shortened := "FUNCTION f(a)\nSET b = a\nRETURN b\nEND"
    (∀ place line, (padded.toList.splitOn '\n')[place]? = some line → erased place = true →
      Erasable ((padded.toList.splitOn '\n').take place) line) ∧
    String.ofList (eraseLines erased padded.toList) = shortened ∧
    ∀ (i : Interpreter) (name : String) (args : List Value),
      ((i.load shortened).2.call name args).1 = ((i.load padded).2.call name args).1 := by
  intro erased shortened
  have allowed : ∀ place line, (padded.toList.splitOn '\n')[place]? = some line →
      erased place = true → Erasable ((padded.toList.splitOn '\n').take place) line := by
    intro place line found gone
    have among : place ∈ [0, 2, 4, 6, 7] := by simpa [erased] using gone
    have lines : padded.toList.splitOn '\n' =
        ["RETURN 0".toList, "FUNCTION f(a)".toList, "IF a THEN".toList, "SET b = a".toList,
          "PRINT b".toList, "RETURN b".toList, "SET b = 1".toList, "RETURN 2".toList,
          "END".toList] := by decide +kernel
    rw [lines] at found ⊢
    simp only [List.mem_cons, List.not_mem_nil, or_false] at among
    rcases among with rfl | rfl | rfl | rfl | rfl
    · obtain rfl := Option.some.inj found
      exact ⟨by decide +kernel, .inr (.inl (by decide +kernel))⟩
    · obtain rfl := Option.some.inj found
      exact ⟨by decide +kernel, .inl (by decide +kernel)⟩
    · obtain rfl := Option.some.inj found
      exact ⟨by decide +kernel, .inl (by decide +kernel)⟩
    · obtain rfl := Option.some.inj found
      exact ⟨by decide +kernel, .inr (.inr (by decide +kernel))⟩
    · obtain rfl := Option.some.inj found
      exact ⟨by decide +kernel, .inr (.inr (by decide +kernel))⟩
  have text : String.ofList (eraseLines erased padded.toList) = shortened := by decide +kernel
  refine ⟨allowed, text, ?_⟩
  rw [← text]
  exact (run_and_call_eraseLines allowed).2

end Program

end Kata
