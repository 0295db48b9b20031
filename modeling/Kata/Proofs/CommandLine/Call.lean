/-
# A call from the command line and a call in an assertion

The command line is given the arguments of a call one by one and starts an interpreter of its
own. An assertion is given them in one line, which has to be cut and parted again, and is
checked by a runner that may have been used before. Both come to the same value, miss the same
functions and report the same argument that is no literal. The requests compared are those that
an assertion line can carry: no argument holds the equals signs at which the line is cut, and
one that is no literal has neither commas nor quotes.
-/

import Kata.CommandLine
import Kata.Proofs.Assertion.Opening
import Kata.Proofs.Call.Joined
import Kata.Proofs.Runner.WellFormed

namespace Kata.CommandLine

/-- A call on argument texts, with the value that is expected of it. -/
structure Request where
  function : String
  literals : List String
  expected : String
  named : Text.isName function.toList = true
  unbroken : ∀ text ∈ expected :: literals, '\n' ∉ text.toList
  readable : Literal.Reads expected.toList
  unmarked : ∀ text ∈ literals, ¬ "==".toList <:+: text.toList
  whole : ∀ text ∈ literals, Call.Whole text.toList
  /-- A blank between the parentheses would be no argument. -/
  filled : ∀ text, literals = [text] → Text.allBlank text.toList = false

namespace Request

variable (q : Request)

/-- The request as an assertion. -/
def line : String :=
  "ASSERT " ++ q.function ++ "(" ++ ",".intercalate q.literals ++ ") == " ++ q.expected

/-- The texts between the parentheses. -/
def texts : List (List Char) := q.literals.map String.toList

/-- The left side of the assertion. -/
def call : List Char := Call.joined q.function.toList q.texts

/-! ## The line among the lines of its case -/

theorem toList_line : q.line.toList =
    Assertion.opening .assert q.call ++ ' ' :: q.expected.toList := by
  simp [line, call, Call.joined, texts, Assertion.opening, Style.keyword, Style.marker]

theorem not_infix_call : ¬ Style.assert.marker.toList <:+: q.call := by
  have separators : ∀ c ∈ ['(', ')', ','], c ∉ Style.assert.marker.toList := by
    simp [Style.marker]
  refine Call.not_infix_joined (Assertion.marker_ne_nil .assert) ?_ separators ?_
  · rintro ⟨before, after, inName⟩
    exact Text.not_mem_of_isName q.named (show Text.isNameChar '=' = false by decide)
      (by simp [← inName, Style.marker])
  · intro text inside
    obtain ⟨literal, among, rfl⟩ := List.mem_map.mp inside
    exact q.unmarked literal among

theorem callable_call : Assertion.Callable .assert q.call where
  filled := by simp [call, Call.joined]
  bare := Call.trim_of_isName q.named _
  unmarked := q.not_infix_call

theorem style?_trim_line : Assertion.style? (Text.trim q.line.toList) = some .assert := by
  rw [toList_line, Assertion.style?_trim_opening_append]

/-- A case that poses the request: its code is the line, perhaps between blanks. -/
structure PosedBy (case : Case) : Prop where
  unbroken : '\n' ∉ case.code.toList
  trim_code : Text.trim case.code.toList = Text.trim q.line.toList

variable {q}

theorem PosedBy.lines_eq {case : Case} (posed : q.PosedBy case) :
    Assertion.lines case.code.toList = [(.assert, Text.trim q.line.toList)] := by
  rw [← posed.trim_code]
  exact Assertion.lines_of_unbroken posed.unbroken (by rw [posed.trim_code, style?_trim_line])

/-! ## Checking the line and making the call -/

variable (q)

theorem read_line : Assertion.read .assert (Text.trim q.line.toList) =
    .ok ⟨q.call, Text.trim q.expected.toList⟩ := by
  rw [toList_line, q.callable_call.read_of_solid q.readable.allBlank_eq_false]

/-- The call that is written on the line is a call on the values of the argument texts. -/
theorem read_call : Call.read q.call =
    (q.texts.mapM Literal.read).map (Call.mk q.function) := by
  have whole : ∀ text ∈ q.texts, Call.Whole text := by
    intro text inside
    obtain ⟨literal, among, rfl⟩ := List.mem_map.mp inside
    exact q.whole literal among
  have filled : ∀ text, q.texts = [text] → Text.allBlank text = false := by
    intro text alone
    obtain ⟨literal, single, rfl⟩ := List.map_eq_singleton_iff.mp alone
    exact q.filled literal single
  rw [call, Call.read_joined q.named whole filled, String.ofList_toList]

/-- What checking the line comes to, given what the argument texts are read as. -/
theorem check_line (i : Interpreter) {expected : Value}
    (reads : Literal.read q.expected.toList = .ok expected) :
    (i.check (.assert, Text.trim q.line.toList)).1 =
      match q.texts.mapM Literal.read with
      | .error e => .error (.unread e)
      | .ok args =>
        match (i.call q.function args).1 with
        | .error e => .error (.missing e)
        | .ok actual => .ok ⟨actual, expected⟩ := by
  have trimmed : Literal.read (Text.trim q.expected.toList) = .ok expected := by
    rwa [Literal.read_trim]
  simp only [Interpreter.check_fst_eq, read_line, read_call, trimmed]
  cases q.texts.mapM Literal.read <;> rfl

/-- What the command comes to, given what the argument texts are read as. -/
theorem callFunction_eq {files : Files} {path implementation : String}
    (found : files path = .ok implementation) :
    callFunction files path q.function q.literals =
      match q.texts.mapM Literal.read with
      | .error e => .error (.literal e)
      | .ok args =>
        ((Interpreter.empty.load implementation).2.call q.function args).1.mapError .missing := by
  have same : (q.literals.mapM fun text => Literal.read text.toList) =
      q.texts.mapM Literal.read := by
    rw [texts, List.mapM_map]
    rfl
  rw [callFunction, readFile, found, same]
  cases q.texts.mapM Literal.read <;> rfl

end Request

/-! ## Agreement -/

/-- The outcome of a call on argument texts and the result of a case say the same. -/
structure Agree (literals : List String) (outcome : Except Problem Value) (result : Case) :
    Prop where
  /-- Among literals alone the value is the same, and so is the function that is missing. -/
  called : (∀ text ∈ literals, Literal.Reads text.toList) →
    (∀ v, outcome = .ok v ↔ result.actual = some v) ∧
    ((∃ e, outcome = .error (.missing e)) ↔ result.failure = some .functionNotFound) ∧
    ∀ e, outcome = .error (.missing e) → result.error = some (Problem.missing e).message
  /-- The leftmost text that is no literal is reported in the same words. -/
  unread : ∀ earlier text later, literals = earlier ++ text :: later →
    (∀ other ∈ earlier, Literal.Reads other.toList) → ¬ Literal.Reads text.toList →
    let error := ReadError.notALiteral (String.ofList (Text.trim text.toList))
    outcome = .error (.literal error) ∧ result.failure = some .unparsableLiteral ∧
      result.error = some (Problem.literal error).message

namespace Request

variable (q : Request) {files : Files} {path implementation : String}

theorem reads_texts_iff :
    (∀ text ∈ q.texts, Literal.Reads text) ↔ ∀ text ∈ q.literals, Literal.Reads text.toList := by
  simp [texts]

/-- Any fresh case that poses the request agrees with the command, in whatever interpreter it
is run that has the implementation alone. -/
theorem agree_run (found : files path = .ok implementation) {case : Case} (fresh : case.Fresh)
    (posed : q.PosedBy case) (mode : Mode) :
    Agree q.literals (callFunction files path q.function q.literals)
      (case.run mode (Interpreter.empty.load implementation).2).1 := by
  obtain ⟨expected, reads⟩ := q.readable
  have outcome := q.callFunction_eq found
  have finding := q.check_line (Interpreter.empty.load implementation).2 reads
  rw [Case.run_fst_of_lines_eq_singleton mode _ posed.lines_eq]
  constructor
  · intro literals
    obtain ⟨args, values⟩ := Call.exists_mapM_read_eq_ok_iff.mpr (q.reads_texts_iff.mpr literals)
    cases called : ((Interpreter.empty.load implementation).2.call q.function args).1 with
    | error e =>
        simp only [values, called, Except.mapError] at outcome finding
        rw [outcome, finding]
        refine ⟨fun v => ?_, ?_, ?_⟩
        · simp [Case.judge, Case.blame, Case.fail, fresh.actual]
        · simp [Fault.failure]
        · intro e' same
          obtain rfl : e = e' := by simpa using same
          rfl
    | ok actual =>
        simp only [values, called, Except.mapError] at outcome finding
        rw [outcome, finding]
        refine ⟨fun v => by simp, ?_, by simp⟩
        rw [Case.judge_ok_failure, fresh.failure]
        split <;> simp
  · intro earlier text later shape literals other error
    have values : q.texts.mapM Literal.read = .error error := by
      rw [texts, shape, List.map_append, List.map_cons]
      exact Call.mapM_read_of_leftmost (by simpa using literals) other
    simp only [values] at outcome finding
    rw [outcome, finding]
    exact ⟨rfl, rfl, rfl⟩

/-- The command and an assertion agree. Whatever the implementation and the call, the outcome
of the command says the same as the result of every fresh case that poses the call, once an
interpreter that may know anything is reset and has loaded the implementation; and the same as
the result of that case in every script that has it, in a runner that may have been used. As
the case has one assertion line, it does not matter how many of them a runner looks at. -/
theorem callFunction_agrees_with_assertion (q : Request) {files : Files}
    {path implementation : String} (found : files path = .ok implementation) :
    let outcome := callFunction files path q.function q.literals
    (∀ (i : Interpreter) (mode : Mode) (case : Case), case.Fresh → q.PosedBy case →
      Agree q.literals outcome (case.run mode (i.reset.load implementation).2).1) ∧
    ∀ (r : Runner) (script suiteName : String) (place : Nat) (case : Case),
      (Script.cases script.toList)[place]? = some case → q.PosedBy case →
      ∃ result, (r.run implementation script suiteName).1.cases[place]? = some result ∧
        Agree q.literals outcome result := by
  intro outcome
  refine ⟨fun i mode case fresh posed => ?_, fun r script suiteName place case inside posed => ?_⟩
  · rw [Interpreter.reset_eq_empty]
    exact q.agree_run found fresh posed mode
  · have fresh : case.Fresh := Script.fresh_of_mem_casesFrom (List.mem_of_getElem? inside)
    refine ⟨_, ?_, q.agree_run found fresh posed r.settings.mode⟩
    rw [r.run_eq implementation script suiteName]
    exact List.getElem?_map.trans (congrArg _ inside)

/-- The request `f('a, (b', true) == 'a, (b'`. -/
def quoted : Request where
  function := "f"
  literals := ["'a, (b'", " true"]
  expected := "'a, (b'"
  named := by decide
  unbroken := by decide
  readable := by decide
  unmarked := by decide
  whole := by decide
  filled := by simp

/-- A program whose function gives its first argument back. -/
def firstOfTwo : String := "FUNCTION f(a, b)\nRETURN a\nEND"

/-- A script with the request as its only case. -/
def quotedScript : String := "TEST t\nASSERT f('a, (b', true) == 'a, (b'\nEND"

/-- A comma and a parenthesis in a quoted argument come through both ways. -/
theorem callFunction_agrees_with_assertion_of_quoted :
    let used := (({} : Runner).run "FUNCTION f(a, b)\nRETURN b\nEND" "" "old").2
    quoted.line = "ASSERT f('a, (b', true) == 'a, (b'" ∧
      callFunction (fun _ => .ok firstOfTwo) "f.pseudo" "f" ["'a, (b'", " true"] =
        .ok (.text "a, (b") ∧
      ∃ result, (used.run firstOfTwo quotedScript "new").1.cases[0]? = some result ∧
        result.actual = some (.text "a, (b") := by
  intro used
  have line : quoted.line = "ASSERT f('a, (b', true) == 'a, (b'" := by decide
  have value : callFunction (fun _ => .ok firstOfTwo) "f.pseudo" "f" ["'a, (b'", " true"] =
      .ok (.text "a, (b") := rfl
  have inside : (Script.cases quotedScript.toList)[0]? = some ⟨"t",
      "ASSERT f('a, (b', true) == 'a, (b'", none, none, none, none, none⟩ := rfl
  have posed : quoted.PosedBy ⟨"t", "ASSERT f('a, (b', true) == 'a, (b'",
      none, none, none, none, none⟩ := ⟨by decide, by rw [line]⟩
  have found : (fun _ => .ok firstOfTwo : Files) "f.pseudo" = .ok firstOfTwo := rfl
  obtain ⟨result, there, agree⟩ := (callFunction_agrees_with_assertion quoted found).2
    used quotedScript "new" 0 _ inside posed
  have literals : ∀ text ∈ quoted.literals, Literal.Reads text.toList := by decide
  exact ⟨line, value, result, there, ((agree.called literals).1 _).mp value⟩

end Request

end Kata.CommandLine
