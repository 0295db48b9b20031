/-
# Two spellings of one check

A call and an expected value can be put on an assertion line in either style. The marker of
one style counts wherever it stands and the marker of the other between blanks alone, and a
line is trimmed before it is cut. Yet with a call that holds neither marker both lines are cut
right behind it, so they are read as the same two texts, whether these make sense or not. Only
if nothing at all is expected is there no place to cut, and each style complains of its own
syntax. Behind the cut a check can fail at four stages, and the first at which it does is the
one that is reported.
-/

import Kata.Proofs.Assertion.Opening
import Kata.Proofs.Call.Reading
import Kata.Proofs.Runner.Modes

namespace Kata

/-- A call and an expected value, put on a line of a style. -/
def Style.spell (style : Style) (call expected : String) : String :=
  style.keyword ++ " " ++ call ++ " " ++ style.marker ++ " " ++ expected

/-- A text that can stand for the call in either style. It need not be a call. -/
structure CallText where
  text : String
  filled : text ≠ ""
  bare : Text.trim text.toList = text.toList
  unbroken : '\n' ∉ text.toList
  unmarked : ∀ style : Style, ¬ style.marker.toList <:+: text.toList

/-! ## The stages of a check -/

/-- What is looked at behind the cut of a line, in this order. -/
inductive Stage
  | shape
  | argument
  | function
  | expected
  deriving DecidableEq

/-- The stages in front of a stage. -/
def Stage.earlier : Stage → List Stage
  | .shape => []
  | .argument => [.shape]
  | .function => [.shape, .argument]
  | .expected => [.shape, .argument, .function]

/-- What is wrong at a stage, whatever may be wrong at others. -/
inductive Flaw (i : Interpreter) (expected : List Char) : List Char → Stage → Fault → Prop
  /-- The call lacks the outline of one. -/
  | shape {call : List Char} (shapeless : Call.Shapeless call) :
      Flaw i expected call .shape (.unread (.notACall (String.ofList call)))
  /-- Within the outline the piece is the leftmost that is no literal. -/
  | argument {call piece : List Char} (spoilt : Call.Spoilt call piece) :
      Flaw i expected call .argument
        (.unread (.notALiteral (String.ofList (Text.trim piece))))
  /-- The name in the outline is that of no function, whatever the parentheses hold. -/
  | function {name pad inner : List Char} (named : Text.isName name = true)
      (blank : Text.allBlank pad = true)
      (absent : i.routines.get? (String.ofList name) = none) :
      Flaw i expected (name ++ (pad ++ '(' :: (inner ++ [')']))) .function
        (.missing ⟨String.ofList name⟩)
  /-- What is expected is no literal. -/
  | expected {call : List Char} (unread : ¬ ∃ v, Literal.Padded expected v) :
      Flaw i expected call .expected
        (.unread (.notALiteral (String.ofList (Text.trim expected))))

/-- What is wrong at the first stage at which something is. -/
def FirstFlaw (i : Interpreter) (call expected : List Char) (fault : Fault) : Prop :=
  ∃ stage, Flaw i expected call stage fault ∧
    ∀ earlier ∈ stage.earlier, ∀ other, ¬ Flaw i expected call earlier other

/-- A call with the outline of one has no flaw in front of its arguments. -/
theorem FirstFlaw.of_spoilt {call piece : List Char} (spoilt : Call.Spoilt call piece)
    (i : Interpreter) (expected : List Char) :
    FirstFlaw i call expected (.unread (.notALiteral (String.ofList (Text.trim piece)))) := by
  refine ⟨.argument, .argument spoilt, fun earlier inside other flaw => ?_⟩
  obtain rfl : earlier = .shape := by simpa [Stage.earlier] using inside
  cases flaw with
  | shape shapeless => simpa [Call.outline?_eq_none_iff.mpr shapeless] using spoilt.isSome_outline?

namespace Interpreter

variable {i : Interpreter} {call expected : List Char} {fault : Fault}
  {line line' : Style × List Char}

/-- What a check comes to depends on what the line is read as, not on its style. -/
theorem check_congr
    (same : Assertion.read line.1 line.2 = Assertion.read line'.1 line'.2) :
    (i.check line).1 = (i.check line').1 := by
  rw [check_fst_eq, check_fst_eq, same]

/-- A call text without a flaw in its shape or its arguments is read as the call that it
writes. -/
theorem exists_written_of_not_flaw (bare : Text.trim call = call)
    (whole : ∀ other, ¬ Flaw i expected call .shape other)
    (literals : ∀ other, ¬ Flaw i expected call .argument other) :
    ∃ call', Call.read call = .ok call' ∧ Call.Written call call' := by
  cases read : Call.read call with
  | ok call' => exact ⟨call', rfl, bare ▸ Call.read_eq_ok_iff.mp read⟩
  | error e =>
      rcases Call.read_eq_error_iff.mp read with ⟨shapeless, -⟩ | ⟨piece, spoilt, -⟩
      · exact absurd (.shape (bare ▸ shapeless)) (whole _)
      · exact absurd (.argument (bare ▸ spoilt)) (literals _)

/-- The first flaw of the two texts that a line is read as is what checking it comes to. -/
theorem check_of_firstFlaw (bare : Text.trim call = call)
    (read : Assertion.read line.1 line.2 = .ok ⟨call, Text.trim expected⟩)
    (flawed : FirstFlaw i call expected fault) : (i.check line).1 = .error fault := by
  obtain ⟨stage, flaw, first⟩ := flawed
  cases flaw with
  | shape shapeless =>
      have refused := Call.read_eq_error_iff.mpr (.inl ⟨bare.symm ▸ shapeless, rfl⟩)
      simp [check_fst_eq, read, refused, bare]
  | argument spoilt =>
      have refused := Call.read_eq_error_iff.mpr (.inr ⟨_, bare.symm ▸ spoilt, rfl⟩)
      simp [check_fst_eq, read, refused]
  | @function name pad inner named blank absent =>
      obtain ⟨call', readCall, written⟩ := exists_written_of_not_flaw bare
        (first .shape (by simp [Stage.earlier])) (first .argument (by simp [Stage.earlier]))
      have outlined : Call.outline? (name ++ (pad ++ '(' :: (inner ++ [')']))) =
          some (name, inner) := Call.outline?_eq_some_iff.mpr ⟨pad, blank, named, rfl⟩
      obtain ⟨-, same⟩ := (Call.written_iff_of_outline?_eq_some outlined).mp written
      have missing := i.call_fst_of_get?_eq_none _ call'.args absent
      simp [check_fst_eq, read, readCall, same, missing]
  | expected unread =>
      obtain ⟨call', readCall, written⟩ := exists_written_of_not_flaw bare
        (first .shape (by simp [Stage.earlier])) (first .argument (by simp [Stage.earlier]))
      have loaded : i.routines.get? call'.name ≠ none := by
        intro absent
        obtain ⟨named, blank, -⟩ := written
        exact first .function (by simp [Stage.earlier]) _ (.function named blank absent)
      obtain ⟨value, called⟩ := i.exists_call_fst_eq_ok call'.name call'.args loaded
      have refused := Literal.read_of_not_reads (Literal.reads_iff.not.mpr unread)
      simp [check_fst_eq, read, readCall, called, refused]

end Interpreter

/-! ## Cases in either style -/

namespace CallText

variable (c : CallText) (style : Style)

theorem callable : Assertion.Callable style c.text.toList :=
  ⟨by simpa using c.filled, c.bare, c.unmarked style⟩

theorem toList_spell (expected : String) : (style.spell c.text expected).toList =
    Assertion.opening style c.text.toList ++ ' ' :: expected.toList := by
  simp [Style.spell, Assertion.opening]

/-- A case in either style. Unless the first line of what is expected is blank, the style does
not matter to what the case comes to, and if something is wrong the case fails for what is wrong
first. Its error then opens with that, and only further assertion lines, which the expected text
may hold behind a line feed, add to it. With a blank first line a case fails for the syntax of
its own style. -/
theorem run_in_either_style (c : CallText) (expected : String) (case : Case) (mode : Mode)
    (i : Interpreter) :
    let spelt (style : Style) : Case := { case with code := style.spell c.text expected }
    let result (style : Style) : Case := ((spelt style).run mode i).1
    let first := Text.firstLine expected.toList
    (Text.allBlank first = false →
      result .expect = { result .assert with code := (spelt .expect).code } ∧
      ∀ fault, FirstFlaw i c.text.toList first fault → ∀ style,
        (result style).passed = some false ∧ (result style).failure = some fault.failure ∧
        ∃ more, (result style).error = some ("; ".intercalate (fault.message :: more)) ∧
          (mode = .firstOnly ∨ '\n' ∉ expected.toList → more = [])) ∧
    (Text.allBlank first = true → ∀ style,
      (result style).failure = some (Fault.unread style.complaint).failure) := by
  intro spelt result first
  let line (style : Style) :=
    (style, Text.trim (Assertion.opening style c.text.toList ++ ' ' :: first))
  let others := (Assertion.later expected.toList).map fun line => (i.check line).1
  have settled (style : Style) : result style =
      { case.settle mode ((i.check (line style)).1 :: others) with
        code := (spelt style).code } := by
    rw [← Case.settle_with_code]
    simp only [result, Case.run_fst_eq_settle]
    rw [toList_spell, Assertion.lines_opening_append style c.unbroken, List.map_cons]
  refine ⟨fun solid => ⟨?_, fun fault flawed style => ?_⟩, fun blank style => ?_⟩
  · have same : (i.check (line .expect)).1 = (i.check (line .assert)).1 :=
      Interpreter.check_congr (((c.callable .expect).read_of_solid solid).trans
        ((c.callable .assert).read_of_solid solid).symm)
    rw [settled, settled, same]
  · have found : (i.check (line style)).1 = .error fault :=
      Interpreter.check_of_firstFlaw c.bare ((c.callable style).read_of_solid solid) flawed
    obtain ⟨more, told, alone⟩ := case.exists_settle_of_error mode fault others
    rw [settled, found, told]
    refine ⟨rfl, rfl, more, rfl, fun single => alone (single.imp id fun unbroken => ?_)⟩
    simp [others, Assertion.later_eq_nil unbroken]
  · have refused : (i.check (line style)).1 = .error (.unread style.complaint) := by
      rw [Interpreter.check_fst_eq, (c.callable style).read_of_blank blank]
    obtain ⟨more, told, -⟩ := case.exists_settle_of_error mode (.unread style.complaint) others
    rw [settled, refused, told]
    rfl

/-- A call of a function on two words that are no literals. -/
def misspelt : CallText where
  text := "f(x, y)"
  filled := by decide
  bare := by decide
  unbroken := by decide
  unmarked := by intro style; cases style <;> decide +kernel

/-- Nothing is loaded, neither argument is a literal, and what is expected opens with an equals
sign and holds both markers: the left argument is reported in either style. -/
theorem run_in_either_style_of_misspelt :
    let expected := "=1 == 2 TO_BE 3"
    let result (style : Style) : Case :=
      (({ name := "t", code := style.spell misspelt.text expected } : Case).run .all .empty).1
    Text.allBlank (Text.firstLine expected.toList) = false ∧
      (result .expect).error = (result .assert).error ∧
      ∀ style, (result style).failure = some .unparsableLiteral ∧
        (result style).error = some "Cannot parse value: x" := by
  intro expected result
  have solid : Text.allBlank (Text.firstLine expected.toList) = false := by decide
  have outlined : Call.outline? misspelt.text.toList = some (['f'], "x, y".toList) := by decide
  have spoilt : Call.Spoilt misspelt.text.toList ['x'] :=
    (Call.spoilt_iff_of_outline?_eq_some outlined).mpr
      ⟨[], [" y".toList], by decide, by simp, by decide⟩
  obtain ⟨same, reported⟩ :=
    (run_in_either_style misspelt expected { name := "t", code := "" } .all .empty).1 solid
  refine ⟨solid, (congrArg Case.error same :), fun style => ?_⟩
  obtain ⟨-, failure, more, error, alone⟩ := reported _ (.of_spoilt spoilt _ _) style
  obtain rfl := alone (.inr (by decide))
  exact ⟨failure, error⟩

/-- A call of a function without arguments. -/
def argumentless : CallText where
  text := "f()"
  filled := by decide
  bare := by decide
  unbroken := by decide
  unmarked := by intro style; cases style <;> decide +kernel

/-- With nothing expected the style shows. -/
theorem run_differs_in_style_of_nothing_expected :
    let i := (Interpreter.empty.load "FUNCTION f()\nRETURN 1\nEND").2
    let result (style : Style) : Case :=
      (({ name := "t", code := style.spell argumentless.text "" } : Case).run .firstOnly i).1
    (result .assert).failure = some .invalidAssertSyntax ∧
      (result .expect).failure = some .invalidExpectSyntax ∧
      (result .assert).failure ≠ (result .expect).failure := by
  decide +kernel

end CallText

end Kata
