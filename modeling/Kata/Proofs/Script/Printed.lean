/-
# Scripts as they are written

A case is written from its `TEST` line over the lines of its code to `END` or `END TEST`, and
the last line may be left out: the next `TEST` or the end of the script closes the case as
well. Whatever lines a case may have, written scripts are read back case by case, and every
script has cases of this kind. The code of a case is its lines joined by line feeds, and the
assertions found in it are those of its lines that open with an assertion keyword.
-/

import Kata.Proofs.Assertion.Lines
import Kata.Proofs.Text.Cuts
import Kata.Script

namespace Kata.Script

/-! ## What is written -/

/-- A line that can stand in the code of a case. -/
structure Inner (line : List Char) : Prop extends Text.Significant line where
  unopening : ¬ "TEST ".toList <+: line
  unclosing : closes line = false

/-- A case that can be written. -/
structure Draft.Printable (draft : Draft) : Prop where
  filled : draft.name ≠ []
  trim_eq : Text.trim draft.name = draft.name
  unbroken : '\n' ∉ draft.name
  inner : ∀ line ∈ draft.lines, Inner line

/-- How the end of a case is written. -/
inductive Closing
  /-- Not at all. -/
  | omitted
  | short
  | long
  deriving DecidableEq, Repr

/-- The line that closes a case, if there is one. -/
def Closing.lines : Closing → List (List Char)
  | .omitted => []
  | .short => ["END".toList]
  | .long => ["END TEST".toList]

/-- A case with its closing line. -/
structure Entry where
  draft : Draft
  printable : draft.Printable
  closing : Closing

namespace Entry

/-- The line that opens a case. -/
def header (name : List Char) : List Char := "TEST ".toList ++ name

/-- The lines of a case. -/
def lines (entry : Entry) : List (List Char) :=
  header entry.draft.name :: (entry.draft.lines ++ entry.closing.lines)

/-- The case that is meant. It has not run. -/
def case (entry : Entry) : Case where
  name := String.ofList entry.draft.name
  code := String.ofList (['\n'].intercalate entry.draft.lines)

end Entry

/-- Write cases, in order. -/
def render (entries : List Entry) : List Char :=
  ['\n'].intercalate (entries.flatMap Entry.lines)

/-! ## Reading what is written -/

variable {line : List Char} {lines : List (List Char)} {draft : Draft} {current : Option Draft}

theorem significant_header (printable : draft.Printable) :
    Text.Significant (Entry.header draft.name) := by
  have ends : Text.endsBlank draft.name = false := by
    rw [← printable.trim_eq]
    exact Text.endsBlank_trim _
  refine ⟨by simp [Entry.header], Text.trim_eq_self rfl ?_, ?_, rfl⟩
  · rw [Entry.header, Text.endsBlank_append _ printable.filled, ends]
  · intro broken
    rcases List.mem_append.mp broken with keyword | name
    · exact absurd keyword (by decide)
    · exact printable.unbroken name

theorem significant_of_mem_lines {entry : Entry} (inside : line ∈ entry.lines) :
    Text.Significant line := by
  rcases List.mem_cons.mp inside with rfl | inside
  · exact significant_header entry.printable
  · rcases List.mem_append.mp inside with code | last
    · exact (entry.printable.inner line code).toSignificant
    · cases closing : entry.closing with
      | omitted => simp [closing, Closing.lines] at last
      | short =>
          obtain rfl : line = "END".toList := by simpa [closing, Closing.lines] using last
          exact ⟨by decide, rfl, by decide, rfl⟩
      | long =>
          obtain rfl : line = "END TEST".toList := by simpa [closing, Closing.lines] using last
          exact ⟨by decide, rfl, by decide, rfl⟩

/-- A header closes the case that is open and opens the next one. -/
theorem casesFrom_header (current : Option Draft) (printable : draft.Printable)
    (rest : List (List Char)) :
    casesFrom current (Entry.header draft.name :: rest) =
      (current.map Draft.case).toList ++ casesFrom (some ⟨draft.name, []⟩) rest := by
  rw [casesFrom, Entry.header, Text.isPrefixOf?_append]
  simp only [printable.trim_eq]

/-- The lines of its code fill the case that is open. -/
theorem casesFrom_inner (draft : Draft) (inner : ∀ line ∈ lines, Inner line)
    (rest : List (List Char)) :
    casesFrom (some draft) (lines ++ rest) =
      casesFrom (some { draft with lines := draft.lines ++ lines }) rest := by
  induction lines generalizing draft with
  | nil => rw [List.append_nil, List.nil_append]
  | cons line lines ih =>
      obtain ⟨here, later⟩ := List.forall_mem_cons.mp inner
      have other : "TEST ".toList.isPrefixOf? line = none := by
        rw [Option.eq_none_iff_forall_ne_some]
        intro name opens
        exact here.unopening ⟨name, List.isPrefixOf?_eq_some_iff_append_eq.mp opens⟩
      rw [List.cons_append, casesFrom, other]
      simp only [here.unclosing, Bool.false_eq_true, if_false, Option.map_some]
      rw [ih _ later]
      simp [Draft.addLine]

theorem casesFrom_closing (draft : Draft) (closing : Closing) (rest : List (List Char)) :
    casesFrom (some draft) (closing.lines ++ rest) =
      match closing with
      | .omitted => casesFrom (some draft) rest
      | .short | .long => draft.case :: casesFrom none rest := by
  cases closing <;> rfl

/-- Written cases are read in order behind the case that is open. -/
theorem casesFrom_flatMap_lines (current : Option Draft) (entries : List Entry) :
    casesFrom current (entries.flatMap Entry.lines) =
      (current.map Draft.case).toList ++ entries.map Entry.case := by
  induction entries generalizing current with
  | nil => simp [casesFrom]
  | cons entry rest ih =>
      have filled : casesFrom (some ⟨entry.draft.name, []⟩)
          (entry.draft.lines ++ (entry.closing.lines ++ rest.flatMap Entry.lines)) =
          casesFrom (some entry.draft) (entry.closing.lines ++ rest.flatMap Entry.lines) :=
        casesFrom_inner ⟨entry.draft.name, []⟩ entry.printable.inner _
      rw [List.flatMap_cons, Entry.lines, List.cons_append, List.append_assoc,
        casesFrom_header current entry.printable, filled, casesFrom_closing, List.map_cons]
      cases entry.closing <;> simp only [ih] <;> rfl

theorem cases_render (entries : List Entry) : cases (render entries) = entries.map Entry.case := by
  rw [cases, render, Text.significantLines_intercalate]
  · exact casesFrom_flatMap_lines none entries
  · intro line inside
    obtain ⟨entry, -, held⟩ := List.mem_flatMap.mp inside
    exact significant_of_mem_lines held

/-! ## What is read -/

/-- A header that is read has a name, because the line does not end with the blank in it. -/
theorem printable_of_header {rest : List Char} (significant : Text.Significant line)
    (opens : "TEST ".toList.isPrefixOf? line = some rest) :
    Draft.Printable ⟨Text.trim rest, []⟩ := by
  obtain rfl := List.isPrefixOf?_eq_some_iff_append_eq.mp opens
  refine ⟨fun nothing => ?_, Text.trim_trim rest, fun broken => ?_, by simp⟩
  · have blank : Text.allBlank ([' '] ++ rest) = true := by
      rw [Text.allBlank_append, Text.trim_eq_nil_iff.mp nothing]
      rfl
    have shape : "TEST ".toList ++ rest = "TEST".toList ++ ([' '] ++ rest) := rfl
    have solid := Text.allBlank_eq_false_of_trim_eq "TEST".toList (w := [' '] ++ rest) (by simp)
      (shape ▸ significant.trim_eq)
    rw [solid] at blank
    cases blank
  · exact significant.unbroken (List.mem_append_right _ (Text.mem_of_mem_trim broken))

theorem printable_addLine (printable : draft.Printable) (inner : Inner line) :
    (draft.addLine line).Printable := by
  refine ⟨printable.filled, printable.trim_eq, printable.unbroken, fun other inside => ?_⟩
  rcases List.mem_append.mp inside with earlier | last
  · exact printable.inner other earlier
  · obtain rfl := List.mem_singleton.mp last
    exact inner

/-- The case that is open, as it is written without a closing line. -/
theorem exists_entries_of_current (opened : ∀ draft, current = some draft → draft.Printable) :
    ∃ entries : List Entry, (current.map Draft.case).toList = entries.map Entry.case := by
  cases current with
  | none => exact ⟨[], rfl⟩
  | some draft => exact ⟨[⟨draft, opened draft rfl, .omitted⟩], rfl⟩

/-- The invariant of the reader: the case that is open can be written, so those that are
closed later can be written as well. -/
theorem exists_entries_of_casesFrom (significant : ∀ line ∈ lines, Text.Significant line)
    (opened : ∀ draft, current = some draft → draft.Printable) :
    ∃ entries : List Entry, casesFrom current lines = entries.map Entry.case := by
  induction lines generalizing current with
  | nil => exact exists_entries_of_current opened
  | cons line rest ih =>
      obtain ⟨here, later⟩ := List.forall_mem_cons.mp significant
      obtain ⟨closed, before⟩ := exists_entries_of_current opened
      rw [casesFrom]
      split
      · rename_i name opens
        have fresh : ∀ draft, some (Draft.mk (Text.trim name) []) = some draft →
            draft.Printable := by
          rintro draft ⟨⟩
          exact printable_of_header here opens
        obtain ⟨entries, behind⟩ := ih later fresh
        exact ⟨closed ++ entries, by rw [before, behind, List.map_append]⟩
      · rename_i other
        split
        · have none_ : ∀ draft, (none : Option Draft) = some draft → draft.Printable := by
            rintro draft ⟨⟩
          obtain ⟨entries, behind⟩ := ih later none_
          exact ⟨closed ++ entries, by rw [before, behind, List.map_append]⟩
        · rename_i unclosing
          have inner : Inner line := by
            refine ⟨here, ?_, by simpa using unclosing⟩
            rintro ⟨name, rfl⟩
            rw [Text.isPrefixOf?_append] at other
            cases other
          apply ih later
          intro next added
          obtain ⟨draft, isOpen, rfl⟩ := Option.map_eq_some_iff.mp added
          exact printable_addLine (opened draft isOpen) inner

theorem exists_entries_of_cases (script : List Char) :
    ∃ entries : List Entry, cases script = entries.map Entry.case := by
  refine exists_entries_of_casesFrom (fun line inside => ?_) (by rintro draft ⟨⟩)
  exact Text.significant_of_mem_significantLines inside

/-! ## The assertions of a case -/

/-- The code of a case falls into the lines that were joined, or into an empty one. -/
theorem trimmedLines_code (inner : ∀ line ∈ lines, Inner line) :
    Text.trimmedLines (['\n'].intercalate lines) = if lines = [] then [[]] else lines := by
  split
  · rename_i nothing
    subst nothing
    rfl
  · rename_i some_
    exact Text.trimmedLines_intercalate some_ fun line inside => (inner line inside).toSignificant

/-- Whether a line opens like an assertion of one of the two styles. -/
def asserts (line : List Char) : Bool :=
  "ASSERT ".toList.isPrefixOf line || "EXPECT ".toList.isPrefixOf line

theorem isSome_style? (line : List Char) : (Assertion.style? line).isSome = asserts line := by
  rw [Assertion.style?, asserts]
  cases "ASSERT ".toList.isPrefixOf line <;> cases "EXPECT ".toList.isPrefixOf line <;> rfl

/-- A line has the style whose keyword and a space it opens with. -/
theorem keyword_isPrefix_of_style? {style : Style} (styled : Assertion.style? line = some style) :
    style.keyword.toList ++ [' '] <+: line := by
  rw [Assertion.style?] at styled
  split at styled
  · rename_i opens
    obtain rfl := Option.some.inj styled
    exact List.isPrefixOf_iff_prefix.mp opens
  · split at styled
    · rename_i opens
      obtain rfl := Option.some.inj styled
      exact List.isPrefixOf_iff_prefix.mp opens
    · cases styled

theorem keyword_isPrefix_of_mem_lines {code : List Char} {found : Style × List Char}
    (inside : found ∈ Assertion.lines code) : found.1.keyword.toList ++ [' '] <+: found.2 := by
  obtain ⟨line, -, styled⟩ := List.mem_filterMap.mp inside
  obtain ⟨style, opens, rfl⟩ := Option.map_eq_some_iff.mp styled
  exact keyword_isPrefix_of_style? opens

theorem map_snd_filterMap_style? (lines : List (List Char)) :
    (lines.filterMap fun line => (Assertion.style? line).map (·, line)).map Prod.snd =
      lines.filter asserts := by
  induction lines with
  | nil => rfl
  | cons line rest ih =>
      rw [List.filterMap_cons, List.filter_cons, ← isSome_style?, ← ih]
      cases Assertion.style? line <;> rfl

/-- The assertions of a case are its lines that open like one. -/
theorem map_snd_lines_code (inner : ∀ line ∈ lines, Inner line) :
    (Assertion.lines (['\n'].intercalate lines)).map Prod.snd = lines.filter asserts := by
  rw [Assertion.lines, trimmedLines_code inner, map_snd_filterMap_style?]
  split
  · rename_i nothing
    rw [nothing]
    rfl
  · rfl

/-- Written cases are read back in order, whichever closing lines are left out, and the cases
of every script are cases that can be written. The assertions of such a case are its lines that
open like one, in order, each with the style of its keyword. -/
theorem cases_render_and_lines_eq_filter :
    (∀ entries : List Entry, cases (render entries) = entries.map Entry.case) ∧
    (∀ script : List Char, ∃ entries : List Entry, cases script = entries.map Entry.case) ∧
    ∀ entry : Entry,
      (Assertion.lines entry.case.code.toList).map Prod.snd = entry.draft.lines.filter asserts ∧
      ∀ found ∈ Assertion.lines entry.case.code.toList,
        found.1.keyword.toList ++ [' '] <+: found.2 := by
  refine ⟨cases_render, exists_entries_of_cases, fun entry => ?_⟩
  rw [Entry.case, String.toList_ofList]
  exact ⟨map_snd_lines_code entry.printable.inner, fun found => keyword_isPrefix_of_mem_lines⟩

/-- A case without a closing line ends where the next one starts, and a line of code may hold
a carriage return. -/
example : (cases "TEST a\nASSERT f('\r') == 1\nTEST b\nEND TEST".toList).map (·.code) =
    ["ASSERT f('\r') == 1", ""] := by decide

end Kata.Script
