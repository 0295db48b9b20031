/-
# Statements as they are written

A statement that was read can be written down again from the sources it keeps, each on a
line of its own. Which statements a line can give is said without the reader: names that
are names, sources that are trimmed, trees that belong to their sources, and branches with
empty blocks. Reading a written statement gives it back, and every statement that is read
is one that can be written. Trees are only compiled here and never looked into.
-/

import Kata.Statement
import Kata.Proofs.Text.Atom
import Kata.Proofs.Text.Cuts
import Kata.Proofs.Text.Lines

namespace Kata

/-! ## Expressions that a line can hold -/

/-- An expression that is kept as it was read: its source, trimmed and on one line, with the
tree of that source. -/
structure Expression.Printable (e : Expression) : Prop where
  filled : e.source.toList ≠ []
  trim_eq : Text.trim e.source.toList = e.source.toList
  unbroken : '\n' ∉ e.source.toList
  tree_eq : e.tree = Expr.compile e.source.toList

namespace Expression

variable {e : Expression} {s : List Char}

/-- The source of an expression between blanks is read as that expression. -/
theorem Printable.ofChars_eq (printable : e.Printable) (front back : List Char)
    (front_blank : Text.allBlank front = true) (back_blank : Text.allBlank back = true) :
    ofChars (front ++ (e.source.toList ++ back)) = e := by
  have trimmed : Text.trim (front ++ (e.source.toList ++ back)) = e.source.toList := by
    rw [Text.trim_append_left front_blank, Text.trim_append_right _ back_blank,
      printable.trim_eq]
  obtain ⟨source, tree⟩ := e
  rw [ofChars, trimmed, String.ofList_toList, ← printable.tree_eq]

theorem Printable.not_allBlank (printable : e.Printable) :
    Text.allBlank e.source.toList = false := by
  apply Text.allBlank_eq_false_of_trim_ne_nil
  rw [printable.trim_eq]
  exact printable.filled

theorem Printable.endsBlank_append (printable : e.Printable) (front : List Char) :
    Text.endsBlank (front ++ e.source.toList) = false := by
  rw [Text.endsBlank_append _ printable.filled, ← printable.trim_eq]
  exact Text.endsBlank_trim _

/-- Whatever is not blank and on one line is read as an expression that can be kept. -/
theorem printable_ofChars (filled : Text.allBlank s = false) (unbroken : '\n' ∉ s) :
    (ofChars s).Printable where
  filled := by
    rw [ofChars, String.toList_ofList]
    intro nothing
    simp [Text.trim_eq_nil_iff.mp nothing] at filled
  trim_eq := by rw [ofChars, String.toList_ofList, Text.trim_trim]
  unbroken := by
    rw [ofChars, String.toList_ofList]
    intro broken
    exact unbroken (Text.mem_of_mem_trim broken)
  tree_eq := by rw [ofChars, String.toList_ofList]

end Expression

namespace Statement

/-! ## Writing statements -/

/-- A statement that a line can give. -/
def Printable : Statement → Prop
  | .assign variableName value => Text.isName variableName.toList = true ∧ value.Printable
  | .result value => value.Printable
  | .branch condition thenBlock elseBlock =>
    condition.Printable ∧ thenBlock = [] ∧ elseBlock = []

/-- The line of a statement. The blocks of a branch are not written. -/
def line : Statement → List Char
  | .assign variableName value =>
    "SET ".toList ++ (variableName.toList ++ (" = ".toList ++ value.source.toList))
  | .result value => "RETURN ".toList ++ value.source.toList
  | .branch condition _ _ => "IF ".toList ++ (condition.source.toList ++ " THEN".toList)

theorem line_assign (variableName : String) (value : Expression) :
    line (.assign variableName value) =
      "SET ".toList ++ (variableName.toList ++ (" = ".toList ++ value.source.toList)) := rfl

theorem line_result (value : Expression) :
    line (.result value) = "RETURN ".toList ++ value.source.toList := rfl

theorem line_branch (condition : Expression) (thenBlock elseBlock : List Statement) :
    line (.branch condition thenBlock elseBlock) =
      "IF ".toList ++ (condition.source.toList ++ " THEN".toList) := rfl

variable {statement : Statement} {s : List Char}

/-- Between a name and what follows it the reader stops at the blank. -/
theorem assignment?_line {variableName : String} {value : Expression}
    (named : Text.isName variableName.toList = true) (printable : value.Printable) :
    assignment? (variableName.toList ++ (" = ".toList ++ value.source.toList)) =
      some (.assign variableName value) := by
  have bare : Text.startsBlank (variableName.toList ++ (" = ".toList ++ value.source.toList)) =
      false := by
    rw [Text.startsBlank_append (Text.atom_of_isName named).ne_nil]
    exact (Text.atom_of_isName named).startsBlank_eq_false
  obtain ⟨filled, letters⟩ : variableName.toList ≠ [] ∧
      ∀ c ∈ variableName.toList, Text.isNameChar c = true := by
    simpa [Text.isName] using named
  have taken : (variableName.toList ++ (" = ".toList ++ value.source.toList)).takeWhile
      Text.isNameChar = variableName.toList := by
    rw [List.takeWhile_append_of_pos letters]
    exact List.append_nil _
  have dropped : (variableName.toList ++ (" = ".toList ++ value.source.toList)).dropWhile
      Text.isNameChar = " = ".toList ++ value.source.toList :=
    List.dropWhile_append_of_pos letters
  have blank : Text.allBlank (' ' :: value.source.toList) = false := by
    simp [printable.not_allBlank]
  have source : Expression.ofChars (' ' :: value.source.toList) = value := by
    have padded := printable.ofChars_eq [' '] [] rfl rfl
    rwa [List.append_nil] at padded
  simp only [assignment?, Text.trimStart_eq_self bare, taken, dropped]
  show (if variableName.toList.isEmpty || Text.allBlank (' ' :: value.source.toList) then none
    else some (Statement.assign (String.ofList variableName.toList)
      (.ofChars (' ' :: value.source.toList)))) = _
  rw [if_neg (by simp [filled, blank]), source, String.ofList_toList]

/-- The last `THEN` behind a blank is the one that ends the line. -/
theorem branch?_line {condition : Expression} (printable : condition.Printable) :
    branch? (' ' :: (condition.source.toList ++ " THEN".toList)) =
      some (.branch condition [] []) := by
  have padded : Text.endsBlank (' ' :: condition.source.toList ++ [' ']) = true := by
    rw [Text.endsBlank_append_singleton]
    rfl
  have ends : (' ' :: condition.source.toList ++ [' '], []) ∈ Text.cuts "THEN".toList
      (' ' :: (condition.source.toList ++ " THEN".toList)) :=
    Text.mem_cuts_behind (by decide) (by decide) rfl
  have blank : Text.allBlank (' ' :: condition.source.toList ++ [' ']) = false := by
    simp [printable.not_allBlank]
  have source : Expression.ofChars (' ' :: condition.source.toList ++ [' ']) = condition :=
    printable.ofChars_eq [' '] [' '] rfl rfl
  rw [branch?, Text.getLast?_filter_cuts ends padded]
  simp only [blank, source]
  rfl

theorem read?_set (s : List Char) : read? ("SET ".toList ++ s) = assignment? s := by
  rw [read?, Text.isPrefixOf?_append]

theorem read?_return (s : List Char) :
    read? ("RETURN ".toList ++ s) = some (.result (.ofChars s)) := by
  have noSet : "SET ".toList.isPrefixOf? ("RETURN ".toList ++ s) = none := rfl
  rw [read?, noSet, Text.isPrefixOf?_append]

/-- The blank behind `IF` is still there for the reader of conditions. -/
theorem read?_if (s : List Char) : read? ("IF ".toList ++ s) = branch? (' ' :: s) := by
  have noSet : "SET ".toList.isPrefixOf? ("IF ".toList ++ s) = none := rfl
  have noReturn : "RETURN ".toList.isPrefixOf? ("IF ".toList ++ s) = none := rfl
  have keyword : "IF".toList.isPrefixOf? ("IF ".toList ++ s) = some (' ' :: s) := rfl
  rw [read?, noSet, noReturn, keyword]
  rfl

/-- Reading the line of a statement gives the statement. -/
theorem read?_line (printable : statement.Printable) : read? statement.line = some statement := by
  cases statement with
  | assign variableName value =>
      rw [line_assign, read?_set]
      exact assignment?_line printable.1 printable.2
  | result value =>
      have source := printable.ofChars_eq [] [] rfl rfl
      rw [List.append_nil, List.nil_append] at source
      rw [line_result, read?_return, source]
  | branch condition thenBlock elseBlock =>
      obtain ⟨kept, rfl, rfl⟩ := printable
      rw [line_branch, read?_if]
      exact branch?_line kept

/-- A written line is a line with a meaning: it opens with a keyword and closes with the end
of a source or with `THEN`. -/
theorem significant_line (printable : statement.Printable) : Text.Significant statement.line := by
  cases statement with
  | assign variableName value =>
      obtain ⟨named, kept⟩ := printable
      have letters : '\n' ∉ variableName.toList := Text.not_mem_of_isName named (by decide)
      rw [line_assign, ← List.append_assoc, ← List.append_assoc]
      refine ⟨by simp, Text.trim_eq_self rfl (kept.endsBlank_append _), ?_, rfl⟩
      simp only [List.mem_append, not_or]
      exact ⟨⟨⟨by decide, letters⟩, by decide⟩, kept.unbroken⟩
  | result value =>
      rw [line_result]
      refine ⟨by simp, Text.trim_eq_self rfl (printable.endsBlank_append _), ?_, rfl⟩
      simp only [List.mem_append, not_or]
      exact ⟨by decide, printable.unbroken⟩
  | branch condition thenBlock elseBlock =>
      obtain ⟨kept, -, -⟩ := printable
      rw [line_branch, ← List.append_assoc]
      refine ⟨by simp, Text.trim_eq_self rfl (Text.endsBlank_append _ (by decide)), ?_, rfl⟩
      simp only [List.mem_append, not_or]
      exact ⟨⟨by decide, kept.unbroken⟩, by decide⟩

/-! ## Statements that are read -/

theorem printable_of_assignment? (read : assignment? s = some statement) (unbroken : '\n' ∉ s) :
    statement.Printable := by
  have letters : ∀ c ∈ (Text.trimStart s).takeWhile Text.isNameChar, Text.isNameChar c = true := by
    intro c inside
    exact List.mem_takeWhile_imp inside
  simp only [assignment?] at read
  split at read
  · rename_i value behind
    split at read
    · simp at read
    · rename_i proper
      obtain ⟨named, filled⟩ : (Text.trimStart s).takeWhile Text.isNameChar ≠ [] ∧
          Text.allBlank value = false := by
        simpa using proper
      obtain rfl := Option.some.inj read
      refine ⟨?_, Expression.printable_ofChars filled ?_⟩
      · rw [String.toList_ofList, Text.isName, List.all_eq_true.mpr letters]
        simpa using named
      · intro broken
        have kept : '\n' ∈ Text.trimStart ((Text.trimStart s).dropWhile Text.isNameChar) := by
          rw [behind]
          exact List.mem_cons_of_mem _ broken
        apply unbroken
        apply Text.mem_of_mem_trimStart
        exact (List.dropWhile_suffix _).subset (Text.mem_of_mem_trimStart kept)
  · simp at read

theorem printable_of_branch? (read : branch? s = some statement) (unbroken : '\n' ∉ s) :
    statement.Printable := by
  rw [branch?] at read
  split at read
  · rename_i condition behind last
    split at read
    · simp at read
    · rename_i filled
      obtain rfl := Option.some.inj read
      have among : (condition, behind) ∈ Text.cuts "THEN".toList s :=
        (List.mem_filter.mp (List.mem_of_getLast? last)).1
      refine ⟨Expression.printable_ofChars (by simpa using filled) ?_, rfl, rfl⟩
      intro broken
      apply unbroken
      rw [← Text.append_of_mem_cuts among]
      exact List.mem_append_left _ (List.mem_append_left _ broken)
  · simp at read

/-- Whatever a trimmed line gives can be written. The line is trimmed, so a value that
reaches to its end is not blank. -/
theorem printable_of_read? (read : read? s = some statement) (trim_eq : Text.trim s = s)
    (unbroken : '\n' ∉ s) : statement.Printable := by
  rw [read?] at read
  split at read
  · rename_i rest starts
    apply printable_of_assignment? read
    intro broken
    rw [← Text.append_of_isPrefixOf? starts] at unbroken
    exact unbroken (List.mem_append_right _ broken)
  · split at read
    · rename_i value starts
      obtain rfl := Option.some.inj read
      have whole := Text.append_of_isPrefixOf? starts
      apply Expression.printable_ofChars
      · rw [← whole] at trim_eq
        have filled : Text.allBlank (' ' :: value) = false :=
          Text.allBlank_eq_false_of_trim_eq "RETURN".toList (by simp) trim_eq
        rwa [Text.allBlank_cons] at filled
      · intro broken
        rw [← whole] at unbroken
        exact unbroken (List.mem_append_right _ broken)
    · split at read
      · rename_i rest starts
        apply printable_of_branch? read
        intro broken
        rw [← Text.append_of_isPrefixOf? starts] at unbroken
        exact unbroken (List.mem_append_right _ broken)
      · simp at read

end Statement

end Kata
