/-
# Headers as they are written

A header names a function and lists its parameters, parted by a comma and a space. Names
and parameters that can stand in a header are described without the reader; reading a
written header gives them back, and no other names and parameters are ever read. Headers
with other spacings, empty parameters or text behind the parenthesis are read as well, but
are not what is written here.
-/

import Kata.Program
import Kata.Proofs.Text.Atom
import Kata.Proofs.Text.Lines

namespace Kata.Routine

/-- A parameter that a header can hold. -/
structure PlainParameter (p : List Char) : Prop where
  filled : p ≠ []
  trim_eq : Text.trim p = p
  no_comma : ',' ∉ p
  no_parenthesis : ')' ∉ p
  unbroken : '\n' ∉ p

instance (p : List Char) : Decidable (PlainParameter p) :=
  decidable_of_iff (p ≠ [] ∧ Text.trim p = p ∧ ',' ∉ p ∧ ')' ∉ p ∧ '\n' ∉ p)
    ⟨fun ⟨filled, trim_eq, comma, parenthesis, unbroken⟩ =>
      ⟨filled, trim_eq, comma, parenthesis, unbroken⟩,
    fun plain => ⟨plain.filled, plain.trim_eq, plain.no_comma, plain.no_parenthesis,
      plain.unbroken⟩⟩

/-- The text between the parentheses. -/
def parameterChars (parameters : List String) : List Char :=
  [',', ' '].intercalate (parameters.map String.toList)

/-- The line that opens a function. -/
def header (name : String) (parameters : List String) : List Char :=
  "FUNCTION ".toList ++ (name.toList ++ '(' :: (parameterChars parameters ++ [')']))

variable {name : String} {parameters : List String}

/-! ## Reading what is written -/

/-- With the space counted to the parameter behind it, only the comma is between two. -/
theorem intercalate_comma_space (first : List Char) (rest : List (List Char)) :
    [',', ' '].intercalate (first :: rest) =
      [','].intercalate (first :: rest.map (' ' :: ·)) := by
  induction rest generalizing first with
  | nil => rfl
  | cons second rest ih =>
      rw [List.intercalate_cons_cons, ih second, List.map_cons, List.intercalate_cons_cons]
      cases rest with
      | nil => simp
      | cons third rest => simp [List.intercalate_cons_cons]

/-- Parameters are found again between the commas. -/
theorem filter_map_trim_splitOn {pieces : List (List Char)}
    (plain : ∀ p ∈ pieces, PlainParameter p) :
    ((([',', ' '].intercalate pieces).splitOn ',').map Text.trim).filter (fun p => !p.isEmpty) =
      pieces := by
  cases pieces with
  | nil => rfl
  | cons first rest =>
      have commaless : ∀ p ∈ first :: rest.map (' ' :: ·), ',' ∉ p := by
        intro p inside
        rcases List.mem_cons.mp inside with rfl | later
        · exact (plain _ List.mem_cons_self).no_comma
        · obtain ⟨bare, among, rfl⟩ := List.mem_map.mp later
          simpa using (plain bare (List.mem_cons_of_mem _ among)).no_comma
      have trimmed : (first :: rest.map (' ' :: ·)).map Text.trim = first :: rest := by
        rw [List.map_cons, List.map_map, (plain first List.mem_cons_self).trim_eq]
        congr 1
        conv_rhs => rw [← List.map_id rest]
        apply List.map_congr_left
        intro p among
        exact (Text.trim_append_left (w := [' ']) rfl p).trans
          (plain p (List.mem_cons_of_mem _ among)).trim_eq
      rw [intercalate_comma_space, List.splitOn_intercalate ',' commaless (by simp), trimmed]
      apply List.filter_eq_self.mpr
      intro p inside
      simpa using (plain p inside).filled

theorem not_mem_parameterChars {c : Char} (no_comma : c ≠ ',') (no_space : c ≠ ' ')
    (absent : ∀ p ∈ parameters, c ∉ p.toList) : c ∉ parameterChars parameters := by
  intro inside
  rcases Text.mem_or_of_mem_intercalate inside with between | ⟨piece, among, held⟩
  · simp [no_comma, no_space] at between
  · obtain ⟨p, member, rfl⟩ := List.mem_map.mp among
    exact absent p member held

/-- The name ends at the first parenthesis and the parameters at the next closing one. -/
theorem header?_chars {name inner : List Char} (named : Text.isName name = true)
    (closed : ')' ∉ inner) (behind : List Char) :
    header? ("FUNCTION ".toList ++ (name ++ '(' :: (inner ++ ')' :: behind))) =
      some (String.ofList name, (((inner.splitOn ',').map Text.trim).filter
        fun p => !p.isEmpty).map String.ofList) := by
  have keyword : "FUNCTION".toList.isPrefixOf?
      ("FUNCTION ".toList ++ (name ++ '(' :: (inner ++ ')' :: behind))) =
      some (' ' :: (name ++ '(' :: (inner ++ ')' :: behind))) := rfl
  have bare : Text.trimStart (' ' :: (name ++ '(' :: (inner ++ ')' :: behind))) =
      name ++ '(' :: (inner ++ ')' :: behind) := by
    have starts := (Text.atom_of_isName named).startsBlank_eq_false
    rw [← Text.startsBlank_append (Text.atom_of_isName named).ne_nil] at starts
    exact Text.trimStart_eq_self starts
  have unopened : '(' ∉ name := Text.not_mem_of_isName named (by decide)
  have again : Text.trimEnd name = name :=
    Text.trimEnd_eq_self (Text.atom_of_isName named).endsBlank_eq_false
  have blank : Text.startsBlank (' ' :: (name ++ '(' :: (inner ++ ')' :: behind))) = true := rfl
  rw [header?, keyword]
  simp only [blank, bare, Text.takeWhile_bne unopened, Text.dropWhile_bne unopened, again, named,
    List.drop_succ_cons, List.drop_zero, Text.takeWhile_bne closed]
  simp

theorem header?_header (named : Text.isName name.toList = true)
    (plain : ∀ p ∈ parameters, PlainParameter p.toList) :
    header? (header name parameters) = some (name, parameters) := by
  have closed : ')' ∉ parameterChars parameters :=
    not_mem_parameterChars (by decide) (by decide) fun p member => (plain p member).no_parenthesis
  have pieces : ((((parameterChars parameters).splitOn ',').map Text.trim).filter
      fun p => !p.isEmpty) = parameters.map String.toList := by
    apply filter_map_trim_splitOn
    intro piece inside
    obtain ⟨p, member, rfl⟩ := List.mem_map.mp inside
    exact plain p member
  refine (header?_chars named closed []).trans ?_
  rw [pieces, String.ofList_toList, List.map_map]
  simp

/-- A written header is a line with a meaning: it opens with its keyword and closes with a
parenthesis. -/
theorem significant_header (named : Text.isName name.toList = true)
    (plain : ∀ p ∈ parameters, PlainParameter p.toList) :
    Text.Significant (header name parameters) := by
  have closing : header name parameters =
      "FUNCTION ".toList ++ (name.toList ++ '(' :: parameterChars parameters) ++ [')'] := by
    rw [List.append_assoc, List.append_assoc]
    rfl
  have letters : '\n' ∉ name.toList := Text.not_mem_of_isName named (by decide)
  have between : '\n' ∉ parameterChars parameters :=
    not_mem_parameterChars (by decide) (by decide) fun p member => (plain p member).unbroken
  refine ⟨by simp [closing], Text.trim_eq_self rfl ?_, ?_, rfl⟩
  · rw [closing, Text.endsBlank_append_singleton]
    rfl
  · rw [closing]
    simp only [List.mem_append, List.mem_cons, not_or]
    exact ⟨⟨by decide, letters, by decide, between⟩, by decide, List.not_mem_nil⟩

/-! ## What is read -/

/-- What is left between commas of a text without closing parenthesis, trimmed and not
empty, is a parameter. -/
theorem plainParameter_of_mem {inner p : List Char} (closed : ')' ∉ inner)
    (unbroken : '\n' ∉ inner)
    (inside : p ∈ ((inner.splitOn ',').map Text.trim).filter fun p => !p.isEmpty) :
    PlainParameter p := by
  obtain ⟨among, filled⟩ := List.mem_filter.mp inside
  obtain ⟨piece, split, rfl⟩ := List.mem_map.mp among
  have kept {c : Char} (held : c ∈ Text.trim piece) : c ∈ inner :=
    Text.mem_of_mem_splitOn split (Text.mem_of_mem_trim held)
  constructor
  · simpa using filled
  · exact Text.trim_trim piece
  · intro comma
    exact Text.not_mem_of_mem_splitOn split (Text.mem_of_mem_trim comma)
  · intro parenthesis
    exact closed (kept parenthesis)
  · intro broken
    exact unbroken (kept broken)

theorem plain_of_header? {line : List Char} (read : header? line = some (name, parameters))
    (unbroken : '\n' ∉ line) :
    Text.isName name.toList = true ∧ ∀ p ∈ parameters, PlainParameter p.toList := by
  rw [header?] at read
  split at read
  · simp at read
  · rename_i rest starts
    split at read
    · simp at read
    · dsimp only at read
      split at read
      · rename_i proper
        obtain ⟨rfl, rfl⟩ := Prod.mk.inj (Option.some.inj read)
        simp only [Bool.and_eq_true] at proper
        refine ⟨by rw [String.toList_ofList]; exact proper.1.1, ?_⟩
        intro p inside
        obtain ⟨piece, among, rfl⟩ := List.mem_map.mp inside
        rw [String.toList_ofList]
        refine plainParameter_of_mem ?_ ?_ among
        · intro parenthesis
          simpa using List.mem_takeWhile_imp parenthesis
        · intro broken
          apply unbroken
          rw [← Text.append_of_isPrefixOf? starts]
          apply List.mem_append_right
          apply Text.mem_of_mem_trimStart
          apply (List.dropWhile_suffix (· != '(')).subset
          apply List.mem_of_mem_drop
          exact (List.takeWhile_prefix _).subset broken
      · simp at read

end Kata.Routine
