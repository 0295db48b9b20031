/-
# Calls as they are written

A written call is a name and literals between parentheses, parted by a comma and a space.
It is read as the call of that name on the values of the literals, whatever the quoted
ones hold. The other way, whatever text is read as a call closes every quote that it
opens. Nothing is said here about other spacings, which are read as well.
-/

import Kata.Call
import Kata.Proofs.Literal.Grammar
import Kata.Proofs.Text.Cuts

namespace Kata

namespace Literal

/-- A literal as it is written on a line, with its value. -/
structure Spelling where
  chars : List Char
  value : Value
  written : Written chars value
  unbroken : '\n' ∉ chars

/-- A text between single quotes. -/
def Spelling.quoted (body : List Char) (plain : Text.singleQuote ∉ body)
    (unbroken : '\n' ∉ body) : Spelling where
  chars := Text.singleQuote :: (body ++ [Text.singleQuote])
  value := .text (String.ofList body)
  written := .quoted (by decide) plain
  unbroken := by simp [unbroken, show '\n' ≠ Text.singleQuote by decide]

/-- Blanks in front of a literal do not matter. -/
theorem read_spelling (pad : List Char) (blank : Text.allBlank pad = true) (l : Spelling) :
    read (pad ++ l.chars) = .ok l.value := by
  rw [read, Text.trim_append_left blank, l.written.atom.trim_eq_self,
    value?_eq_some_iff.mpr l.written]

/-- What is read as a literal is written between blanks. -/
theorem written_of_read {s : List Char} {v : Value} (read_eq : read s = .ok v) :
    Written (Text.trim s) v := by
  rw [read] at read_eq
  split at read_eq
  · rename_i value found
    obtain rfl := Except.ok.inj read_eq
    exact value?_eq_some_iff.mp found
  · simp at read_eq

theorem eq_notALiteral_of_read {s : List Char} {e : ReadError} (read_eq : read s = .error e) :
    ∃ t, e = .notALiteral t := by
  rw [read] at read_eq
  split at read_eq
  · simp at read_eq
  · exact ⟨_, by simpa using read_eq.symm⟩

end Literal

namespace Call

/-- A call as it is written on a line. -/
structure Spelling where
  name : List Char
  named : Text.isName name = true
  args : List Literal.Spelling

/-- The text of the arguments. -/
def argChars (args : List Literal.Spelling) : List Char :=
  [',', ' '].intercalate (args.map (·.chars))

namespace Spelling

/-- The text of the call. -/
def chars (s : Spelling) : List Char := s.name ++ '(' :: (argChars s.args ++ [')'])

/-- The call that is meant. -/
def call (s : Spelling) : Call := ⟨String.ofList s.name, s.args.map (·.value)⟩

end Spelling

/-! ## Reading what is written -/

@[simp]
theorem argChars_nil : argChars [] = [] := rfl

@[simp]
theorem argChars_singleton (a : Literal.Spelling) : argChars [a] = a.chars :=
  List.intercalate_singleton

@[simp]
theorem argChars_cons_cons (a b : Literal.Spelling) (rest : List Literal.Spelling) :
    argChars (a :: b :: rest) = a.chars ++ ',' :: ' ' :: argChars (b :: rest) := by
  simp [argChars, List.intercalate_cons_cons]

theorem Spelling.unbroken (s : Spelling) : '\n' ∉ s.chars := by
  intro broken
  simp only [chars, List.mem_append, List.mem_cons] at broken
  rcases broken with named | opening | among | closing
  · exact Text.not_mem_of_isName s.named (by decide) named
  · exact absurd opening (by decide)
  · rcases Text.mem_or_of_mem_intercalate among with separator | ⟨text, inside, holds⟩
    · exact absurd separator (by decide)
    · obtain ⟨arg, -, rfl⟩ := List.mem_map.mp inside
      exact arg.unbroken holds
  · exact absurd closing (by decide)

/-- The argument texts are parted at the commas between them and nowhere else. -/
theorem splitOutsideQuotes_argChars (pad : List Char) (blank : Text.allBlank pad = true)
    (comma : ',' ∉ pad) (a : Literal.Spelling) (rest : List Literal.Spelling) :
    Text.splitOutsideQuotes ',' none (pad ++ argChars (a :: rest)) =
      (pad ++ a.chars) :: rest.map fun arg => ' ' :: arg.chars := by
  have closedPad := Text.quoteAfter_of_allBlank blank
  have hidden : Text.Hides ',' none (pad ++ a.chars) := by
    refine Text.hides_append (Text.hides_of_not_mem none comma) ?_
    rw [closedPad]
    exact a.written.atom.hides (by decide) (by decide)
  induction rest generalizing pad a with
  | nil =>
      rw [argChars_singleton, Text.splitOutsideQuotes_eq_singleton hidden]
      rfl
  | cons b rest ih =>
      have closed : Text.quoteAfter none (pad ++ a.chars) = none := by
        rw [Text.quoteAfter_append, closedPad, a.written.atom.quoteAfter_eq_none]
      have later := ih [' '] (by decide) (by decide) b (by decide)
        (Text.hides_append (Text.hides_of_not_mem none (by decide))
          (b.written.atom.hides (by decide) (by decide)))
      rw [argChars_cons_cons, ← List.append_assoc,
        Text.splitOutsideQuotes_append_cons hidden closed]
      exact congrArg _ later

/-- The text between the parentheses falls into the written arguments. -/
theorem argTexts_argChars (a : Literal.Spelling) (rest : List Literal.Spelling) :
    argTexts (argChars (a :: rest)) = a.chars :: rest.map fun arg => ' ' :: arg.chars := by
  have solid : Text.allBlank (argChars (a :: rest)) = false := by
    cases rest with
    | nil => simpa using a.written.atom.allBlank_eq_false
    | cons b rest => simp [a.written.atom.allBlank_eq_false]
  rw [argTexts, if_neg (by simp [solid])]
  exact splitOutsideQuotes_argChars [] rfl (by simp) a rest

/-- Texts are read as values together if each text is read as its value. -/
theorem mapM_read_eq_ok_iff {texts : List (List Char)} {values : List Value} :
    texts.mapM Literal.read = .ok values ↔ texts.map Literal.read = values.map .ok := by
  induction texts generalizing values with
  | nil => cases values <;> simp [pure, Except.pure]
  | cons text rest ih =>
      rw [List.mapM_cons, List.map_cons]
      cases first : Literal.read text with
      | error e => cases values <;> simp [bind, Except.bind]
      | ok value =>
          cases others : rest.mapM Literal.read with
          | error e =>
              have apart (more : List Value) : rest.map Literal.read ≠ more.map .ok := by
                intro same
                simp [ih.mpr same] at others
              cases values <;> simp [bind, Except.bind, apart]
          | ok more =>
              have same (tail : List Value) :
                  (more.map .ok : List (Except ReadError Value)) = tail.map .ok ↔ more = tail :=
                List.map_inj_right (by simp)
              cases values <;> simp [bind, Except.bind, pure, Except.pure, ih.mp others, same]

/-- Each of the written arguments is read as its value. -/
theorem mapM_read_argTexts (args : List Literal.Spelling) :
    (argTexts (argChars args)).mapM Literal.read = .ok (args.map (·.value)) := by
  rw [mapM_read_eq_ok_iff]
  cases args with
  | nil => rfl
  | cons a rest =>
      have first : Literal.read a.chars = .ok a.value := Literal.read_spelling [] rfl a
      have later (b : Literal.Spelling) : Literal.read (' ' :: b.chars) = .ok b.value :=
        Literal.read_spelling [' '] (by decide) b
      simp [argTexts_argChars, first, later]

/-- A name and parentheses around any text are the outline of a call. -/
theorem outline?_of_isName {name : List Char} (named : Text.isName name = true)
    (inner : List Char) : outline? (name ++ '(' :: (inner ++ [')'])) = some (name, inner) := by
  have before : '(' ∉ name := Text.not_mem_of_isName named (by decide)
  have bare : Text.trimEnd name = name :=
    Text.trimEnd_eq_self (Text.atom_of_isName named).endsBlank_eq_false
  simp [outline?, Text.takeWhile_bne before, Text.dropWhile_bne before, bare, named]

theorem trim_of_isName {name : List Char} (named : Text.isName name = true)
    (inner : List Char) :
    Text.trim (name ++ '(' :: (inner ++ [')'])) = name ++ '(' :: (inner ++ [')']) := by
  have atom := Text.atom_of_isName named
  refine Text.trim_eq_self ?_ ?_
  · rw [Text.startsBlank_append atom.ne_nil, atom.startsBlank_eq_false]
  · rw [← List.cons_append, ← List.append_assoc, Text.endsBlank_append_singleton]
    decide

theorem outline?_chars (s : Spelling) : outline? s.chars = some (s.name, argChars s.args) :=
  outline?_of_isName s.named (argChars s.args)

theorem trim_chars (s : Spelling) : Text.trim s.chars = s.chars :=
  trim_of_isName s.named (argChars s.args)

/-- A written call is read as what it means. -/
theorem read_chars (s : Spelling) : read s.chars = .ok s.call := by
  rw [read, trim_chars, outline?_chars]
  simp only [mapM_read_argTexts]
  rfl

/-! ## Words inside a written call -/

variable {word before after : List Char} {args : List Literal.Spelling}

theorem exists_argChars_eq_of_mem {a : Literal.Spelling} (inside : a ∈ args) :
    ∃ front back, argChars args = front ++ a.chars ++ back := by
  obtain ⟨earlier, later, rfl⟩ := List.append_of_mem inside
  induction earlier with
  | nil =>
      cases later with
      | nil => exact ⟨[], [], by simp⟩
      | cons b rest => exact ⟨[], ',' :: ' ' :: argChars (b :: rest), by simp⟩
  | cons b rest ih =>
      obtain ⟨front, back, shape⟩ := ih (by simp)
      obtain ⟨next, others, again⟩ :
          ∃ next others, rest ++ a :: later = next :: others :=
        List.exists_cons_of_ne_nil (by simp)
      refine ⟨b.chars ++ ',' :: ' ' :: front, back, ?_⟩
      rw [List.cons_append, again, argChars_cons_cons, ← again, shape]
      simp

/-- A word without commas and spaces that occurs among the arguments occurs inside one of
them, and no quote is open in front of that one. -/
theorem exists_arg_of_argChars_eq (filled : word ≠ []) (comma : ',' ∉ word) (space : ' ' ∉ word)
    (shape : before ++ word ++ after = argChars args) :
    ∃ arg ∈ args, ∃ front x y back, arg.chars = x ++ word ++ y ∧ before = front ++ x ∧
      after = y ++ back ∧ Text.quoteAfter none front = none := by
  induction args generalizing before with
  | nil => simp [filled] at shape
  | cons a rest ih =>
      cases rest with
      | nil =>
          rw [argChars_singleton] at shape
          exact ⟨a, List.mem_cons_self, [], before, after, [], shape.symm, rfl, by simp, rfl⟩
      | cons b rest =>
          rw [argChars_cons_cons] at shape
          rcases Text.append_eq_append_cons comma shape with
            ⟨y, first, later⟩ | ⟨gap, rfl, behind⟩
          · exact ⟨a, List.mem_cons_self, [], before, y, _, first, rfl, later, rfl⟩
          · rcases Text.append_eq_append_cons (s := []) space behind.symm with
              ⟨y, first, -⟩ | ⟨before, rfl, among⟩
            · simp [filled] at first
            · obtain ⟨arg, inside, front, x, y, back, holds, rfl, tail, closed⟩ :=
                ih among.symm
              refine ⟨arg, List.mem_cons_of_mem _ inside, a.chars ++ ',' :: ' ' :: front, x, y,
                back, holds, by simp, tail, ?_⟩
              rw [Text.quoteAfter_append, a.written.atom.quoteAfter_eq_none]
              exact closed

/-- A word without the separators of a call that occurs in a written call occurs in its
name or inside an argument, where no quote is open in front of the argument. -/
theorem Spelling.name_or_arg_of_chars_eq {s : Spelling} (filled : word ≠ [])
    (separators : ∀ c ∈ ['(', ')', ',', ' '], c ∉ word)
    (shape : before ++ word ++ after = s.chars) :
    (∃ rest, s.name = before ++ word ++ rest) ∨
      ∃ arg ∈ s.args, ∃ front x y back, arg.chars = x ++ word ++ y ∧
        before = s.name ++ front ++ x ∧ after = y ++ back ∧
          Text.quoteAfter none (s.name ++ front) = none := by
  rcases Text.append_eq_append_cons (separators '(' (by simp)) shape with
    ⟨rest, inName, -⟩ | ⟨before, rfl, behind⟩
  · exact .inl ⟨rest, inName⟩
  · rcases Text.append_eq_append_cons (separators ')' (by simp)) behind.symm with
      ⟨after, among, rfl⟩ | ⟨rest, -, nothing⟩
    · obtain ⟨arg, inside, front, x, y, back, holds, rfl, rfl, closed⟩ :=
        exists_arg_of_argChars_eq filled (separators ',' (by simp)) (separators ' ' (by simp))
          among.symm
      refine .inr ⟨arg, inside, '(' :: front, x, y, back ++ [')'], holds, by simp, by simp, ?_⟩
      rw [Text.quoteAfter_append, (Text.atom_of_isName s.named).quoteAfter_eq_none]
      exact closed
    · simp [filled] at nothing

/-! ## What is read as a call -/

private theorem quoteAfter_eq_none_of_mapM {pieces : List (List Char)} {values : List Value}
    (read_eq : pieces.mapM Literal.read = .ok values) :
    ∀ piece ∈ pieces, Text.quoteAfter none piece = none := by
  intro piece inside
  have among := List.mem_map_of_mem (f := Literal.read) inside
  rw [mapM_read_eq_ok_iff.mp read_eq] at among
  obtain ⟨value, -, read⟩ := List.mem_map.mp among
  have atom := (Literal.written_of_read read.symm).atom
  exact Text.quoteAfter_eq_none_of_trim atom.quoteAfter_eq_none

private theorem eq_notALiteral_of_mapM {pieces : List (List Char)} {e : ReadError}
    (read_eq : pieces.mapM Literal.read = .error e) : ∃ t, e = .notALiteral t := by
  induction pieces with
  | nil => simp [pure, Except.pure] at read_eq
  | cons piece rest ih =>
      rw [List.mapM_cons] at read_eq
      cases first : Literal.read piece with
      | error reported =>
          obtain rfl : reported = e := by simpa [first, bind, Except.bind] using read_eq
          exact Literal.eq_notALiteral_of_read first
      | ok value =>
          cases others : rest.mapM Literal.read with
          | error reported =>
              obtain rfl : reported = e := by
                simpa [first, others, bind, Except.bind] using read_eq
              exact ih others
          | ok more => simp [first, others, bind, Except.bind, pure, Except.pure] at read_eq

/-- The outline of a call is a name, perhaps blanks, and what stands between parentheses. -/
theorem exists_of_outline? {s name inner : List Char}
    (outlined : outline? s = some (name, inner)) :
    ∃ pad, Text.allBlank pad = true ∧ Text.isName name = true ∧
      s = name ++ (pad ++ '(' :: (inner ++ [')'])) := by
  have whole := (List.takeWhile_append_dropWhile (p := (· != '(')) (l := s)).symm
  rw [outline?] at outlined
  split at outlined
  · simp at outlined
  · rename_i opening between found
    obtain rfl : opening = '(' := by
      have stopped := List.head?_dropWhile_not (· != '(') s
      simpa [found] using stopped
    simp only [Bool.and_eq_true, beq_iff_eq, Option.ite_none_right_eq_some, Option.some.injEq,
      Prod.mk.injEq] at outlined
    obtain ⟨⟨closes, named⟩, rfl, rfl⟩ := outlined
    obtain ⟨pad, blank, padded⟩ := Text.exists_trimEnd_append (s.takeWhile (· != '('))
    refine ⟨pad, blank, named, ?_⟩
    have ends : between.dropLast ++ [')'] = between := by
      obtain ⟨front, rfl⟩ := List.getLast?_eq_some_iff.mp closes
      simp
    rw [ends, ← List.append_assoc, ← padded, ← found]
    exact whole

/-- A text that is read as a call closes every quote that it opens. -/
theorem quoteAfter_eq_none_of_read {s : List Char} {call : Call} (read_eq : read s = .ok call) :
    Text.quoteAfter none s = none := by
  refine Text.quoteAfter_eq_none_of_trim ?_
  rw [read] at read_eq
  split at read_eq
  · simp at read_eq
  · rename_i name inner outlined
    obtain ⟨pad, blank, named, shape⟩ := exists_of_outline? outlined
    have closedInner : Text.quoteAfter none inner = none := by
      by_cases empty : Text.allBlank inner = true
      · exact Text.quoteAfter_of_allBlank empty
      · rw [argTexts, if_neg empty] at read_eq
        cases values : (Text.splitOutsideQuotes ',' none inner).mapM Literal.read with
        | error e => simp [values, bind, Except.bind] at read_eq
        | ok values' =>
            obtain ⟨piece, more, cut⟩ := List.exists_cons_of_ne_nil
              (Text.splitOutsideQuotes_ne_nil ',' none inner)
            have closed := quoteAfter_eq_none_of_mapM values
            rw [cut, List.forall_mem_cons] at closed
            exact Text.quoteAfter_eq_none_of_pieces (by decide) cut closed.1 closed.2
    rw [shape, Text.quoteAfter_append, (Text.atom_of_isName named).quoteAfter_eq_none,
      Text.quoteAfter_append, Text.quoteAfter_of_allBlank blank, Text.quoteAfter_cons,
      show Text.afterChar none '(' = none by decide, Text.quoteAfter_append, closedInner]
    decide

/-- A text that is not read as a call is reported as none, or one of its arguments as no
literal. -/
theorem notACall_or_notALiteral_of_read {s : List Char} {e : ReadError}
    (read_eq : read s = .error e) : (∃ t, e = .notACall t) ∨ ∃ t, e = .notALiteral t := by
  rw [read] at read_eq
  split at read_eq
  · exact .inl ⟨_, by simpa using read_eq.symm⟩
  · rename_i name inner outlined
    cases values : (argTexts inner).mapM Literal.read with
    | error reported =>
        obtain rfl : reported = e := by simpa [values, bind, Except.bind] using read_eq
        exact .inr (eq_notALiteral_of_mapM values)
    | ok values' => simp [values, bind, Except.bind, pure, Except.pure] at read_eq

end Call

end Kata
