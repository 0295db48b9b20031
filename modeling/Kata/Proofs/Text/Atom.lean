/-
# Texts that cannot be cut

Literals and names have one outline between them: either a quoted stretch, or a run of
letters, digits, underscores, signs and points with at least one name character among
them. Whatever the language cuts at (blanks, commas, operators, parentheses) an atom
hides, so every reader that minds quotes passes over it as over a single character. The
name character is asked for because a lone minus sign is an operator.
-/

import Kata.Text.Word
import Kata.Proofs.Text.Quote

namespace Kata.Text

/-- The characters of literals and names outside quotes. -/
def isPlain (c : Char) : Bool := isNameChar c || c == '-' || c == '.'

/-- A text that every reader takes as a whole. -/
inductive Atom : List Char → Prop
  /-- A run of plain characters. -/
  | plain {s : List Char} (named : ∃ c ∈ s, isNameChar c = true)
      (plain : ∀ c ∈ s, isPlain c = true) : Atom s
  /-- A text between two quotes of a kind that it does not hold. -/
  | quoted {q : Char} {body : List Char} (opens : isQuote q = true) (plain : q ∉ body) :
      Atom (q :: (body ++ [q]))

theorem toNat_lt_of_isPlain {c : Char} (plain : isPlain c = true) : c.toNat < 128 := by
  have below {last : Char} (bound : c.val ≤ last.val) (ascii : last.toNat < 128) :
      c.toNat < 128 :=
    Nat.lt_of_le_of_lt (UInt32.le_iff_toNat_le.mp bound) ascii
  simp only [isPlain, isNameChar, Bool.or_eq_true, beq_iff_eq] at plain
  rcases plain with ((alphanumeric | rfl) | rfl) | rfl
  · rcases Bool.or_eq_true_iff.mp alphanumeric with letter | digit
    · rcases Bool.or_eq_true_iff.mp letter with upper | lower
      · have range : c.val ≥ 'A'.val ∧ c.val ≤ 'Z'.val := of_decide_eq_true upper
        exact below range.2 (by decide)
      · exact below (of_decide_eq_true (Bool.and_eq_true_iff.mp lower).2) (by decide)
    · exact below (of_decide_eq_true (Bool.and_eq_true_iff.mp digit).2) (by decide)
  · decide
  · decide
  · decide

/-- A plain character is neither blank nor a quote: among ASCII this is a table. -/
theorem not_isBlank_and_not_isQuote_of_isPlain {c : Char} (plain : isPlain c = true) :
    isBlank c = false ∧ isQuote c = false := by
  have table : ∀ n < 128, isPlain (Char.ofNat n) = true →
      isBlank (Char.ofNat n) = false ∧ isQuote (Char.ofNat n) = false := by decide
  simpa using table c.toNat (toNat_lt_of_isPlain plain) (by simpa using plain)

/-- A quote is no blank, so quoted stretches survive trimming. -/
theorem isBlank_eq_false_of_isQuote {c : Char} (quote : isQuote c = true) :
    isBlank c = false := by
  by_contra blank
  simp [isQuote_eq_false_of_isBlank (by simpa using blank)] at quote

theorem isPlain_of_isNameChar {c : Char} (named : isNameChar c = true) : isPlain c = true := by
  simp [isPlain, named]

/-- A name holds nothing but name characters. -/
theorem not_mem_of_isName {c : Char} {s : List Char} (name : isName s = true)
    (other : isNameChar c = false) : c ∉ s := by
  intro inside
  simp only [isName, Bool.and_eq_true, List.all_eq_true] at name
  simp [name.2 c inside] at other

theorem atom_of_isName {s : List Char} (name : isName s = true) : Atom s := by
  simp only [isName, Bool.and_eq_true, Bool.not_eq_true', List.all_eq_true] at name
  obtain ⟨filled, named⟩ := name
  cases s with
  | nil => simp at filled
  | cons c rest =>
      exact .plain ⟨c, List.mem_cons_self, named c List.mem_cons_self⟩
        fun d inside => isPlain_of_isNameChar (named d inside)

namespace Atom

variable {c : Char} {s : List Char}

theorem ne_nil (atom : Atom s) : s ≠ [] := by
  cases atom with
  | plain named _ =>
      obtain ⟨c, inside, -⟩ := named
      exact List.ne_nil_of_mem inside
  | quoted _ _ => simp

/-- Every character at the edge of an atom is plain or a quote, so there is nothing to trim. -/
theorem startsBlank_eq_false (atom : Atom s) : startsBlank s = false := by
  cases atom with
  | plain named plain =>
      cases s with
      | nil => rfl
      | cons d rest =>
          exact (not_isBlank_and_not_isQuote_of_isPlain (plain d List.mem_cons_self)).1
  | quoted opens _ => exact isBlank_eq_false_of_isQuote opens

theorem endsBlank_eq_false (atom : Atom s) : endsBlank s = false := by
  cases atom with
  | plain named plain =>
      cases last : s.getLast? with
      | none => simp [endsBlank, last]
      | some d =>
          have inside := plain d (List.mem_of_getLast? last)
          simp [endsBlank, last, (not_isBlank_and_not_isQuote_of_isPlain inside).1]
  | @quoted q body opens _ =>
      have ends := endsBlank_append_singleton (q :: body) q
      rw [List.cons_append] at ends
      rw [ends, isBlank_eq_false_of_isQuote opens]

theorem trim_eq_self (atom : Atom s) : trim s = s :=
  Text.trim_eq_self atom.startsBlank_eq_false atom.endsBlank_eq_false

theorem allBlank_eq_false (atom : Atom s) : allBlank s = false := by
  have starts := atom.startsBlank_eq_false
  cases s with
  | nil => exact absurd rfl atom.ne_nil
  | cons d rest =>
      rw [startsBlank_cons] at starts
      simp [starts]

theorem quoteAfter_eq_none (atom : Atom s) : quoteAfter none s = none := by
  cases atom with
  | plain _ plain =>
      exact quoteAfter_none_of_quoteless fun d inside =>
        (not_isBlank_and_not_isQuote_of_isPlain (plain d inside)).2
  | quoted opens plain => exact quoteAfter_quoted opens plain

/-- An atom hides every character that is neither plain nor a quote. -/
theorem hides (atom : Atom s) (rough : isPlain c = false) (other : isQuote c = false) :
    Hides c none s := by
  cases atom with
  | plain _ plain =>
      refine hides_of_not_mem none fun inside => ?_
      simp [plain c inside] at rough
  | quoted opens plain =>
      refine hides_quoted opens plain ?_
      rintro rfl
      simp [opens] at other

/-- A lone minus sign is no atom, so behind an opening minus sign an atom goes on with a
character that is not blank. -/
theorem exists_cons_of_minus (atom : Atom ('-' :: s)) :
    ∃ d rest, s = d :: rest ∧ isBlank d = false := by
  generalize shape : '-' :: s = whole at atom
  cases atom with
  | plain named plain =>
      subst shape
      cases s with
      | nil =>
          obtain ⟨d, inside, named⟩ := named
          obtain rfl : d = '-' := by simpa using inside
          exact absurd named (by decide)
      | cons d rest =>
          have second := plain d (by simp)
          exact ⟨d, rest, rfl, (not_isBlank_and_not_isQuote_of_isPlain second).1⟩
  | quoted opens _ =>
      obtain ⟨rfl, -⟩ := List.cons_eq_cons.mp shape
      exact absurd opens (by decide)

end Atom

end Kata.Text
