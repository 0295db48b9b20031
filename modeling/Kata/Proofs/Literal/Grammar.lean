/-
# The grammar of literals

A literal is a plain numeral, a quoted text without its own quote, or one of three
words. `Written` says so as a relation between text and value, without a reader, and
`value?_eq_some_iff` says that the reader accepts exactly these texts with exactly these
values. What the rest of the development needs to know about the text of a literal is
that it is an atom.
-/

import Kata.Literal
import Kata.Proofs.Text.Atom
import Kata.Proofs.Text.Lines

namespace Kata

/-- A numeral of digits, with or without a fraction and a minus sign, and no exponent. -/
structure Numeral.IsPlain (n : Numeral) : Prop where
  whole_ne_nil : n.whole ≠ []
  whole_digits : ∀ c ∈ n.whole, c.isDigit = true
  fraction_digits : ∀ c ∈ n.fraction, c.isDigit = true
  exponent_eq_none : n.exponent = none

namespace Literal

/-- The literals as they are written, each with its value. -/
inductive Written : List Char → Value → Prop
  | number {n : Numeral} (plain : n.IsPlain) : Written n.toChars (.number n.toFloat)
  | quoted {q : Char} {body : List Char} (opens : Text.isQuote q = true) (plain : q ∉ body) :
      Written (q :: (body ++ [q])) (.text (String.ofList body))
  | true : Written "true".toList (.bool .true)
  | false : Written "false".toList (.bool .false)
  | null : Written "null".toList .null

/-! ## Numerals -/

/-- The characters behind the sign: whole digits, and a point only before a fraction. -/
def unsignedChars (whole fraction : List Char) : List Char :=
  whole ++ if fraction.isEmpty then [] else '.' :: fraction

theorem toChars_of_isPlain {n : Numeral} (plain : n.IsPlain) :
    n.toChars = (if n.negative then ['-'] else []) ++ unsignedChars n.whole n.fraction := by
  simp [Numeral.toChars, unsignedChars, plain.exponent_eq_none]

private theorem span_unsignedChars {whole : List Char}
    (digits : ∀ c ∈ whole, c.isDigit = true) (fraction : List Char) :
    (unsignedChars whole fraction).takeWhile Char.isDigit = whole ∧
      (unsignedChars whole fraction).dropWhile Char.isDigit =
        if fraction.isEmpty then [] else '.' :: fraction := by
  rw [unsignedChars, List.takeWhile_append_of_pos digits, List.dropWhile_append_of_pos digits]
  cases fraction with
  | nil => simp
  | cons d rest => simp [show Char.isDigit '.' = false by decide]

/-- The reader behind the sign accepts whole digits with or without a fraction. -/
theorem unsigned?_eq_some_iff {negative : Bool} {s : List Char} {n : Numeral} :
    unsigned? negative s = some n ↔
      n.IsPlain ∧ n.negative = negative ∧ s = unsignedChars n.whole n.fraction := by
  constructor
  · intro read
    simp only [unsigned?] at read
    have digits : ∀ c ∈ s.takeWhile Char.isDigit, c.isDigit = true :=
      fun c inside => by simpa using List.mem_takeWhile_imp inside
    have whole := (List.takeWhile_append_dropWhile (p := Char.isDigit) (l := s)).symm
    split at read
    · simp at read
    · rename_i filled
      rw [List.isEmpty_iff] at filled
      split at read
      · rename_i ends
        obtain rfl := Option.some.inj read
        refine ⟨⟨filled, digits, by simp, rfl⟩, rfl, ?_⟩
        rw [ends] at whole
        simpa [unsignedChars] using whole
      · rename_i fraction goesOn
        split at read
        · simp at read
        · rename_i proper
          simp only [Bool.or_eq_true, List.isEmpty_iff, Bool.not_eq_true', not_or,
            Bool.not_eq_false, List.all_eq_true] at proper
          obtain rfl := Option.some.inj read
          refine ⟨⟨filled, digits, proper.2, rfl⟩, rfl, ?_⟩
          rw [goesOn] at whole
          simpa [unsignedChars, proper.1] using whole
      · simp at read
  · rintro ⟨plain, rfl, rfl⟩
    obtain ⟨taken, dropped⟩ := span_unsignedChars plain.whole_digits n.fraction
    have same : n = ⟨n.negative, n.whole, n.fraction, none⟩ := by
      rw [← plain.exponent_eq_none]
    simp only [unsigned?, taken, dropped, List.isEmpty_iff, plain.whole_ne_nil, if_false]
    cases digits : n.fraction with
    | nil => rw [digits] at same; simpa using same.symm
    | cons d rest =>
        have fraction := plain.fraction_digits
        rw [digits] at same fraction
        simpa [List.all_eq_true.mpr fraction] using same.symm

/-- The first unsigned character of a plain numeral is a digit, so the sign is known from
the first character. -/
theorem exists_cons_unsignedChars {n : Numeral} (plain : n.IsPlain) :
    ∃ d rest, unsignedChars n.whole n.fraction = d :: rest ∧ d.isDigit = true := by
  obtain ⟨d, rest, shape⟩ := List.exists_cons_of_ne_nil plain.whole_ne_nil
  refine ⟨d, rest ++ if n.fraction.isEmpty then [] else '.' :: n.fraction, ?_, ?_⟩
  · rw [unsignedChars, shape, List.cons_append]
  · exact plain.whole_digits d (by rw [shape]; exact List.mem_cons_self)

/-- The numerals that are literals are the plain ones. -/
theorem numeral?_eq_some_iff {s : List Char} {n : Numeral} :
    numeral? s = some n ↔ n.IsPlain ∧ s = n.toChars := by
  constructor
  · intro read
    unfold numeral? at read
    split at read
    · obtain ⟨plain, negative, rfl⟩ := unsigned?_eq_some_iff.mp read
      refine ⟨plain, ?_⟩
      rw [toChars_of_isPlain plain, negative]
      rfl
    · obtain ⟨plain, negative, rfl⟩ := unsigned?_eq_some_iff.mp read
      refine ⟨plain, ?_⟩
      rw [toChars_of_isPlain plain, negative]
      rfl
  · rintro ⟨plain, rfl⟩
    have read := unsigned?_eq_some_iff.mpr ⟨plain, rfl, rfl⟩
    rw [toChars_of_isPlain plain]
    cases sign : n.negative with
    | true =>
        rw [sign] at read
        simpa [numeral?] using read
    | false =>
        rw [sign] at read
        obtain ⟨d, rest, shape, digit⟩ := exists_cons_unsignedChars plain
        have unsigned : d ≠ '-' := by
          rintro rfl
          exact absurd digit (by decide)
        rw [shape] at read ⊢
        rw [← read]
        simp [numeral?, unsigned]

/-! ## Quoted texts and words -/

/-- A text between quotes is accepted when the second quote is the next one of its kind. -/
theorem unquote?_eq_some_iff {s body : List Char} :
    unquote? s = some body ↔
      ∃ q, Text.isQuote q = true ∧ q ∉ body ∧ s = q :: (body ++ [q]) := by
  constructor
  · intro read
    cases s with
    | nil => simp [unquote?] at read
    | cons q rest =>
        simp only [unquote?, Bool.and_eq_true, beq_iff_eq, Option.ite_none_right_eq_some,
          Option.some.injEq] at read
        obtain ⟨⟨opens, closes⟩, rfl⟩ := read
        refine ⟨q, opens, fun inside => ?_, ?_⟩
        · simpa using List.mem_takeWhile_imp inside
        · have whole := List.takeWhile_append_dropWhile (p := (· != q)) (l := rest)
          rw [closes] at whole
          rw [whole]
  · rintro ⟨q, opens, plain, rfl⟩
    simp [unquote?, opens, Text.takeWhile_bne plain, Text.dropWhile_bne plain]

/-- A numeral starts with a minus sign or a digit, so no other literal is one. -/
theorem numeral?_eq_none_of_head {c : Char} {s : List Char} (unsigned : c ≠ '-')
    (other : c.isDigit = false) : numeral? (c :: s) = none := by
  have rejected : unsigned? false (c :: s) = none := by
    simp [unsigned?, other]
  rw [← rejected]
  simp [numeral?, unsigned]

theorem numeral?_quoted {q : Char} (opens : Text.isQuote q = true) (s : List Char) :
    numeral? (q :: s) = none := by
  simp only [Text.isQuote, Bool.or_eq_true, beq_iff_eq] at opens
  rcases opens with rfl | rfl <;> exact numeral?_eq_none_of_head (by decide) (by decide)

/-- The reader of literals accepts exactly the written ones, with their values. -/
theorem value?_eq_some_iff {s : List Char} {v : Value} :
    value? s = some v ↔ Written s v := by
  constructor
  · intro read
    rw [value?] at read
    split at read
    · rename_i n number
      obtain ⟨plain, rfl⟩ := numeral?_eq_some_iff.mp number
      obtain rfl := Option.some.inj read
      exact .number plain
    · split at read
      · rename_i body quoted
        obtain ⟨q, opens, plain, rfl⟩ := unquote?_eq_some_iff.mp quoted
        obtain rfl := Option.some.inj read
        exact .quoted opens plain
      · simp only [word?] at read
        split at read
        · rename_i word
          obtain rfl := Option.some.inj read
          exact word ▸ .true
        · split at read
          · rename_i word
            obtain rfl := Option.some.inj read
            exact word ▸ .false
          · split at read
            · rename_i word
              obtain rfl := Option.some.inj read
              exact word ▸ .null
            · simp at read
  · intro written
    cases written with
    | number plain => rw [value?, numeral?_eq_some_iff.mpr ⟨plain, rfl⟩]
    | quoted opens plain =>
        rw [value?, numeral?_quoted opens, unquote?_eq_some_iff.mpr ⟨_, opens, plain, rfl⟩]
    | true => rfl
    | false => rfl
    | null => rfl

/-! ## The outline of a literal -/

theorem isNameChar_of_isDigit {c : Char} (digit : c.isDigit = true) :
    Text.isNameChar c = true := by
  simp [Text.isNameChar, Char.isAlphanum, digit]

theorem isDigit_or_eq_of_mem_toChars {n : Numeral} (plain : n.IsPlain) {c : Char}
    (inside : c ∈ n.toChars) : c.isDigit = true ∨ c = '-' ∨ c = '.' := by
  rw [toChars_of_isPlain plain] at inside
  rcases List.mem_append.mp inside with sign | inside
  · split at sign
    · exact .inr (.inl (by simpa using sign))
    · simp at sign
  · rcases List.mem_append.mp inside with whole | fraction
    · exact .inl (plain.whole_digits c whole)
    · split at fraction
      · simp at fraction
      · rcases List.mem_cons.mp fraction with point | fraction
        · exact .inr (.inr point)
        · exact .inl (plain.fraction_digits c fraction)

theorem atom_toChars {n : Numeral} (plain : n.IsPlain) : Text.Atom n.toChars := by
  obtain ⟨d, rest, shape, digit⟩ := exists_cons_unsignedChars plain
  refine .plain ⟨d, ?_, isNameChar_of_isDigit digit⟩ fun c inside => ?_
  · simp [toChars_of_isPlain plain, shape]
  · rcases isDigit_or_eq_of_mem_toChars plain inside with digit | rfl | rfl
    · exact Text.isPlain_of_isNameChar (isNameChar_of_isDigit digit)
    · decide
    · decide

theorem Written.atom {s : List Char} {v : Value} (written : Written s v) : Text.Atom s := by
  cases written with
  | number plain => exact atom_toChars plain
  | quoted opens plain => exact .quoted opens plain
  | true => exact Text.atom_of_isName (by decide)
  | false => exact Text.atom_of_isName (by decide)
  | null => exact Text.atom_of_isName (by decide)

/-- A literal that holds anything but digits, signs, points and small letters is quoted. -/
theorem exists_quoted_of_mem {s : List Char} {v : Value} (written : Written s v)
    {c : Char} (inside : c ∈ s) (digit : c.isDigit = false) (sign : c ≠ '-') (point : c ≠ '.')
    (small : c.isLower = false) :
    ∃ q body, Text.isQuote q = true ∧ q ∉ body ∧ s = q :: (body ++ [q]) := by
  have word {letters : List Char} (lower : letters.all Char.isLower = true) : c ∉ letters := by
    intro among
    simp [List.all_eq_true.mp lower c among] at small
  cases written with
  | number plain =>
      rcases isDigit_or_eq_of_mem_toChars plain inside with isDigit | isSign | isPoint
      · simp [digit] at isDigit
      · exact absurd isSign sign
      · exact absurd isPoint point
  | quoted opens plain => exact ⟨_, _, opens, plain, rfl⟩
  | true => exact absurd inside (word (by decide))
  | false => exact absurd inside (word (by decide))
  | null => exact absurd inside (word (by decide))

end Literal

end Kata
