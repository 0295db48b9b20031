/-
# Numerals are read back

JSON allows a numeral whose whole part has a digit and no superfluous zero in front. Such a
numeral is read back as it was written, as long as the text behind it does not go on with
digits, a point or an exponent. What a numeral stands for does not come into it.
-/

import Kata.Json.Parser

namespace Kata

/-- A numeral that JSON allows. -/
structure Numeral.Strict (n : Numeral) : Prop where
  whole : n.whole ≠ []
  whole_digits : ∀ c ∈ n.whole, c.isDigit = true
  /-- A zero in front is the only whole digit. -/
  bare : n.whole.head? = some '0' → n.whole.length = 1
  fraction_digits : ∀ c ∈ n.fraction, c.isDigit = true

/-- The first character of a numeral is a sign or a digit. -/
theorem Numeral.Strict.exists_cons {n : Numeral} (strict : n.Strict) :
    ∃ c rest, n.toChars = c :: rest ∧ (c = '-' ∨ c.isDigit = true) := by
  obtain ⟨c, whole, shape⟩ := List.exists_cons_of_ne_nil strict.whole
  cases sign : n.negative with
  | true => exact ⟨'-', _, by simp [toChars, sign]; rfl, .inl rfl⟩
  | false =>
      exact ⟨c, _, by simp [toChars, sign, shape]; rfl,
        .inr (strict.whole_digits c (by simp [shape]))⟩

namespace Json.Parser

/-- A text at which every numeral ends. -/
def Stops (rest : List Char) : Prop :=
  ∀ c ∈ rest.head?, c.isDigit = false ∧ c ≠ '.' ∧ c ≠ 'e' ∧ c ≠ 'E'

variable {s rest : List Char}

theorem stops_nil : Stops [] := by simp [Stops]

theorem stops_cons {c : Char} (digit : c.isDigit = false) (point : c ≠ '.') (small : c ≠ 'e')
    (large : c ≠ 'E') (rest : List Char) : Stops (c :: rest) := by
  intro d first
  obtain rfl : c = d := by simpa using first
  exact ⟨digit, point, small, large⟩

/-- Digits are read up to the first character that is none. -/
theorem digits_append (all : ∀ c ∈ s, c.isDigit = true)
    (stops : ∀ c ∈ rest.head?, c.isDigit = false) : digits (s ++ rest) = (s, rest) := by
  rw [digits, List.takeWhile_append_of_pos all, List.dropWhile_append_of_pos all]
  cases rest with
  | nil => simp
  | cons c rest => simp [stops c rfl]

theorem fraction?_append (all : ∀ c ∈ s, c.isDigit = true)
    (stops : ∀ c ∈ rest.head?, c.isDigit = false ∧ c ≠ '.') :
    fraction? ((if s.isEmpty then [] else '.' :: s) ++ rest) = some (s, rest) := by
  cases s with
  | nil =>
      cases rest with
      | nil => rfl
      | cons c rest => simp [fraction?, (stops c rfl).2]
  | cons c s =>
      have read := digits_append all fun d first => (stops d first).1
      have pointed : (if (c :: s).isEmpty then [] else '.' :: c :: s) ++ rest =
          '.' :: ((c :: s) ++ rest) := rfl
      rw [pointed, fraction?, read]
      rfl

theorem exponentDigits?_append (negative : Bool) (n : Nat)
    (stops : ∀ c ∈ rest.head?, c.isDigit = false) :
    exponentDigits? negative (Nat.toDigits 10 n ++ rest) =
      some (some (if negative then -(n : Int) else n), rest) := by
  have all : ∀ c ∈ Nat.toDigits 10 n, c.isDigit = true := fun c inside =>
    Nat.isDigit_of_mem_toDigits (by decide) (by decide) inside
  rw [exponentDigits?, digits_append all stops]
  simp [Nat.toDigits_ne_nil, Nat.ofDigitChars_ten_toDigits]

theorem exponent?_exponentChars (exponent : Int)
    (stops : ∀ c ∈ rest.head?, c.isDigit = false) :
    exponent? (Numeral.exponentChars exponent ++ rest) = some (some exponent, rest) := by
  by_cases negative : exponent < 0
  · have signed : Numeral.exponentChars exponent ++ rest =
        'e' :: '-' :: (Nat.toDigits 10 exponent.natAbs ++ rest) := by
      simp [Numeral.exponentChars, negative]
    have size : -(exponent.natAbs : Int) = exponent := by omega
    rw [signed, exponent?, if_pos (.inl rfl)]
    change exponentDigits? true _ = _
    rw [exponentDigits?_append true _ stops, if_pos rfl, size]
  · have signed : Numeral.exponentChars exponent ++ rest =
        'e' :: '+' :: (Nat.toDigits 10 exponent.natAbs ++ rest) := by
      simp [Numeral.exponentChars, negative]
    have size : (exponent.natAbs : Int) = exponent := by omega
    rw [signed, exponent?, if_pos (.inl rfl)]
    change exponentDigits? false _ = _
    rw [exponentDigits?_append false _ stops, if_neg Bool.false_ne_true, size]

/-- The exponent of a numeral as it is written, nothing if there is none. -/
def exponentText (exponent : Option Int) : List Char :=
  exponent.elim [] Numeral.exponentChars

theorem exponent?_append (exponent : Option Int) (stops : Stops rest) :
    exponent? (exponentText exponent ++ rest) = some (exponent, rest) := by
  cases exponent with
  | some exponent => exact exponent?_exponentChars exponent fun c first => (stops c first).1
  | none =>
      cases rest with
      | nil => rfl
      | cons c rest =>
          obtain ⟨-, -, small, large⟩ := stops c rfl
          simp [exponentText, exponent?, small, large]

/-- An exponent is no digit and no point, so what stands in front of it ends there. -/
theorem of_mem_head?_exponentText (exponent : Option Int) (stops : Stops rest) :
    ∀ c ∈ (exponentText exponent ++ rest).head?, c.isDigit = false ∧ c ≠ '.' := by
  intro c first
  cases exponent with
  | none => exact ⟨(stops c first).1, (stops c first).2.1⟩
  | some exponent =>
      obtain rfl : 'e' = c := by simpa [exponentText, Numeral.exponentChars] using first
      decide

theorem unsigned?_append {n : Numeral} (strict : n.Strict) (stops : Stops rest) :
    unsigned? n.negative (n.whole ++
      ((if n.fraction.isEmpty then [] else '.' :: n.fraction) ++
        (exponentText n.exponent ++ rest))) = some (n, rest) := by
  obtain ⟨negative, whole, fraction, exponent⟩ := n
  obtain ⟨filled, wholeDigits, bare, fractionDigits⟩ := strict
  have behind := of_mem_head?_exponentText exponent stops
  have wholeStops : ∀ c ∈ ((if fraction.isEmpty then [] else '.' :: fraction) ++
      (exponentText exponent ++ rest)).head?, c.isDigit = false := by
    cases fraction with
    | nil => exact fun c first => (behind c first).1
    | cons d fraction =>
        intro c first
        obtain rfl : '.' = c := by simpa using first
        rfl
  have noZero : (whole.isEmpty || (whole.head? == some '0' && whole.length != 1)) = false := by
    rw [Bool.or_eq_false_iff, List.isEmpty_eq_false_iff, Bool.and_eq_false_imp, beq_iff_eq,
      bne_eq_false_iff_eq]
    exact ⟨filled, bare⟩
  have fractionRead : fraction? ((if fraction.isEmpty then [] else '.' :: fraction) ++
      (exponentText exponent ++ rest)) = some (fraction, exponentText exponent ++ rest) :=
    fraction?_append fractionDigits behind
  rw [unsigned?, digits_append wholeDigits wholeStops]
  simp only [noZero, Bool.false_eq_true, if_false, fractionRead, exponent?_append exponent stops,
    Option.bind_eq_bind, Option.bind_some]
  rfl

/-- A numeral is read back, whatever follows it without going on with it. -/
theorem numeral?_append {n : Numeral} (strict : n.Strict) (stops : Stops rest) :
    numeral? (n.toChars ++ rest) = some (n, rest) := by
  have read := unsigned?_append strict stops
  have parts : n.toChars ++ rest = (if n.negative then ['-'] else []) ++ (n.whole ++
      ((if n.fraction.isEmpty then [] else '.' :: n.fraction) ++
        (exponentText n.exponent ++ rest))) := by
    cases exponent : n.exponent <;> simp [Numeral.toChars, exponentText, exponent]
  rw [parts]
  cases sign : n.negative with
  | true =>
      rw [sign] at read
      exact read
  | false =>
      obtain ⟨c, whole, shape⟩ := List.exists_cons_of_ne_nil strict.whole
      have unsigned : c ≠ '-' := by
        rintro rfl
        exact absurd (strict.whole_digits '-' (by simp [shape])) (by decide)
      rw [sign, shape] at read
      rw [shape]
      change numeral? (c :: _) = _
      rw [numeral?]
      · exact read
      · exact fun _ same => unsigned (List.cons.inj same).1

end Json.Parser

end Kata
