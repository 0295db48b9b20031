/-
# Different doubles are written differently

The decimal that is written for a double reads back as that double: it lies between the halfway
points to the two neighbours, and a halfway point belongs to the even rank. So no value belongs
to two ranks, because the stretches of two ranks have a halfway point in common at most, and of
two neighbours only one is even. What is laid out in digits is therefore different for any two
ranks, in every style.
-/

import Kata.Proofs.Number.Magnitude

namespace Kata

namespace Double

variable {a b rank : Nat} {twice : ℚ}

/-- The halfway points belong to even ranks. -/
theorem Belongs.even (belongs : Belongs rank twice)
    (halfway : (units (rank - 1) + units rank : Nat) = twice ∨
      twice = (units rank + units (rank + 1) : Nat)) : rank % 2 = 0 := by
  by_contra odd
  rw [Belongs, if_neg odd] at belongs
  rcases halfway with low | high
  · exact belongs.1.ne low
  · exact belongs.2.ne high

theorem Belongs.le (first : Belongs a twice) (second : Belongs b twice) : b ≤ a := by
  by_contra later
  have ordered : units a ≤ units (b - 1) := units_mono (by omega)
  have next : units (a + 1) ≤ units b := units_mono (by omega)
  have low := second.bounds.1
  have high := first.bounds.2
  have between : units (b - 1) + units b ≤ units a + units (a + 1) := by
    exact_mod_cast low.trans high
  -- The two stretches can only meet in the point halfway between neighbours.
  obtain rfl : a + 1 = b := units_strictMono.injective (by omega)
  have evenA := first.even (.inr (high.antisymm low))
  have evenB := second.even (.inl (low.antisymm high))
  omega

/-- A value belongs to one rank only. -/
theorem Belongs.eq (first : Belongs a twice) (second : Belongs b twice) : a = b :=
  (second.le first).antisymm (first.le second)

end Double

namespace Decimal

theorem value_ofRank_injective (tie : Tie) :
    Function.Injective fun rank => (ofRank tie rank).value := by
  intro a b same
  have first := belongs_ofRank tie a
  rw [show (ofRank tie a).value = (ofRank tie b).value from same] at first
  exact first.eq (belongs_ofRank tie b)

end Decimal

/-! ## Numerals -/

namespace Numeral

variable {style : NumeralStyle} {x y : Float}

/-- A strict numeral is told by its characters. -/
theorem Strict.eq_of_toChars_eq {m n : Numeral} (strict : m.Strict) (strict' : n.Strict)
    (same : m.toChars = n.toChars) : m = n := by
  have read := Json.Parser.numeral?_append strict Json.Parser.stops_nil
  rw [same, Json.Parser.numeral?_append strict' Json.Parser.stops_nil] at read
  exact (congrArg Prod.fst (Option.some.inj read)).symm

@[simp]
theorem negative_ofDecimal (style : NumeralStyle) (negative : Bool) (d : Decimal) :
    (ofDecimal style negative d).negative = negative := by
  simp only [ofDecimal]
  repeat' split
  all_goals rfl

/-- Two doubles are written alike only if they have one rank, and the same sign where it is
written. -/
theorem eq_of_toChars_ofFloat_eq (same : (ofFloat style x).toChars = (ofFloat style y).toChars) :
    Double.rank x = Double.rank y ∧ (ofFloat style x).negative = (ofFloat style y).negative := by
  have numeral := (strict_ofFloat style x).eq_of_toChars_eq (strict_ofFloat style y) same
  refine ⟨Decimal.value_ofRank_injective style.tie ?_, congrArg negative numeral⟩
  have value := congrArg (·.decimal.value) numeral
  simpa only [ofFloat, value_decimal_ofDecimal] using value

/-- What numerals are made of. -/
theorem Strict.isDigit_or_mem {n : Numeral} (strict : n.Strict) {c : Char}
    (inside : c ∈ n.toChars) : c.isDigit = true ∨ c ∈ ['-', '.', 'e', '+'] := by
  simp only [toChars, List.mem_append] at inside
  rcases inside with ((sign | whole) | fraction) | exponent
  · split at sign
    · exact .inr (by simp_all)
    · cases sign
  · exact .inl (strict.whole_digits c whole)
  · split at fraction
    · cases fraction
    · rcases List.mem_cons.mp fraction with rfl | digits
      · exact .inr (by simp)
      · exact .inl (strict.fraction_digits c digits)
  · cases shape : n.exponent with
    | none => simp [shape] at exponent
    | some e =>
        simp only [shape, exponentChars, List.mem_cons] at exponent
        rcases exponent with rfl | sign | digits
        · exact .inr (by simp)
        · split at sign <;> exact .inr (by simp [sign])
        · exact .inl (isDigit_of_mem_toDigits c digits)

end Numeral

end Kata
