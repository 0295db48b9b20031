/-
# Numbers written without an exponent

A style writes an exponent when the power of ten of the first digit leaves its bounds, so what
is written plainly lies between two powers of ten. The decimals of the doubles are in order, and
where a power of ten is the decimal of a double, the bound is one on doubles.
-/

import Kata.Proofs.Number.Distinct
import Kata.Proofs.Number.Order

namespace Kata

namespace Decimal

variable {d : Decimal}

/-- The power of ten of the first digit. -/
def leading (d : Decimal) : Int := d.exponent + (Nat.toDigits 10 d.digits).length - 1

/-- The first digit stands below a power of ten exactly if the number is less than it. -/
theorem leading_lt_iff (some_ : d.digits ≠ 0) (bound : Int) :
    d.leading < bound ↔ d.value < (10 : ℚ) ^ bound := by
  have scale : (0 : ℚ) < 10 ^ d.exponent := by positivity
  have moved : d.value < (10 : ℚ) ^ bound ↔ (d.digits : ℚ) < 10 ^ (bound - d.exponent) := by
    rw [value, zpow_sub₀ (by norm_num), lt_div_iff₀ scale]
  have first : 0 < (Nat.toDigits 10 d.digits).length := Nat.length_toDigits_pos
  rw [moved, leading]
  rcases le_or_gt bound d.exponent with low | high
  · have least : (1 : ℚ) ≤ d.digits := by exact_mod_cast Nat.pos_of_ne_zero some_
    have most : (10 : ℚ) ^ (bound - d.exponent) ≤ 1 :=
      zpow_le_one_of_nonpos₀ (by norm_num) (by omega)
    exact iff_of_false (by omega) (not_lt.mpr (most.trans least))
  · obtain ⟨places, shape⟩ := Int.eq_ofNat_of_zero_le (a := bound - d.exponent) (by omega)
    have digits := Nat.length_toDigits_le_iff (b := 10) (n := d.digits) (k := places)
      (by decide) (by omega)
    rw [shape, zpow_natCast]
    have cast : (d.digits : ℚ) < 10 ^ places ↔ d.digits < 10 ^ places := by norm_cast
    rw [cast, ← digits]
    omega

/-- The decimals of the doubles are in order. -/
theorem value_ofRank_strictMono (tie : Tie) : StrictMono fun rank => (ofRank tie rank).value := by
  intro a b ordered
  have low := (belongs_ofRank tie a).bounds.2
  have high := (belongs_ofRank tie b).bounds.1
  have between : ((Double.units a + Double.units (a + 1) : Nat) : ℚ) ≤
      (Double.units (b - 1) + Double.units b : Nat) := by
    exact_mod_cast Nat.add_le_add (Double.units_mono (by omega)) (Double.units_mono (by omega))
  have one : (0 : ℚ) < Double.unitsInOne := by exact_mod_cast Double.unitsInOne_pos
  have twice : 2 * (ofRank tie a).value * Double.unitsInOne ≤
      2 * (ofRank tie b).value * Double.unitsInOne :=
    low.trans (between.trans high)
  have le : (ofRank tie a).value ≤ (ofRank tie b).value := by
    have halves := (mul_le_mul_iff_left₀ one).mp twice
    linarith
  exact lt_of_le_of_ne le fun same => ordered.ne (value_ofRank_injective tie same)

end Decimal

namespace Numeral

variable {style : NumeralStyle} {x : Float} {least beyond : Nat}

theorem exponent_ofDecimal_eq_none_iff (style : NumeralStyle) (negative : Bool) (d : Decimal) :
    (ofDecimal style negative d).exponent = none ↔
      style.leastPlain ≤ d.leading ∧ d.leading ≤ style.greatestPlain := by
  rw [ofDecimal, ← Decimal.leading]
  simp only [Bool.or_eq_true, decide_eq_true_eq]
  split
  · exact iff_of_false (Option.some_ne_none _) (by omega)
  · refine iff_of_true ?_ (by omega)
    repeat' split
    all_goals rfl

/-- A positive double is written plainly from the double of the least power of ten on and below
that of the first power of ten that is too great. -/
theorem exponent_ofFloat_eq_none_iff (positive : Double.rank x ≠ 0)
    (low : (Decimal.ofRank style.tie least).value = 10 ^ style.leastPlain)
    (high : (Decimal.ofRank style.tie beyond).value = 10 ^ (style.greatestPlain + 1)) :
    (ofFloat style x).exponent = none ↔ least ≤ Double.rank x ∧ Double.rank x < beyond := by
  have some_ : (Decimal.ofRank style.tie (Double.rank x)).digits ≠ 0 := by
    rw [Decimal.ofRank, if_neg positive]
    exact (Decimal.digits_shortest_pos style.tie (Nat.pos_of_ne_zero positive)).ne'
  have ordered := Decimal.value_ofRank_strictMono style.tie
  rw [ofFloat, exponent_ofDecimal_eq_none_iff, ← Int.not_lt, Decimal.leading_lt_iff some_, ← low,
    ← Int.lt_add_one_iff, Decimal.leading_lt_iff some_, ← high, not_lt]
  exact and_congr ordered.le_iff_le ordered.lt_iff_lt

/-- Both zeros are written plainly where the units are. -/
theorem exponent_ofFloat_of_rank_eq_zero (zero : Double.rank x = 0)
    (plain : style.leastPlain ≤ 0 ∧ 0 ≤ style.greatestPlain) :
    (ofFloat style x).exponent = none := by
  have leading : (Decimal.ofRank style.tie 0).leading = 0 := by
    rw [Decimal.ofRank, if_pos rfl]
    rfl
  rwa [ofFloat, zero, exponent_ofDecimal_eq_none_iff, leading]

end Numeral

end Kata
