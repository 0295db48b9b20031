/-
# The magnitudes of written numbers

What a decimal stands for is a rational number. Laying a decimal out as a numeral does not
change it. The decimal that is written for a double reads back as it, so it is at most half a
step above the double or below it, and a halfway point belongs to the even rank.
-/

import Kata.Proofs.Number.Rounding
import Kata.Proofs.Number.Written
import Mathlib.Algebra.Order.Field.Power
import Mathlib.Algebra.Order.Field.Rat
import Mathlib.Tactic.Positivity
import Mathlib.Tactic.NormNum
import Mathlib.Tactic.Linarith
import Mathlib.Tactic.FieldSimp

namespace Kata

namespace Double

variable {rank : Nat} {twice : ℚ}

/-- Twice a value, counted in units, is nearest to the double of a rank. -/
def Belongs (rank : Nat) (twice : ℚ) : Prop :=
  if rank % 2 = 0 then
    (units (rank - 1) + units rank : Nat) ≤ twice ∧ twice ≤ (units rank + units (rank + 1) : Nat)
  else
    (units (rank - 1) + units rank : Nat) < twice ∧ twice < (units rank + units (rank + 1) : Nat)

theorem Belongs.bounds (belongs : Belongs rank twice) :
    (units (rank - 1) + units rank : Nat) ≤ twice ∧
      twice ≤ (units rank + units (rank + 1) : Nat) := by
  rw [Belongs] at belongs
  split at belongs
  · exact belongs
  · exact ⟨belongs.1.le, belongs.2.le⟩

end Double

namespace Decimal

/-- The number that a decimal stands for. -/
def value (d : Decimal) : ℚ := d.digits * (10 : ℚ) ^ d.exponent

variable {tie : Tie} {rank count : Nat} {exponent : Int}

/-- The two factors of a power of ten make it up. -/
theorem zpow_mul_tensBelow (exponent : Int) :
    (10 : ℚ) ^ exponent * tensBelow exponent = tensAbove exponent := by
  rcases Int.le_total 0 exponent with above | below
  · obtain ⟨places, rfl⟩ := Int.eq_ofNat_of_zero_le above
    simp [tensAbove, tensBelow]
  · obtain ⟨places, shape⟩ := Int.eq_ofNat_of_zero_le (Int.neg_nonneg_of_nonpos below)
    obtain rfl : exponent = -places := by omega
    simp [tensAbove, tensBelow]

/-- To read back as a double is to belong to its rank. -/
theorem readsAs_iff_belongs : readsAs rank exponent count = true ↔
    Double.Belongs rank (2 * value ⟨count, exponent⟩ * Double.unitsInOne) := by
  have positive : (0 : ℚ) < tensBelow exponent := by exact_mod_cast tensBelow_pos
  have scaled : 2 * value ⟨count, exponent⟩ * Double.unitsInOne * tensBelow exponent =
      (2 * count * tensAbove exponent * Double.unitsInOne : Nat) := by
    push_cast [← zpow_mul_tensBelow]
    rw [value]
    ring
  generalize 2 * value ⟨count, exponent⟩ * Double.unitsInOne = twice at scaled ⊢
  have le_iff (bound : Nat) : (bound : ℚ) ≤ twice ↔ bound * tensBelow exponent ≤
      2 * count * tensAbove exponent * Double.unitsInOne := by
    rw [← mul_le_mul_iff_left₀ positive, scaled]
    norm_cast
  have ge_iff (bound : Nat) : twice ≤ bound ↔
      2 * count * tensAbove exponent * Double.unitsInOne ≤ bound * tensBelow exponent := by
    rw [← mul_le_mul_iff_left₀ positive, scaled]
    norm_cast
  have lt_iff (bound : Nat) : (bound : ℚ) < twice ↔ bound * tensBelow exponent <
      2 * count * tensAbove exponent * Double.unitsInOne := by
    rw [← not_le, ge_iff, not_le]
  have gt_iff (bound : Nat) : twice < bound ↔
      2 * count * tensAbove exponent * Double.unitsInOne < bound * tensBelow exponent := by
    rw [← not_le, le_iff, not_le]
  rw [readsAs, Double.Belongs, le_iff, ge_iff, lt_iff, gt_iff]
  split <;> simp

/-- The last resort is exact. -/
theorem value_last_mul (units : Nat) :
    value ⟨units * Nat.pow 5 1074, -1074⟩ * Double.unitsInOne = units := by
  have exactly (places : Nat) :
      value ⟨units * Nat.pow 5 places, -places⟩ * (Nat.pow 2 places : Nat) = units := by
    rw [value]
    push_cast [Nat.pow_eq]
    rw [zpow_neg, zpow_natCast, mul_assoc, mul_assoc, mul_comm (_⁻¹), ← mul_assoc (5 ^ places),
      ← mul_pow]
    norm_num
  exact exactly 1074

/-- The decimal of a double belongs to it. -/
theorem belongs_ofRank (tie : Tie) (rank : Nat) :
    Double.Belongs rank (2 * (ofRank tie rank).value * Double.unitsInOne) := by
  rw [ofRank]
  split
  · rename_i zero
    have nothing : Double.units 0 = 0 := rfl
    simp only [zero, value, Double.Belongs, nothing, Nat.cast_zero, zero_mul, mul_zero]
    exact ⟨le_rfl, Nat.cast_nonneg _⟩
  · rename_i positive
    rcases shortest_cases tie rank with ⟨exponent, found⟩ | last
    · obtain ⟨grid, read⟩ := of_onGrid?_eq_some found
      have belongs := readsAs_iff_belongs.mp read
      rwa [← grid] at belongs
    · have before : Double.units (rank - 1) < Double.units rank :=
        Double.units_strictMono (by omega)
      have behind : Double.units rank < Double.units (rank + 1) :=
        Double.units_strictMono (Nat.lt_succ_self rank)
      have low : (Double.units (rank - 1) + Double.units rank : Nat) <
          2 * (Double.units rank : ℚ) := by
        exact_mod_cast (by omega : _ < 2 * Double.units rank)
      have high : 2 * (Double.units rank : ℚ) <
          (Double.units rank + Double.units (rank + 1) : Nat) := by
        exact_mod_cast (by omega : 2 * Double.units rank < _)
      rw [last, mul_assoc, value_last_mul, Double.Belongs]
      split
      · exact ⟨low.le, high.le⟩
      · exact ⟨low, high⟩

/-- The decimal of a double is at most half a step above it. -/
theorem two_mul_value_ofRank_le (tie : Tie) (rank : Nat) :
    2 * (ofRank tie rank).value * Double.unitsInOne ≤
      Double.units rank + Double.units (rank + 1) := by
  exact_mod_cast (belongs_ofRank tie rank).bounds.2

end Decimal

namespace Numeral

variable {digits : List Char} {d : Decimal}

/-- Digits with a point somewhere between them. -/
theorem decimal_of_parted (negative : Bool) (exponent : Option Int) (place : Nat) :
    decimal ⟨negative, digits.take place, digits.drop place, exponent⟩ =
      ⟨Nat.ofDigitChars 10 digits 0, exponent.getD 0 - (digits.length - place : Nat)⟩ := by
  simp [decimal]

/-- Zeros behind the digits of a whole decimal move into its digits. -/
theorem value_shifted (count places : Nat) (exponent : Int) :
    Decimal.value ⟨10 ^ places * count, exponent - places⟩ = Decimal.value ⟨count, exponent⟩ := by
  simp only [Decimal.value]
  rw [zpow_sub₀ (by decide)]
  push_cast
  rw [zpow_natCast]
  field_simp

/-- Laying a decimal out does not change what it stands for. -/
theorem value_decimal_ofDecimal (style : NumeralStyle) (negative : Bool) (d : Decimal) :
    (ofDecimal style negative d).decimal.value = d.value := by
  obtain ⟨count, exponent⟩ := d
  have length := List.length_pos_iff.mpr (Nat.toDigits_ne_nil (b := 10) (n := count))
  simp only [ofDecimal]
  split
  · rw [decimal_of_parted, Nat.ofDigitChars_ten_toDigits, Option.getD_some]
    congr 2
    omega
  · split
    · rename_i whole
      obtain ⟨places, rfl⟩ := Int.eq_ofNat_of_zero_le whole
      have number : Nat.ofDigitChars 10 (Nat.toDigits 10 count ++ List.replicate places '0') 0 =
          10 ^ places * count := by
        rw [Nat.ofDigitChars_append, Nat.ofDigitChars_ten_toDigits,
          Nat.ofDigitChars_replicate_zero]
      have plain : Decimal.value ⟨10 ^ places * count, 0⟩ = Decimal.value ⟨count, places⟩ := by
        simpa using value_shifted count places places
      cases style.pointAlways with
      | true =>
          have pointed : Nat.ofDigitChars 10
              ((Nat.toDigits 10 count ++ List.replicate places '0') ++ List.replicate 1 '0') 0 =
              10 ^ 1 * (10 ^ places * count) := by
            rw [Nat.ofDigitChars_append, number, Nat.ofDigitChars_replicate_zero]
          rw [← plain, ← value_shifted (10 ^ places * count) 1 0, ← pointed]
          rfl
      | false =>
          rw [← plain]
          simp [decimal, number]
    · split
      · rw [decimal_of_parted, Nat.ofDigitChars_ten_toDigits, Option.getD_none]
        congr 2
        omega
      · have number : Nat.ofDigitChars 10
            (['0'] ++ (List.replicate (-(exponent + (Nat.toDigits 10 count).length - 1) - 1).toNat
              '0' ++ Nat.toDigits 10 count)) 0 = count := by
          rw [Nat.ofDigitChars_append, Nat.ofDigitChars_append, Nat.ofDigitChars_replicate_zero]
          exact Nat.ofDigitChars_ten_toDigits
        simp only [decimal, number, Option.getD_none]
        congr 2
        simp
        omega

end Numeral

end Kata
