/-
# A written double is read back

Rounding takes a quotient to the rank that it belongs to: it is at most half a step away from
the double of that rank, and exactly half a step only if the rank is even. A value belongs to
one rank only, so a decimal that belongs to the rank of a finite double is read as that double.
The decimal that is written for a double is one, and laying it out changes nothing.
-/

import Kata.Proofs.Number.Distinct
import Kata.Proofs.Number.Equality

namespace Kata

namespace Double

variable {num den rank : Nat}

/-! ## Rounding to a natural number -/

/-- Rounding down leaves at most a half, and exactly a half only behind an even number. -/
theorem divNearest_cases (num den : Nat) :
    (divNearest num den = num / den ∧ 2 * (num % den) ≤ den ∧
      (num / den % 2 = 1 → 2 * (num % den) < den)) ∨
    (divNearest num den = num / den + 1 ∧ den ≤ 2 * (num % den) ∧
      (num / den % 2 = 0 → den < 2 * (num % den))) := by
  simp only [divNearest, Bool.or_eq_true, decide_eq_true_eq, Bool.and_eq_true, beq_iff_eq]
  split
  · exact .inr ⟨rfl, by omega, by omega⟩
  · exact .inl ⟨rfl, by omega, by omega⟩

/-! ## Rounding to a rank -/

/-- Twice a quotient lies between the halfway points around a rank, and strictly between them
if the rank is odd. -/
def Between (rank num den : Nat) : Prop :=
  (units (rank - 1) + units rank) * den ≤ 2 * num ∧
    2 * num ≤ (units rank + units (rank + 1)) * den ∧
    (rank % 2 = 1 → (units (rank - 1) + units rank) * den < 2 * num ∧
      2 * num < (units rank + units (rank + 1)) * den)

theorem Between.belongs (between : Between rank num den) (positive : 0 < den) :
    Belongs rank (2 * (num / den : ℚ)) := by
  have scale : (0 : ℚ) < den := by exact_mod_cast positive
  obtain ⟨low, high, strict⟩ := between
  rw [← mul_div_assoc, Belongs]
  split
  · rw [le_div_iff₀ scale, div_le_iff₀ scale]
    exact_mod_cast And.intro low high
  · rw [lt_div_iff₀ scale, div_lt_iff₀ scale]
    exact_mod_cast strict (by omega)

/-- What is counted down to a number of steps. -/
theorem between_of_down {steps count width : Nat} (positive : 0 < width)
    (most : count < 2 ^ 53) (least : steps = 0 ∨ 2 ^ 52 ≤ count)
    (here : count * (width * 2 ^ steps) ≤ num)
    (near : 2 * num ≤ (2 * count + 1) * (width * 2 ^ steps))
    (odd : count % 2 = 1 → 2 * num < (2 * count + 1) * (width * 2 ^ steps)) :
    Between (steps * 2 ^ 52 + count) num width := by
  have value : units (steps * 2 ^ 52 + count) = count * 2 ^ steps := units_steps most.le least
  have next : units (steps * 2 ^ 52 + count + 1) = (count + 1) * 2 ^ steps := by
    rw [Nat.add_assoc]
    exact units_steps most (by omega)
  have high : (units (steps * 2 ^ 52 + count) + units (steps * 2 ^ 52 + count + 1)) * width =
      (2 * count + 1) * (width * 2 ^ steps) := by
    rw [value, next]
    ring
  have before : units (steps * 2 ^ 52 + count - 1) ≤ units (steps * 2 ^ 52 + count) :=
    units_mono (Nat.sub_le _ _)
  have low : (units (steps * 2 ^ 52 + count - 1) + units (steps * 2 ^ 52 + count)) * width ≤
      2 * (units (steps * 2 ^ 52 + count) * width) := by
    rw [← Nat.mul_assoc]
    exact Nat.mul_le_mul_right _ (by omega)
  have whole : units (steps * 2 ^ 52 + count) * width = count * (width * 2 ^ steps) := by
    rw [value]
    ring
  refine ⟨by omega, by omega, fun parity => ⟨?_, by rw [high]; exact odd (by omega)⟩⟩
  have strict : units (steps * 2 ^ 52 + count - 1) < units (steps * 2 ^ 52 + count) :=
    units_strictMono (by omega)
  have lower : (units (steps * 2 ^ 52 + count - 1) + units (steps * 2 ^ 52 + count)) * width <
      2 * (units (steps * 2 ^ 52 + count) * width) := by
    rw [← Nat.mul_assoc]
    exact Nat.mul_lt_mul_of_pos_right (by omega) positive
  omega

/-- What is counted up to a number of steps. -/
theorem between_of_up {steps count width : Nat} (most : count < 2 ^ 53)
    (least : steps = 0 ∨ 2 ^ 52 ≤ count) (beyond : num < (count + 1) * (width * 2 ^ steps))
    (near : (2 * count + 1) * (width * 2 ^ steps) ≤ 2 * num)
    (even : count % 2 = 0 → (2 * count + 1) * (width * 2 ^ steps) < 2 * num) :
    Between (steps * 2 ^ 52 + (count + 1)) num width := by
  have value : units (steps * 2 ^ 52 + (count + 1)) = (count + 1) * 2 ^ steps :=
    units_steps most (by omega)
  have before : units (steps * 2 ^ 52 + (count + 1) - 1) = count * 2 ^ steps := by
    rw [← Nat.add_assoc, Nat.add_sub_cancel]
    exact units_steps most.le least
  have low : (units (steps * 2 ^ 52 + (count + 1) - 1) + units (steps * 2 ^ 52 + (count + 1))) *
      width = (2 * count + 1) * (width * 2 ^ steps) := by
    rw [value, before]
    ring
  have next : units (steps * 2 ^ 52 + (count + 1)) ≤ units (steps * 2 ^ 52 + (count + 1) + 1) :=
    units_mono (Nat.le_succ _)
  have high : 2 * (units (steps * 2 ^ 52 + (count + 1)) * width) ≤
      (units (steps * 2 ^ 52 + (count + 1)) + units (steps * 2 ^ 52 + (count + 1) + 1)) *
        width := by
    rw [← Nat.mul_assoc]
    exact Nat.mul_le_mul_right _ (by omega)
  have whole : units (steps * 2 ^ 52 + (count + 1)) * width =
      (count + 1) * (width * 2 ^ steps) := by
    rw [value]
    ring
  exact ⟨by omega, by omega, fun parity => ⟨by rw [low]; exact even (by omega), by omega⟩⟩

/-- A quotient lies around the rank that it is rounded to. -/
theorem between_nearestRank (positive : 0 < den) (finite : nearestRank num den < infinityRank) :
    Between (nearestRank num den) num den := by
  have shape : nearestRank num den = stepsFor num den * 2 ^ 52 + countFor num den := by
    rw [nearestRank_eq] at finite ⊢
    omega
  have most := quotient_lt num den
  have least := le_quotient num den
  have parts := Nat.div_add_mod' num (den * 2 ^ stepsFor num den)
  have rest := Nat.mod_lt num (Nat.mul_pos positive (Nat.two_pow_pos (stepsFor num den)))
  have rounded := divNearest_cases num (den * 2 ^ stepsFor num den)
  rw [shape, countFor]
  generalize num / (den * 2 ^ stepsFor num den) = count at *
  generalize num % (den * 2 ^ stepsFor num den) = left at *
  have half : (2 * count + 1) * (den * 2 ^ stepsFor num den) =
      2 * (count * (den * 2 ^ stepsFor num den)) + den * 2 ^ stepsFor num den := by ring
  have next : (count + 1) * (den * 2 ^ stepsFor num den) =
      count * (den * 2 ^ stepsFor num den) + den * 2 ^ stepsFor num den := Nat.add_one_mul ..
  rcases rounded with ⟨down, near, odd⟩ | ⟨up, near, even⟩
  · rw [down]
    exact between_of_down positive most least (by omega) (by omega) fun parity => by
      have strict := odd parity
      omega
  · rw [up]
    exact between_of_up most least (by omega) (by omega) fun parity => by
      have strict := even parity
      omega

/-- Up to half a unit belongs to zero. -/
theorem belongs_zero_iff {twice : ℚ} : Belongs 0 twice ↔ 0 ≤ twice ∧ twice ≤ 1 := by
  have low : ((units (0 - 1) + units 0 : Nat) : ℚ) = 0 := Nat.cast_zero
  have high : ((units 0 + units (0 + 1) : Nat) : ℚ) = 1 := Nat.cast_one
  rw [Belongs, if_pos rfl, low, high]

/-- What belongs to a finite double does not overflow. -/
theorem Belongs.lt_overflow {twice : ℚ} (belongs : Belongs rank twice)
    (finite : rank < infinityRank) : twice < (2 * overflow : Nat) := by
  have last : units (infinityRank - 1) + units infinityRank = 2 * overflow := by decide +kernel
  rcases Nat.lt_or_ge rank (infinityRank - 1) with below | final
  · have here : units rank < units (infinityRank - 1) := units_strictMono below
    have next : units (rank + 1) ≤ units infinityRank := units_mono (by omega)
    refine belongs.bounds.2.trans_lt ?_
    exact_mod_cast (by omega : units rank + units (rank + 1) < 2 * overflow)
  · have odd : infinityRank % 2 = 0 := by decide
    have next : rank + 1 = infinityRank := by omega
    have top : rank = infinityRank - 1 := by omega
    rw [Belongs, if_neg (by omega), next, top, last] at belongs
    exact belongs.2

end Double

namespace Decimal

open Double (Belongs infinityRank units unitsInOne)

variable {d : Decimal} {rank : Nat}

/-- A decimal as a quotient of natural numbers. -/
theorem value_mul_eq (d : Decimal) (one : Nat) : d.value * one =
    ((d.digits * tensAbove d.exponent * one : Nat) : ℚ) / (tensBelow d.exponent : Nat) := by
  have scale : (tensBelow d.exponent : ℚ) ≠ 0 := by exact_mod_cast tensBelow_pos.ne'
  rw [eq_div_iff scale]
  push_cast [← zpow_mul_tensBelow]
  rw [value]
  ring

/-- What belongs to a finite double has no power of ten above the doubles. -/
theorem exponent_lt_of_belongs (belongs : Belongs rank (2 * d.value * unitsInOne))
    (finite : rank < infinityRank) (some_ : d.digits ≠ 0) : d.exponent < 309 := by
  have below := belongs.lt_overflow finite
  by_contra beyond
  obtain ⟨places, shape⟩ := Int.eq_ofNat_of_zero_le (a := d.exponent) (by omega)
  have whole : tensAbove d.exponent = 10 ^ places ∧ tensBelow d.exponent = 1 := by
    simp [tensAbove, tensBelow, shape]
  rw [mul_assoc, value_mul_eq, whole.1, whole.2, Nat.cast_one, div_one] at below
  have least : ∀ few ≤ places, 1 * 10 ^ few * unitsInOne ≤ d.digits * 10 ^ places * unitsInOne :=
    fun few most => Nat.mul_le_mul_right _ (Nat.mul_le_mul (Nat.pos_of_ne_zero some_)
      (Nat.pow_le_pow_right (by decide) most))
  have above : Double.overflow ≤ 1 * 10 ^ 309 * unitsInOne := by decide +kernel
  have doubled : 2 * (d.digits * 10 ^ places * unitsInOne) < 2 * Double.overflow := by
    exact_mod_cast below
  exact absurd (above.trans (least 309 (by omega)))
    (Nat.not_le.mpr (Nat.lt_of_mul_lt_mul_left doubled))

/-- What is far below the least double belongs to zero. -/
theorem belongs_zero (small : d.exponent + (d.digits.log2 : Int) < -330) :
    Belongs 0 (2 * d.value * unitsInOne) := by
  have digits : (d.digits : ℚ) ≤ 2 * 10 ^ d.digits.log2 := by
    have bits : d.digits < 2 ^ (d.digits.log2 + 1) := Nat.lt_log2_self
    have tens : 2 ^ d.digits.log2 ≤ 10 ^ d.digits.log2 := Nat.pow_le_pow_left (by decide) _
    exact_mod_cast (by omega : d.digits ≤ 2 * 10 ^ d.digits.log2)
  have most : d.value ≤ 2 * 10 ^ (-331 : Int) := by
    calc d.value ≤ 2 * 10 ^ d.digits.log2 * 10 ^ d.exponent :=
          mul_le_mul_of_nonneg_right digits (by positivity)
      _ = 2 * 10 ^ (d.digits.log2 + d.exponent : Int) := by
          rw [zpow_add₀ (by norm_num), zpow_natCast, mul_assoc]
      _ ≤ 2 * 10 ^ (-331 : Int) :=
          mul_le_mul_of_nonneg_left (zpow_le_zpow_right₀ (by norm_num) (by omega)) (by norm_num)
  have tiny : 4 * unitsInOne ≤ 10 ^ 331 := by decide +kernel
  have high : 2 * d.value * unitsInOne ≤ 1 := by
    have cast : (4 * unitsInOne : ℚ) ≤ 10 ^ 331 := by exact_mod_cast tiny
    calc 2 * d.value * unitsInOne ≤ 2 * (2 * 10 ^ (-331 : Int)) * unitsInOne :=
          mul_le_mul_of_nonneg_right (by linarith) (Nat.cast_nonneg _)
      _ = (4 * unitsInOne) * 10 ^ (-331 : Int) := by ring
      _ ≤ 10 ^ 331 * 10 ^ (-331 : Int) := mul_le_mul_of_nonneg_right cast (by positivity)
      _ = 1 := by norm_num
  have low : 0 ≤ d.value := by
    rw [value]
    positivity
  exact Double.belongs_zero_iff.mpr
    ⟨mul_nonneg (mul_nonneg (by norm_num) low) (Nat.cast_nonneg _), high⟩

/-- A decimal that belongs to a finite double is read as it. -/
theorem nearestRank_eq_of_belongs (belongs : Belongs rank (2 * d.value * unitsInOne))
    (finite : rank < infinityRank) : d.nearestRank = rank := by
  rw [nearestRank]
  split
  · rename_i zero
    have nothing : 2 * d.value * unitsInOne = 0 := by
      rw [value, zero, Nat.cast_zero, zero_mul, mul_zero, zero_mul]
    have first : Belongs 0 0 := Double.belongs_zero_iff.mpr ⟨le_rfl, zero_le_one⟩
    exact first.eq (nothing ▸ belongs)
  · rename_i some_
    rw [if_neg (not_le.mpr (exponent_lt_of_belongs belongs finite some_))]
    split
    · rename_i small
      exact (belongs_zero small).eq belongs
    · have positive : 0 < tensBelow d.exponent := tensBelow_pos
      have scale : (0 : ℚ) < tensBelow d.exponent := by exact_mod_cast positive
      rw [mul_assoc, value_mul_eq] at belongs
      generalize d.digits * tensAbove d.exponent * unitsInOne = num at belongs ⊢
      have inRow : Double.nearestRank num (tensBelow d.exponent) < infinityRank := by
        have below := belongs.lt_overflow finite
        rw [← mul_div_assoc, div_lt_iff₀ scale] at below
        have doubled : 2 * num < 2 * Double.overflow * tensBelow d.exponent := by
          exact_mod_cast below
        rw [Nat.mul_assoc] at doubled
        exact Double.nearestRank_lt positive (Nat.lt_of_mul_lt_mul_left doubled)
      exact ((Double.between_nearestRank positive inRow).belongs positive).eq belongs

end Decimal

namespace Numeral

variable {style : NumeralStyle} {x : Float}

/-- The numeral of a finite double is read as the rank of the double. -/
theorem nearestRank_decimal_ofFloat (finite : Double.isFinite x = true) :
    (ofFloat style x).decimal.nearestRank = Double.rank x := by
  apply Decimal.nearestRank_eq_of_belongs
  · rw [ofFloat, value_decimal_ofDecimal]
    exact Decimal.belongs_ofRank style.tie (Double.rank x)
  · simpa [Double.isFinite] using finite

/-- A finite double that is written in any style is read back, up to the sign of zero. -/
theorem toFloat_ofFloat_beq (finite : Double.isFinite x = true) :
    ((ofFloat style x).toFloat == x) = true := by
  have bounded : Double.rank x ≤ Double.infinityRank := by
    simpa [Double.isFinite] using Nat.le_of_lt (of_decide_eq_true finite)
  rw [Double.beq_iff]
  refine ⟨isNaN_toFloat _, ?_⟩
  rw [toFloat, Decimal.toFloat, nearestRank_decimal_ofFloat finite]
  apply Double.unsignedZero_eq_of_rank_eq (Double.rank_ofRank _ bounded)
  intro positive
  rw [Double.rank_ofRank _ bounded] at positive
  have shown : (Double.rank x != 0) = true := by simpa using positive
  rw [Double.isNegative_ofRank _ bounded, ofFloat, negative_ofDecimal, shown, Bool.or_true,
    Bool.and_true]

end Numeral

end Kata
