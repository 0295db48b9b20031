/-
# Rounding stays close

A quotient is rounded to a number of steps of a power of two. That number is within half a
step of the quotient, so the nearest double is never much greater: by a part in `2 ^ 53` where
doubles are spaced by their leading bit, and at most twice as great anywhere. A quotient less
than half a step beyond the greatest finite double is rounded to a finite one.
-/

import Kata.Number.Double
import Mathlib.Order.Monotone.Basic
import Mathlib.Tactic.Ring

namespace Kata.Double

variable {num den rank : Nat}

theorem unitsInOne_pos : 0 < unitsInOne := by
  apply Nat.pow_pos
  decide

/-! ## Steps of ranks -/

/-- The magnitude at a number of steps that fills a significand. -/
theorem units_steps {steps count : Nat} (most : count ≤ 2 ^ 53)
    (least : steps = 0 ∨ 2 ^ 52 ≤ count) :
    units (steps * 2 ^ 52 + count) = count * 2 ^ steps := by
  rcases Nat.eq_or_lt_of_le most with rfl | below
  · -- A full significand is the first one of the next binade.
    have carried : binade (steps * 2 ^ 52 + 2 ^ 53) = steps + 1 := by
      simp only [binade, Nat.pow_eq]
      omega
    have rest : steps * 2 ^ 52 + 2 ^ 53 - (steps + 1) * 2 ^ 52 = 2 ^ 52 := by omega
    simp only [units, carried, Nat.pow_eq, rest]
    rw [Nat.pow_succ]
    omega
  · have kept : binade (steps * 2 ^ 52 + count) = steps := by
      simp only [binade, Nat.pow_eq]
      omega
    have rest : steps * 2 ^ 52 + count - steps * 2 ^ 52 = count := by omega
    simp only [units, kept, Nat.pow_eq, rest]

/-- From one rank to the next it is one step of the binade. -/
theorem units_succ (rank : Nat) : units (rank + 1) = units rank + 2 ^ binade rank := by
  obtain ⟨count, below, shape, least⟩ : ∃ count < 2 ^ 53,
      rank = binade rank * 2 ^ 52 + count ∧ (binade rank = 0 ∨ 2 ^ 52 ≤ count) :=
    ⟨rank - binade rank * 2 ^ 52, by simp only [binade, Nat.pow_eq]; omega⟩
  generalize binade rank = steps at shape least ⊢
  rw [shape, Nat.add_assoc, units_steps below (by omega), units_steps (by omega) (by omega),
    Nat.add_one_mul]

theorem units_strictMono : StrictMono units := by
  refine strictMono_nat_of_lt_succ fun rank => ?_
  rw [units_succ]
  exact Nat.lt_add_of_pos_right (Nat.two_pow_pos _)

theorem units_mono : Monotone units := units_strictMono.monotone

/-! ## Rounding to a natural number -/

theorem le_divNearest (num den : Nat) : num / den ≤ divNearest num den := by
  simp only [divNearest]
  split <;> omega

theorem divNearest_le (num den : Nat) : divNearest num den ≤ num / den + 1 := by
  simp only [divNearest]
  split <;> omega

/-- The nearest number is within a half. -/
theorem two_mul_divNearest_le (num den : Nat) : 2 * (divNearest num den * den) ≤ 2 * num + den := by
  have parts := Nat.div_add_mod' num den
  simp only [divNearest]
  split
  · rename_i up
    have half : den ≤ 2 * (num % den) := by
      simp only [Bool.or_eq_true, decide_eq_true_eq, Bool.and_eq_true, beq_iff_eq] at up
      omega
    have next : (num / den + 1) * den = num / den * den + den := Nat.add_one_mul ..
    omega
  · omega

/-! ## Rounding to a rank -/

/-- The doublings of the step in which a quotient is counted. They leave fifty-three bits. -/
def stepsFor (num den : Nat) : Nat := (num / den).log2 - 52

/-- A quotient counted in its steps. -/
def countFor (num den : Nat) : Nat := divNearest num (den * 2 ^ stepsFor num den)

theorem nearestRank_eq (num den : Nat) :
    nearestRank num den = min (stepsFor num den * 2 ^ 52 + countFor num den) infinityRank := rfl

theorem quotient_lt (num den : Nat) : num / (den * 2 ^ stepsFor num den) < 2 ^ 53 := by
  rw [← Nat.div_div_eq_div_mul, Nat.div_lt_iff_lt_mul (Nat.two_pow_pos _), ← Nat.pow_add]
  have top : num / den < 2 ^ ((num / den).log2 + 1) := Nat.lt_log2_self
  exact lt_of_lt_of_le top (Nat.pow_le_pow_right (by decide) (by rw [stepsFor]; omega))

theorem le_quotient (num den : Nat) :
    stepsFor num den = 0 ∨ 2 ^ 52 ≤ num / (den * 2 ^ stepsFor num den) := by
  rcases Nat.eq_zero_or_pos (stepsFor num den) with none | some_
  · exact .inl none
  · right
    have large : num / den ≠ 0 := by
      intro zero
      simp [stepsFor, zero] at some_
    have sum : 52 + stepsFor num den = (num / den).log2 := by
      rw [stepsFor] at some_ ⊢
      omega
    rw [← Nat.div_div_eq_div_mul, Nat.le_div_iff_mul_le (Nat.two_pow_pos _), ← Nat.pow_add, sum]
    exact Nat.log2_self_le large

/-- The magnitude at a nearest rank below infinity, in steps. -/
theorem units_nearestRank (finite : nearestRank num den < infinityRank) :
    units (nearestRank num den) = countFor num den * 2 ^ stepsFor num den := by
  have shape : nearestRank num den = stepsFor num den * 2 ^ 52 + countFor num den := by
    rw [nearestRank_eq] at finite ⊢
    omega
  have bounds := And.intro (quotient_lt num den) (le_quotient num den)
  have low : _ ≤ countFor num den := le_divNearest _ _
  have high : countFor num den ≤ _ := divNearest_le _ _
  rw [shape]
  exact units_steps (by omega) (by omega)

/-- A power of two below a quotient is below the nearest double. -/
theorem two_pow_le_units (finite : nearestRank num den < infinityRank) {k : Nat}
    (least : 2 ^ k ≤ num / den) : 2 ^ k ≤ units (nearestRank num den) := by
  rw [units_nearestRank finite]
  have low : num / (den * 2 ^ stepsFor num den) ≤ countFor num den := le_divNearest _ _
  by_cases fine : stepsFor num den ≤ k
  · have split : 2 ^ (k - stepsFor num den) * 2 ^ stepsFor num den = 2 ^ k := by
      rw [← Nat.pow_add]
      congr 1
      omega
    rw [← Nat.div_div_eq_div_mul] at low
    rw [← split] at least ⊢
    exact Nat.mul_le_mul_right _
      (((Nat.le_div_iff_mul_le (Nat.two_pow_pos _)).mpr least).trans low)
  · have large : 2 ^ 52 ≤ countFor num den := by
      have bound := le_quotient num den
      omega
    calc 2 ^ k ≤ 2 ^ stepsFor num den := Nat.pow_le_pow_right (by decide) (by omega)
      _ ≤ countFor num den * 2 ^ stepsFor num den := Nat.le_mul_of_pos_left _ (by omega)

theorem unitsInOne_le_units (finite : nearestRank num den < infinityRank)
    (least : unitsInOne ≤ num / den) : unitsInOne ≤ units (nearestRank num den) := by
  unfold unitsInOne at least ⊢
  exact two_pow_le_units finite least

/-- No nearest double is more than twice as great, but for one unit. -/
theorem units_nearestRank_le (finite : nearestRank num den < infinityRank) :
    units (nearestRank num den) ≤ 2 * (num / den) + 1 := by
  rw [units_nearestRank finite]
  have high : countFor num den ≤ num / (den * 2 ^ stepsFor num den) + 1 := divNearest_le _ _
  rcases le_quotient num den with single | large
  · rw [single, Nat.pow_zero, Nat.mul_one] at high ⊢
    omega
  · have back : num / (den * 2 ^ stepsFor num den) * 2 ^ stepsFor num den ≤ num / den := by
      rw [← Nat.div_div_eq_div_mul]
      exact Nat.div_mul_le_self _ _
    calc countFor num den * 2 ^ stepsFor num den
        ≤ (2 * (num / (den * 2 ^ stepsFor num den))) * 2 ^ stepsFor num den :=
          Nat.mul_le_mul_right _ (by omega)
      _ ≤ 2 * (num / den) := by
          rw [Nat.mul_assoc]
          exact Nat.mul_le_mul_left 2 back
      _ ≤ 2 * (num / den) + 1 := Nat.le_succ _

/-- Where a double has fifty-three bits, the nearest one is within a part in `2 ^ 53`. -/
theorem units_nearestRank_mul_le (finite : nearestRank num den < infinityRank)
    (normal : 2 ^ 52 * den ≤ num) (positive : 0 < den) :
    units (nearestRank num den) * den * 2 ^ 53 ≤ num * (2 ^ 53 + 1) := by
  rw [units_nearestRank finite]
  have close : 2 * (countFor num den * (den * 2 ^ stepsFor num den)) ≤
      2 * num + den * 2 ^ stepsFor num den := two_mul_divNearest_le _ _
  have step : 2 ^ 52 * (den * 2 ^ stepsFor num den) ≤ num := by
    rcases le_quotient num den with single | large
    · simpa [single] using normal
    · exact (Nat.le_div_iff_mul_le (Nat.mul_pos positive (Nat.two_pow_pos _))).mp large
  calc countFor num den * 2 ^ stepsFor num den * den * 2 ^ 53
      = countFor num den * (den * 2 ^ stepsFor num den) * 2 ^ 53 := by ring
    _ ≤ num * (2 ^ 53 + 1) := by omega

/-- A quotient that is more than half a step short of filling the significand does not fill it. -/
theorem countFor_lt {k : Nat} (steps : stepsFor num den = k + 1)
    (short : num < (2 ^ 54 - 1) * (den * 2 ^ k)) : countFor num den < 2 ^ 53 := by
  have close : 2 * (countFor num den * (den * 2 ^ stepsFor num den)) ≤
      2 * num + den * 2 ^ stepsFor num den := two_mul_divNearest_le _ _
  have width : den * 2 ^ stepsFor num den = 2 * (den * 2 ^ k) := by
    rw [steps, Nat.pow_succ', Nat.mul_left_comm]
  by_contra filled
  have least := Nat.mul_le_mul_right (2 * (den * 2 ^ k)) (Nat.le_of_not_lt filled)
  rw [width] at close
  omega

/-- Half a step between the greatest doubles. -/
def halfStep : Nat := 2 ^ 2044

theorem halfStep_pos : 0 < halfStep := by
  apply Nat.pow_pos
  decide

/-- The magnitude half a step beyond the greatest finite double. -/
def overflow : Nat := (2 ^ 54 - 1) * halfStep

/-- What is less than half a step beyond the finite doubles is rounded to one of them. -/
theorem nearestRank_lt (positive : 0 < den) (below : num < overflow * den) :
    nearestRank num den < infinityRank := by
  have top : infinityRank = 2047 * 2 ^ 52 := rfl
  have high : countFor num den ≤ _ := divNearest_le _ _
  have quotient := quotient_lt num den
  have steps : stepsFor num den ≤ 2045 := by
    have small : num / den < 2 ^ (54 + 2044) := by
      rw [Nat.div_lt_iff_lt_mul positive]
      refine below.trans_le (Nat.mul_le_mul_right den ?_)
      rw [overflow, halfStep, Nat.pow_add]
      apply Nat.mul_le_mul_right
      omega
    rcases Nat.eq_zero_or_pos (num / den) with none | some_
    · simp [stepsFor, none]
    · have bits := (Nat.log2_lt some_.ne').mpr small
      rw [stepsFor]
      omega
  have rank : stepsFor num den * 2 ^ 52 + countFor num den < infinityRank := by
    rcases Nat.lt_or_ge (stepsFor num den) 2045 with fewer | last
    · omega
    · -- Only the last binade can carry over, and only from the upper half of its last step.
      rw [overflow, halfStep, Nat.mul_assoc, Nat.mul_comm _ den] at below
      have fits := countFor_lt (Nat.le_antisymm steps last) below
      omega
  rw [nearestRank_eq]
  omega

end Kata.Double
