/-
# Finite numbers stay finite

A finite number that is written out is read back as a finite number, if not always as the
same one. The digits that a reader takes make no more than the number written, and every
rounding on the way adds little. Only next to the end of the doubles is that too much, and the
numbers there are few enough to be looked at one by one.
-/

import Kata.Json.Number
import Kata.Proofs.Number.Magnitude

namespace Kata.Json

/-! ## Leading digits -/

variable {significand : Nat} {digits : List Char}

theorem ofDigitChars_cons_eq (c : Char) (rest : List Char) (start : Nat) :
    Nat.ofDigitChars 10 (c :: rest) start =
      Nat.ofDigitChars 10 rest (Nat.ofDigitChars 10 [c] start) :=
  Nat.ofDigitChars_append (l := [c]) start

theorem mul_pow_le_ofDigitChars (start : Nat) (digits : List Char) :
    start * 10 ^ digits.length ≤ Nat.ofDigitChars 10 digits start := by
  rw [Nat.ofDigitChars_eq_ofDigitChars_zero, Nat.mul_comm]
  exact Nat.le_add_right _ _

/-- The digits taken make no more than all of them. -/
theorem lengthen_mul_pow_le (significand : Nat) (digits : List Char) :
    (lengthen significand digits).1 * 10 ^ (lengthen significand digits).2 ≤
      Nat.ofDigitChars 10 digits significand := by
  induction digits generalizing significand with
  | nil => simp [lengthen]
  | cons c rest ih =>
      rw [lengthen]
      split
      · rw [ofDigitChars_cons_eq]
        exact ih _
      · exact mul_pow_le_ofDigitChars significand (c :: rest)

/-- All digits are taken if what they make fits. -/
theorem lengthen_of_lt (fits : Nat.ofDigitChars 10 digits significand < significandBound) :
    lengthen significand digits = (Nat.ofDigitChars 10 digits significand, 0) := by
  induction digits generalizing significand with
  | nil => simp [lengthen]
  | cons c rest ih =>
      rw [ofDigitChars_cons_eq] at fits ⊢
      have part : Nat.ofDigitChars 10 [c] significand ≤ _ :=
        (Nat.le_mul_of_pos_right _ (Nat.pow_pos (by decide))).trans
          (mul_pow_le_ofDigitChars (Nat.ofDigitChars 10 [c] significand) rest)
      rw [lengthen, if_pos (part.trans_lt fits), ih fits]

/-- Digits make less than the next power of ten. -/
theorem ofDigitChars_lt (all : ∀ c ∈ digits, c.isDigit = true) (start : Nat) :
    Nat.ofDigitChars 10 digits start < (start + 1) * 10 ^ digits.length := by
  induction digits generalizing start with
  | nil => simp
  | cons c rest ih =>
      obtain ⟨digit, later⟩ := List.forall_mem_cons.mp all
      have least : c.toNat - '0'.toNat < 10 := by
        simp only [Char.isDigit, Bool.and_eq_true, decide_eq_true_eq, ge_iff_le,
          UInt32.le_iff_toNat_le] at digit
        have top : c.toNat ≤ 57 := digit.2
        change c.toNat - 48 < 10
        omega
      rw [Nat.ofDigitChars_cons, List.length_cons, Nat.pow_succ']
      calc Nat.ofDigitChars 10 rest (10 * start + (c.toNat - '0'.toNat))
          < (10 * start + (c.toNat - '0'.toNat) + 1) * 10 ^ rest.length := ih later _
        _ ≤ ((start + 1) * 10) * 10 ^ rest.length := Nat.mul_le_mul_right _ (by omega)
        _ = (start + 1) * (10 * 10 ^ rest.length) := Nat.mul_assoc _ _ _

theorem significant_eq (n : Numeral) :
    significant n =
      let whole := lengthen 0 n.whole
      let taken := lengthen whole.1 n.fraction
      ⟨taken.1, n.exponent.getD 0 + whole.2 - (n.fraction.length - taken.2 : Int)⟩ := rfl

theorem digits_significant_lt (n : Numeral) : (significant n).digits < significandBound :=
  lengthen_lt (lengthen_lt (by decide) n.whole) n.fraction

/-- Where all whole digits are taken, what is taken is no more than the numeral. -/
theorem value_significant_le {n : Numeral} (all : ∀ c ∈ n.whole, c.isDigit = true)
    (short : n.whole.length ≤ 19) : (significant n).value ≤ n.decimal.value := by
  have fits : Nat.ofDigitChars 10 n.whole 0 < significandBound := by
    have bound := ofDigitChars_lt all 0
    have power : 10 ^ n.whole.length ≤ 10 ^ 19 := Nat.pow_le_pow_right (by decide) short
    have room : 10 ^ 19 < significandBound := by decide
    omega
  have taken := lengthen_mul_pow_le (Nat.ofDigitChars 10 n.whole 0) n.fraction
  rw [← Nat.ofDigitChars_append] at taken
  rw [significant_eq, lengthen_of_lt fits, Numeral.decimal]
  simp only [Decimal.value]
  generalize lengthen (Nat.ofDigitChars 10 n.whole 0) n.fraction = found at taken ⊢
  obtain ⟨count, left⟩ := found
  simp only at taken
  have scale : (10 : ℚ) ^ (n.exponent.getD 0 + (0 : Nat) - (n.fraction.length - left : Int)) =
      10 ^ left * 10 ^ (n.exponent.getD 0 - n.fraction.length : Int) := by
    rw [← zpow_natCast, ← zpow_add₀ (by decide)]
    congr 1
    push_cast
    ring
  rw [scale, ← mul_assoc]
  refine mul_le_mul_of_nonneg_right ?_ (by positivity)
  exact_mod_cast taken

theorem length_whole_ofDecimal_le (negative : Bool) (d : Decimal) :
    (Numeral.ofDecimal numberStyle negative d).whole.length ≤ 16 := by
  simp only [Numeral.ofDecimal]
  have style : numberStyle.greatestPlain = 15 := rfl
  split
  · simp
  · rename_i plain
    simp only [style, Bool.or_eq_true, decide_eq_true_eq, not_or] at plain
    split
    · simp
      omega
    · split
      · simp
        omega
      · simp

/-- What a reader takes of a written number is at most half a step above it. -/
theorem two_mul_value_significant_le (negative : Bool) (tie : Tie) (rank : Nat) :
    2 * (significant (Numeral.ofDecimal numberStyle negative (Decimal.ofRank tie rank))).value *
        Double.unitsInOne ≤ Double.units rank + Double.units (rank + 1) := by
  have strict := Numeral.strict_ofRank numberStyle negative tie rank
  have taken := value_significant_le strict.whole_digits
    ((length_whole_ofDecimal_le ..).trans (by decide))
  rw [Numeral.value_decimal_ofDecimal] at taken
  refine le_trans ?_ (Decimal.two_mul_value_ofRank_le tie rank)
  exact mul_le_mul_of_nonneg_right (mul_le_mul_of_nonneg_left taken (by norm_num))
    (Nat.cast_nonneg _)

/-! ## Roundings on the way -/

open Double (units unitsInOne halfStep overflow infinityRank)

theorem nearestRank_whole {count places : Nat} (some_ : count ≠ 0) (few : places ≤ greatestTens) :
    Decimal.nearestRank ⟨count, places⟩ =
      Double.nearestRank (count * 10 ^ places * unitsInOne) 1 := by
  have noMore : ¬(309 : Int) ≤ places := by
    rw [greatestTens] at few
    omega
  have noLess : ¬(places : Int) + count.log2 < -330 := by omega
  rw [Decimal.nearestRank, if_neg some_, if_neg noMore, if_neg noLess]
  simp [Decimal.tensAbove, Decimal.tensBelow]

/-- A whole number below the end of the doubles is read as a double that is hardly greater. -/
theorem nearestRank_whole_bounds {count places : Nat} (some_ : count ≠ 0)
    (few : places ≤ greatestTens) (below : count * 10 ^ places * unitsInOne < overflow) :
    Decimal.nearestRank ⟨count, places⟩ < infinityRank ∧
      unitsInOne ≤ units (Decimal.nearestRank ⟨count, places⟩) ∧
      units (Decimal.nearestRank ⟨count, places⟩) * 2 ^ 53 ≤
        count * 10 ^ places * unitsInOne * (2 ^ 53 + 1) := by
  rw [nearestRank_whole some_ few]
  have least : unitsInOne ≤ count * 10 ^ places * unitsInOne :=
    Nat.le_mul_of_pos_left _ (Nat.mul_pos (Nat.pos_of_ne_zero some_) (Nat.pow_pos (by decide)))
  have normal : 2 ^ 52 ≤ unitsInOne := by
    apply Nat.pow_le_pow_right <;> decide
  have finite := Double.nearestRank_lt Nat.one_pos (below.trans_eq (Nat.mul_one _).symm)
  have close := Double.units_nearestRank_mul_le finite
    ((Nat.mul_one _).trans_le (normal.trans least)) Nat.one_pos
  rw [Nat.mul_one] at close
  exact ⟨finite, Double.unitsInOne_le_units finite (least.trans_eq (Nat.div_one _).symm), close⟩

/-- A product of magnitudes that stays clear of the end of the doubles is finite, though both
magnitudes were rounded. -/
theorem productRank_lt {a b first second : Nat} (closeA : units a * 2 ^ 53 ≤ first * (2 ^ 53 + 1))
    (closeB : units b * 2 ^ 53 ≤ second * (2 ^ 53 + 1))
    (clear : first * second ≤ (2 ^ 54 - 5) * (halfStep * unitsInOne)) :
    Double.productRank a b < infinityRank := by
  apply Double.nearestRank_lt Double.unitsInOne_pos
  have product : units a * units b * 2 ^ 106 ≤ first * second * (2 ^ 53 + 1) ^ 2 := by
    calc units a * units b * 2 ^ 106 = (units a * 2 ^ 53) * (units b * 2 ^ 53) := by ring
      _ ≤ (first * (2 ^ 53 + 1)) * (second * (2 ^ 53 + 1)) := Nat.mul_le_mul closeA closeB
      _ = first * second * (2 ^ 53 + 1) ^ 2 := by ring
  have step : 0 < halfStep * unitsInOne := Nat.mul_pos Double.halfStep_pos Double.unitsInOne_pos
  rw [overflow, Nat.mul_assoc]
  omega

/-- The quotient of a magnitude by at least one is finite again and at most twice as great. -/
theorem quotientRank_bounds {a b : Nat} (finite : units a < overflow) (one : unitsInOne ≤ units b) :
    Double.quotientRank a b < infinityRank ∧
      units (Double.quotientRank a b) ≤ 2 * units a + 1 := by
  have positive : 0 < units b := Double.unitsInOne_pos.trans_le one
  have smaller : units a * unitsInOne ≤ units a * units b := Nat.mul_le_mul_left _ one
  have result : Double.quotientRank a b < infinityRank :=
    Double.nearestRank_lt positive (smaller.trans_lt (Nat.mul_lt_mul_of_pos_right finite positive))
  have most : units a * unitsInOne / units b ≤ units a := by
    exact Nat.div_le_of_le_mul (smaller.trans_eq (Nat.mul_comm _ _))
  have twice := Double.units_nearestRank_le result
  exact ⟨result, by rw [Double.quotientRank] at *; omega⟩

/-- The powers of ten that a reader takes are finite doubles from one on. -/
theorem tensRank_bounds {places : Nat} (few : places ≤ greatestTens) :
    tensRank places < infinityRank ∧ unitsInOne ≤ units (tensRank places) ∧
      units (tensRank places) * 2 ^ 53 ≤ 10 ^ places * unitsInOne * (2 ^ 53 + 1) := by
  have below : 1 * 10 ^ places * unitsInOne < overflow := by
    have greatest : 1 * 10 ^ greatestTens * unitsInOne < overflow := by decide +kernel
    refine lt_of_le_of_lt ?_ greatest
    exact Nat.mul_le_mul_right _ (Nat.mul_le_mul_left _ (Nat.pow_le_pow_right (by decide) few))
  have bounds := nearestRank_whole_bounds Nat.one_ne_zero few below
  rwa [Nat.one_mul] at bounds

/-- A magnitude far below the end of the doubles stays finite on its way down. -/
theorem loweredRank_lt {rank : Nat} (small : 2 * units rank + 1 < overflow) (places : Nat) :
    loweredRank rank places < infinityRank := by
  rw [loweredRank]
  split
  · rename_i few
    exact (quotientRank_bounds (by omega) (tensRank_bounds few).2.1).1
  · have first := quotientRank_bounds (a := rank) (by omega)
      (tensRank_bounds (Nat.le_refl greatestTens)).2.1
    exact (quotientRank_bounds (first.2.trans_lt small)
      (tensRank_bounds (Nat.min_le_right _ greatestTens)).2.1).1

/-- A significand is read as a double that is hardly greater. -/
theorem significandRank_bounds {count : Nat} (fits : count < significandBound) :
    units (Decimal.nearestRank ⟨count, 0⟩) * 2 ^ 53 ≤ count * unitsInOne * (2 ^ 53 + 1) ∧
      2 * units (Decimal.nearestRank ⟨count, 0⟩) + 1 < overflow := by
  have room : 4 * (significandBound * unitsInOne) + 1 < overflow := by decide +kernel
  have most : count * unitsInOne ≤ significandBound * unitsInOne :=
    Nat.mul_le_mul_right _ fits.le
  have close : units (Decimal.nearestRank ⟨count, 0⟩) * 2 ^ 53 ≤
      count * unitsInOne * (2 ^ 53 + 1) := by
    rcases Nat.eq_zero_or_pos count with rfl | some_
    · exact (Nat.zero_mul _).trans_le (Nat.zero_le _)
    · have below : count * 10 ^ 0 * unitsInOne < overflow := by
        rw [Nat.pow_zero, Nat.mul_one]
        omega
      have bounds := nearestRank_whole_bounds some_.ne' (Nat.zero_le _) below
      rw [Nat.pow_zero, Nat.mul_one] at bounds
      exact bounds.2.2
  exact ⟨close, by omega⟩

/-- A significand that is scaled to at most the third greatest double stays finite. -/
theorem scaledRank_lt {d : Decimal} (fits : d.digits < significandBound)
    (clear : d.value * unitsInOne ≤ ((2 ^ 54 - 5) * halfStep : Nat)) :
    scaledRank d < infinityRank := by
  obtain ⟨count, exponent⟩ := d
  obtain ⟨close, small⟩ := significandRank_bounds fits
  rw [scaledRank]
  split
  · rename_i up
    obtain ⟨places, rfl⟩ := Int.eq_ofNat_of_zero_le up
    rcases Nat.eq_zero_or_pos count with rfl | some_
    · apply Double.nearestRank_lt Double.unitsInOne_pos
      have nothing : units (Decimal.nearestRank ⟨0, 0⟩) = 0 := rfl
      rw [nothing, Nat.zero_mul]
      exact Nat.mul_pos (by decide +kernel) Double.unitsInOne_pos
    · have product : count * 10 ^ places * unitsInOne ≤ (2 ^ 54 - 5) * halfStep := by
        simp only [Decimal.value, zpow_natCast] at clear
        exact_mod_cast clear
      have few : places ≤ greatestTens := by
        by_contra more
        have beyond : (2 ^ 54 - 5) * halfStep < 1 * 10 ^ (greatestTens + 1) * unitsInOne := by
          decide +kernel
        have least : 1 * 10 ^ (greatestTens + 1) * unitsInOne ≤ count * 10 ^ places * unitsInOne :=
          Nat.mul_le_mul_right _ (Nat.mul_le_mul some_
            (Nat.pow_le_pow_right (by decide) (Nat.lt_of_not_le more)))
        omega
      apply productRank_lt close (tensRank_bounds few).2.2
      calc count * unitsInOne * (10 ^ places * unitsInOne)
          = count * 10 ^ places * unitsInOne * unitsInOne := by ring
        _ ≤ (2 ^ 54 - 5) * halfStep * unitsInOne := Nat.mul_le_mul_right _ product
        _ = (2 ^ 54 - 5) * (halfStep * unitsInOne) := Nat.mul_assoc _ _ _
  · exact loweredRank_lt small _

/-! ## Written numbers -/

/-- Up to the third greatest double, a number and the next one are clear of the end. -/
theorem units_add_units_succ_le {rank : Nat} (clear : rank + 3 ≤ infinityRank) :
    units rank + units (rank + 1) ≤ 2 * ((2 ^ 54 - 5) * halfStep) := by
  have third : units (infinityRank - 3) + units (infinityRank - 2) =
      2 * ((2 ^ 54 - 5) * halfStep) := by decide +kernel
  have here : units rank ≤ units (infinityRank - 3) := Double.units_mono (by omega)
  have next : units (rank + 1) ≤ units (infinityRank - 2) := Double.units_mono (by omega)
  omega

/-- The two greatest doubles are read back as finite ones. -/
theorem scaledRank_greatest_lt (negative : Bool) :
    ∀ rank ∈ [infinityRank - 2, infinityRank - 1],
      scaledRank (significant (Numeral.ofDecimal numberStyle negative
        (Decimal.ofRank numberStyle.tie rank))) < infinityRank := by
  cases negative <;> decide +kernel

/-- Every finite number is read back as a finite number. -/
theorem isSome_double?_ofFloat {x : Float} (finite : Double.isFinite x = true) :
    (double? (Numeral.ofFloat numberStyle x)).isSome = true := by
  have inRow : Double.rank x < infinityRank := by simpa [Double.isFinite] using finite
  suffices below : scaledRank (significant (Numeral.ofFloat numberStyle x)) < infinityRank by
    rw [double?, if_pos below]
    rfl
  rw [Numeral.ofFloat]
  generalize (Double.isNegative x && (numberStyle.signedZero || Double.rank x != 0)) = negative
  generalize Double.rank x = rank at inRow
  by_cases clear : rank + 3 ≤ infinityRank
  · apply scaledRank_lt (digits_significant_lt _)
    have bound := two_mul_value_significant_le negative numberStyle.tie rank
    have room : (units rank + units (rank + 1) : ℚ) ≤ 2 * ((2 ^ 54 - 5) * halfStep : Nat) := by
      exact_mod_cast units_add_units_succ_le clear
    linarith
  · apply scaledRank_greatest_lt
    rw [List.mem_cons, List.mem_singleton]
    omega

end Kata.Json
