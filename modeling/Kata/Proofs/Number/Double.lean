/-
# Ranks are numbers

The ranks from zero to that of infinity all belong to numbers, so nothing that is read from
digits is not-a-number. The bits of a double say so: not-a-number has all exponent bits set
and some mantissa bit, and infinity is the greatest magnitude with none.
-/

import Kata.Number.Numeral
import Mathlib

namespace Kata

namespace Double

open Float.Model (Format)
open Float.Model.UnpackedFloat

/-- A double keeps the bits it is made of unless they are those of not-a-number. -/
theorem toBits_ofBits {w : UInt64} (number : @isNaNBits .binary64 w.toBitVec = false) :
    (Float.ofBits w).toBits = w := by
  have valid : Format.binary64.Valid w.toBitVec := by
    constructor
    intro top filled
    simp [isNaNBits, top, filled] at number
  exact UInt64.toBitVec_inj.mp (pack_unpack_of_valid valid)

/-- A word is read as a number unless its bits are those of not-a-number. -/
theorem isNaN_ofBits {w : UInt64}
    (number : @isNaNBits .binary64 w.toBitVec = false) :
    (Float.ofBits w).isNaN = false := by
  have kept : (Float.ofBits w).toModel.toBits = w := toBits_ofBits number
  -- Of all bits that mean not-a-number, a double has only the canonical ones.
  rw [Bool.eq_false_iff]
  intro absent
  have canonical : (Float.ofBits w).toModel.toBits.toBitVec = packedNaN .binary64 :=
    (isNaN_unpack_iff_of_valid (Float.ofBits w).toModel.valid).mp absent
  rw [← kept, canonical, isNaNBits_packedNaN] at number
  simp at number

theorem isNaNBits_iff (w : UInt64) :
    @isNaNBits .binary64 w.toBitVec = true ↔
      w.toNat / 2 ^ 52 % 2 ^ 11 = 2 ^ 11 - 1 ∧ w.toNat % 2 ^ 52 ≠ 0 := by
  rw [isNaNBits, decide_eq_true_iff, unpackExponent_def, unpackMantissa_def,
    ← BitVec.toNat_ne_iff_ne, ← BitVec.toNat_inj]
  simp [Nat.shiftRight_eq_div_pow]

/-- The word of a sign and a rank up to that of infinity. -/
theorem isNaNBits_word (negative : Bool) {rank : Nat} (bounded : rank ≤ infinityRank) :
    @isNaNBits .binary64
      (UInt64.ofNat ((if negative then Nat.pow 2 63 else 0) + rank)).toBitVec = false := by
  rw [Bool.eq_false_iff, ne_eq, isNaNBits_iff, UInt64.toNat_ofNat']
  simp only [infinityRank, Nat.pow_eq] at bounded ⊢
  cases negative <;> simp only [Bool.false_eq_true, if_true, if_false] <;> omega

/-- The ranks up to infinity belong to numbers. -/
theorem isNaN_ofRank (negative : Bool) {rank : Nat} (bounded : rank ≤ infinityRank) :
    (ofRank negative rank).isNaN = false :=
  isNaN_ofBits (isNaNBits_word negative bounded)

theorem nearestRank_le (num den : Nat) : nearestRank num den ≤ infinityRank :=
  Nat.min_le_right ..

end Double

namespace Decimal

theorem nearestRank_le (d : Decimal) : d.nearestRank ≤ Double.infinityRank := by
  rw [nearestRank]
  split
  · exact Nat.zero_le _
  · split
    · exact Nat.le_refl _
    · split
      · exact Nat.zero_le _
      · exact Double.nearestRank_le ..

end Decimal

/-- Numerals are numbers, beyond the finite ones infinite. -/
theorem Numeral.isNaN_toFloat (n : Numeral) : n.toFloat.isNaN = false :=
  Double.isNaN_ofRank n.negative n.decimal.nearestRank_le

end Kata
