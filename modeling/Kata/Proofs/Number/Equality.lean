/-
# When doubles are equal

A double is its rank and its sign. Doubles are equal if they are the same, unless they are
not-a-number, and the two zeros are equal as well. So equality is sameness once not-a-number is
out and negative zero is replaced by zero.
-/

import Kata.Proofs.Number.Double

namespace Kata.Double

variable {x y : Float}

theorem toNat_toBits (x : Float) :
    x.toBits.toNat = (if isNegative x then 2 ^ 63 else 0) + rank x := by
  have bound := x.toBits.toNat_lt
  simp only [isNegative, rank, Nat.pow_eq, decide_eq_true_eq]
  split <;> omega

/-- A double is told by its rank and its sign. -/
theorem eq_of_rank_eq (magnitude : rank x = rank y) (sign : isNegative x = isNegative y) :
    x = y := by
  rw [← Float.toBits_inj, ← UInt64.toNat_inj, toNat_toBits, toNat_toBits, magnitude, sign]

/-- A double has the sign and the rank that it is made of. -/
theorem parts_ofRank (negative : Bool) {place : Nat} (bounded : place ≤ infinityRank) :
    isNegative (ofRank negative place) = negative ∧ rank (ofRank negative place) = place := by
  have kept := toBits_ofBits (isNaNBits_word negative bounded)
  rw [isNegative, rank, ofRank, kept, UInt64.toNat_ofNat']
  simp only [infinityRank, Nat.pow_eq] at bounded ⊢
  cases negative <;> simp only [Bool.false_eq_true, if_true, if_false, decide_eq_true_eq,
    decide_eq_false_iff_not] <;> omega

theorem isNegative_ofRank (negative : Bool) {place : Nat} (bounded : place ≤ infinityRank) :
    isNegative (ofRank negative place) = negative :=
  (parts_ofRank negative bounded).1

theorem rank_ofRank (negative : Bool) {place : Nat} (bounded : place ≤ infinityRank) :
    rank (ofRank negative place) = place :=
  (parts_ofRank negative bounded).2

theorem isNaN_eq_false_iff : x.isNaN = false ↔ x ≠ Float.nan := by
  rw [Float.isNaN_eq_decide_eq_nan, decide_eq_false_iff_not]

/-- Beyond infinity there is nothing but not-a-number. -/
theorem rank_le_infinityRank (number : x.isNaN = false) : rank x ≤ infinityRank := by
  by_contra beyond
  have bound := x.toBits.toNat_lt
  have bits : @Float.Model.UnpackedFloat.isNaNBits .binary64 x.toBits.toBitVec = true := by
    rw [isNaNBits_iff]
    simp only [rank, infinityRank, Nat.pow_eq] at beyond
    omega
  rw [Float.Model.UnpackedFloat.isNaNBits, decide_eq_true_iff] at bits
  have canonical : x.toBits.toBitVec = Float.Model.UnpackedFloat.packedNaN .binary64 :=
    x.toModel.valid.eq_packedNaN bits.1 bits.2
  exact isNaN_eq_false_iff.mp number (Float.toBits_inj.mp (UInt64.toBitVec_inj.mp canonical))

theorem rank_eq_infinityRank (number : x.isNaN = false) (infinite : isFinite x = false) :
    rank x = infinityRank := by
  have bound := rank_le_infinityRank number
  simp only [isFinite, decide_eq_false_iff_not] at infinite
  omega

theorem isNaN_of_isFinite (finite : isFinite x = true) : x.isNaN = false := by
  rw [isNaN_eq_false_iff]
  rintro rfl
  exact absurd finite (by decide)

/-! ## Zeros -/

theorem beq_zero_iff : (x == 0) = true ↔ x = 0 ∨ x = -0 := by
  have zero : (0 : Float) ≠ Float.nan := by decide
  have negative : (-0 : Float) ≠ Float.nan := by decide
  have other : (0 : Float) ≠ -0 := by decide
  rw [Float.beq_iff_ne_nan_and_eq]
  constructor
  · rintro ⟨-, -, rfl | ⟨-, same⟩ | ⟨rfl, -⟩⟩
    · exact .inl rfl
    · exact absurd same other
    · exact .inr rfl
  · rintro (rfl | rfl)
    · exact ⟨zero, zero, .inl rfl⟩
    · exact ⟨negative, zero, .inr (.inr ⟨rfl, rfl⟩)⟩

/-- The two doubles of rank zero are the zeros. -/
theorem rank_eq_zero_iff : rank x = 0 ↔ (x == 0) = true := by
  have zero : rank 0 = 0 ∧ isNegative 0 = false := by decide
  have negative : rank (-0) = 0 ∧ isNegative (-0) = true := by decide
  rw [beq_zero_iff]
  constructor
  · intro none
    cases sign : isNegative x with
    | false => exact .inl (eq_of_rank_eq (none.trans zero.1.symm) (sign.trans zero.2.symm))
    | true => exact .inr (eq_of_rank_eq (none.trans negative.1.symm) (sign.trans negative.2.symm))
  · rintro (rfl | rfl)
    · exact zero.1
    · exact negative.1

/-- The double, or zero if it is a zero of either sign. -/
def unsignedZero (x : Float) : Float := if x == 0 then 0 else x

theorem unsignedZero_eq_iff :
    unsignedZero x = unsignedZero y ↔ x = y ∨ ((x == 0) = true ∧ (y == 0) = true) := by
  have alone {z : Float} (other : ¬(z == 0) = true) : z ≠ 0 := by
    rintro rfl
    exact other (beq_zero_iff.mpr (.inl rfl))
  rw [unsignedZero, unsignedZero]
  constructor
  · intro same
    split at same <;> split at same
    · exact .inr ⟨‹_›, ‹_›⟩
    · exact absurd same.symm (alone ‹_›)
    · exact absurd same (alone ‹_›)
    · exact .inl same
  · rintro (rfl | ⟨first, second⟩)
    · rfl
    · rw [if_pos first, if_pos second]

/-- Doubles of one rank that have the same sign where it matters differ at most in the sign of
zero. -/
theorem unsignedZero_eq_of_rank_eq (magnitude : rank x = rank y)
    (sign : rank x ≠ 0 → isNegative x = isNegative y) : unsignedZero x = unsignedZero y := by
  rw [unsignedZero_eq_iff]
  by_cases zero : rank x = 0
  · exact .inr ⟨rank_eq_zero_iff.mp zero, rank_eq_zero_iff.mp (magnitude ▸ zero)⟩
  · exact .inl (eq_of_rank_eq magnitude (sign zero))

theorem isNaN_unsignedZero (x : Float) : (unsignedZero x).isNaN = x.isNaN := by
  rw [unsignedZero]
  split
  · rename_i zero
    have number : (0 : Float).isNaN = false ∧ (-0 : Float).isNaN = false := by decide
    rcases beq_zero_iff.mp zero with rfl | rfl
    · rfl
    · rw [number.1, number.2]
  · rfl

/-- Numbers are equal if they differ at most in the sign of zero. -/
theorem beq_iff : (x == y) = true ↔ x.isNaN = false ∧ unsignedZero x = unsignedZero y := by
  rw [unsignedZero_eq_iff]
  constructor
  · intro equal
    obtain ⟨number, -, same⟩ := Float.beq_iff_ne_nan_and_eq.mp equal
    refine ⟨isNaN_eq_false_iff.mpr number, ?_⟩
    simp only [beq_zero_iff]
    tauto
  · rintro ⟨number, rfl | ⟨zero, zero'⟩⟩
    · exact Float.beq_self_iff.mpr (isNaN_eq_false_iff.mp number)
    · rcases beq_zero_iff.mp zero with rfl | rfl <;>
        rcases beq_zero_iff.mp zero' with rfl | rfl <;> decide

end Kata.Double
