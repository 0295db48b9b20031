/-
# Doubles are compared by rank

The bits of a finite double hold an exponent and a significand. The exponent is the binade of
its rank and the significand counts the steps within the binade, so what the bits are taken
apart into is known from the sign and the rank. Among magnitudes the later binade is greater,
and in one binade the greater significand, which together is the order of the ranks.
-/

import Kata.Proofs.Number.Equality

namespace Kata.Double

open Float.Model (UnpackedFloat)
open Float.Model.UnpackedFloat

variable {x y : Float} {a b : Nat}

/-- The sign that a sign bit stands for. -/
def sign (negative : Bool) : Sign := if negative then .negative else .positive

theorem significand_pos (positive : 0 < a) : 0 < a - binade a * 2 ^ 52 := by
  simp only [binade, Nat.pow_eq]
  omega

/-- The parts of the double of a sign and rank: its significand and its binade. -/
def parts (negative : Bool) (rank : Nat) : UnpackedFloat :=
  if positive : 0 < rank then
    if rank < infinityRank then
      .finite (sign negative) (rank - binade rank * 2 ^ 52) (binade rank - 1074)
        (significand_pos positive)
    else if rank = infinityRank then .infinity (sign negative)
    else .notANumber
  else .zero (sign negative)

theorem exponent_field (w : UInt64) :
    (@unpackExponent .binary64 w.toBitVec).toNat = w.toNat / 2 ^ 52 % 2 ^ 11 := by
  rw [unpackExponent_def]
  simp [Nat.shiftRight_eq_div_pow]

theorem significand_field (w : UInt64) :
    (@unpackMantissa .binary64 w.toBitVec).toNat = w.toNat % 2 ^ 52 := by
  rw [unpackMantissa_def]
  simp

theorem sign_field (w : UInt64) :
    Sign.ofBitVec (@unpackSign .binary64 w.toBitVec) =
      sign (Nat.pow 2 63 ≤ w.toNat) := by
  have bound := w.toNat_lt
  have bit : (@unpackSign .binary64 w.toBitVec).toNat = w.toNat / 2 ^ 63 := by
    rw [unpackSign_def]
    simp [Nat.shiftRight_eq_div_pow]
    omega
  have zero : @unpackSign .binary64 w.toBitVec = 0#1 ↔ w.toNat / 2 ^ 63 = 0 := by
    rw [← BitVec.toNat_inj, bit]
    rfl
  rw [Sign.ofBitVec, sign]
  simp only [zero, Nat.pow_eq, decide_eq_true_eq]
  split <;> split <;> first | rfl | omega

theorem exponent_eq_iff (w : UInt64) (e : BitVec 11) :
    @unpackExponent .binary64 w.toBitVec = e ↔ w.toNat / 2 ^ 52 % 2 ^ 11 = e.toNat := by
  rw [← exponent_field]
  exact BitVec.toNat_inj.symm

theorem significand_eq_zero_iff (w : UInt64) :
    @unpackMantissa .binary64 w.toBitVec = 0#52 ↔ w.toNat % 2 ^ 52 = 0 := by
  rw [← significand_field]
  exact BitVec.toNat_inj.symm

/-- The exponent counts whole binades of ranks, and the significand what is left. -/
theorem rank_eq_fields (x : Float) :
    rank x = x.toBits.toNat / 2 ^ 52 % 2 ^ 11 * 2 ^ 52 + x.toBits.toNat % 2 ^ 52 := by
  have bound := x.toBits.toNat_lt
  simp only [rank, Nat.pow_eq]
  omega

theorem binade_rank (x : Float) : binade (rank x) = x.toBits.toNat / 2 ^ 52 % 2 ^ 11 - 1 := by
  have whole := rank_eq_fields x
  simp only [binade, Nat.pow_eq]
  omega

/-- A double is taken apart by its rank and its sign: the exponent and the significand that its
bits hold are those of the binade that the rank is in. -/
theorem unpack_eq (x : Float) : x.toModel.unpack = parts (isNegative x) (rank x) := by
  have exponent := exponent_field x.toBits
  have significand := significand_field x.toBits
  have full := exponent_eq_iff x.toBits (-1#11)
  have subnormal := exponent_eq_iff x.toBits 0#11
  have empty := significand_eq_zero_iff x.toBits
  have whole := rank_eq_fields x
  have place := binade_rank x
  have least : x.toBits.toNat % 2 ^ 52 < 2 ^ 52 := Nat.mod_lt _ (Nat.two_pow_pos 52)
  have most : x.toBits.toNat / 2 ^ 52 % 2 ^ 11 < 2 ^ 11 := Nat.mod_lt _ (Nat.two_pow_pos 11)
  have end_ : infinityRank = 2047 * 2 ^ 52 := rfl
  have bits : (-1#11).toNat = 2047 ∧ (0#11).toNat = 0 := ⟨rfl, rfl⟩
  change unpack .binary64 x.toBits.toBitVec = _
  rw [isNegative, parts, ← sign_field]
  generalize x.toBits.toNat / 2 ^ 52 % 2 ^ 11 = e at *
  generalize x.toBits.toNat % 2 ^ 52 = m at *
  unfold unpack
  extract_lets digits e' k v s
  split
  · -- All exponent bits: infinity, or beyond it.
    have last := full.mp ‹_›
    split
    · have exact_ := empty.mp ‹_›
      rw [dif_pos (by omega), if_neg (by omega), if_pos (by omega)]
    · have beyond := mt empty.mpr ‹_›
      rw [dif_pos (by omega), if_neg (by omega), if_neg (by omega)]
  · have finite := mt full.mpr ‹_›
    split
    · -- No exponent bits: zero, or a significand without its leading one.
      have first := subnormal.mp ‹_›
      split
      · have nothing := empty.mp ‹_›
        rw [dif_neg (by omega)]
      · have some_ := mt empty.mpr ‹_›
        rw [dif_pos (by omega), if_pos (by omega)]
        congr 1
        · change (@unpackMantissa .binary64 x.toBits.toBitVec).toNat = _
          omega
        · change ((@unpackExponent .binary64 x.toBits.toBitVec).toNat : Int) - 1075 + 1 = _
          omega
    · have normal := mt subnormal.mpr ‹_›
      rw [dif_pos (by omega), if_pos (by omega)]
      congr 1
      · change (1#1 ++ @unpackMantissa .binary64 x.toBits.toBitVec).toNat = _
        rw [BitVec.toNat_append, significand, ← Nat.shiftLeft_add_eq_or_of_lt least,
          Nat.shiftLeft_eq]
        simp only [BitVec.toNat_ofNat]
        omega
      · change ((@unpackExponent .binary64 x.toBits.toBitVec).toNat : Int) - 1075 = _
        omega

/-! ## Comparing -/

theorem binade_mono (ordered : a ≤ b) : binade a ≤ binade b :=
  Nat.sub_le_sub_right (Nat.div_le_div_right ordered) 1

theorem binade_mul_le (a : Nat) : binade a * 2 ^ 52 ≤ a := by
  simp only [binade, Nat.pow_eq]
  omega

/-- Of two finite doubles the one in the later binade is greater, and in one binade the one
with the greater significand. -/
theorem compare_significands_of_lt (ordered : a < b) :
    ((compare (binade a - 1074 : Int) (binade b - 1074)).then
      (compare (a - binade a * 2 ^ 52) (b - binade b * 2 ^ 52))) = .lt := by
  rcases Nat.eq_or_lt_of_le (binade_mono ordered.le) with same | later
  · have rest := binade_mul_le a
    rw [same, compare_eq_iff_eq.mpr rfl, Ordering.eq_then, compare_lt_iff_lt]
    omega
  · rw [compare_lt_iff_lt.mpr (by omega)]
    rfl

theorem compare_significands (a b : Nat) :
    ((compare (binade a - 1074 : Int) (binade b - 1074)).then
      (compare (a - binade a * 2 ^ 52) (b - binade b * 2 ^ 52))) = compare a b := by
  rcases Nat.lt_trichotomy a b with before | rfl | behind
  · rw [compare_significands_of_lt before, compare_lt_iff_lt.mpr before]
  · simp
  · rw [Std.OrientedOrd.eq_swap (a := (binade a - 1074 : Int)),
      Std.OrientedOrd.eq_swap (a := a - _), ← Ordering.swap_then, compare_significands_of_lt behind, compare_gt_iff_gt.mpr behind]
    rfl

theorem parts_of_finite (negative : Bool) (positive : 0 < a) (finite : a < infinityRank) :
    parts negative a = .finite (sign negative) (a - binade a * 2 ^ 52) (binade a - 1074)
      (significand_pos positive) := by
  rw [parts, dif_pos positive, if_pos finite]

/-- Magnitudes compare as their ranks. -/
theorem compare_parts (first : a ≤ infinityRank) (second : b ≤ infinityRank) :
    (parts false a).compare (parts false b) = some (compare a b) := by
  have cases_ {c : Nat} (bounded : c ≤ infinityRank) :
      c = 0 ∨ c = infinityRank ∨ 0 < c ∧ c < infinityRank := by omega
  have some_ : 0 < infinityRank := by decide
  rcases cases_ first with rfl | rfl | ⟨positive, finite⟩ <;>
    rcases cases_ second with rfl | rfl | ⟨positive', finite'⟩
  · rfl
  · rfl
  · rw [parts_of_finite false positive' finite', compare_lt_iff_lt.mpr positive']
    rfl
  · rfl
  · simp only [compare_eq_iff_eq.mpr]
    rfl
  · rw [parts_of_finite false positive' finite', compare_gt_iff_gt.mpr finite']
    rfl
  · rw [parts_of_finite false positive finite, compare_gt_iff_gt.mpr positive]
    rfl
  · rw [parts_of_finite false positive finite, compare_lt_iff_lt.mpr finite]
    rfl
  · rw [parts_of_finite false positive finite, parts_of_finite false positive' finite',
      ← compare_significands]
    rfl

section Unsigned

variable (number : x.isNaN = false) (number' : y.isNaN = false)
  (unsigned : isNegative x = false) (unsigned' : isNegative y = false)
include number number' unsigned unsigned'

theorem compare_unpack :
    x.toModel.unpack.compare y.toModel.unpack = some (compare (rank x) (rank y)) := by
  rw [unpack_eq, unpack_eq, unsigned, unsigned', compare_parts (rank_le_infinityRank number)
    (rank_le_infinityRank number')]

theorem lt_iff : x < y ↔ rank x < rank y := by
  have ordered : (x.toModel.unpack.compare y.toModel.unpack == some .lt) = true ↔
      rank x < rank y := by
    rw [compare_unpack number number' unsigned unsigned', beq_iff_eq, Option.some.injEq,
      compare_lt_iff_lt]
  rw [← ordered]
  change decide (x.toModel < y.toModel) = true ↔ _
  rw [decide_eq_true_iff]
  rfl

theorem le_iff : x ≤ y ↔ rank x ≤ rank y := by
  have ordered : (x.toModel.unpack.compare y.toModel.unpack).any (·.isLE) = true ↔
      rank x ≤ rank y := by
    rw [compare_unpack number number' unsigned unsigned', Option.any_some, Nat.isLE_compare]
  rw [← ordered]
  change decide (x.toModel ≤ y.toModel) = true ↔ _
  rw [decide_eq_true_iff]
  rfl

end Unsigned

/-! ## Magnitudes -/

theorem abs_parts (negative : Bool) (bounded : a ≤ infinityRank) :
    (parts negative a).abs = parts false a := by
  rw [parts, parts]
  split
  · split
    · rfl
    · rw [if_pos (by omega), if_pos (by omega)]
      rfl
  · rfl

/-- What a double is taken apart into makes it up again. -/
theorem pack_unpack (x : Float) : Float.Model.pack x.toModel.unpack = x.toModel := by
  obtain ⟨bits, valid⟩ := x.toModel
  simp only [Float.Model.unpack, Float.Model.pack]
  congr 1
  rw [pack_unpack_of_valid valid]

/-- The magnitude of a number is the double of its rank without a sign. -/
theorem abs_eq (number : x.isNaN = false) : x.abs = ofRank false (rank x) := by
  have bounded := rank_le_infinityRank number
  have taken := unpack_eq (ofRank false (rank x))
  rw [isNegative_ofRank false bounded, rank_ofRank false bounded] at taken
  calc x.abs = ⟨Float.Model.pack (parts false (rank x))⟩ := by
        rw [← abs_parts (isNegative x) bounded, ← unpack_eq]
        rfl
    _ = ofRank false (rank x) := by rw [← taken, pack_unpack]

theorem abs_lt_iff (number : x.isNaN = false) (number' : y.isNaN = false)
    (unsigned : isNegative y = false) : x.abs < y ↔ rank x < rank y := by
  have bounded := rank_le_infinityRank number
  rw [abs_eq number, lt_iff (isNaN_ofRank false bounded) number'
    (isNegative_ofRank false bounded) unsigned, rank_ofRank false bounded]

theorem le_abs_iff (number : x.isNaN = false) (number' : y.isNaN = false)
    (unsigned : isNegative y = false) : y ≤ x.abs ↔ rank y ≤ rank x := by
  have bounded := rank_le_infinityRank number
  rw [abs_eq number, le_iff number' (isNaN_ofRank false bounded) unsigned
    (isNegative_ofRank false bounded), rank_ofRank false bounded]

end Kata.Double
