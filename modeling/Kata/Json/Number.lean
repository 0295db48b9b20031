/-
# Reading JSON numbers

A JSON number is read in steps that each take the nearest double. The leading digits
that fit in sixty-four bits make the significand, the significand becomes a double, and
that double is multiplied or divided by a power of ten, which is a double as well.
Digits that no longer fit are dropped; a dropped whole digit still counts as a place.

Every step may round, so the outcome can miss the double nearest to the numeral: `1e-23`
is read as the double above the nearest one. A whole number of at most sixty-four bits
takes one step only and is read as the nearest double. What leaves the finite doubles on
the way up has no value, even if the numeral itself is still nearest to a finite double.

The steps are computed on ranks, so all of it is work on natural numbers.
-/

import Kata.Number.Numeral

namespace Kata.Json

/-- Significands are numbers below this bound: those of sixty-four bits. -/
def significandBound : Nat := Nat.pow 2 64

/-- Lengthen a significand by digits up to the first one that no longer fits, and count
the digits that are left out. -/
def lengthen (significand : Nat) : List Char → Nat × Nat
  | [] => (significand, 0)
  | c :: rest =>
    let longer := Nat.ofDigitChars 10 [c] significand
    if longer < significandBound then lengthen longer rest else (significand, rest.length + 1)

/-- The decimal of the leading digits of a numeral, without its sign. Fraction digits
follow the whole digits that fit, also when some of those were left out. -/
def significant (n : Numeral) : Decimal :=
  let (whole, wholeLeft) := lengthen 0 n.whole
  let (digits, fractionLeft) := lengthen whole n.fraction
  ⟨digits, n.exponent.getD 0 + wholeLeft - (n.fraction.length - fractionLeft : Int)⟩

/-- The greatest power of ten among the finite doubles. -/
def greatestTens : Nat := 308

/-- The rank of the double nearest to a power of ten, infinite beyond the greatest. -/
def tensRank (places : Nat) : Nat := Decimal.nearestRank ⟨1, places⟩

/-- The rank of a magnitude moved down by some decimal places. Beyond the greatest power
of ten the division takes two steps, and since significands are below `10 ^ 20`, nothing
is left of one that is moved by more than two such steps. -/
def loweredRank (rank places : Nat) : Nat :=
  if places ≤ greatestTens then Double.quotientRank rank (tensRank places)
  else
    Double.quotientRank (Double.quotientRank rank (tensRank greatestTens))
      (tensRank (min (places - greatestTens) greatestTens))

/-- The rank of a significand that is scaled by its power of ten. -/
def scaledRank (d : Decimal) : Nat :=
  let rank := Decimal.nearestRank ⟨d.digits, 0⟩
  if 0 ≤ d.exponent then Double.productRank rank (tensRank d.exponent.toNat)
  else loweredRank rank (-d.exponent).toNat

/-- The double that a JSON number is read as. There is none for a number too large. -/
def double? (n : Numeral) : Option Float :=
  let rank := scaledRank (significant n)
  if rank < Double.infinityRank then some (Double.ofRank n.negative rank) else none

/-- A significand that fits is lengthened to one that fits. -/
theorem lengthen_lt {significand : Nat} (fits : significand < significandBound)
    (digits : List Char) : (lengthen significand digits).1 < significandBound := by
  induction digits generalizing significand with
  | nil => exact fits
  | cons c rest ih =>
    rw [lengthen]
    split
    · next longerFits => exact ih longerFits
    · exact fits

/-- The numeral `1e-23` misses its nearest double by one. -/
example : scaledRank (significant ⟨false, ['1'], [], some (-23)⟩) =
    Decimal.nearestRank ⟨1, -23⟩ + 1 := by decide +kernel

/-- Twenty digits do not fit in a significand. -/
example : significant ⟨false, "184467440737095516160".toList, ['5', '6'], none⟩ =
    ⟨18446744073709551615, 1⟩ := by decide +kernel

/-- The greatest finite double is read as a finite double again, the next decimal of as
many digits is not. -/
example :
    scaledRank ⟨17976931348623157, 292⟩ < Double.infinityRank ∧
      scaledRank ⟨17976931348623158, 292⟩ = Double.infinityRank := by decide +kernel

end Kata.Json
