/-
# Decimals and the doubles they stand for

A decimal is a natural number of tenths, hundredths or thousands. Reading one
takes the nearest double. Writing a double takes the decimal with the fewest
digits that reads back as that double and, of those, the nearest; `ofRank`
searches the decimal grids from coarse to fine for it. Every double lies on the
finest grid, so the search cannot fail.
-/

import Kata.Number.Double

namespace Kata

/-- The number `digits * 10 ^ exponent`. -/
structure Decimal where
  digits : Nat
  exponent : Int
  deriving DecidableEq, Repr

/-- Where a value goes that is exactly halfway between two candidates. -/
inductive Tie
  | toEven
  | up
  deriving DecidableEq, Repr

namespace Decimal

/-- The factor of a power of ten that belongs above the fraction line. -/
def tensAbove (exponent : Int) : Nat := Nat.pow 10 exponent.toNat

/-- The factor of a power of ten that belongs below the fraction line. -/
def tensBelow (exponent : Int) : Nat := Nat.pow 10 (-exponent).toNat

/-- The rank of the double nearest to a decimal. Decimals from `10 ^ 309` on are
infinite and those below `10 ^ -330` are zero without any work; the bounds keep a
far-fetched exponent from being written out. -/
def nearestRank (d : Decimal) : Nat :=
  if d.digits = 0 then 0
  else if 309 ≤ d.exponent then Double.infinityRank
  else if d.exponent + (d.digits.log2 : Int) < -330 then 0
  else Double.nearestRank (d.digits * tensAbove d.exponent * Double.unitsInOne)
    (tensBelow d.exponent)

/-- The double nearest to a decimal with a sign. -/
def toFloat (negative : Bool) (d : Decimal) : Float := Double.ofRank negative d.nearestRank

/-- Whether `count * 10 ^ exponent` is read as the double of a positive rank: it lies
between the halfway points to the two neighbours, which belong to the even ranks. -/
def readsAs (rank : Nat) (exponent : Int) (count : Nat) : Bool :=
  let low := (Double.units (rank - 1) + Double.units rank) * tensBelow exponent
  let high := (Double.units rank + Double.units (rank + 1)) * tensBelow exponent
  let here := 2 * count * tensAbove exponent * Double.unitsInOne
  if rank % 2 = 0 then low ≤ here && here ≤ high else low < here && here < high

/-- On one decimal grid, the better of the two points next to a double, if either of
them reads back as it. -/
def onGrid? (tie : Tie) (rank : Nat) (exponent : Int) : Option Decimal :=
  let num := Double.units rank * tensBelow exponent
  let den := tensAbove exponent * Double.unitsInOne
  let below := num / den
  let twice := 2 * (num % den)
  match readsAs rank exponent below, readsAs rank exponent (below + 1) with
  | true, true =>
    if twice < den then some ⟨below, exponent⟩
    else if den < twice then some ⟨below + 1, exponent⟩
    else match tie with
      | .up => some ⟨below + 1, exponent⟩
      | .toEven => some ⟨below + below % 2, exponent⟩
  | true, false => some ⟨below, exponent⟩
  | false, true => some ⟨below + 1, exponent⟩
  | false, false => none

/-- The exponent of a power of ten above the double of a positive rank, within two
places; `30103 / 100000` is a little more than the decimal logarithm of two. -/
def coarsest (rank : Nat) : Int := ((Double.units rank).log2 - 1073 : Int) * 30103 / 100000 + 1

/-- The shortest decimal that reads back as the double of a positive rank. The last
resort is the exact value on the finest grid. -/
def shortest (tie : Tie) (rank : Nat) : Decimal :=
  ((List.range 24).findSome? fun (step : Nat) => onGrid? tie rank (coarsest rank - step)).getD
    ⟨Double.units rank * Nat.pow 5 1074, -1074⟩

/-- The decimal to write for the double of a rank. -/
def ofRank (tie : Tie) (rank : Nat) : Decimal :=
  if rank = 0 then ⟨0, 0⟩ else shortest tie rank

end Decimal

end Kata
