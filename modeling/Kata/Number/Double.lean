/-
# Doubles in order

Numbers of the exercise language are doubles. The non-negative ones stand in a
row: zero, the least positive value, and so on up to infinity, and the bits of a
double without its sign are its place in that row, its rank. Every finite value
is a whole number of units, the unit being the least positive value, so exact
work on doubles is work on natural numbers: reading decimals, writing them, and
the remainder all go through `units` and `nearestRank`.

Sums, differences, products and quotients in programs are the ones of `Float` and need
nothing from this file. Reading numbers takes products and quotients of magnitudes by
rank, to the same nearest double.
-/

namespace Kata.Double

/-- The rank of infinity. Greater ranks belong to no number. -/
def infinityRank : Nat := 2047 * Nat.pow 2 52

/-- The place of the magnitude of a double in the row of non-negative doubles. -/
def rank (x : Float) : Nat := x.toBits.toNat % Nat.pow 2 63

/-- Whether the sign of a double is set; zero has a sign as well. -/
def isNegative (x : Float) : Bool := Nat.pow 2 63 ≤ x.toBits.toNat

/-- The double of a given sign and rank. -/
def ofRank (negative : Bool) (rank : Nat) : Float :=
  Float.ofBits (UInt64.ofNat ((if negative then Nat.pow 2 63 else 0) + rank))

/-- Finite doubles are those that rank below infinity. -/
def isFinite (x : Float) : Bool := rank x < infinityRank

/-- How many doublings separate the spacing of the doubles at a rank from the unit. -/
def binade (rank : Nat) : Nat := rank / Nat.pow 2 52 - 1

/-- The magnitude at a rank, counted in units of the least positive double, of which
one is made of `unitsInOne`. -/
def units (rank : Nat) : Nat := (rank - binade rank * Nat.pow 2 52) * Nat.pow 2 (binade rank)

/-- The number of units in one. -/
def unitsInOne : Nat := Nat.pow 2 1074

/-- The natural number nearest to a quotient, an exact half going to the even one. -/
def divNearest (num den : Nat) : Nat :=
  let below := num / den
  let twice := 2 * (num % den)
  if twice > den || (twice == den && below % 2 == 1) then below + 1 else below

/-- The rank of the double nearest to `num / den` units, an exact half going to the
even rank. What lies half a step or more beyond the greatest finite double is infinite. -/
def nearestRank (num den : Nat) : Nat :=
  let steps := (num / den).log2 - 52
  min (steps * Nat.pow 2 52 + divNearest num (den * Nat.pow 2 steps)) infinityRank

/-- The rank of the double nearest to the product of two magnitudes. -/
def productRank (a b : Nat) : Nat := nearestRank (units a * units b) unitsInOne

/-- The rank of the double nearest to the quotient of a magnitude by a positive one. -/
def quotientRank (a b : Nat) : Nat := nearestRank (units a * unitsInOne) (units b)

/-- What is left of the first magnitude after taking the second away as often as it
goes, with the sign of the first number. There is no remainder of an infinity or by
zero, and an infinite divisor takes nothing away. -/
def remainder (x y : Float) : Float :=
  if x.isNaN || y.isNaN || rank x == infinityRank || rank y == 0 then 0.0 / 0.0
  else if rank y == infinityRank then x
  else ofRank (isNegative x) (nearestRank (units (rank x) % units (rank y)) 1)

end Kata.Double
