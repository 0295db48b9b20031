/-
# Decimal numerals

A numeral is a number as it is written: a sign, whole digits, fraction digits
and perhaps an exponent. Literals, displayed results and JSON numbers are all
numerals. They differ in which numerals they admit and in how a number is laid
out, and a `NumeralStyle` holds the decisions of one layout.
-/

import Kata.Number.Decimal

namespace Kata

/-- A written number. The digits are characters, so leading and trailing zeros stay. -/
structure Numeral where
  negative : Bool
  whole : List Char
  fraction : List Char
  exponent : Option Int
  deriving DecidableEq, Repr

/-- How numbers are laid out. -/
structure NumeralStyle where
  /-- The least power of ten of a leading digit that is still written positionally. -/
  leastPlain : Int
  /-- The greatest such power. Outside the two the numeral gets an exponent. -/
  greatestPlain : Int
  /-- Whether a whole number without exponent ends in `.0`. -/
  pointAlways : Bool
  /-- Whether negative zero keeps its sign. -/
  signedZero : Bool
  /-- Which of two equally near shortest decimals is written. -/
  tie : Tie
  deriving Repr

namespace Numeral

/-- The number that a numeral writes, without its sign. -/
def decimal (n : Numeral) : Decimal :=
  ⟨Nat.ofDigitChars 10 (n.whole ++ n.fraction) 0, n.exponent.getD 0 - n.fraction.length⟩

/-- The double nearest to a numeral; beyond the finite doubles it is infinite. -/
def toFloat (n : Numeral) : Float := n.decimal.toFloat n.negative

/-- An exponent as written: the mark, a sign in every case, and the digits. -/
def exponentChars (exponent : Int) : List Char :=
  'e' :: (if exponent < 0 then '-' else '+') :: Nat.toDigits 10 exponent.natAbs

/-- The characters of a numeral. A point is written before fraction digits only. -/
def toChars (n : Numeral) : List Char :=
  (if n.negative then ['-'] else []) ++ n.whole ++
    (if n.fraction.isEmpty then [] else '.' :: n.fraction) ++
    (match n.exponent with
      | none => []
      | some exponent => exponentChars exponent)

/-- Lay out a decimal in a style. -/
def ofDecimal (style : NumeralStyle) (negative : Bool) (d : Decimal) : Numeral :=
  let digits := Nat.toDigits 10 d.digits
  let leading : Int := d.exponent + digits.length - 1
  if leading < style.leastPlain || style.greatestPlain < leading then
    ⟨negative, digits.take 1, digits.drop 1, some leading⟩
  else if 0 ≤ d.exponent then
    ⟨negative, digits ++ List.replicate d.exponent.toNat '0',
      if style.pointAlways then ['0'] else [], none⟩
  else if 0 ≤ leading then
    ⟨negative, digits.take (leading.toNat + 1), digits.drop (leading.toNat + 1), none⟩
  else
    ⟨negative, ['0'], List.replicate (-leading - 1).toNat '0' ++ digits, none⟩

/-- The numeral of a finite double in a style. -/
def ofFloat (style : NumeralStyle) (x : Float) : Numeral :=
  ofDecimal style (Double.isNegative x && (style.signedZero || Double.rank x != 0))
    (Decimal.ofRank style.tie (Double.rank x))

end Numeral

end Kata
