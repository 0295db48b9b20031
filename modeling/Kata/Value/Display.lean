/-
# Showing values

Messages show values much as JSON would write them, except for numbers: a whole
number has no point, both zeros are `0`, magnitudes from a millionth up to below
`10 ^ 21` are written without an exponent, and what is not finite has a name.
-/

import Kata.Value
import Kata.Number.Numeral
import Kata.Json.Quoted

namespace Kata.Value

/-- How numbers look in messages. -/
def numberStyle : NumeralStyle where
  leastPlain := -6
  greatestPlain := 20
  pointAlways := false
  signedZero := false
  tie := .up

/-- A number as a message shows it. -/
def numberChars (x : Float) : List Char :=
  if x.isNaN then "NaN".toList
  else if Double.isFinite x then (Numeral.ofFloat numberStyle x).toChars
  else if Double.isNegative x then "-Infinity".toList
  else "Infinity".toList

mutual

/-- A value as a message shows it. -/
def displayChars : Value → List Char
  | .null => "null".toList
  | .bool true => "true".toList
  | .bool false => "false".toList
  | .number x => numberChars x
  | .text s => Json.quoted s.toList
  | .list items => '[' :: [','].intercalate (displayItems items) ++ [']']

/-- The items of a list as a message shows them. -/
def displayItems : List Value → List (List Char)
  | [] => []
  | item :: rest => displayChars item :: displayItems rest

end

/-- A value as a message shows it. -/
def display (v : Value) : String := String.ofList (displayChars v)

example : (Value.number 5.0).display = "5" := by decide +kernel

example : (Value.number (-0.0)).display = "0" := by decide +kernel

example : (Value.number 1e-7).display = "1e-7" := by decide +kernel

example : (Value.number (-2.5e22)).display = "-2.5e+22" := by decide +kernel

/-- Of the two nearest decimals with sixteen digits, the greater is shown. -/
example : (Value.number 900719925474099.25).display = "900719925474099.3" := by decide +kernel

example : (Value.list [.text "a", .null, .bool true]).display = "[\"a\",null,true]" := by
  decide +kernel

end Kata.Value
