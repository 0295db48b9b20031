/-
# Parsing JSON

The grammar is the strict one: four blank characters, no comments, no superfluous
commas, no leading zeros. The parser looks at syntax alone. Whether a number fits,
whether a text is one, and how deep the nesting goes are questions for whoever reads
the tree, because a part that nobody reads is not asked them.

Values nest, so the parser carries fuel; each step takes at least a character or
moves from a list of items to its first item, and twice the length of the text is
always enough.
-/

import Kata.Json.Basic

namespace Kata.Json

namespace Parser

/-- The characters allowed around tokens. -/
def isGap (c : Char) : Bool := c == ' ' || c == '\t' || c == '\n' || c == '\r'

/-- Drop the gap in front of a token. -/
def skipGap (s : List Char) : List Char := s.dropWhile isGap

/-- The digits at the front of a text, and the rest. -/
def digits (s : List Char) : List Char × List Char :=
  (s.takeWhile Char.isDigit, s.dropWhile Char.isDigit)

/-- The fraction digits at the front of a text. A point needs at least one digit. -/
def fraction? : List Char → Option (List Char × List Char)
  | '.' :: rest =>
    let (found, rest) := digits rest
    if found.isEmpty then none else some (found, rest)
  | rest => some ([], rest)

/-- The digits of an exponent as a number, with its sign given. -/
def exponentDigits? (negative : Bool) (s : List Char) : Option (Option Int × List Char) :=
  let (found, rest) := digits s
  let size : Int := Nat.ofDigitChars 10 found 0
  if found.isEmpty then none else some (some (if negative then -size else size), rest)

/-- The exponent at the front of a text. The mark needs at least one digit behind it. -/
def exponent? : List Char → Option (Option Int × List Char)
  | c :: rest =>
    if c = 'e' ∨ c = 'E' then
      match rest with
      | '-' :: rest => exponentDigits? true rest
      | '+' :: rest => exponentDigits? false rest
      | rest => exponentDigits? false rest
    else some (none, c :: rest)
  | [] => some (none, [])

/-- The numeral at the front of a text, behind its sign. -/
def unsigned? (negative : Bool) (s : List Char) : Option (Numeral × List Char) := do
  let (whole, rest) := digits s
  if whole.isEmpty || (whole.head? == some '0' && whole.length != 1) then none
  else
    let (fraction, rest) ← fraction? rest
    let (exponent, rest) ← exponent? rest
    return (⟨negative, whole, fraction, exponent⟩, rest)

/-- The numeral at the front of a text. -/
def numeral? : List Char → Option (Numeral × List Char)
  | '-' :: rest => unsigned? true rest
  | rest => unsigned? false rest

/-- A string behind its opening quote: its text, or `none` if it has none. -/
def string? (s : List Char) : Option (Option String × List Char) :=
  (pieces s).map fun (found, rest) => ((assemble found).map String.ofList, rest)

/-- The key and colon in front of a member's value. -/
def key? (s : List Char) : Option (Option String × List Char) :=
  match skipGap s with
  | '\x22' :: rest => do
    let (key, rest) ← string? rest
    match skipGap rest with
    | ':' :: rest => some (key, rest)
    | _ => none
  | _ => none

/-- Members with their keys, or the unreadable piece if one of the keys is no text. -/
def ofKeyed (members : List (Option String × Json)) : Json :=
  match members.mapM fun (key, value) => key.map (·, value) with
  | some members => .object members
  | none => .unreadable

/-- The word at the front of a text that is a value by itself. -/
def word? (s : List Char) : Option (Json × List Char) :=
  [("null", Json.null), ("true", .bool true), ("false", .bool false)].findSome? fun word =>
    (word.1.toList.isPrefixOf? s).map (word.2, ·)

/-- A word or a numeral at the front of a text. -/
def scalar? (s : List Char) : Option (Json × List Char) :=
  (word? s).or ((numeral? s).map fun (numeral, rest) => (.num numeral, rest))

mutual

/-- The value at the front of a text, and the rest. -/
def value? : Nat → List Char → Option (Json × List Char)
  | 0, _ => none
  | fuel + 1, s =>
    match skipGap s with
    | '\x22' :: rest => do
      let (found, rest) ← string? rest
      return (found.elim .unreadable .text, rest)
    | '[' :: rest =>
      match skipGap rest with
      | ']' :: rest => some (.list [], rest)
      | rest => do
        let (items, rest) ← items? fuel rest
        return (.list items, rest)
    | '\x7b' :: rest =>
      match skipGap rest with
      | '\x7d' :: rest => some (.object [], rest)
      | rest => do
        let (members, rest) ← members? fuel rest
        return (ofKeyed members, rest)
    | rest => scalar? rest

/-- One or more items up to the closing bracket. -/
def items? : Nat → List Char → Option (List Json × List Char)
  | 0, _ => none
  | fuel + 1, s => do
    let (item, rest) ← value? fuel s
    match skipGap rest with
    | ',' :: rest =>
      let (items, rest) ← items? fuel rest
      return (item :: items, rest)
    | ']' :: rest => some ([item], rest)
    | _ => none

/-- One or more members up to the closing brace. -/
def members? : Nat → List Char → Option (List (Option String × Json) × List Char)
  | 0, _ => none
  | fuel + 1, s => do
    let (key, rest) ← key? s
    let (value, rest) ← value? fuel rest
    match skipGap rest with
    | ',' :: rest =>
      let (members, rest) ← members? fuel rest
      return ((key, value) :: members, rest)
    | '\x7d' :: rest => some ([(key, value)], rest)
    | _ => none

end

end Parser

/-- The tree of a JSON text, which must be one value and nothing after it. -/
def ofChars? (s : List Char) : Option Json := do
  let (json, rest) ← Parser.value? (2 * s.length + 2) s
  if (Parser.skipGap rest).isEmpty then some json else none

/-- The tree of a JSON text. -/
def parse? (text : String) : Option Json := ofChars? text.toList

end Kata.Json
