/-
# Writing JSON

Two layouts: the compact one has no blanks at all, the indented one puts every item
and member on a line of its own. An empty list or object stays on one line in both.
-/

import Kata.Json.Basic

namespace Kata.Json

mutual

/-- A tree without blanks. -/
def compactChars : Json → List Char
  | .null => "null".toList
  | .bool true => "true".toList
  | .bool false => "false".toList
  | .num numeral => numeral.toChars
  | .text value => quoted value.toList
  | .list items => '[' :: [','].intercalate (compactItems items) ++ [']']
  | .object members => '\x7b' :: [','].intercalate (compactMembers members) ++ ['\x7d']
  | .unreadable => "\"\\ud800\"".toList

/-- The items of a list, each without blanks. -/
def compactItems : List Json → List (List Char)
  | [] => []
  | item :: rest => compactChars item :: compactItems rest

/-- The members of an object, each without blanks. -/
def compactMembers : List (String × Json) → List (List Char)
  | [] => []
  | (key, value) :: rest =>
    (quoted key.toList ++ ':' :: compactChars value) :: compactMembers rest

end

/-- A line break and the indentation of a depth, two spaces each. -/
def newLine (depth : Nat) : List Char := '\n' :: List.replicate (2 * depth) ' '

/-- Lay out the parts of a list or object that opens at a depth. -/
def block (opening closing : Char) (depth : Nat) (parts : List (List Char)) : List Char :=
  if parts.isEmpty then [opening, closing]
  else
    opening :: newLine (depth + 1) ++ (',' :: newLine (depth + 1)).intercalate parts ++
      newLine depth ++ [closing]

mutual

/-- A tree with every item and member on a line of its own. -/
def indentedChars (depth : Nat) : Json → List Char
  | .list items => block '[' ']' depth (indentedItems (depth + 1) items)
  | .object members => block '\x7b' '\x7d' depth (indentedMembers (depth + 1) members)
  | .null => compactChars .null
  | .bool value => compactChars (.bool value)
  | .num numeral => compactChars (.num numeral)
  | .text value => compactChars (.text value)
  | .unreadable => compactChars .unreadable

/-- The items of a list that are laid out at a depth. -/
def indentedItems (depth : Nat) : List Json → List (List Char)
  | [] => []
  | item :: rest => indentedChars depth item :: indentedItems depth rest

/-- The members of an object that are laid out at a depth. -/
def indentedMembers (depth : Nat) : List (String × Json) → List (List Char)
  | [] => []
  | (key, value) :: rest =>
    (quoted key.toList ++ ':' :: ' ' :: indentedChars depth value) :: indentedMembers depth rest

end

/-- The compact text of a tree. -/
def compact (json : Json) : String := String.ofList (compactChars json)

/-- The indented text of a tree. -/
def indented (json : Json) : String := String.ofList (indentedChars 0 json)

example : (ofFloat 5.0).compact = "5.0" := by decide +kernel

example : (ofFloat (-0.0)).compact = "-0.0" := by decide +kernel

example : (ofFloat 1e16).compact = "1e+16" := by decide +kernel

example : (ofFloat 0.00001).compact = "0.00001" := by decide +kernel

/-- Of the two nearest decimals with sixteen digits, the even one is written. -/
example : (ofFloat 900719925474099.25).compact = "900719925474099.2" := by decide +kernel

example : (ofFloat (1.0 / 0.0)).compact = "null" := by decide +kernel

end Kata.Json
