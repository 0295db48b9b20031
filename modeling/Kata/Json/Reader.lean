/-
# Reading JSON trees

What all readers share. A reader is told how many lists and objects may still be
opened on the way down, and gives up beyond that. Parts that it skips are asked
nothing: they may nest deeper, hold numbers beyond every double, or not be text.

A record may come as an object or as a list of its fields in order. In an object
unknown members are skipped and a known one may not come twice.
-/

import Kata.Json.Basic
import Kata.Json.Number

namespace Kata.Json

/-- How many lists and objects may be open at once. -/
def deepest : Nat := 127

mutual

/-- Whether a whole tree can be read: its nesting fits, its numbers are finite and its
texts are texts. -/
def sound : Nat → Json → Bool
  | _, .null => true
  | _, .bool _ => true
  | _, .num numeral => (double? numeral).isSome
  | _, .text _ => true
  | 0, .list _ => false
  | room + 1, .list items => soundItems room items
  | 0, .object _ => false
  | room + 1, .object members => soundMembers room members
  | _, .unreadable => false

/-- Whether all items of a list can be read. -/
def soundItems : Nat → List Json → Bool
  | _, [] => true
  | room, item :: rest => sound room item && soundItems room rest

/-- Whether all members of an object can be read. -/
def soundMembers : Nat → List (String × Json) → Bool
  | _, [] => true
  | room, (_, value) :: rest => sound room value && soundMembers room rest

end

/-- Read a text. -/
def text? : Json → Option String
  | .text s => some s
  | _ => none

/-- Read true or false. -/
def bool? : Json → Option Bool
  | .bool b => some b
  | _ => none

/-- Read a count: a natural number of at most sixty-four bits, written with neither
point nor exponent. -/
def count? : Json → Option Nat
  | .num ⟨false, whole, [], none⟩ =>
    let n := Nat.ofDigitChars 10 whole 0
    if n < Nat.pow 2 64 then some n else none
  | _ => none

/-- Read a list as its items. -/
def items? : Json → Option (List Json)
  | .list items => some items
  | _ => none

/-- Read a list of anything. -/
def listOf? {α : Type} (read : Nat → Json → Option α) : Nat → Json → Option (List α)
  | room + 1, .list items => items.mapM (read room)
  | _, _ => none

/-- Read one of several words. A word may also be written as an object with the word as
its only key and null behind it; inside a statement the null may be an empty object. -/
def word? {α : Type} (table : List (String × α)) (inStatement : Bool) : Nat → Json → Option α
  | _, .text word => table.lookup word
  | _ + 1, .object [(word, .null)] => table.lookup word
  | _ + 1, .object [(word, .object [])] => if inStatement then table.lookup word else none
  | _, _ => none

/-- Read a field that must be there. -/
def required? {α : Type} (read : Json → Option α) (field : Option Json) : Option α :=
  field.bind read

/-- Read a field that may be missing or null. -/
def optional? {α : Type} (read : Json → Option α) : Option Json → Option (Option α)
  | none => some none
  | some .null => some none
  | some value => (read value).map some

/-- Read a field that may be missing but is a value if it is there, null included. -/
def present? {α : Type} (read : Json → Option α) : Option Json → Option (Option α)
  | none => some none
  | some value => (read value).map some

/-- Read a field that has a value of its own when it is missing. -/
def defaulted? {α : Type} (value : α) (read : Json → Option α) : Option Json → Option α
  | none => some value
  | some json => read json

/-- The fields of a record, in order of declaration, each if it is there. -/
def fields? (names : List String) : Json → Option (List (Option Json))
  | .object members =>
    if names.any fun name => 1 < members.countP fun member => member.1 == name then none
    else some (names.map fun name => members.lookup name)
  | .list items =>
    if names.length < items.length then none
    else some ((List.range names.length).map fun place => items[place]?)
  | _ => none

/-- Whether a record came as an object. -/
def isObject : Json → Bool
  | .object _ => true
  | _ => false

end Kata.Json
