/-
# Both layouts are read back

A tree whose numerals are strict and whose strings are all texts is written in the grammar
that the parser reads, with no gaps at all or with a line for every item and member.
-/

import Kata.Json.Printer
import Kata.Proofs.Json.Grammar
import Kata.Proofs.Json.Trees

namespace Kata.Json

open Kata.Json.Parser

variable {json : Json} {before between after : List Char} {write : Json → List Char}

theorem Gap.newLine (depth : Nat) : Gap (newLine depth) := by
  intro c inside
  rcases List.mem_cons.mp inside with rfl | inside
  · rfl
  · rw [List.eq_of_mem_replicate inside]
    rfl

theorem compactItems_eq_map (items : List Json) : compactItems items = items.map compactChars := by
  induction items with
  | nil => rfl
  | cons item items ih => rw [compactItems, ih, List.map_cons]

theorem indentedItems_eq_map (depth : Nat) (items : List Json) :
    indentedItems depth items = items.map (indentedChars depth) := by
  induction items with
  | nil => rfl
  | cons item items ih => rw [indentedItems, ih, List.map_cons]

theorem compactMembers_eq_map (members : List (String × Json)) :
    compactMembers members =
      members.map fun member => quoted member.1.toList ++ ':' :: ([] ++ compactChars member.2) := by
  induction members with
  | nil => rfl
  | cons member members ih => rw [compactMembers, ih, List.map_cons, List.nil_append]

theorem indentedMembers_eq_map (depth : Nat) (members : List (String × Json)) :
    indentedMembers depth members = members.map fun member =>
      quoted member.1.toList ++ ':' :: ([' '] ++ indentedChars depth member.2) := by
  induction members with
  | nil => rfl
  | cons member members ih => rw [indentedMembers, ih, List.map_cons, List.singleton_append]

/-- Items that are written one by one and parted by commas. -/
theorem writtenItems_intercalate {items : List Json} (some_ : items ≠ [])
    (written : ∀ item ∈ items, Written item (write item)) (blank : Gap before)
    (blankBetween : Gap between) (blankAfter : Gap after) :
    WrittenItems items (before ++ (',' :: between).intercalate (items.map write) ++ after) := by
  induction items generalizing before with
  | nil => exact absurd rfl some_
  | cons item items ih =>
      obtain ⟨here, later⟩ := List.forall_mem_cons.mp written
      cases items with
      | nil => simpa using WrittenItems.last blank here blankAfter
      | cons next items =>
          have more := ih (List.cons_ne_nil _ _) later blankBetween
          simpa [List.append_assoc] using WrittenItems.cons blank here Gap.nil more

/-- Members that are written one by one and parted by commas. -/
theorem writtenMembers_intercalate {gap : List Char} {members : List (String × Json)}
    (some_ : members ≠ []) (written : ∀ member ∈ members, Written member.2 (write member.2))
    (blankValue : Gap gap) (blank : Gap before) (blankBetween : Gap between)
    (blankAfter : Gap after) :
    WrittenMembers members (before ++ (',' :: between).intercalate (members.map fun member =>
      quoted member.1.toList ++ ':' :: (gap ++ write member.2)) ++ after) := by
  induction members generalizing before with
  | nil => exact absurd rfl some_
  | cons member members ih =>
      obtain ⟨here, later⟩ := List.forall_mem_cons.mp written
      cases members with
      | nil =>
          have last : WrittenMembers [member] _ := .last blank blankValue here blankAfter
          simpa using last
      | cons next members =>
          have more := ih (List.cons_ne_nil _ _) later blankBetween
          have first : WrittenMembers (member :: next :: members) _ :=
            .cons blank blankValue here Gap.nil more
          simpa [List.append_assoc] using first

theorem compactChars_null : compactChars .null = "null".toList := rfl

theorem compactChars_bool (value : Bool) :
    compactChars (.bool value) = (toString value).toList := by
  cases value <;> rfl

theorem compactChars_list (items : List Json) :
    compactChars (.list items) = '[' :: [','].intercalate (compactItems items) ++ [']'] := rfl

theorem compactChars_object (members : List (String × Json)) :
    compactChars (.object members) =
      '\x7b' :: [','].intercalate (compactMembers members) ++ ['\x7d'] := rfl

theorem written_compactChars (strict : json.Holds Numeral.Strict) :
    Written json (compactChars json) := by
  induction strict with
  | null =>
      rw [compactChars_null]
      exact .null
  | bool value =>
      rw [compactChars_bool]
      exact .bool value
  | num strict => exact .num strict
  | text value => exact .text value
  | @list items strict ih =>
      rw [compactChars_list, compactItems_eq_map]
      by_cases empty : items = []
      · subst empty
        exact .emptyList Gap.nil
      · simpa using Written.list
          (writtenItems_intercalate empty ih Gap.nil Gap.nil Gap.nil)
  | @object members strict ih =>
      rw [compactChars_object, compactMembers_eq_map]
      by_cases empty : members = []
      · subst empty
        exact .emptyObject Gap.nil
      · simpa using Written.object
          (writtenMembers_intercalate empty ih Gap.nil Gap.nil Gap.nil Gap.nil)

theorem written_indentedChars (strict : json.Holds Numeral.Strict) (depth : Nat) :
    Written json (indentedChars depth json) := by
  have blank : Gap [' '] := by simp [Gap, isGap]
  induction strict generalizing depth with
  | null =>
      rw [indentedChars]
      exact written_compactChars .null
  | bool value =>
      rw [indentedChars]
      exact written_compactChars (.bool value)
  | num strict =>
      rw [indentedChars]
      exact written_compactChars (.num strict)
  | text value =>
      rw [indentedChars]
      exact written_compactChars (.text value)
  | @list items strict ih =>
      rw [indentedChars, indentedItems_eq_map, block]
      by_cases empty : items = []
      · subst empty
        exact .emptyList Gap.nil
      · have inner := writtenItems_intercalate empty (fun item inside => ih item inside (depth + 1))
          (Gap.newLine (depth + 1)) (Gap.newLine (depth + 1)) (Gap.newLine depth)
        have parts : (items.map (indentedChars (depth + 1))).isEmpty = false := by simp [empty]
        rw [parts, if_neg Bool.false_ne_true]
        exact .list inner
  | @object members strict ih =>
      rw [indentedChars, indentedMembers_eq_map, block]
      by_cases empty : members = []
      · subst empty
        exact .emptyObject Gap.nil
      · have inner := writtenMembers_intercalate empty
          (fun member inside => ih member inside (depth + 1)) blank
          (Gap.newLine (depth + 1)) (Gap.newLine (depth + 1)) (Gap.newLine depth)
        have parts : (members.map fun member => quoted member.1.toList ++
            ':' :: ([' '] ++ indentedChars (depth + 1) member.2)).isEmpty = false := by simp [empty]
        rw [parts, if_neg Bool.false_ne_true]
        exact .object inner

/-- A tree is read back from its compact text. -/
theorem parse?_compact (strict : json.Holds Numeral.Strict) : parse? json.compact = some json := by
  rw [parse?, compact, String.toList_ofList]
  exact (written_compactChars strict).ofChars?_eq

/-- A tree is read back from its indented text. -/
theorem parse?_indented (strict : json.Holds Numeral.Strict) :
    parse? json.indented = some json := by
  rw [parse?, indented, String.toList_ofList]
  exact (written_indentedChars strict 0).ofChars?_eq

end Kata.Json
