/-
# Written trees are read back

A text of a tree may have gaps around its tokens, and gaps are all that is free about it
here: texts stand between quotes in the form in which they are written out, and numerals are
strict. The parser reads such a text back as its tree, and its fuel never runs out, because
a nested text is shorter than the text around it.
-/

import Kata.Proofs.Json.Numeral
import Kata.Proofs.Json.Quoted
import Mathlib.Data.List.DropRight

namespace Kata.Json

open Kata.Json.Parser

/-- A text of gap characters. -/
def Gap (s : List Char) : Prop := ∀ c ∈ s, isGap c = true

mutual

/-- Trees and their texts. -/
inductive Written : Json → List Char → Prop
  | null : Written .null "null".toList
  | bool (value : Bool) : Written (.bool value) (toString value).toList
  | num {n : Numeral} (strict : n.Strict) : Written (.num n) n.toChars
  | text (s : String) : Written (.text s) (quoted s.toList)
  | emptyList {gap : List Char} (blank : Gap gap) : Written (.list []) ('[' :: gap ++ [']'])
  | list {items : List Json} {s : List Char} (inner : WrittenItems items s) :
      Written (.list items) ('[' :: s ++ [']'])
  | emptyObject {gap : List Char} (blank : Gap gap) :
      Written (.object []) ('\x7b' :: gap ++ ['\x7d'])
  | object {members : List (String × Json)} {s : List Char} (inner : WrittenMembers members s) :
      Written (.object members) ('\x7b' :: s ++ ['\x7d'])

/-- One or more items and their text between brackets. -/
inductive WrittenItems : List Json → List Char → Prop
  | last {before after s : List Char} {item : Json} (blank : Gap before) (written : Written item s)
      (blankAfter : Gap after) : WrittenItems [item] (before ++ s ++ after)
  | cons {before after s rest : List Char} {item : Json} {items : List Json} (blank : Gap before)
      (written : Written item s) (blankAfter : Gap after) (more : WrittenItems items rest) :
      WrittenItems (item :: items) (before ++ s ++ after ++ ',' :: rest)

/-- One or more members and their text between braces. -/
inductive WrittenMembers : List (String × Json) → List Char → Prop
  | last {before between after s : List Char} {key : String} {value : Json} (blank : Gap before)
      (blankBetween : Gap between) (written : Written value s) (blankAfter : Gap after) :
      WrittenMembers [(key, value)]
        (before ++ quoted key.toList ++ ':' :: (between ++ s ++ after))
  | cons {before between after s rest : List Char} {key : String} {value : Json}
      {members : List (String × Json)} (blank : Gap before) (blankBetween : Gap between)
      (written : Written value s) (blankAfter : Gap after) (more : WrittenMembers members rest) :
      WrittenMembers ((key, value) :: members)
        (before ++ quoted key.toList ++ ':' :: (between ++ s ++ after ++ ',' :: rest))

end

/-! ## Gaps -/

variable {gap s rest : List Char} {json : Json}

theorem Gap.nil : Gap [] := by simp [Gap]

/-- A gap is skipped. -/
theorem Gap.skipGap_append (blank : Gap gap) (s : List Char) : skipGap (gap ++ s) = skipGap s :=
  List.dropWhile_append_of_pos blank

/-- A token is not. -/
theorem skipGap_cons {c : Char} (token : isGap c = false) : skipGap (c :: rest) = c :: rest :=
  List.dropWhile_cons_of_neg (by simp [token])

/-- Numerals end at gaps. -/
theorem Gap.stops (blank : Gap gap) (stops : Stops rest) : Stops (gap ++ rest) := by
  cases gap with
  | nil => exact stops
  | cons c gap =>
      have known : isGap c = true := blank c List.mem_cons_self
      simp only [isGap, Bool.or_eq_true, beq_iff_eq] at known
      rcases known with ((rfl | rfl) | rfl) | rfl <;>
        exact stops_cons (by decide) (by decide) (by decide) (by decide) _

/-! ## How texts start -/

/-- No gap, bracket, quote or word starts like a numeral. -/
theorem not_mem_of_numeral {c : Char} (first : c = '-' ∨ c.isDigit = true) :
    c ∉ [' ', '\t', '\n', '\r', '\x22', '[', ']', '\x7b', '\x7d', 'n', 't', 'f'] := by
  intro listed
  rcases first with rfl | digit
  · exact absurd listed (by decide)
  · simp only [List.mem_cons, List.not_mem_nil, or_false] at listed
    rcases listed with rfl | rfl | rfl | rfl | rfl | rfl | rfl | rfl | rfl | rfl | rfl | rfl <;>
      exact absurd digit (by decide)

/-- Every text of a tree starts with a character that is no gap and closes nothing. -/
theorem Written.exists_cons (written : Written json s) :
    ∃ c tail, s = c :: tail ∧ isGap c = false ∧ c ≠ ']' ∧ c ≠ '\x7d' := by
  cases written with
  | null => exact ⟨'n', _, rfl, by decide⟩
  | bool value =>
      cases value with
      | true => exact ⟨'t', _, rfl, by decide⟩
      | false => exact ⟨'f', _, rfl, by decide⟩
  | num strict =>
      obtain ⟨c, tail, shape, first⟩ := strict.exists_cons
      have others := not_mem_of_numeral first
      simp only [List.mem_cons, List.not_mem_nil, or_false, not_or] at others
      exact ⟨c, tail, shape, by simp [isGap, others], by simp [others], by simp [others]⟩
  | text => exact ⟨'\x22', _, rfl, by decide⟩
  | emptyList => exact ⟨'[', _, rfl, by decide⟩
  | list => exact ⟨'[', _, rfl, by decide⟩
  | emptyObject => exact ⟨'\x7b', _, rfl, by decide⟩
  | object => exact ⟨'\x7b', _, rfl, by decide⟩

/-- The first item of a list does not close it. -/
theorem WrittenItems.skipGap_ne {items : List Json} (written : WrittenItems items s)
    (rest tail : List Char) : skipGap (s ++ rest) ≠ ']' :: tail := by
  intro closed
  cases written with
  | last blank written | cons blank written =>
      obtain ⟨c, tail, rfl, token, noClose, -⟩ := written.exists_cons
      simp only [List.append_assoc, List.cons_append] at closed
      rw [blank.skipGap_append, skipGap_cons token] at closed
      exact noClose (List.cons.inj closed).1

/-- The first member of an object does not close it. -/
theorem WrittenMembers.skipGap_ne {members : List (String × Json)}
    (written : WrittenMembers members s) (rest tail : List Char) :
    skipGap (s ++ rest) ≠ '\x7d' :: tail := by
  intro closed
  cases written with
  | last blank | cons blank =>
      simp only [List.append_assoc, quoted, List.cons_append] at closed
      rw [blank.skipGap_append, skipGap_cons rfl] at closed
      exact absurd (List.cons.inj closed).1 (by decide)

/-! ## The parser -/

namespace Parser

theorem skipGap_skipGap (s : List Char) : skipGap (skipGap s) = skipGap s :=
  List.dropWhile_idempotent ..

/-- No gap in front of a value makes a difference. -/
theorem value?_congr {t : List Char} (same : skipGap s = skipGap t) (fuel : Nat) :
    value? fuel s = value? fuel t := by
  cases fuel with
  | zero => rw [value?, value?]
  | succ fuel => rw [value?, value?, same]

theorem items?_skipGap (fuel : Nat) (s : List Char) : items? fuel (skipGap s) = items? fuel s := by
  cases fuel with
  | zero => rw [items?, items?]
  | succ fuel => rw [items?, items?, value?_congr (skipGap_skipGap s)]

theorem members?_skipGap (fuel : Nat) (s : List Char) :
    members? fuel (skipGap s) = members? fuel s := by
  cases fuel with
  | zero => rw [members?, members?]
  | succ fuel => rw [members?, members?, key?, key?, skipGap_skipGap]

theorem scalar?_numeral {n : Numeral} (strict : n.Strict) (stops : Stops rest) :
    scalar? (n.toChars ++ rest) = some (.num n, rest) := by
  have noWord : word? (n.toChars ++ rest) = none := by
    obtain ⟨c, tail, shape, first⟩ := strict.exists_cons
    have others := not_mem_of_numeral first
    simp only [List.mem_cons, List.not_mem_nil, or_false, not_or] at others
    rw [shape, List.cons_append]
    simp [word?, List.isPrefixOf?, Ne.symm, others]
  rw [scalar?, noWord, numeral?_append strict stops]
  rfl

theorem key?_append (blank : Gap gap) (key : String) :
    key? (gap ++ quoted key.toList ++ ':' :: rest) = some (some key, rest) := by
  have opened : quoted key.toList ++ ':' :: rest =
      '\x22' :: (key.toList.flatMap escape ++ '\x22' :: ':' :: rest) := by
    simp [quoted]
  rw [List.append_assoc, opened, key?, blank.skipGap_append, skipGap_cons rfl]
  have colon : skipGap (':' :: rest) = ':' :: rest := skipGap_cons rfl
  simp only [string?_flatMap_escape, Option.bind_eq_bind, Option.bind_some, colon]

theorem ofKeyed_some (members : List (String × Json)) :
    ofKeyed (members.map fun member => (some member.1, member.2)) = .object members := by
  have all : members.mapM some = some members := by
    induction members with
    | nil => rfl
    | cons member members ih =>
        rw [List.mapM_cons, ih]
        rfl
  simp only [ofKeyed, List.mapM_map, Function.comp_def, Option.map_some, all]

/-- What starts like no text, list or object is read as a scalar. -/
theorem value?_eq_scalar? {c : Char} (token : isGap c = false) (noText : c ≠ '\x22')
    (noList : c ≠ '[') (noObject : c ≠ '\x7b') (fuel : Nat) :
    value? (fuel + 1) (c :: rest) = scalar? (c :: rest) := by
  rw [value?, skipGap_cons token]
  split
  · rename_i same
    exact absurd (List.cons.inj same).1 noText
  · rename_i same
    exact absurd (List.cons.inj same).1 noList
  · rename_i same
    exact absurd (List.cons.inj same).1 noObject
  · rfl

theorem value?_text (value : String) (fuel : Nat) :
    value? (fuel + 1) (quoted value.toList ++ rest) = some (.text value, rest) := by
  have opened : quoted value.toList ++ rest =
      '\x22' :: (value.toList.flatMap escape ++ '\x22' :: rest) := by
    simp [quoted]
  rw [opened, value?, skipGap_cons rfl]
  simp only [string?_flatMap_escape, Option.bind_eq_bind, Option.bind_some, Option.elim_some]
  rfl

theorem value?_emptyList (blank : Gap gap) (fuel : Nat) :
    value? (fuel + 1) ('[' :: gap ++ [']'] ++ rest) = some (.list [], rest) := by
  have close : skipGap (gap ++ ([']'] ++ rest)) = ']' :: rest := by
    rw [blank.skipGap_append]
    exact skipGap_cons rfl
  rw [List.append_assoc, List.cons_append, value?, skipGap_cons rfl]
  simp only [close]

theorem value?_emptyObject (blank : Gap gap) (fuel : Nat) :
    value? (fuel + 1) ('\x7b' :: gap ++ ['\x7d'] ++ rest) = some (.object [], rest) := by
  have close : skipGap (gap ++ (['\x7d'] ++ rest)) = '\x7d' :: rest := by
    rw [blank.skipGap_append]
    exact skipGap_cons rfl
  rw [List.append_assoc, List.cons_append, value?, skipGap_cons rfl]
  simp only [close]

/-- A list is read when its items are. -/
theorem value?_list {items : List Json} {fuel : Nat} (inner : WrittenItems items s)
    (read : items? fuel (s ++ ']' :: rest) = some (items, rest)) :
    value? (fuel + 1) ('[' :: s ++ [']'] ++ rest) = some (.list items, rest) := by
  rw [List.append_assoc, List.cons_append, value?, skipGap_cons rfl]
  simp only
  split
  · rename_i closed
    exact absurd closed (inner.skipGap_ne _ _)
  · rw [List.singleton_append, items?_skipGap, read]
    rfl

/-- An object is read when its members are. -/
theorem value?_object {members : List (String × Json)} {fuel : Nat}
    (inner : WrittenMembers members s)
    (read : members? fuel (s ++ '\x7d' :: rest) =
      some (members.map fun member => (some member.1, member.2), rest)) :
    value? (fuel + 1) ('\x7b' :: s ++ ['\x7d'] ++ rest) = some (.object members, rest) := by
  rw [List.append_assoc, List.cons_append, value?, skipGap_cons rfl]
  simp only
  split
  · rename_i closed
    exact absurd closed (inner.skipGap_ne _ _)
  · rw [List.singleton_append, members?_skipGap, read]
    simp only [Option.bind_eq_bind, Option.bind_some, ofKeyed_some]
    rfl

/-- The reading of every text of a tree, of items and of members, for a given fuel. Nested
texts are shorter, so it follows for a fuel from the one below. -/
structure Reads (fuel : Nat) : Prop where
  value : ∀ {json s gap rest}, Written json s → s.length < fuel → Gap gap → Stops rest →
    value? fuel (gap ++ s ++ rest) = some (json, rest)
  items : ∀ {items s rest}, WrittenItems items s → s.length + 1 < fuel →
    items? fuel (s ++ ']' :: rest) = some (items, rest)
  members : ∀ {members s rest}, WrittenMembers members s → s.length + 1 < fuel →
    members? fuel (s ++ '\x7d' :: rest) =
      some (members.map fun member => (some member.1, member.2), rest)

namespace Reads

/-- Behind an item or a member stands no numeral. -/
theorem stops_close {c : Char} (token : c ∈ [',', ']', '\x7d']) (blank : Gap gap)
    (rest : List Char) : Stops (gap ++ c :: rest) := by
  apply blank.stops
  simp only [List.mem_cons, List.not_mem_nil, or_false] at token
  rcases token with rfl | rfl | rfl <;>
    exact stops_cons (by decide) (by decide) (by decide) (by decide) _

theorem items_succ {fuel : Nat} (reads : Reads fuel) {items : List Json} {s rest : List Char}
    (written : WrittenItems items s) (enough : s.length + 1 < fuel + 1) :
    items? (fuel + 1) (s ++ ']' :: rest) = some (items, rest) := by
  cases written with
  | @last before after s item blank written blankAfter =>
      simp only [List.length_append] at enough
      have read := reads.value written (by omega) blank
        (stops_close (c := ']') (by decide) blankAfter rest)
      have parted : before ++ s ++ after ++ ']' :: rest =
          before ++ s ++ (after ++ ']' :: rest) := by simp
      have close : skipGap (']' :: rest) = ']' :: rest := skipGap_cons rfl
      rw [parted, items?, read]
      simp only [Option.bind_eq_bind, Option.bind_some, blankAfter.skipGap_append, close]
  | @cons before after s more item items blank written blankAfter later =>
      simp only [List.length_append, List.length_cons] at enough
      obtain ⟨d, tail, rfl, -⟩ := written.exists_cons
      rw [List.length_cons] at enough
      have read := reads.value written (by rw [List.length_cons]; omega) blank
        (stops_close (c := ',') (by decide) blankAfter (more ++ ']' :: rest))
      have parted : before ++ d :: tail ++ after ++ ',' :: more ++ ']' :: rest =
          before ++ d :: tail ++ (after ++ ',' :: (more ++ ']' :: rest)) := by simp
      have comma : skipGap (',' :: (more ++ ']' :: rest)) = ',' :: (more ++ ']' :: rest) :=
        skipGap_cons rfl
      rw [parted, items?, read]
      simp only [Option.bind_eq_bind, Option.bind_some, blankAfter.skipGap_append, comma]
      rw [reads.items later (by omega)]
      rfl

theorem members_succ {fuel : Nat} (reads : Reads fuel) {members : List (String × Json)}
    {s rest : List Char} (written : WrittenMembers members s)
    (enough : s.length + 1 < fuel + 1) :
    members? (fuel + 1) (s ++ '\x7d' :: rest) =
      some (members.map fun member => (some member.1, member.2), rest) := by
  cases written with
  | @last before between after s key value blank blankBetween written blankAfter =>
      simp only [List.length_append, List.length_cons] at enough
      have read := reads.value written (by omega) blankBetween
        (stops_close (c := '\x7d') (by decide) blankAfter rest)
      have parted : before ++ quoted key.toList ++ ':' :: (between ++ s ++ after) ++
          '\x7d' :: rest = before ++ quoted key.toList ++ ':' ::
            (between ++ s ++ (after ++ '\x7d' :: rest)) := by simp
      have close : skipGap ('\x7d' :: rest) = '\x7d' :: rest := skipGap_cons rfl
      rw [parted, members?, key?_append blank]
      simp only [Option.bind_eq_bind, Option.bind_some, read, blankAfter.skipGap_append, close]
      rfl
  | @cons before between after s more key value members blank blankBetween written blankAfter
      later =>
      simp only [List.length_append, List.length_cons] at enough
      have read := reads.value written (by omega) blankBetween
        (stops_close (c := ',') (by decide) blankAfter (more ++ '\x7d' :: rest))
      have parted : before ++ quoted key.toList ++ ':' :: (between ++ s ++ after ++ ',' :: more) ++
          '\x7d' :: rest = before ++ quoted key.toList ++ ':' ::
            (between ++ s ++ (after ++ ',' :: (more ++ '\x7d' :: rest))) := by simp
      have comma : skipGap (',' :: (more ++ '\x7d' :: rest)) = ',' :: (more ++ '\x7d' :: rest) :=
        skipGap_cons rfl
      rw [parted, members?, key?_append blank]
      simp only [Option.bind_eq_bind, Option.bind_some, read, blankAfter.skipGap_append, comma]
      rw [reads.members later (by omega)]
      rfl

theorem value_succ {fuel : Nat} (reads : Reads fuel) {json : Json} {s rest : List Char}
    (written : Written json s) (enough : s.length < fuel + 1) (stops : Stops rest) :
    value? (fuel + 1) (s ++ rest) = some (json, rest) := by
  cases written with
  | null =>
      exact value?_eq_scalar? (c := 'n') rfl (by decide) (by decide) (by decide) fuel
  | bool value =>
      cases value with
      | true => exact value?_eq_scalar? (c := 't') rfl (by decide) (by decide) (by decide) fuel
      | false => exact value?_eq_scalar? (c := 'f') rfl (by decide) (by decide) (by decide) fuel
  | num strict =>
      have scalar := scalar?_numeral strict stops
      obtain ⟨c, tail, shape, first⟩ := strict.exists_cons
      rw [shape, List.cons_append] at scalar ⊢
      have others := not_mem_of_numeral first
      simp only [List.mem_cons, List.not_mem_nil, or_false, not_or] at others
      rw [value?_eq_scalar? (by simp [isGap, others]) (by simp [others]) (by simp [others])
        (by simp [others]), scalar]
  | text value => exact value?_text value fuel
  | emptyList blank => exact value?_emptyList blank fuel
  | list inner => exact value?_list inner (reads.items inner (by simp at enough; omega))
  | emptyObject blank => exact value?_emptyObject blank fuel
  | object inner => exact value?_object inner (reads.members inner (by simp at enough; omega))

end Reads

theorem reads (fuel : Nat) : Reads fuel := by
  induction fuel with
  | zero =>
      exact ⟨fun _ enough => absurd enough (Nat.not_lt_zero _),
        fun _ enough => absurd enough (Nat.not_lt_zero _),
        fun _ enough => absurd enough (Nat.not_lt_zero _)⟩
  | succ fuel ih =>
      refine ⟨fun {json s gap rest} written enough blank stops => ?_, fun written enough =>
        ih.items_succ written enough, fun written enough => ih.members_succ written enough⟩
      rw [List.append_assoc, value?_congr (blank.skipGap_append _)]
      exact ih.value_succ written enough stops

end Parser

/-- Every text of a tree is read back as the tree, and a gap behind it does no harm. -/
theorem Written.ofChars?_append (written : Written json s) (blank : Gap gap) :
    ofChars? (s ++ gap) = some json := by
  have stops : Stops gap := by simpa using blank.stops stops_nil
  have read := (reads (2 * (s ++ gap).length + 2)).value written
    (by simp only [List.length_append]; omega) Gap.nil stops
  have rest : skipGap gap = [] := List.dropWhile_eq_nil_iff.mpr blank
  rw [List.nil_append] at read
  simp only [ofChars?, read, Option.bind_eq_bind, Option.bind_some, rest, List.isEmpty_nil,
    if_true]

theorem Written.ofChars?_eq (written : Written json s) : ofChars? s = some json := by
  simpa using written.ofChars?_append Gap.nil

end Kata.Json
