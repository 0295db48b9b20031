/-
# Shown values are told apart

What a message shows of a value ends by itself: the first character tells the kind of value, a
text ends at its closing quote and a list at its bracket, and what is neither holds no comma
and no bracket. So two shown values that start the same text are alike, up to the sign of
zero, which is not shown. Not-a-number has its word like any other number. It takes only the
equality of values to set it apart from itself.
-/

import Kata.Proofs.Json.Grammar
import Kata.Proofs.Json.Quoted
import Kata.Proofs.Number.Distinct
import Kata.Proofs.Number.Equality
import Kata.Proofs.Value.Json
import Kata.Value.Display

namespace Kata.Value

/-! ## Shown numbers -/

section Numbers

variable {x y : Float}

/-- Numerals share no letter with the words for what is not finite. -/
theorem not_mem_toChars_ofFloat {c : Char} (letter : c ∈ ['N', 'I', ',', ']']) (x : Float) :
    c ∉ (Numeral.ofFloat numberStyle x).toChars := by
  intro inside
  rcases (Numeral.strict_ofFloat numberStyle x).isDigit_or_mem inside with digit | mark
  · simp only [List.mem_cons, List.not_mem_nil, or_false] at letter
    rcases letter with rfl | rfl | rfl | rfl <;> exact absurd digit (by decide)
  · simp only [List.mem_cons, List.not_mem_nil, or_false] at letter
    rcases letter with rfl | rfl | rfl | rfl <;> exact absurd mark (by decide)

theorem mem_N_numberChars_iff : 'N' ∈ numberChars x ↔ x.isNaN = true := by
  rw [numberChars]
  split
  · rename_i absent
    exact iff_of_true (by decide) absent
  · rename_i number
    refine iff_of_false ?_ number
    split
    · exact not_mem_toChars_ofFloat (by decide) x
    · split <;> decide

theorem mem_I_numberChars_iff :
    'I' ∈ numberChars x ↔ x.isNaN = false ∧ Double.isFinite x = false := by
  rw [numberChars]
  split
  · rename_i absent
    exact iff_of_false (by decide) fun infinite => Bool.eq_false_iff.mp infinite.1 absent
  · rename_i number
    split
    · rename_i finite
      refine iff_of_false (not_mem_toChars_ofFloat (by decide) x) fun infinite => ?_
      simp [finite] at infinite
    · rename_i infinite
      refine iff_of_true ?_ ⟨Bool.eq_false_iff.mpr number, Bool.eq_false_iff.mpr infinite⟩
      split <;> decide

/-- Numbers that are shown alike differ at most in the sign of zero. -/
theorem unsignedZero_eq_of_numberChars_eq (same : numberChars x = numberChars y) :
    Double.unsignedZero x = Double.unsignedZero y := by
  have absent : x.isNaN = true ↔ y.isNaN = true := by
    rw [← mem_N_numberChars_iff, same, mem_N_numberChars_iff]
  have infinite : (x.isNaN = false ∧ Double.isFinite x = false) ↔
      (y.isNaN = false ∧ Double.isFinite y = false) := by
    rw [← mem_I_numberChars_iff, same, mem_I_numberChars_iff]
  by_cases nan : x.isNaN = true
  · have nan' := absent.mp nan
    simp only [Float.isNaN_eq_decide_eq_nan, decide_eq_true_eq] at nan nan'
    rw [nan, nan']
  · have number : x.isNaN = false := by simpa using nan
    have number' : y.isNaN = false := by simpa using fun nan' => nan (absent.mpr nan')
    simp only [number, number', true_and] at infinite
    cases finite : Double.isFinite x with
    | true =>
        have finite' : Double.isFinite y = true := by
          rw [← Bool.not_eq_false, ← infinite, finite]
          decide
        simp only [numberChars, number, number', finite, finite', Bool.false_eq_true, if_false,
          if_true] at same
        obtain ⟨magnitude, sign⟩ := Numeral.eq_of_toChars_ofFloat_eq same
        refine Double.unsignedZero_eq_of_rank_eq magnitude fun positive => ?_
        have shown : (Double.rank x != 0) = true := by simpa using positive
        simpa [Numeral.ofFloat, ← magnitude, shown] using sign
    | false =>
        have infinite' := infinite.mp finite
        have magnitude : Double.rank x = Double.rank y :=
          (Double.rank_eq_infinityRank number finite).trans
            (Double.rank_eq_infinityRank number' infinite').symm
        refine Double.unsignedZero_eq_of_rank_eq magnitude fun _ => ?_
        simp only [numberChars, number, number', finite, infinite', Bool.false_eq_true,
          if_false] at same
        cases sign : Double.isNegative x <;> cases sign' : Double.isNegative y <;>
          simp_all

theorem numberChars_unsignedZero (x : Float) :
    numberChars (Double.unsignedZero x) = numberChars x := by
  rw [Double.unsignedZero]
  split
  · rename_i zero
    have shown : numberChars 0 = ['0'] ∧ numberChars (-0) = ['0'] := by decide
    rcases Double.beq_zero_iff.mp zero with rfl | rfl
    · rfl
    · rw [shown.1, shown.2]
  · rfl

/-- A shown number holds nothing that could end a value. -/
theorem not_mem_numberChars {c : Char} (mark : c = ',' ∨ c = ']') (x : Float) :
    c ∉ numberChars x := by
  rw [numberChars]
  split
  · rcases mark with rfl | rfl <;> decide
  · split
    · exact not_mem_toChars_ofFloat (by simpa using .inr (.inr mark)) x
    · split <;> rcases mark with rfl | rfl <;> decide

end Numbers

/-! ## How shown values start and end -/

/-- The kinds of values that are told apart by how they start. -/
inductive Form
  | null
  | bool (value : Bool)
  | number
  | text
  | list
  deriving DecidableEq

/-- The kind of a value. -/
def form : Value → Form
  | .null => .null
  | .bool b => .bool b
  | .number _ => .number
  | .text _ => .text
  | .list _ => .list

/-- The kind of value that is shown from a character on. -/
def formOf (c : Char) : Form :=
  if c = 'n' then .null
  else if c = 't' then .bool true
  else if c = 'f' then .bool false
  else if c = '\x22' then .text
  else if c = '[' then .list
  else .number

theorem exists_cons_numberChars (x : Float) :
    ∃ c rest, numberChars x = c :: rest ∧ c ≠ ']' ∧ formOf c = .number := by
  rw [numberChars]
  split
  · exact ⟨'N', _, rfl, by decide⟩
  · split
    · obtain ⟨c, rest, shape, first⟩ := (Numeral.strict_ofFloat numberStyle x).exists_cons
      have others := Json.not_mem_of_numeral first
      simp only [List.mem_cons, List.not_mem_nil, or_false, not_or] at others
      exact ⟨c, rest, shape, by simp [others], by simp [formOf, others]⟩
    · split
      · exact ⟨'-', _, rfl, by decide⟩
      · exact ⟨'I', _, rfl, by decide⟩

/-- The first character tells the kind of value, and no value starts like the end of a list. -/
theorem exists_cons_displayChars (v : Value) :
    ∃ c rest, displayChars v = c :: rest ∧ c ≠ ']' ∧ formOf c = v.form := by
  cases v with
  | null => exact ⟨'n', _, rfl, by decide⟩
  | bool b => cases b <;> exact ⟨_, _, rfl, by decide⟩
  | number x => exact exists_cons_numberChars x
  | text s => exact ⟨'\x22', _, rfl, by decide, rfl⟩
  | list items => exact ⟨'[', _, rfl, by decide, rfl⟩

/-- What may stand behind a value: the end of the text, or what ends an item of a list. -/
def Ends (rest : List Char) : Prop := ∀ c ∈ rest.head?, c = ',' ∨ c = ']'

variable {v w : Value} {items others : List Value} {r s : List Char}

theorem ends_nil : Ends [] := by simp [Ends]

theorem ends_cons {c : Char} (mark : c = ',' ∨ c = ']') (rest : List Char) : Ends (c :: rest) := by
  intro d first
  obtain rfl : c = d := by simpa using first
  exact mark

theorem form_eq_of_append_eq (same : displayChars v ++ r = displayChars w ++ s) :
    v.form = w.form := by
  obtain ⟨c, rest, shape, -, form⟩ := exists_cons_displayChars v
  obtain ⟨d, rest', shape', -, form'⟩ := exists_cons_displayChars w
  rw [shape, shape'] at same
  rw [← form, ← form', (List.cons.inj same).1]

/-- Texts without marks in front of marks are told by what they make together. -/
theorem append_inj_of_unmarked {a b : List Char} (unmarked : ∀ c, c = ',' ∨ c = ']' → c ∉ a)
    (unmarked' : ∀ c, c = ',' ∨ c = ']' → c ∉ b) (ends : Ends r) (ends' : Ends s)
    (same : a ++ r = b ++ s) : a = b ∧ r = s := by
  have front {a r : List Char} (unmarked : ∀ c, c = ',' ∨ c = ']' → c ∉ a) (ends : Ends r) :
      (a ++ r).takeWhile (fun c => !(c == ',' || c == ']')) = a := by
    rw [List.takeWhile_append_of_pos]
    · cases r with
      | nil => simp
      | cons c r =>
          have mark : (!(c == ',' || c == ']')) = false := by
            rcases ends c rfl with rfl | rfl <;> rfl
          rw [List.takeWhile_cons_of_neg (by simp [mark]), List.append_nil]
    · intro c inside
      simpa using fun mark => unmarked c mark inside
  have parts : a = b := by
    rw [← front unmarked ends, same, front unmarked' ends']
  subst parts
  exact ⟨rfl, List.append_cancel_left same⟩

theorem displayItems_eq_map (items : List Value) : displayItems items = items.map displayChars := by
  induction items with
  | nil => rfl
  | cons item items ih => rw [displayItems, ih, List.map_cons]

/-- The items of a list behind the first, as a message shows them. -/
def moreItems (items : List Value) : List Char := items.flatMap fun item => ',' :: displayChars item

theorem intercalate_displayItems (item : Value) (items : List Value) :
    [','].intercalate (displayItems (item :: items)) = displayChars item ++ moreItems items := by
  induction items generalizing item with
  | nil => simp [displayItems, moreItems]
  | cons next items ih =>
      rw [displayItems, displayItems, List.intercalate_cons_cons, ← displayItems, ih]
      simp [moreItems]

theorem ends_moreItems (items : List Value) (rest : List Char) :
    Ends (moreItems items ++ ']' :: rest) := by
  cases items with
  | nil => exact ends_cons (.inr rfl) rest
  | cons item items => exact ends_cons (.inl rfl) _

/-! ## Reading off a value -/

/-- The value with its zeros unsigned. -/
def unsigned (v : Value) : Value := v.mapNumbers fun x => .number (Double.unsignedZero x)

theorem unsigned_list (items : List Value) :
    (list items).unsigned = .list (items.map unsigned) := by
  rw [unsigned, mapNumbers, mapItems_eq_map]
  rfl

/-- A shown value can be read off the front of a text, up to the sign of zero. -/
def ReadsOff (v : Value) : Prop := ∀ (w : Value) (r s : List Char), Ends r → Ends s →
  displayChars v ++ r = displayChars w ++ s → v.unsigned = w.unsigned ∧ r = s

/-- The items behind the first are read off one by one. -/
theorem moreItems_append_inj (each : ∀ item ∈ items, item.ReadsOff)
    (same : moreItems items ++ ']' :: r = moreItems others ++ ']' :: s) :
    items.map unsigned = others.map unsigned ∧ r = s := by
  induction items generalizing others with
  | nil =>
      cases others with
      | nil => exact ⟨rfl, (List.cons.inj same).2⟩
      | cons other others => exact absurd (List.cons.inj same).1 (by decide)
  | cons item items ih =>
      cases others with
      | nil => exact absurd (List.cons.inj same).1 (by decide)
      | cons other others =>
          obtain ⟨first, later⟩ := List.forall_mem_cons.mp each
          simp only [moreItems, List.flatMap_cons, List.cons_append, List.append_assoc,
            List.cons.injEq, true_and] at same
          obtain ⟨alike, behind⟩ :=
            first other _ _ (ends_moreItems items r) (ends_moreItems others s) same
          obtain ⟨rest, ends⟩ := ih later behind
          exact ⟨by rw [List.map_cons, List.map_cons, alike, rest], ends⟩

theorem readsOff_list (each : ∀ item ∈ items, item.ReadsOff) : (list items).ReadsOff := by
  intro w r s _ _ same
  have kind := form_eq_of_append_eq same
  cases w with
  | list others =>
      simp only [displayChars, List.cons_append, List.append_assoc, List.cons.injEq, true_and,
        List.nil_append] at same
      rw [unsigned_list, unsigned_list, list.injEq]
      cases items with
      | nil =>
          cases others with
          | nil => exact ⟨rfl, (List.cons.inj same).2⟩
          | cons other others =>
              obtain ⟨c, rest, shape, open_, -⟩ := exists_cons_displayChars other
              rw [intercalate_displayItems, shape] at same
              exact absurd (List.cons.inj same).1.symm open_
      | cons item items =>
          cases others with
          | nil =>
              obtain ⟨c, rest, shape, open_, -⟩ := exists_cons_displayChars item
              rw [intercalate_displayItems, shape] at same
              exact absurd (List.cons.inj same).1 open_
          | cons other others =>
              obtain ⟨first, later⟩ := List.forall_mem_cons.mp each
              rw [intercalate_displayItems, intercalate_displayItems, List.append_assoc,
                List.append_assoc] at same
              obtain ⟨alike, behind⟩ :=
                first other _ _ (ends_moreItems items r) (ends_moreItems others s) same
              obtain ⟨rest, ends⟩ := moreItems_append_inj later behind
              exact ⟨by rw [List.map_cons, List.map_cons, alike, rest], ends⟩
  | null | bool | number | text => cases kind

theorem readsOff (v : Value) : v.ReadsOff := by
  induction v using induct with
  | null =>
      intro w r s _ _ same
      have kind := form_eq_of_append_eq same
      cases w with
      | null => exact ⟨rfl, List.append_cancel_left same⟩
      | bool | number | text | list => cases kind
  | bool b =>
      intro w r s _ _ same
      have kind := form_eq_of_append_eq same
      cases w with
      | bool =>
          cases kind
          exact ⟨rfl, List.append_cancel_left same⟩
      | null | number | text | list => cases kind
  | number x =>
      intro w r s ends ends' same
      have kind := form_eq_of_append_eq same
      cases w with
      | number y =>
          obtain ⟨shown, rest⟩ := append_inj_of_unmarked
            (fun c mark => not_mem_numberChars mark x) (fun c mark => not_mem_numberChars mark y)
            ends ends' same
          exact ⟨congrArg number (unsignedZero_eq_of_numberChars_eq shown), rest⟩
      | null | bool | text | list => cases kind
  | text t =>
      intro w r s _ _ same
      have kind := form_eq_of_append_eq same
      cases w with
      | text u =>
          simp only [displayChars, Json.quoted, List.cons_append, List.append_assoc,
            List.cons.injEq, true_and, List.nil_append] at same
          have read := Json.pieces_flatMap_escape t.toList r
          rw [same, Json.pieces_flatMap_escape, Option.some.injEq, Prod.mk.injEq] at read
          have chars : u.toList = t.toList :=
            List.map_injective_iff.mpr (fun _ _ => Json.Piece.char.inj) read.1
          rw [String.toList_inj.mp chars]
          exact ⟨rfl, read.2.symm⟩
      | null | bool | number | list => cases kind
  | list items each => exact readsOff_list each

/-! ## Shown alike and equal -/

theorem displayChars_unsigned (v : Value) : displayChars v.unsigned = displayChars v := by
  induction v using induct with
  | null => rfl
  | bool b => rfl
  | number x => exact numberChars_unsignedZero x
  | text s => rfl
  | list items ih =>
      rw [unsigned_list, displayChars, displayChars, displayItems_eq_map, displayItems_eq_map,
        List.map_map]
      have each : items.map (displayChars ∘ unsigned) = items.map displayChars :=
        List.map_congr_left ih
      rw [each]

/-- Values are shown alike exactly if they differ at most in the signs of zeros. -/
theorem display_eq_iff : v.display = w.display ↔ v.unsigned = w.unsigned := by
  rw [display, display, String.ofList_inj]
  constructor
  · intro same
    exact (readsOff v w [] [] ends_nil ends_nil (by rw [same])).1
  · intro alike
    rw [← displayChars_unsigned v, alike, displayChars_unsigned]

/-- A value without not-a-number. -/
def Numeric (v : Value) : Prop := ∀ x ∈ v.numbers, x.isNaN = false

theorem numeric_list_iff : (list items).Numeric ↔ ∀ item ∈ items, item.Numeric := by
  rw [Numeric, numbers, numbersOfItems_eq_flatMap, List.forall_mem_flatMap]
  rfl

theorem numeric_unsigned_iff : v.unsigned.Numeric ↔ v.Numeric := by
  induction v using induct with
  | null => rfl
  | bool b => rfl
  | number x =>
      simp only [Numeric, unsigned, mapNumbers, numbers, List.forall_mem_singleton,
        Double.isNaN_unsignedZero]
  | text s => rfl
  | list items ih =>
      rw [unsigned_list, numeric_list_iff, numeric_list_iff, List.forall_mem_map]
      exact forall₂_congr ih

theorem sameItems_iff (each : ∀ item ∈ items, ∀ w, same item w = true ↔
      item.Numeric ∧ item.unsigned = w.unsigned) :
    sameItems items others = true ↔
      (∀ item ∈ items, item.Numeric) ∧ items.map unsigned = others.map unsigned := by
  induction items generalizing others with
  | nil => cases others <;> simp [sameItems]
  | cons item items ih =>
      obtain ⟨first, later⟩ := List.forall_mem_cons.mp each
      cases others with
      | nil => simp [sameItems]
      | cons other others =>
          rw [sameItems, Bool.and_eq_true, first, ih later, List.forall_mem_cons, List.map_cons,
            List.map_cons, List.cons.injEq]
          tauto

/-- Values are equal exactly if they are shown alike and have no not-a-number. -/
theorem beq_iff : (v == w) = true ↔ v.Numeric ∧ v.unsigned = w.unsigned := by
  change same v w = true ↔ _
  induction v using induct generalizing w with
  | null => cases w <;> simp [same, Numeric, unsigned, mapNumbers, numbers]
  | bool b => cases w <;> simp [same, Numeric, unsigned, mapNumbers, numbers]
  | number x =>
      cases w <;> simp [same, Numeric, unsigned, mapNumbers, numbers, Double.beq_iff]
  | text s => cases w <;> simp [same, Numeric, unsigned, mapNumbers, numbers]
  | list items ih =>
      cases w with
      | list others =>
          rw [same, sameItems_iff fun item inside w => ih item inside, numeric_list_iff,
            unsigned_list, unsigned_list, list.injEq]
      | null | bool | number | text => simp [same, unsigned, mapNumbers]

/-- Among values without not-a-number showing separates what equality separates. -/
theorem display_eq_iff_of_numeric (numeric : v.Numeric) :
    v.display = w.display ↔ (v == w) = true := by
  rw [display_eq_iff, beq_iff, and_iff_right numeric]

end Kata.Value
