/-
# Values are read back

A value comes back from its JSON with one loss: numbers that are not finite are null there.
The other numbers come back as the finite numbers that their numerals are read as. Changing
the numbers of a value is the common form of both.
-/

import Kata.Proofs.Json.Finite
import Kata.Proofs.Json.Trees
import Kata.Value.Json

namespace Kata.Value

/-- A property of a value follows from the same property of its items. -/
@[elab_as_elim]
theorem induct {motive : Value → Prop} (null : motive .null) (bool : ∀ b, motive (.bool b))
    (number : ∀ x, motive (.number x)) (text : ∀ s, motive (.text s))
    (list : ∀ items, (∀ item ∈ items, motive item) → motive (.list items)) :
    ∀ v, motive v
  | .null => null
  | .bool b => bool b
  | .number x => number x
  | .text s => text s
  | .list items => list items fun item _ => induct null bool number text list item

/-! ## Numbers inside values -/

mutual

/-- The numbers in a value. -/
def numbers : Value → List Float
  | .number x => [x]
  | .list items => numbersOfItems items
  | _ => []

/-- The numbers in the items of a list. -/
def numbersOfItems : List Value → List Float
  | [] => []
  | item :: rest => numbers item ++ numbersOfItems rest

end

mutual

/-- Put a value in the place of every number of a value. -/
def mapNumbers (change : Float → Value) : Value → Value
  | .null => .null
  | .bool b => .bool b
  | .number x => change x
  | .text s => .text s
  | .list items => .list (mapItems change items)

/-- Put a value in the place of every number of every item. -/
def mapItems (change : Float → Value) : List Value → List Value
  | [] => []
  | item :: rest => mapNumbers change item :: mapItems change rest

end

variable {v : Value} {change other : Float → Value}

theorem numbersOfItems_eq_flatMap (items : List Value) :
    numbersOfItems items = items.flatMap numbers := by
  induction items with
  | nil => rfl
  | cons item items ih => rw [numbersOfItems, ih, List.flatMap_cons]

theorem mapItems_eq_map (change : Float → Value) (items : List Value) :
    mapItems change items = items.map (mapNumbers change) := by
  induction items with
  | nil => rfl
  | cons item items ih => rw [mapItems, ih, List.map_cons]

theorem itemsToJson_eq_map (items : List Value) : itemsToJson items = items.map toJson := by
  induction items with
  | nil => rfl
  | cons item items ih => rw [itemsToJson, ih, List.map_cons]

/-- Only what becomes of the numbers that are there matters. -/
theorem mapNumbers_congr (same : ∀ x ∈ v.numbers, change x = other x) :
    v.mapNumbers change = v.mapNumbers other := by
  induction v using induct with
  | null => rfl
  | bool b => rfl
  | number x => exact same x (List.mem_singleton_self x)
  | text s => rfl
  | list items ih =>
      rw [numbers, numbersOfItems_eq_flatMap] at same
      rw [mapNumbers, mapNumbers, mapItems_eq_map, mapItems_eq_map]
      congr 1
      apply List.map_congr_left
      intro item inside
      exact ih item inside fun x listed => same x (List.mem_flatMap_of_mem inside listed)

/-- A value stays as it is just when each of its numbers does. -/
theorem mapNumbers_eq_self_iff :
    v.mapNumbers change = v ↔ ∀ x ∈ v.numbers, change x = .number x := by
  induction v using induct with
  | null => simp [mapNumbers, numbers]
  | bool b => simp [mapNumbers, numbers]
  | number x => simp [mapNumbers, numbers]
  | text s => simp [mapNumbers, numbers]
  | list items ih =>
      rw [mapNumbers, numbers, mapItems_eq_map, numbersOfItems_eq_flatMap, list.injEq,
        Json.map_eq_self_iff, List.forall_mem_flatMap]
      exact forall₂_congr ih

/-! ## Values as JSON -/

/-- What a number comes back as: null if it is not finite, else what its numeral is read as. -/
def reread (x : Float) : Value :=
  if Double.isFinite x then
    ((Json.double? (Numeral.ofFloat Json.numberStyle x)).map number).getD .null
  else .null

/-- Null for a number that is not finite, else the number. -/
def settle (x : Float) : Value := if Double.isFinite x then .number x else .null

theorem settle_eq_number_iff {x : Float} : settle x = .number x ↔ Double.isFinite x = true := by
  rw [settle]
  split <;> simp_all

/-- A number whose numeral is read as the number comes back as it is, or as null. -/
theorem reread_eq_settle {x : Float} (exact_ : Double.isFinite x = true →
    Json.double? (Numeral.ofFloat Json.numberStyle x) = some x) : reread x = settle x := by
  rw [reread, settle]
  split
  · rename_i finite
    rw [exact_ finite]
    rfl
  · rfl

theorem holds_toJson {kind : Numeral → Prop}
    (of_kind : ∀ x, Double.isFinite x = true → kind (Numeral.ofFloat Json.numberStyle x)) :
    v.toJson.Holds kind := by
  induction v using induct with
  | null => exact .null
  | bool b => exact .bool b
  | number x =>
      rw [toJson, Json.ofFloat]
      split
      · rename_i finite
        exact .num (of_kind x finite)
      · exact .null
  | text s => exact .text s
  | list items ih =>
      rw [toJson, itemsToJson_eq_map]
      exact .list (List.forall_mem_map.mpr ih)

/-- A value that is not too deep is read back with its numbers reread. -/
theorem ofJson?_toJson {room : Nat} (shallow : v.toJson.depth ≤ room) :
    ofJson? room v.toJson = some (v.mapNumbers reread) := by
  induction v using induct generalizing room with
  | null => rw [toJson, ofJson?, mapNumbers]
  | bool b => rw [toJson, ofJson?, mapNumbers]
  | number x =>
      rw [toJson, Json.ofFloat, mapNumbers, reread]
      split
      · rename_i finite
        obtain ⟨y, read⟩ := Option.isSome_iff_exists.mp (Json.isSome_double?_ofFloat finite)
        rw [ofJson?, read]
        rfl
      · rw [ofJson?]
  | text s => rw [toJson, ofJson?, mapNumbers]
  | list items ih =>
      rw [toJson, itemsToJson_eq_map] at shallow ⊢
      obtain ⟨rest, rfl, each⟩ := Json.exists_room_of_list shallow
      rw [ofJson?, mapNumbers, mapItems_eq_map, Json.mapM_map_eq_some fun item inside =>
        ih item inside (each _ (List.mem_map_of_mem inside))]
      rfl

end Kata.Value
