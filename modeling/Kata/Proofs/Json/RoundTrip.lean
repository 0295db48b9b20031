/-
# What comes back from JSON

Eight types travel as JSON. Whatever is written, in either layout, is read back with each
number that is not finite turned into null and with nothing else changed, provided that it
nests no deeper than a reader goes, that its counts fit, and that its finite numbers are read
as they were written. The last is asked of the numbers inside only, because a reader may miss
some doubles by a little.
-/

import Kata.Proofs.Json.Layouts
import Kata.Proofs.Program.Json
import Kata.Proofs.Suite.Json

namespace Kata

/-- The types that travel as JSON. -/
inductive Exchanged
  | value
  | tree
  | statement
  | routine
  | case
  | suite
  | entry
  | settings
  deriving DecidableEq, Repr

namespace Exchanged

/-- What travels. -/
def Item : Exchanged → Type
  | value => Value
  | tree => Expr
  | statement => Statement
  | routine => Routine
  | case => Case
  | suite => Suite
  | entry => Entry
  | settings => Settings

/-- The JSON of an item. -/
def toJson : (k : Exchanged) → k.Item → Json
  | value => Value.toJson
  | tree => Expr.toJson
  | statement => Statement.toJson
  | routine => Routine.toJson
  | case => Case.toJson
  | suite => Suite.toJson
  | entry => Entry.toJson
  | settings => Settings.toJson

/-- Read an item. -/
def ofJson? : (k : Exchanged) → Nat → Json → Option k.Item
  | value => Value.ofJson?
  | tree => Expr.ofJson? false
  | statement => Statement.ofJson?
  | routine => Routine.ofJson?
  | case => Case.ofJson?
  | suite => Suite.ofJson?
  | entry => Entry.ofJson?
  | settings => Settings.ofJson?

/-- Read an item from JSON text. -/
def parse? (k : Exchanged) (text : String) : Option k.Item :=
  (Json.parse? text).bind (k.ofJson? Json.deepest)

/-- The numbers in an item. -/
def numbers : (k : Exchanged) → k.Item → List Float
  | value => Value.numbers
  | tree => Expr.numbers
  | statement => Statement.numbers
  | routine => Routine.numbers
  | case => Case.numbers
  | suite => Suite.numbers
  | entry => Entry.numbers
  | settings => fun _ => []

/-- The counts in an item. -/
def counts : (k : Exchanged) → k.Item → List Nat
  | suite => Suite.counts
  | entry => Entry.counts
  | value | tree | statement | routine | case | settings => fun _ => []

/-- Put a value in the place of every number of an item. -/
def mapNumbers (change : Float → Value) : (k : Exchanged) → k.Item → k.Item
  | value => Value.mapNumbers change
  | tree => Expr.mapNumbers change
  | statement => Statement.mapNumbers change
  | routine => Routine.mapNumbers change
  | case => Case.mapNumbers change
  | suite => Suite.mapNumbers change
  | entry => Entry.mapNumbers change
  | settings => id

/-- An item with null in the place of every number that is not finite. -/
def settle (k : Exchanged) (x : k.Item) : k.Item := k.mapNumbers Value.settle x

variable {k : Exchanged} {x : k.Item} {change other : Float → Value}

theorem mapNumbers_congr (same : ∀ f ∈ k.numbers x, change f = other f) :
    k.mapNumbers change x = k.mapNumbers other x := by
  cases k with
  | value => exact Value.mapNumbers_congr same
  | tree => exact Expr.mapNumbers_congr same
  | statement => exact Statement.mapNumbers_congr same
  | routine => exact Routine.mapNumbers_congr same
  | case => exact Case.mapNumbers_congr same
  | suite => exact Suite.mapNumbers_congr same
  | entry => exact Entry.mapNumbers_congr same
  | settings => rfl

theorem mapNumbers_eq_self_iff :
    k.mapNumbers change x = x ↔ ∀ f ∈ k.numbers x, change f = .number f := by
  cases k with
  | value => exact Value.mapNumbers_eq_self_iff
  | tree => exact Expr.mapNumbers_eq_self_iff
  | statement => exact Statement.mapNumbers_eq_self_iff
  | routine => exact Routine.mapNumbers_eq_self_iff
  | case => exact Case.mapNumbers_eq_self_iff
  | suite => exact Suite.mapNumbers_eq_self_iff
  | entry => exact Entry.mapNumbers_eq_self_iff
  | settings => simp [mapNumbers, numbers]

theorem strict_toJson (k : Exchanged) (x : k.Item) : (k.toJson x).Holds Numeral.Strict := by
  have written : ∀ f, Double.isFinite f = true →
      (Numeral.ofFloat Json.numberStyle f).Strict :=
    fun f _ => Numeral.strict_ofFloat Json.numberStyle f
  cases k with
  | value => exact Value.holds_toJson written
  | tree => exact Expr.holds_toJson written
  | statement => exact Statement.holds_toJson written
  | routine => exact Routine.holds_toJson written
  | case => exact Case.strict_toJson
  | suite => exact Suite.strict_toJson
  | entry => exact Entry.strict_toJson
  | settings => exact Settings.strict_toJson

/-- An item that is not too deep and whose counts fit is read back with its numbers reread. -/
theorem ofJson?_toJson {room : Nat} (shallow : (k.toJson x).depth ≤ room)
    (counts : ∀ n ∈ k.counts x, n < 2 ^ 64) :
    k.ofJson? room (k.toJson x) = some (k.mapNumbers Value.reread x) := by
  cases k with
  | value => exact Value.ofJson?_toJson shallow
  | tree => exact Expr.ofJson?_toJson shallow
  | statement => exact Statement.ofJson?_toJson shallow
  | routine => exact Routine.ofJson?_toJson shallow
  | case => exact Case.ofJson?_toJson shallow
  | suite => exact Suite.ofJson?_toJson shallow counts
  | entry => exact Entry.ofJson?_toJson shallow counts
  | settings => exact Settings.ofJson?_toJson shallow

/-- Both layouts of an item are read back as the item with null for what is not finite, which
is the item itself just when all its numbers are finite. -/
theorem parse?_toJson (k : Exchanged) (x : k.Item)
    (shallow : (k.toJson x).depth ≤ Json.deepest) (counts : ∀ n ∈ k.counts x, n < 2 ^ 64)
    (exactly : ∀ f ∈ k.numbers x, Double.isFinite f = true →
      Json.double? (Numeral.ofFloat Json.numberStyle f) = some f) :
    k.parse? (k.toJson x).compact = some (k.settle x) ∧
      k.parse? (k.toJson x).indented = some (k.settle x) ∧
      (k.parse? (k.toJson x).compact = some x ↔
        ∀ f ∈ k.numbers x, Double.isFinite f = true) := by
  have strict := k.strict_toJson x
  have settled : k.mapNumbers Value.reread x = k.settle x :=
    mapNumbers_congr fun f inside => Value.reread_eq_settle (exactly f inside)
  have read : k.ofJson? Json.deepest (k.toJson x) = some (k.settle x) := by
    rw [ofJson?_toJson shallow counts, settled]
  have compact : k.parse? (k.toJson x).compact = some (k.settle x) := by
    rw [parse?, Json.parse?_compact strict, Option.bind_some, read]
  have indented : k.parse? (k.toJson x).indented = some (k.settle x) := by
    rw [parse?, Json.parse?_indented strict, Option.bind_some, read]
  refine ⟨compact, indented, ?_⟩
  rw [compact, Option.some.injEq, settle, mapNumbers_eq_self_iff]
  exact forall₂_congr fun f _ => Value.settle_eq_number_iff

/-- An entry of a run that came to a list with an infinity and a negative zero in it, where
null was expected. -/
def stray : Entry where
  sequence := 3
  status := .red
  suite := some (Suite.ofCases "Übung" [{
    name := "\"t\""
    code := "ASSERT f() EQUALS null"
    passed := some false
    actual := some (.list [.number (1.0 / 0.0), .number (-0.0), .text "✓"])
    expected := some .null }])
  digest := ""

/-- Of that entry only the infinity is lost. -/
theorem parse?_toJson_stray :
    (toJson entry stray).depth ≤ Json.deepest ∧ (∀ n ∈ counts entry stray, n < 2 ^ 64) ∧
      (∀ f ∈ numbers entry stray, Double.isFinite f = true →
        Json.double? (Numeral.ofFloat Json.numberStyle f) = some f) ∧
      parse? entry (toJson entry stray).compact = some (settle entry stray) ∧
      parse? entry (toJson entry stray).indented = some (settle entry stray) ∧
      parse? entry (toJson entry stray).compact ≠ some stray := by
  have shallow : (toJson entry stray).depth ≤ Json.deepest := by decide +kernel
  have fit : ∀ n ∈ counts entry stray, n < 2 ^ 64 := by decide +kernel
  have exactly : ∀ f ∈ numbers entry stray, Double.isFinite f = true →
      Json.double? (Numeral.ofFloat Json.numberStyle f) = some f := by decide +kernel
  have lost : ¬∀ f ∈ numbers entry stray, Double.isFinite f = true := by decide +kernel
  obtain ⟨compact, indented, kept⟩ := parse?_toJson entry stray shallow fit exactly
  exact ⟨shallow, fit, exactly, compact, indented, fun same => lost (kept.mp same)⟩

end Exchanged

end Kata
