/-
# Expressions as JSON

A tree is an object with the kind of its root as the only key. A binary node holds a
record of operator, left and right side.
-/

import Kata.Expr
import Kata.Value.Json

namespace Kata

/-- The word for an operator in JSON. -/
def Op.word : Op → String
  | .add => "Add"
  | .sub => "Sub"
  | .mul => "Mul"
  | .div => "Div"
  | .rem => "Rem"
  | .eq => "Eq"

/-- The operators by their words. -/
def Op.words : List (String × Op) :=
  [Op.add, .sub, .mul, .div, .rem, .eq].map fun op => (op.word, op)

/-- Read an operator. -/
def Op.ofJson? (inStatement : Bool) (room : Nat) (json : Json) : Option Op :=
  json.word? Op.words inStatement room

namespace Expr

/-- The JSON of a tree. -/
def toJson : Expr → Json
  | .literal v => .object [("Literal", v.toJson)]
  | .var s => .object [("Variable", .text s)]
  | .binary op left right =>
    .object [("Binary",
      .object [("op", .text op.word), ("left", left.toJson), ("right", right.toJson)])]
  | .invalid s => .object [("Invalid", .text s)]

/-- Read a tree. -/
def ofJson? (inStatement : Bool) : Nat → Json → Option Expr
  | room + 1, .object [("Literal", body)] => (Value.ofJson? room body).map .literal
  | _ + 1, .object [("Variable", body)] => body.text?.map .var
  | _ + 1, .object [("Invalid", body)] => body.text?.map .invalid
  | room + 2, .object [("Binary", body)] => do
    let [op, left, right] ← body.fields? ["op", "left", "right"] | none
    return .binary (← Json.required? (Op.ofJson? inStatement room) op)
      (← Json.required? (ofJson? inStatement room) left)
      (← Json.required? (ofJson? inStatement room) right)
  | _, _ => none

end Expr

namespace Expression

/-- The JSON of an expression: its text and its tree. -/
def toJson (e : Expression) : Json :=
  .object [("source", .text e.source), ("expr", e.tree.toJson)]

/-- Read an expression. The tree is taken as it comes, whatever the text says. -/
def ofJson? (inStatement : Bool) : Nat → Json → Option Expression
  | room + 1, json => do
    let [source, tree] ← json.fields? ["source", "expr"] | none
    return ⟨← Json.required? Json.text? source,
      ← Json.required? (Expr.ofJson? inStatement room) tree⟩
  | 0, _ => none

end Expression

end Kata
