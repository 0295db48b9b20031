/-
# Programs as JSON

Functions are records. A statement is an object that says its type beside its fields,
or a list with the type in front of them. Because the type may stand anywhere, a
statement is read in full before its fields are, so even members that nobody knows
have to be sound. A statement inside a block may give its type as a number.
-/

import Kata.Expr.Json
import Kata.Program

namespace Kata

namespace Statement

mutual

/-- The JSON of a statement. -/
def toJson : Statement → Json
  | .assign variableName value =>
    .object [("type", .text "assignment"), ("variable", .text variableName),
      ("value", value.toJson)]
  | .result value => .object [("type", .text "return"), ("value", value.toJson)]
  | .branch condition thenBlock elseBlock =>
    .object [("type", .text "if"), ("condition", condition.toJson),
      ("then_block", .list (blockToJson thenBlock)),
      ("else_block", .list (blockToJson elseBlock))]

/-- The JSON of each statement of a block. -/
def blockToJson : List Statement → List Json
  | [] => []
  | statement :: rest => toJson statement :: blockToJson rest

end

/-- The types of statements. -/
inductive Kind
  | assign
  | result
  | branch
  deriving DecidableEq

/-- Read the type of a statement: its word or, in a block, its place among the types. -/
def kind? (inBlock : Bool) (json : Json) : Option Kind :=
  match json with
  | .text word => [("assignment", Kind.assign), ("return", .result), ("if", .branch)].lookup word
  | json => if inBlock then json.count?.bind ([Kind.assign, .result, .branch][·]?) else none

/-- Part a statement into its type and the record of its fields. -/
def parts? (inBlock : Bool) : Json → Option (Kind × Json)
  | .object members =>
    match members.filter fun member => member.1 == "type" with
    | [(_, kind)] =>
      (kind? inBlock kind).map (·, .object (members.filter fun member => member.1 != "type"))
    | _ => none
  | .list (kind :: rest) => (kind? inBlock kind).map (·, .list rest)
  | _ => none

/-- Read a statement that is known to be sound. -/
def ofSound? (inBlock : Bool) : Nat → Json → Option Statement
  | room + 2, json => do
    let (kind, record) ← parts? inBlock json
    match kind with
    | .assign =>
      let [variableName, value] ← record.fields? ["variable", "value"] | none
      return .assign (← Json.required? Json.text? variableName)
        (← Json.required? (Expression.ofJson? true (room + 1)) value)
    | .result =>
      let [value] ← record.fields? ["value"] | none
      return .result (← Json.required? (Expression.ofJson? true (room + 1)) value)
    | .branch =>
      let [condition, thenBlock, elseBlock] ←
        record.fields? ["condition", "then_block", "else_block"] | none
      return .branch (← Json.required? (Expression.ofJson? true (room + 1)) condition)
        (← (← Json.required? Json.items? thenBlock).mapM (ofSound? true room))
        (← (← Json.required? Json.items? elseBlock).mapM (ofSound? true room))
  | _, _ => none

/-- Read a statement. -/
def ofJson? (room : Nat) (json : Json) : Option Statement :=
  if json.sound room then ofSound? false room json else none

end Statement

namespace Routine

/-- The JSON of a function. -/
def toJson (routine : Routine) : Json :=
  .object [("name", .text routine.name),
    ("parameters", .list (routine.parameters.map .text)),
    ("body", .list (Statement.blockToJson routine.body))]

/-- Read a function. -/
def ofJson? : Nat → Json → Option Routine
  | room + 1, json => do
    let [name, parameters, body] ← json.fields? ["name", "parameters", "body"] | none
    return ⟨← Json.required? Json.text? name,
      ← Json.required? (Json.listOf? (fun _ => Json.text?) room) parameters,
      ← Json.required? (Json.listOf? Statement.ofJson? room) body⟩
  | 0, _ => none

end Routine

end Kata
