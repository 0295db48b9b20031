/-
# Programs are read back

Trees, expressions, statements and functions come back from their JSON with the numbers of
their literals reread. A statement is asked whether all of it can be read before any of it is,
and so it has to be shallow and its numbers finite as a whole.
-/

import Kata.Program.Json
import Kata.Proofs.Value.Json

namespace Kata

open Value (reread)

variable {change other : Float → Value} {inStatement : Bool} {room : Nat}

/-! ## Trees -/

theorem Op.ofJson?_word (op : Op) : ofJson? inStatement room (.text op.word) = some op := by
  cases op <;> rfl

namespace Expr

variable {e : Expr}

/-- The numbers in the literals of a tree. -/
def numbers : Expr → List Float
  | .literal v => v.numbers
  | .var _ => []
  | .binary _ left right => left.numbers ++ right.numbers
  | .invalid _ => []

/-- Put a value in the place of every number of every literal. -/
def mapNumbers (change : Float → Value) : Expr → Expr
  | .literal v => .literal (v.mapNumbers change)
  | .var s => .var s
  | .binary op left right => .binary op (left.mapNumbers change) (right.mapNumbers change)
  | .invalid s => .invalid s

theorem mapNumbers_congr (same : ∀ x ∈ e.numbers, change x = other x) :
    e.mapNumbers change = e.mapNumbers other := by
  induction e with
  | literal v => exact congrArg literal (Value.mapNumbers_congr same)
  | var s => rfl
  | binary op left right ihLeft ihRight =>
      obtain ⟨sameLeft, sameRight⟩ := List.forall_mem_append.mp same
      rw [mapNumbers, mapNumbers, ihLeft sameLeft, ihRight sameRight]
  | invalid s => rfl

theorem mapNumbers_eq_self_iff :
    e.mapNumbers change = e ↔ ∀ x ∈ e.numbers, change x = .number x := by
  induction e with
  | literal v => rw [mapNumbers, literal.injEq, Value.mapNumbers_eq_self_iff, numbers]
  | var s => simp [mapNumbers, numbers]
  | binary op left right ihLeft ihRight =>
      rw [mapNumbers, binary.injEq, ihLeft, ihRight, numbers, List.forall_mem_append,
        eq_self, true_and]
  | invalid s => simp [mapNumbers, numbers]

theorem holds_toJson {kind : Numeral → Prop}
    (of_kind : ∀ x, Double.isFinite x = true → kind (Numeral.ofFloat Json.numberStyle x)) :
    e.toJson.Holds kind := by
  induction e with
  | literal v => exact .object (by simpa using Value.holds_toJson of_kind)
  | var s => exact .object (by simpa using .text s)
  | binary op left right ihLeft ihRight =>
      exact .object (by simpa using .object (by simpa using ⟨.text _, ihLeft, ihRight⟩))
  | invalid s => exact .object (by simpa using .text s)

theorem ofJson?_toJson (shallow : e.toJson.depth ≤ room) :
    ofJson? inStatement room e.toJson = some (e.mapNumbers reread) := by
  induction e generalizing room with
  | literal v =>
      obtain ⟨rest, rfl, each⟩ := Json.exists_room_of_object shallow
      have read := Value.ofJson?_toJson (each _ (List.mem_singleton_self _))
      change (Value.ofJson? rest v.toJson).map literal = _
      rw [read]
      rfl
  | var s =>
      obtain ⟨rest, rfl, -⟩ := Json.exists_room_of_object shallow
      rfl
  | binary op left right ihLeft ihRight =>
      obtain ⟨outer, rfl, each⟩ := Json.exists_room_of_object shallow
      obtain ⟨rest, rfl, parts⟩ := Json.exists_room_of_object (each _ (List.mem_singleton_self _))
      have fields : (Json.object [("op", .text op.word), ("left", left.toJson),
          ("right", right.toJson)]).fields? ["op", "left", "right"] = some [_, _, _] :=
        Json.fields?_object _ rfl (by decide)
      have readLeft := ihLeft (parts ("left", left.toJson) (by simp))
      have readRight := ihRight (parts ("right", right.toJson) (by simp))
      rw [toJson, ofJson?, fields]
      simp only [Option.bind_eq_bind, Option.bind_some, Json.required?, Op.ofJson?_word, readLeft,
        readRight]
      rfl
  | invalid s =>
      obtain ⟨rest, rfl, -⟩ := Json.exists_room_of_object shallow
      rfl

end Expr

namespace Expression

variable {e : Expression}

/-- The numbers in the tree of an expression. -/
def numbers (e : Expression) : List Float := e.tree.numbers

/-- Put a value in the place of every number of the tree. -/
def mapNumbers (change : Float → Value) (e : Expression) : Expression :=
  { e with tree := e.tree.mapNumbers change }

theorem mapNumbers_congr (same : ∀ x ∈ e.numbers, change x = other x) :
    e.mapNumbers change = e.mapNumbers other := by
  rw [mapNumbers, mapNumbers, Expr.mapNumbers_congr same]

theorem mapNumbers_eq_self_iff :
    e.mapNumbers change = e ↔ ∀ x ∈ e.numbers, change x = .number x := by
  obtain ⟨source, tree⟩ := e
  rw [mapNumbers, mk.injEq, Expr.mapNumbers_eq_self_iff, eq_self, true_and, numbers]

theorem holds_toJson {kind : Numeral → Prop}
    (of_kind : ∀ x, Double.isFinite x = true → kind (Numeral.ofFloat Json.numberStyle x)) :
    e.toJson.Holds kind :=
  .object (by simpa using ⟨.text _, Expr.holds_toJson of_kind⟩)

theorem ofJson?_toJson (shallow : e.toJson.depth ≤ room) :
    ofJson? inStatement room e.toJson = some (e.mapNumbers reread) := by
  obtain ⟨rest, rfl, parts⟩ := Json.exists_room_of_object shallow
  have fields : e.toJson.fields? ["source", "expr"] = some [_, _] :=
    Json.fields?_object _ rfl (by decide)
  have read : Expr.ofJson? inStatement rest e.tree.toJson = _ :=
    Expr.ofJson?_toJson (parts ("expr", e.tree.toJson) (by simp))
  rw [ofJson?, fields]
  simp only [Option.bind_eq_bind, Option.bind_some, Json.required?, read]
  rfl

end Expression

/-! ## Statements -/

namespace Statement

/-- A property of a statement follows from the same property of the statements inside. -/
@[elab_as_elim]
theorem induct {motive : Statement → Prop}
    (assign : ∀ variableName value, motive (.assign variableName value))
    (result : ∀ value, motive (.result value))
    (branch : ∀ condition thenBlock elseBlock, (∀ s ∈ thenBlock, motive s) →
      (∀ s ∈ elseBlock, motive s) → motive (.branch condition thenBlock elseBlock)) :
    ∀ s, motive s
  | .assign variableName value => assign variableName value
  | .result value => result value
  | .branch condition thenBlock elseBlock =>
    branch condition thenBlock elseBlock (fun s _ => induct assign result branch s)
      (fun s _ => induct assign result branch s)

mutual

/-- The numbers in a statement. -/
def numbers : Statement → List Float
  | .assign _ value => value.numbers
  | .result value => value.numbers
  | .branch condition thenBlock elseBlock =>
    condition.numbers ++ numbersOfBlock thenBlock ++ numbersOfBlock elseBlock

/-- The numbers in the statements of a block. -/
def numbersOfBlock : List Statement → List Float
  | [] => []
  | statement :: rest => numbers statement ++ numbersOfBlock rest

end

mutual

/-- Put a value in the place of every number of a statement. -/
def mapNumbers (change : Float → Value) : Statement → Statement
  | .assign variableName value => .assign variableName (value.mapNumbers change)
  | .result value => .result (value.mapNumbers change)
  | .branch condition thenBlock elseBlock =>
    .branch (condition.mapNumbers change) (mapBlock change thenBlock) (mapBlock change elseBlock)

/-- Put a value in the place of every number of every statement. -/
def mapBlock (change : Float → Value) : List Statement → List Statement
  | [] => []
  | statement :: rest => mapNumbers change statement :: mapBlock change rest

end

variable {s : Statement} {inBlock : Bool}

theorem numbersOfBlock_eq_flatMap (block : List Statement) :
    numbersOfBlock block = block.flatMap numbers := by
  induction block with
  | nil => rfl
  | cons s block ih => rw [numbersOfBlock, ih, List.flatMap_cons]

theorem mapBlock_eq_map (change : Float → Value) (block : List Statement) :
    mapBlock change block = block.map (mapNumbers change) := by
  induction block with
  | nil => rfl
  | cons s block ih => rw [mapBlock, ih, List.map_cons]

theorem blockToJson_eq_map (block : List Statement) : blockToJson block = block.map toJson := by
  induction block with
  | nil => rfl
  | cons s block ih => rw [blockToJson, ih, List.map_cons]

theorem mapNumbers_congr (same : ∀ x ∈ s.numbers, change x = other x) :
    s.mapNumbers change = s.mapNumbers other := by
  induction s using induct with
  | assign variableName value =>
      rw [mapNumbers, mapNumbers, Expression.mapNumbers_congr same]
  | result value => rw [mapNumbers, mapNumbers, Expression.mapNumbers_congr same]
  | branch condition thenBlock elseBlock ihThen ihElse =>
      rw [numbers, numbersOfBlock_eq_flatMap, numbersOfBlock_eq_flatMap, List.forall_mem_append,
        List.forall_mem_append, List.forall_mem_flatMap, List.forall_mem_flatMap] at same
      obtain ⟨⟨sameHere, sameThen⟩, sameElse⟩ := same
      rw [mapNumbers, mapNumbers, Expression.mapNumbers_congr sameHere]
      simp only [mapBlock_eq_map]
      rw [List.map_congr_left fun s inside => ihThen s inside (sameThen s inside),
        List.map_congr_left fun s inside => ihElse s inside (sameElse s inside)]

theorem mapNumbers_eq_self_iff :
    s.mapNumbers change = s ↔ ∀ x ∈ s.numbers, change x = .number x := by
  induction s using induct with
  | assign variableName value =>
      rw [mapNumbers, assign.injEq, Expression.mapNumbers_eq_self_iff, eq_self, true_and, numbers]
  | result value => rw [mapNumbers, result.injEq, Expression.mapNumbers_eq_self_iff, numbers]
  | branch condition thenBlock elseBlock ihThen ihElse =>
      rw [mapNumbers, numbers, branch.injEq, Expression.mapNumbers_eq_self_iff,
        List.forall_mem_append, List.forall_mem_append, and_assoc]
      simp only [mapBlock_eq_map, numbersOfBlock_eq_flatMap, Json.map_eq_self_iff,
        List.forall_mem_flatMap]
      rw [forall₂_congr ihThen, forall₂_congr ihElse]

theorem holds_toJson {kind : Numeral → Prop}
    (of_kind : ∀ x, Double.isFinite x = true → kind (Numeral.ofFloat Json.numberStyle x)) :
    s.toJson.Holds kind := by
  induction s using induct with
  | assign variableName value =>
      exact .object (by simpa using ⟨.text _, .text _, Expression.holds_toJson of_kind⟩)
  | result value =>
      exact .object (by simpa using ⟨.text _, Expression.holds_toJson of_kind⟩)
  | branch condition thenBlock elseBlock ihThen ihElse =>
      rw [toJson, blockToJson_eq_map, blockToJson_eq_map]
      exact .object (by simpa using ⟨.text _, Expression.holds_toJson of_kind,
        .list (by simpa using ihThen), .list (by simpa using ihElse)⟩)

/-- A statement with its type in front is parted into that and its other fields. -/
theorem parts?_object {word : String} {kind : Kind} {fields : List (String × Json)}
    (known : kind? inBlock (.text word) = some kind)
    (others : ∀ member ∈ fields, member.1 ≠ "type") :
    parts? inBlock (.object (("type", .text word) :: fields)) = some (kind, .object fields) := by
  have none : fields.filter (fun member => member.1 == "type") = [] :=
    List.filter_eq_nil_iff.mpr (by simpa using others)
  have all : fields.filter (fun member => member.1 != "type") = fields :=
    List.filter_eq_self.mpr (by simpa using others)
  simp [parts?, none, all, known]

/-- A statement that is known to be sound is read field by field. -/
theorem ofSound?_toJson (shallow : s.toJson.depth ≤ room) :
    ofSound? inBlock room s.toJson = some (s.mapNumbers reread) := by
  induction s using induct generalizing room inBlock with
  | assign variableName value =>
      obtain ⟨outer, rfl, parts⟩ := Json.exists_room_of_object shallow
      have inner := parts ("value", value.toJson) (by simp)
      obtain ⟨rest, rfl, -⟩ := Json.exists_room_of_object inner
      have parted : parts? inBlock (assign variableName value).toJson =
          some (.assign, .object [("variable", .text variableName), ("value", value.toJson)]) :=
        parts?_object rfl (by simp)
      have fields : (Json.object [("variable", .text variableName),
          ("value", value.toJson)]).fields? ["variable", "value"] = some [_, _] :=
        Json.fields?_object _ rfl (by decide)
      have read : Expression.ofJson? true (rest + 1) value.toJson = _ :=
        Expression.ofJson?_toJson inner
      rw [ofSound?, parted]
      simp only [Option.bind_eq_bind, Option.bind_some, fields, Json.required?, read]
      rfl
  | result value =>
      obtain ⟨outer, rfl, parts⟩ := Json.exists_room_of_object shallow
      have inner := parts ("value", value.toJson) (by simp)
      obtain ⟨rest, rfl, -⟩ := Json.exists_room_of_object inner
      have parted : parts? inBlock (result value).toJson =
          some (.result, .object [("value", value.toJson)]) := parts?_object rfl (by simp)
      have fields : (Json.object [("value", value.toJson)]).fields? ["value"] = some [_] :=
        Json.fields?_object _ rfl (by decide)
      have read : Expression.ofJson? true (rest + 1) value.toJson = _ :=
        Expression.ofJson?_toJson inner
      rw [ofSound?, parted]
      simp only [Option.bind_eq_bind, Option.bind_some, fields, Json.required?, read]
      rfl
  | branch condition thenBlock elseBlock ihThen ihElse =>
      rw [toJson, blockToJson_eq_map, blockToJson_eq_map] at shallow ⊢
      obtain ⟨outer, rfl, parts⟩ := Json.exists_room_of_object shallow
      have inner := parts ("condition", condition.toJson) (by simp)
      obtain ⟨rest, rfl, thenShallow⟩ := Json.exists_room_of_list
        (parts ("then_block", .list (thenBlock.map toJson)) (by simp))
      obtain ⟨_, same, elseShallow⟩ := Json.exists_room_of_list
        (parts ("else_block", .list (elseBlock.map toJson)) (by simp))
      obtain rfl := Nat.succ.inj same
      have fields : (Json.object [("condition", condition.toJson),
          ("then_block", .list (thenBlock.map toJson)),
          ("else_block", .list (elseBlock.map toJson))]).fields?
            ["condition", "then_block", "else_block"] = some [_, _, _] :=
        Json.fields?_object _ rfl (by decide)
      have read : Expression.ofJson? true (rest + 1) condition.toJson = _ :=
        Expression.ofJson?_toJson inner
      have readThen : (thenBlock.map toJson).mapM (ofSound? true rest) = _ :=
        Json.mapM_map_eq_some fun s inside =>
          ihThen s inside (thenShallow _ (List.mem_map_of_mem inside))
      have readElse : (elseBlock.map toJson).mapM (ofSound? true rest) = _ :=
        Json.mapM_map_eq_some fun s inside =>
          ihElse s inside (elseShallow _ (List.mem_map_of_mem inside))
      have parted : parts? inBlock (.object [("type", .text "if"),
          ("condition", condition.toJson), ("then_block", .list (thenBlock.map toJson)),
          ("else_block", .list (elseBlock.map toJson))]) = some (.branch, _) :=
        parts?_object rfl (by simp)
      rw [ofSound?, parted, mapNumbers, mapBlock_eq_map, mapBlock_eq_map]
      simp only [Option.bind_eq_bind, Option.bind_some, fields, Json.required?, Json.items?, read,
        readThen, readElse]
      rfl

/-- A statement that is not too deep is read back with its numbers reread. -/
theorem ofJson?_toJson (shallow : s.toJson.depth ≤ room) :
    ofJson? room s.toJson = some (s.mapNumbers reread) := by
  have sound := (holds_toJson (s := s) fun _ finite =>
    Json.isSome_double?_ofFloat finite).sound shallow
  rw [ofJson?, if_pos sound, ofSound?_toJson shallow]

end Statement

/-! ## Functions -/

namespace Routine

variable {r : Routine}

/-- The numbers in the body of a function. -/
def numbers (r : Routine) : List Float := r.body.flatMap Statement.numbers

/-- Put a value in the place of every number of the body. -/
def mapNumbers (change : Float → Value) (r : Routine) : Routine :=
  { r with body := r.body.map (Statement.mapNumbers change) }

theorem mapNumbers_congr (same : ∀ x ∈ r.numbers, change x = other x) :
    r.mapNumbers change = r.mapNumbers other := by
  rw [numbers, List.forall_mem_flatMap] at same
  rw [mapNumbers, mapNumbers,
    List.map_congr_left fun s inside => Statement.mapNumbers_congr (same s inside)]

theorem mapNumbers_eq_self_iff :
    r.mapNumbers change = r ↔ ∀ x ∈ r.numbers, change x = .number x := by
  obtain ⟨name, parameters, body⟩ := r
  simp only [mapNumbers, numbers, mk.injEq, true_and, Json.map_eq_self_iff,
    List.forall_mem_flatMap, Statement.mapNumbers_eq_self_iff]

theorem holds_toJson {kind : Numeral → Prop}
    (of_kind : ∀ x, Double.isFinite x = true → kind (Numeral.ofFloat Json.numberStyle x)) :
    r.toJson.Holds kind := by
  rw [toJson, Statement.blockToJson_eq_map]
  exact .object (by simpa using ⟨.text _, .list (by simpa using fun s _ => .text s),
    .list (by simpa using fun s _ => Statement.holds_toJson of_kind)⟩)

theorem ofJson?_toJson (shallow : r.toJson.depth ≤ room) :
    ofJson? room r.toJson = some (r.mapNumbers reread) := by
  rw [toJson, Statement.blockToJson_eq_map] at shallow ⊢
  obtain ⟨outer, rfl, parts⟩ := Json.exists_room_of_object shallow
  obtain ⟨rest, rfl, bodyShallow⟩ := Json.exists_room_of_list
    (parts ("body", .list (r.body.map Statement.toJson)) (by simp))
  have fields : (Json.object [("name", .text r.name),
      ("parameters", .list (r.parameters.map .text)),
      ("body", .list (r.body.map Statement.toJson))]).fields?
        ["name", "parameters", "body"] = some [_, _, _] :=
    Json.fields?_object _ rfl (by decide)
  have readParameters : (r.parameters.map Json.text).mapM Json.text? = some (r.parameters.map id) :=
    Json.mapM_map_eq_some fun s _ => rfl
  have readBody : (r.body.map Statement.toJson).mapM (Statement.ofJson? rest) = _ :=
    Json.mapM_map_eq_some fun s inside =>
      Statement.ofJson?_toJson (bodyShallow _ (List.mem_map_of_mem inside))
  rw [ofJson?, fields]
  simp only [Option.bind_eq_bind, Option.bind_some, Json.required?, Json.listOf?, readParameters,
    readBody, List.map_id]
  rfl

end Routine

end Kata
