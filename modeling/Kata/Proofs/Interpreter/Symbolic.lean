/-
# A call as one expression

A body has no loops, so what it gives back can be written down as a single expression
before anything is evaluated. Parameters start as the literals of their arguments, an
assignment puts its value, rewritten, in place of a name, and the first result rewritten in
this way is the expression. The names that are left in it are those of the caller.

The main statement says that a call is the evaluation of this expression among the
variables of the caller. It holds for every interpreter, loaded or not from a text, since
nothing is assumed about the trees in a body. How large the expression becomes is left open.
-/

import Kata.Interpreter

namespace Kata

/-- An expression for every name, a name that nothing was put in place of standing for
itself. -/
abbrev Substitution := String → Expr

namespace Substitution

/-- Nothing is put in place of any name. -/
def identity : Substitution := Expr.var

/-- Put an expression in place of a name, whatever was there before. -/
def rebind (σ : Substitution) (name : String) (tree : Expr) : Substitution := fun other =>
  if other = name then tree else σ other

/-- Put the argument at the place of a parameter in place of its name, or null if there is no
such argument. -/
def takeArg (args : List Value) (σ : Substitution) (parameter : String × Nat) : Substitution :=
  σ.rebind parameter.1 (.literal (args[parameter.2]?.getD .null))

/-- Put arguments in place of parameters, in order, so that of two equal parameters the
later one counts. -/
def ofArgs (parameters : List String) (args : List Value) : Substitution :=
  parameters.zipIdx.foldl (takeArg args) identity

end Substitution

/-- Rewrite a tree, all names at once. What is put in place of a name is not rewritten. -/
def Expr.subst (σ : Substitution) : Expr → Expr
  | .literal v => .literal v
  | .var name => σ name
  | .binary op left right => .binary op (left.subst σ) (right.subst σ)
  | .invalid text => .invalid text

/-- The expression that a body comes to under a substitution. -/
def Statement.inlined : List Statement → Substitution → Expr
  | [], _ => .literal .null
  | .assign name value :: rest, σ => inlined rest (σ.rebind name (value.tree.subst σ))
  | .result value :: _, σ => value.tree.subst σ
  | .branch _ _ _ :: rest, σ => inlined rest σ

/-- The expression that a function comes to on arguments. -/
def Routine.inlined (routine : Routine) (args : List Value) : Expr :=
  Statement.inlined routine.body (.ofArgs routine.parameters args)

/-! ## Rewriting and evaluating -/

/-- Evaluating a rewritten tree is evaluating the tree with each name standing for the value
of what was put in its place. -/
theorem Expr.eval_subst (σ : Substitution) (look : String → Value) (tree : Expr) :
    (tree.subst σ).eval look = tree.eval fun name => (σ name).eval look := by
  induction tree with
  | literal v => rfl
  | var name => rfl
  | binary op left right ihLeft ihRight => rw [subst, eval, eval, ihLeft, ihRight]
  | invalid text => rfl

namespace Scopes

variable {caller s : Scopes} {σ : Substitution}

theorem look_define (s : Scopes) (name other : String) (value : Value) :
    (s.define name value).look other = if other = name then value else s.look other := by
  rw [look, get?_define]
  split
  · rfl
  · rfl

/-- A scope that was just opened hides nothing. -/
theorem look_enter (s : Scopes) (name : String) : s.enter.look name = s.look name := rfl

/-- A parameter takes the first argument that is left, and null if none is. -/
theorem bind_cons (s : Scopes) (parameter : String) (parameters : List String)
    (args : List Value) :
    s.bind (parameter :: parameters) args =
      (s.define parameter (args.head?.getD .null)).bind parameters args.tail := by
  cases args with
  | nil => rfl
  | cons arg args => rfl

/-- A substitution says what these scopes hold, in terms of the variables of the caller. -/
def Follows (caller s : Scopes) (σ : Substitution) : Prop :=
  ∀ name, s.look name = (σ name).eval caller.look

namespace Follows

theorem enter (caller : Scopes) : Follows caller caller.enter .identity := by
  intro name
  exact look_enter caller name

/-- A tree has the same value in the scopes as its rewritten form has for the caller. -/
theorem eval_eq (follows : Follows caller s σ) (tree : Expr) :
    tree.eval s.look = (tree.subst σ).eval caller.look := by
  have pointwise : s.look = fun name => (σ name).eval caller.look := funext follows
  rw [pointwise, Expr.eval_subst]

/-- Binding a name to a value is putting an expression of that value in its place. -/
theorem define (follows : Follows caller s σ) (name : String) {value : Value} {tree : Expr}
    (same : value = tree.eval caller.look) :
    Follows caller (s.define name value) (σ.rebind name tree) := by
  intro other
  rw [look_define, Substitution.rebind]
  by_cases hit : other = name
  · rw [if_pos hit, if_pos hit, same]
  · rw [if_neg hit, if_neg hit, follows other]

/-- The parameters from some place on take the arguments from that place on. -/
theorem bind (follows : Follows caller s σ) (parameters : List String) (args : List Value)
    (place : Nat) :
    Follows caller (s.bind parameters (args.drop place))
      ((parameters.zipIdx place).foldl (Substitution.takeArg args) σ) := by
  induction parameters generalizing s σ place with
  | nil =>
      simp only [Scopes.bind, List.zipIdx_nil, List.foldl_nil]
      exact follows
  | cons parameter parameters ih =>
      rw [bind_cons, List.head?_drop, List.tail_drop, List.zipIdx_cons, List.foldl_cons]
      apply ih
      exact follows.define parameter rfl

/-- The invariant of a body: whatever it assigns is in the substitution as well, so its
result is that of the expression it comes to. -/
theorem run_eq (follows : Follows caller s σ) (body : List Statement) :
    (Statement.run body s).1 = (Statement.inlined body σ).eval caller.look := by
  induction body generalizing s σ with
  | nil => rfl
  | cons statement rest ih =>
      cases statement with
      | assign name value =>
          apply ih
          exact follows.define name (follows.eval_eq value.tree)
      | result value => exact follows.eval_eq value.tree
      | branch condition thenBlock elseBlock =>
          apply ih
          exact follows

end Follows

end Scopes

namespace Interpreter

/-- A call of a loaded function is the evaluation of one expression among the variables of
the caller. -/
theorem call_eq_eval_inlined (i : Interpreter) (name : String) (args : List Value)
    {routine : Routine} (loaded : i.routines.get? name = some routine) :
    (i.call name args).1 = .ok (i.eval (routine.inlined args)) := by
  have bound : Scopes.Follows i.scopes (i.scopes.enter.bind routine.parameters args)
      (.ofArgs routine.parameters args) :=
    (Scopes.Follows.enter i.scopes).bind routine.parameters args 0
  rw [call, loaded]
  exact congrArg Except.ok (bound.run_eq routine.body)

/-- Both parameters have one name, and a name of the caller is assigned from itself twice.
The branch and the second result do not count. -/
def shadowing : Routine where
  name := "f"
  parameters := ["a", "a"]
  body := [
    .assign "x" ⟨"x == a", .binary .eq (.var "x") (.var "a")⟩,
    .branch ⟨"x", .var "x"⟩ [] [],
    .assign "x" ⟨"x == b", .binary .eq (.var "x") (.var "b")⟩,
    .result ⟨"x", .var "x"⟩,
    .result ⟨"a", .var "a"⟩]

/-- The second argument counts, the third does not, and the names that are left in the
expression are those of the caller. -/
theorem call_shadowing_eq_eval :
    let i := (empty.add [shadowing]).set "x" (.text "old")
    let tree := Expr.binary .eq (.binary .eq (.var "x") (.literal (.text "old"))) (.var "b")
    i.routines.get? "f" = some shadowing ∧
      (i.call "f" [.null, .text "old", .null]).1 = .ok (i.eval tree) ∧
      i.eval tree = .bool false := by
  intro i tree
  have loaded : i.routines.get? "f" = some shadowing := rfl
  have inlined : shadowing.inlined [.null, .text "old", .null] = tree := rfl
  have called := call_eq_eval_inlined i "f" [.null, .text "old", .null] loaded
  rw [inlined] at called
  exact ⟨loaded, called, rfl⟩

end Interpreter

end Kata
