/-
# Expressions

An expression is kept twice: as the text the learner wrote and as the tree that is
evaluated. Text that fits no form is a leaf of its own kind and evaluates to null,
so evaluation has no errors.
-/

import Kata.Number.Double
import Kata.Value

namespace Kata

/-- The operators, each between two operands. -/
inductive Op
  | add
  | sub
  | mul
  | div
  | rem
  | eq
  deriving DecidableEq, Repr

namespace Op

/-- An operator as it is written, without the space on either side. -/
def symbol : Op → String
  | .add => "+"
  | .sub => "-"
  | .mul => "*"
  | .div => "/"
  | .rem => "%"
  | .eq => "=="

/-- The operators by how tightly they bind, loosest first. -/
def levels : List (List Op) := [[.eq], [.add, .sub], [.mul, .div, .rem]]

/-- The table as a learner is told it: comparison binds loosest, then sums and differences, then
products, quotients and remainders. -/
theorem levels_with_symbols :
    levels.map (·.map fun op => (op, op.symbol)) =
      [[(.eq, "==")], [(.add, "+"), (.sub, "-")], [(.mul, "*"), (.div, "/"), (.rem, "%")]] := rfl

/-- The arithmetic of an operator; comparison has none. -/
def arithmetic? : Op → Option (Float → Float → Float)
  | .add => some (· + ·)
  | .sub => some (· - ·)
  | .mul => some (· * ·)
  | .div => some (· / ·)
  | .rem => some Double.remainder
  | .eq => none

/-- Apply an operator. Comparison is structural; arithmetic needs two numbers and is
null without them. -/
def apply (op : Op) (left right : Value) : Value :=
  match op.arithmetic? with
  | none => .bool (left == right)
  | some f =>
    match left, right with
    | .number x, .number y => .number (f x y)
    | _, _ => .null

end Op

/-- The tree of an expression. -/
inductive Expr
  | literal (value : Value)
  | var (name : String)
  | binary (op : Op) (left right : Expr)
  /-- Text that fits no form. -/
  | invalid (text : String)
  deriving Inhabited

/-- The value of a tree, the names being looked up by a function. -/
def Expr.eval (look : String → Value) : Expr → Value
  | .literal v => v
  | .var name => look name
  | .binary op left right => op.apply (left.eval look) (right.eval look)
  | .invalid _ => .null

/-- The text of an expression with its tree. -/
structure Expression where
  source : String
  tree : Expr
  deriving Inhabited

end Kata
