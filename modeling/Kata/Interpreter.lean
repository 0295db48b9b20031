/-
# The interpreter

An interpreter holds the functions that were loaded and the variables. Calling a
function binds its parameters in a scope of its own and runs the body up to the first
result. The only thing that can go wrong is that the function is not there:
expressions have no errors.
-/

import Kata.Program
import Kata.Scopes

namespace Kata

/-- A call of a function that was never loaded. -/
structure MissingFunction where
  name : String
  deriving DecidableEq, Repr

/-- What the learner is told. -/
def MissingFunction.message (e : MissingFunction) : String :=
  "Function '" ++ e.name ++ "' not found"

/-- Bind parameters to arguments in order. A parameter without an argument is null, an
argument without a parameter is dropped, and of two equal parameters the later wins. -/
def Scopes.bind (s : Scopes) : List String → List Value → Scopes
  | [], _ => s
  | parameter :: parameters, [] => (s.define parameter .null).bind parameters []
  | parameter :: parameters, arg :: args => (s.define parameter arg).bind parameters args

/-- Run a body: its result, null without one, and the variables it leaves. Branches
are passed over. -/
def Statement.run : List Statement → Scopes → Value × Scopes
  | [], s => (.null, s)
  | .assign name value :: rest, s => run rest (s.define name (value.tree.eval s.look))
  | .result value :: _, s => (value.tree.eval s.look, s)
  | .branch _ _ _ :: rest, s => run rest s

/-- Loaded functions and variables. -/
structure Interpreter where
  routines : Roster Routine := .empty
  scopes : Scopes := .empty
  deriving Inhabited

namespace Interpreter

/-- An interpreter that knows nothing. -/
def empty : Interpreter := {}

/-- Load functions in order, each replacing one of the same name. -/
def add (i : Interpreter) (routines : List Routine) : Interpreter :=
  { i with routines := routines.foldl (fun table r => table.insert r.name r) i.routines }

/-- Load a program: how many functions it has, and the interpreter that knows them. -/
def load (i : Interpreter) (source : String) : Nat × Interpreter :=
  let routines := Program.routines source.toList
  (routines.length, i.add routines)

/-- Forget functions and variables. -/
def reset (i : Interpreter) : Interpreter :=
  { i with routines := .empty, scopes := i.scopes.clear }

/-- The names of the loaded functions, sorted. -/
def functionNames (i : Interpreter) : List String :=
  i.routines.names.mergeSort fun a b => decide (a ≤ b)

/-- Bind a variable in the current scope. -/
def set (i : Interpreter) (name : String) (value : Value) : Interpreter :=
  { i with scopes := i.scopes.define name value }

/-- The value of a variable. -/
def get? (i : Interpreter) (name : String) : Option Value := i.scopes.get? name

/-- Call a function: its result, and the interpreter afterwards. -/
def call (i : Interpreter) (name : String) (args : List Value) :
    Except MissingFunction Value × Interpreter :=
  match i.routines.get? name with
  | none => (.error ⟨name⟩, i)
  | some routine =>
    let (value, scopes) :=
      Statement.run routine.body (i.scopes.enter.bind routine.parameters args)
    (.ok value, { i with scopes := scopes.leave })

/-- The value of a tree among the current variables. -/
def eval (i : Interpreter) (tree : Expr) : Value := tree.eval i.scopes.look

/-- The value of expression text among the current variables. -/
def evalText (i : Interpreter) (text : String) : Value := i.eval (Expr.compile text.toList)

end Interpreter

end Kata
