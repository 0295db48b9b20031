/-
# No lists from programs

Values from elsewhere may be lists, and lists can be compared, but no program makes one.
Literals are not lists, an operator gives a number, a truth value or null, and a name stands
for an argument, for the value of an expression or for what the caller had bound. So a call
gives back a list only if a list was brought in from outside, as an argument or a variable
or inside a tree that no text compiles to.
-/

import Kata.Proofs.Interpreter.Symbolic
import Kata.Proofs.Literal.Grammar
import Kata.Proofs.Number.Double
import Kata.Proofs.Program.Printed

namespace Kata

/-- A value that is not a list. -/
def Value.IsScalar (v : Value) : Prop := ∀ items, v ≠ .list items

theorem Value.isScalar_null : Value.null.IsScalar := by
  intro items
  simp

namespace Literal

variable {s : List Char} {v : Value}

theorem Written.isScalar (written : Written s v) : v.IsScalar := by
  intro items
  cases written <;> simp

/-- A number that is written down is a number. -/
theorem isNaN_eq_false_of_written {x : Float} (written : Written s (.number x)) :
    x.isNaN = false := by
  cases written with
  | @number n plain => exact n.isNaN_toFloat

end Literal

theorem Op.isScalar_apply (op : Op) (left right : Value) : (op.apply left right).IsScalar := by
  intro items
  rw [apply]
  split
  · simp
  · split <;> simp

/-! ## Expressions -/

/-- Among names that stand for no lists, only a list as a literal has the value of one. -/
theorem Expr.isScalar_eval {tree : Expr} (literal : ∀ v, tree = .literal v → v.IsScalar)
    {look : String → Value} (names : ∀ name, (look name).IsScalar) :
    (tree.eval look).IsScalar := by
  cases tree with
  | literal v => exact literal v rfl
  | var name => exact names name
  | binary op left right => exact op.isScalar_apply _ _
  | invalid text => exact Value.isScalar_null

/-- A text that compiles to a literal is a literal as it is written. -/
theorem Expr.written_of_compile_eq {s : List Char} {v : Value} (compiled : compile s = .literal v) :
    Literal.Written (Text.trim s) v := by
  rw [compile_eq] at compiled
  split at compiled
  · rename_i leaf read
    obtain rfl : leaf = .literal v := compiled
    rcases leaf?_cases read with ⟨value, written, same⟩ | ⟨-, -, same⟩
    · obtain rfl := Expr.literal.inj same
      exact Literal.value?_eq_some_iff.mp written
    · cases same
  · split at compiled <;> simp at compiled

theorem Expression.Printable.isScalar_eval {e : Expression} (printable : e.Printable)
    {look : String → Value} (names : ∀ name, (look name).IsScalar) :
    (e.tree.eval look).IsScalar := by
  apply Expr.isScalar_eval _ names
  intro v literal
  rw [printable.tree_eq] at literal
  exact (Expr.written_of_compile_eq literal).isScalar

/-! ## Scopes -/

namespace Scopes

variable {s : Scopes}

/-- No variable that can be seen is a list. -/
def HoldsScalars (s : Scopes) : Prop := ∀ name, (s.look name).IsScalar

namespace HoldsScalars

theorem enter (holds : s.HoldsScalars) : s.enter.HoldsScalars := holds

theorem define (holds : s.HoldsScalars) (name : String) {value : Value}
    (scalar : value.IsScalar) : (s.define name value).HoldsScalars := by
  intro other
  rw [look_define]
  split
  · exact scalar
  · exact holds other

theorem bind (holds : s.HoldsScalars) (parameters : List String) {args : List Value}
    (scalars : ∀ arg ∈ args, arg.IsScalar) : (s.bind parameters args).HoldsScalars := by
  induction parameters generalizing s args with
  | nil =>
      rw [Scopes.bind]
      exact holds
  | cons parameter parameters ih =>
      rw [bind_cons]
      apply ih
      · apply holds.define
        cases args with
        | nil => exact Value.isScalar_null
        | cons arg args => exact scalars arg List.mem_cons_self
      · intro arg later
        exact scalars arg (List.mem_of_mem_tail later)

/-- The invariant of a body: what it assigns are values of its expressions, so these see no
lists, and neither does its result. -/
theorem isScalar_run (holds : s.HoldsScalars) {body : List Statement}
    (printable : ∀ statement ∈ body, statement.Printable) :
    (Statement.run body s).1.IsScalar := by
  induction body generalizing s with
  | nil => exact Value.isScalar_null
  | cons statement rest ih =>
      obtain ⟨here, later⟩ := List.forall_mem_cons.mp printable
      cases statement with
      | assign name value => exact ih (holds.define name (here.2.isScalar_eval holds)) later
      | result value => exact Expression.Printable.isScalar_eval here holds
      | branch condition thenBlock elseBlock => exact ih holds later

end HoldsScalars

theorem holdsScalars_empty : HoldsScalars empty := fun _ => Value.isScalar_null

end Scopes

/-! ## Calls -/

namespace Interpreter

/-- Functions are such as programs have, and no variable is a list. -/
structure Programmed (i : Interpreter) : Prop where
  printable : ∀ name routine, i.routines.get? name = some routine → routine.Printable
  scalars : i.scopes.HoldsScalars

/-- Where all that is loaded comes from programs, a call gives back no list unless it was
given one. -/
theorem Programmed.isScalar_of_call {i : Interpreter} (programmed : i.Programmed) {name : String}
    {args : List Value} (scalars : ∀ arg ∈ args, arg.IsScalar) {v : Value}
    (called : (i.call name args).1 = .ok v) : v.IsScalar := by
  rw [call] at called
  split at called
  · simp at called
  · rename_i routine loaded
    obtain rfl := Except.ok.inj called
    have bound := programmed.scalars.enter.bind routine.parameters scalars
    exact bound.isScalar_run (programmed.printable name routine loaded).body

end Interpreter

end Kata
