/-
# Calls leave no trace

A call binds its parameters and runs its body in a scope that it opens itself. Binding
reaches the innermost scope only, so all that happens until the call returns happens in
that scope, and closing it brings back the scopes of the caller, whatever the body has
assigned. An interpreter that answers a call is therefore the interpreter that was asked.
-/

import Kata.Interpreter

namespace Kata

namespace Scopes

/-- These are the scopes of a caller with one more scope on top. -/
def OpenedOn (caller s : Scopes) : Prop :=
  ∃ innermost, s = { caller with calls := innermost :: caller.calls }

variable {caller s : Scopes}

theorem openedOn_enter (caller : Scopes) : OpenedOn caller caller.enter := ⟨.empty, rfl⟩

namespace OpenedOn

theorem define (opened : OpenedOn caller s) (name : String) (value : Value) :
    OpenedOn caller (s.define name value) := by
  obtain ⟨innermost, rfl⟩ := opened
  exact ⟨innermost.insert name value, rfl⟩

/-- Binding parameters stays within the scope on top. -/
theorem bind (opened : OpenedOn caller s) (parameters : List String) (args : List Value) :
    OpenedOn caller (s.bind parameters args) := by
  induction parameters generalizing s args with
  | nil => simpa [Scopes.bind] using opened
  | cons parameter parameters ih =>
      cases args with
      | nil => exact ih (opened.define parameter .null) []
      | cons arg args => exact ih (opened.define parameter arg) args

/-- A body stays within the scope on top, whatever it assigns. -/
theorem run (opened : OpenedOn caller s) (body : List Statement) :
    OpenedOn caller (Statement.run body s).2 := by
  induction body generalizing s with
  | nil => exact opened
  | cons statement rest ih =>
      cases statement with
      | assign name value => exact ih (opened.define name _)
      | result value => exact opened
      | branch condition thenBlock elseBlock => exact ih opened

theorem leave_eq (opened : OpenedOn caller s) : s.leave = caller := by
  obtain ⟨innermost, rfl⟩ := opened
  rfl

end OpenedOn

end Scopes

namespace Interpreter

variable (i : Interpreter) (name : String) (args : List Value)

/-- A call gives the interpreter back as it was. -/
@[simp]
theorem call_snd : (i.call name args).2 = i := by
  rw [call]
  split
  · rfl
  · rename_i routine found
    have body := ((Scopes.openedOn_enter i.scopes).bind routine.parameters args).run routine.body
    simp [body.leave_eq]

/-- A call fails exactly when the function was never loaded. -/
theorem call_fst_of_get?_eq_none (absent : i.routines.get? name = none) :
    (i.call name args).1 = .error ⟨name⟩ := by
  rw [call, absent]

theorem exists_call_fst_eq_ok (loaded : i.routines.get? name ≠ none) :
    ∃ value, (i.call name args).1 = .ok value := by
  obtain ⟨routine, found⟩ := Option.ne_none_iff_exists'.mp loaded
  rw [call, found]
  exact ⟨_, rfl⟩

end Interpreter

end Kata
