/-
# Scopes

Variables live in scopes. The base scope is always there; a call opens a scope on top
of the others and closes it again. A name is looked up from the innermost scope
outward and bound in the innermost one, so closing a scope brings back every binding
that the call has hidden.
-/

import Kata.Roster
import Kata.Value

namespace Kata

/-- The variables that can be seen. The base scope is a field of its own, so that it
cannot be closed. -/
structure Scopes where
  base : Roster Value := .empty
  /-- The open call scopes, innermost first. -/
  calls : List (Roster Value) := []
  deriving Inhabited

namespace Scopes

/-- Only the base scope, and nothing in it. -/
def empty : Scopes := {}

/-- The number of scopes, the base included. -/
def depth (s : Scopes) : Nat := s.calls.length + 1

/-- Open a scope. -/
def enter (s : Scopes) : Scopes := { s with calls := .empty :: s.calls }

/-- Close the innermost scope; the base stays. -/
def leave (s : Scopes) : Scopes := { s with calls := s.calls.tail }

/-- Bind a name in the innermost scope. -/
def define (s : Scopes) (name : String) (value : Value) : Scopes :=
  match s.calls with
  | [] => { s with base := s.base.insert name value }
  | innermost :: outer => { s with calls := innermost.insert name value :: outer }

/-- Close every open scope and forget what the base holds. -/
def clear (s : Scopes) : Scopes := { s with base := .empty, calls := [] }

/-- The value of a name, innermost scope first. -/
def get? (s : Scopes) (name : String) : Option Value :=
  (s.calls.findSome? (·.get? name)).or (s.base.get? name)

/-- The value of a name in an expression: what is not bound is null. -/
def look (s : Scopes) (name : String) : Value := (s.get? name).getD .null

/-- The innermost binding is the one that is seen. -/
theorem get?_define (s : Scopes) (name other : String) (value : Value) :
    (s.define name value).get? other = if other = name then some value else s.get? other := by
  obtain ⟨base, calls⟩ := s
  cases calls with
  | nil => simp [define, get?, Roster.get?_insert]
  | cons innermost outer =>
    by_cases h : other = name <;> simp [define, get?, Roster.get?_insert, h, List.findSome?_cons]

end Scopes

end Kata
