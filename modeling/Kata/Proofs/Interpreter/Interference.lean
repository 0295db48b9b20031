/-
# What can interfere with a call

A call reads its arguments and, of the variables of the caller, those that the body looks up
before it has bound them. These are the names that are live in front of the body, less the
parameters. Two interpreters that agree on them give the same answer to the same call, even if
their functions differ in branches, which are passed over, or behind the first result.

Agreement is about what an expression can see of a variable: one that is not bound cannot be
told from one that is null. That every name that counts as read also makes a difference is not
claimed, and it does not, if say it is multiplied by a text.
-/

import Kata.Proofs.Interpreter.Symbolic
import Kata.Proofs.Program.Erasure

namespace Kata

/-! ## Names that are read -/

/-- The names that a tree looks up. -/
def Expr.names : Expr → List String
  | .var name => [name]
  | .binary _ left right => left.names ++ right.names
  | .literal _ | .invalid _ => []

/-- The names that a body looks up before it has bound them, up to its first result. -/
def Statement.reads : List Statement → List String
  | [] => []
  | .assign name value :: rest => value.tree.names ++ (reads rest).filter (· ≠ name)
  | .result value :: _ => value.tree.names
  | .branch _ _ _ :: rest => reads rest

/-- The names that a function reads among the variables of its caller. -/
def Routine.reads (routine : Routine) : List String :=
  (Statement.reads routine.body).filter (· ∉ routine.parameters)

/-- What a body reads is read by the statements that act. -/
theorem Statement.reads_live (body : List Statement) : reads (live body) = reads body := by
  induction body with
  | nil => rfl
  | cons statement rest ih =>
      cases statement with
      | assign name value => rw [live, reads, reads, ih]
      | result value => rfl
      | branch condition thenBlock elseBlock => rw [live, reads, ih]

/-! ## Evaluating among other variables -/

/-- The value of a tree depends on the names that it looks up and on nothing else. -/
theorem Expr.eval_congr {tree : Expr} {look other : String → Value}
    (agree : ∀ name ∈ tree.names, look name = other name) : tree.eval look = tree.eval other := by
  induction tree with
  | literal v => rfl
  | var name => exact agree name List.mem_cons_self
  | binary op left right ihLeft ihRight =>
      obtain ⟨inLeft, inRight⟩ := List.forall_mem_append.mp agree
      rw [eval, eval, ihLeft inLeft, ihRight inRight]
  | invalid text => rfl

namespace Scopes

variable {s t : Scopes} {name : String}

/-- Binding the same parameters hides what two scopes disagree on. -/
theorem look_bind_congr {parameters : List String}
    (agree : name ∉ parameters → s.look name = t.look name) (args : List Value) :
    (s.bind parameters args).look name = (t.bind parameters args).look name := by
  induction parameters generalizing s t args with
  | nil => exact agree List.not_mem_nil
  | cons parameter parameters ih =>
      rw [bind_cons, bind_cons]
      refine ih (fun unbound => ?_) args.tail
      rw [look_define, look_define]
      by_cases here : name = parameter
      · rw [if_pos here, if_pos here]
      · rw [if_neg here, if_neg here]
        exact agree (List.not_mem_cons_of_ne_of_not_mem here unbound)

/-- The result of a body depends on what it reads. An assignment may hide a name that the two
scopes disagree on, and from there on they agree on it. -/
theorem run_fst_congr {body : List Statement}
    (agree : ∀ name ∈ Statement.reads body, s.look name = t.look name) :
    (Statement.run body s).1 = (Statement.run body t).1 := by
  induction body generalizing s t with
  | nil => rfl
  | cons statement rest ih =>
      cases statement with
      | assign variableName value =>
          obtain ⟨here, later⟩ := List.forall_mem_append.mp agree
          rw [Statement.run, Statement.run, Expr.eval_congr here]
          refine ih fun name read => ?_
          rw [look_define, look_define]
          by_cases bound : name = variableName
          · rw [if_pos bound, if_pos bound]
          · rw [if_neg bound, if_neg bound]
            exact later name (List.mem_filter.mpr ⟨read, by simpa using bound⟩)
      | result value => exact Expr.eval_congr agree
      | branch condition thenBlock elseBlock => exact ih agree

end Scopes

/-! ## Calls -/

namespace Interpreter

variable (i j : Interpreter)

/-- Two interpreters have a variable alike, as far as an expression can see: no binding is
like one to null. -/
def Agree (name : String) : Prop := (i.get? name).getD .null = (j.get? name).getD .null

/-- A call is made alike wherever the function has the same essence and the names that it reads
are alike. Other variables and other functions have no part in it, and neither have branches
and whatever is behind the first result. -/
theorem call_eq_of_agree {f g : Routine} (name : String) (args : List Value)
    (loaded : i.routines.get? name = some f) (loaded' : j.routines.get? name = some g)
    (same : f.essence = g.essence) (agree : ∀ x ∈ f.reads, i.Agree j x) :
    ∃ v, (i.call name args).1 = .ok v ∧ (j.call name args).1 = .ok v := by
  obtain ⟨-, parameters, bodies⟩ := Routine.mk.inj same
  have bound : ∀ x ∈ Statement.reads (Statement.live f.body),
      (i.scopes.enter.bind f.parameters args).look x =
        (j.scopes.enter.bind f.parameters args).look x := by
    intro x read
    rw [Statement.reads_live] at read
    refine Scopes.look_bind_congr (fun free => ?_) args
    rw [Scopes.look_enter, Scopes.look_enter]
    exact agree x (List.mem_filter.mpr ⟨read, by simpa using free⟩)
  have ends := Scopes.run_fst_congr bound
  rw [Statement.run_live, bodies, Statement.run_live] at ends
  refine ⟨(Statement.run f.body (i.scopes.enter.bind f.parameters args)).1, ?_, ?_⟩
  · rw [call, loaded]
  · rw [call, loaded', ends, parameters]

/-- A function that reads a variable of its caller and hides another one. -/
def comparing : Routine where
  name := "f"
  parameters := ["a"]
  body := [
    .assign "y" ⟨"a == x", .binary .eq (.var "a") (.var "x")⟩,
    .result ⟨"y", .var "y"⟩]

/-- The same function with a branch and a second result that read what it does not. -/
def padded : Routine where
  name := "f"
  parameters := ["a"]
  body := [
    .branch ⟨"z", .var "z"⟩ [] [],
    .assign "y" ⟨"a == x", .binary .eq (.var "a") (.var "x")⟩,
    .result ⟨"y", .var "y"⟩,
    .result ⟨"z", .var "z"⟩]

/-- The variable that is read is null on one side and not bound on the other. A variable that
is hidden, one that is not read and another function are there on the second side only. -/
theorem call_comparing_eq_call_padded :
    let i := (empty.add [comparing]).set "x" .null
    let j := ((empty.add [padded, ⟨"g", [], []⟩]).set "y" (.bool true)).set "z" (.text "z")
    comparing.reads = ["x"] ∧ i.Agree j "x" ∧
      ∃ v, (i.call "f" [.null]).1 = .ok v ∧ (j.call "f" [.null]).1 = .ok v := by
  intro i j
  have reads : comparing.reads = ["x"] := by decide
  have agree : i.Agree j "x" := rfl
  refine ⟨reads, agree, call_eq_of_agree i j "f" [.null] rfl rfl
    (show comparing.essence = padded.essence from rfl) ?_⟩
  rw [reads]
  exact List.forall_mem_singleton.mpr agree

end Interpreter

end Kata
