/-
# Interpreters at rest

Between two uses an interpreter is at rest: every scope that a call has opened is closed, so
variables are bound in the base scope only. Calls are the uses that leave nothing behind.
They can be struck out of any history, and a sequence of calls gives the answers that each
of them gives alone. What a call reads is another matter: a variable that was set changes
answers, and so do functions loaded later.
-/

import Kata.Call
import Kata.Proofs.Interpreter.Frame

namespace Kata.Interpreter

/-! ## Histories -/

/-- One use of an interpreter. -/
inductive Action
  | load (source : String)
  | set (name : String) (value : Value)
  | reset
  | call (call : Call)

/-- Whether a use is a call. -/
def Action.isCall : Action → Bool
  | .call _ => true
  | .load _ | .set _ _ | .reset => false

/-- The interpreter after a use. -/
def perform (i : Interpreter) : Action → Interpreter
  | .load source => (i.load source).2
  | .set name value => i.set name value
  | .reset => i.reset
  | .call call => (i.call call.name call.args).2

variable {i : Interpreter}

theorem perform_of_isCall {action : Action} (isCall : action.isCall = true) :
    i.perform action = i := by
  cases action with
  | call call => exact i.call_snd call.name call.args
  | load | set | reset => cases isCall

/-- A history without its calls leads to the same interpreter. -/
theorem foldl_perform_filter (actions : List Action) :
    (actions.filter (!·.isCall)).foldl perform i = actions.foldl perform i := by
  induction actions generalizing i with
  | nil => rfl
  | cons action rest ih =>
      cases isCall : action.isCall with
      | true => simp [isCall, ih, perform_of_isCall isCall]
      | false => simp [isCall, ih]

/-! ## Depth -/

/-- No call scope is open. -/
def AtRest (i : Interpreter) : Prop := i.scopes.calls = []

theorem atRest_empty : AtRest empty := rfl

theorem AtRest.depth_eq (rest : i.AtRest) : i.scopes.depth = 1 := by
  rw [Scopes.depth, rest, List.length_nil]

/-- At rest a variable is bound in the base scope, so setting one opens no scope. -/
theorem AtRest.set (rest : i.AtRest) (name : String) (value : Value) :
    (i.set name value).AtRest := by
  rw [AtRest, Interpreter.set, Scopes.define, rest]

theorem AtRest.perform (rest : i.AtRest) (action : Action) : (i.perform action).AtRest := by
  cases action with
  | load source => exact rest
  | set name value => exact rest.set name value
  | reset => exact atRest_empty
  | call call =>
      rw [perform_of_isCall rfl]
      exact rest

theorem AtRest.foldl (rest : i.AtRest) (actions : List Action) :
    (actions.foldl Interpreter.perform i).AtRest := by
  induction actions generalizing i with
  | nil => exact rest
  | cons action actions ih => exact ih (rest.perform action)

/-! ## Sequences of calls -/

theorem call_fst_eq_error_iff (name : String) (args : List Value) :
    (i.call name args).1 = .error ⟨name⟩ ↔ i.routines.get? name = none := by
  constructor
  · intro refused
    cases loaded : i.routines.get? name with
    | none => rfl
    | some routine =>
        obtain ⟨value, answered⟩ := i.exists_call_fst_eq_ok name args (by simp [loaded])
        rw [answered] at refused
        cases refused
  · exact i.call_fst_of_get?_eq_none name args

/-- Make calls one after another: their answers, and the interpreter afterwards. -/
def callAll (i : Interpreter) : List Call → List (Except MissingFunction Value) × Interpreter
  | [] => ([], i)
  | call :: rest =>
    let (answer, i) := i.call call.name call.args
    let (answers, i) := i.callAll rest
    (answer :: answers, i)

/-- The answers in a sequence are those that the calls have on their own. -/
theorem callAll_eq (calls : List Call) :
    i.callAll calls = (calls.map fun call => (i.call call.name call.args).1, i) := by
  induction calls with
  | nil => rfl
  | cons call rest ih => simp [callAll, ih]

/-- Calls leave no trace. However an interpreter was used, only its base scope is open, and it
is the interpreter that it would be without the calls. A call, answered or refused for want of
its function, gives the interpreter back as it was, with all functions, scopes and bindings.
So in a sequence of calls, in whatever order, each has the answer that it has alone. -/
theorem calls_leave_no_trace (actions : List Action) :
    let i := actions.foldl perform empty
    i.scopes.depth = 1 ∧ i = (actions.filter (!·.isCall)).foldl perform empty ∧
    (∀ name args,
      ((i.call name args).1 = .error ⟨name⟩ ↔ i.routines.get? name = none) ∧
      (i.call name args).2 = i) ∧
    ∀ calls : List Call,
      i.callAll calls = (calls.map fun call => (i.call call.name call.args).1, i) := by
  intro i
  exact ⟨(atRest_empty.foldl actions).depth_eq, (foldl_perform_filter actions).symm,
    fun name args => ⟨call_fst_eq_error_iff name args, i.call_snd name args⟩, callAll_eq⟩

end Kata.Interpreter
