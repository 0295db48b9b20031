/-
# What expressions come to

A comparison is true or false whatever its sides are. Arithmetic is strict: one leaf that is
no number, wherever it stands, makes the whole of it null, and without such a leaf it is a
number. Not a number is a number here, as it is for the arithmetic of doubles.

The two do not mix below the root. Comparison binds loosest, so a text with an arithmetic root
has no comparison in its tree, and a text with one has it at the root. This needs no
well-formed text, since what fits no form is a leaf like any other. Which number arithmetic
comes to is left to the operators.
-/

import Kata.Interpreter
import Kata.Proofs.Expr.Operators

namespace Kata

/-- A value that is a number. -/
def Value.IsNumber (v : Value) : Prop := ∃ x, v = .number x

namespace Op

variable {op : Op} (left right : Value)

theorem exists_apply_eq : ∃ b, Op.eq.apply left right = .bool b := ⟨left == right, rfl⟩

/-- Two numbers make a number. -/
theorem isNumber_apply (arithmetic : op ≠ .eq) {left right : Value} (leftNumber : left.IsNumber)
    (rightNumber : right.IsNumber) : (op.apply left right).IsNumber := by
  obtain ⟨x, rfl⟩ := leftNumber
  obtain ⟨y, rfl⟩ := rightNumber
  cases op with
  | eq => exact absurd rfl arithmetic
  | add | sub | mul | div | rem => exact ⟨_, rfl⟩

/-- Anything else makes null. -/
theorem apply_eq_null (arithmetic : op ≠ .eq) {left right : Value}
    (other : ¬ left.IsNumber ∨ ¬ right.IsNumber) : op.apply left right = .null := by
  have missed : ∀ x y, ¬ (left = .number x ∧ right = .number y) := by
    rintro x y ⟨rfl, rfl⟩
    rcases other with other | other <;> exact other ⟨_, rfl⟩
  cases op with
  | eq => exact absurd rfl arithmetic
  | add | sub | mul | div | rem =>
      rw [apply]
      simp only [arithmetic?]
      split
      · rename_i x y
        exact absurd ⟨rfl, rfl⟩ (missed x y)
      · rfl

end Op

namespace Expr

/-- The parts of a tree that have no operator, from left to right. -/
def leaves : Expr → List Expr
  | .binary _ left right => left.leaves ++ right.leaves
  | leaf => [leaf]

variable {tree : Expr} {look : String → Value}

/-- Without comparisons a tree is a number if its leaves are, and only then. -/
theorem isNumber_eval_iff (plain : ¬ tree.Has .eq) :
    (tree.eval look).IsNumber ↔ ∀ leaf ∈ tree.leaves, (leaf.eval look).IsNumber := by
  induction tree with
  | literal | var | invalid => simp [leaves]
  | binary op left right ihLeft ihRight =>
      simp only [Has, not_or] at plain
      obtain ⟨arithmetic, plainLeft, plainRight⟩ := plain
      rw [leaves, List.forall_mem_append, ← ihLeft plainLeft, ← ihRight plainRight, eval]
      constructor
      · intro number
        by_contra missing
        rw [Op.apply_eq_null arithmetic (not_and_or.mp missing)] at number
        obtain ⟨x, null⟩ := number
        cases null
      · rintro ⟨leftNumber, rightNumber⟩
        exact Op.isNumber_apply arithmetic leftNumber rightNumber

end Expr

namespace Interpreter

/-- A text with a comparison at its root is true or false. With any other operator there, no
comparison is in its tree, and it is a number if all its leaves are and null if one is not. -/
theorem evalText_of_binary (i : Interpreter) (text : String) {op : Op} {left right : Expr}
    (root : Expr.compile text.toList = .binary op left right) :
    let tree := Expr.compile text.toList
    (op = .eq → ∃ b, i.evalText text = .bool b) ∧
    (op ≠ .eq →
      ¬ tree.Has .eq ∧
      ((∀ leaf ∈ tree.leaves, (i.eval leaf).IsNumber) → (i.evalText text).IsNumber) ∧
      ((∃ leaf ∈ tree.leaves, ¬ (i.eval leaf).IsNumber) → i.evalText text = .null)) := by
  intro tree
  have value : i.evalText text =
      op.apply (left.eval i.scopes.look) (right.eval i.scopes.look) := by
    rw [evalText, eval, root, Expr.eval]
  refine ⟨?_, fun arithmetic => ?_⟩
  · rintro rfl
    rw [value]
    exact Op.exists_apply_eq _ _
  · have plain : ¬ tree.Has .eq := Expr.not_has_eq_of_root root arithmetic
    have strict : (i.evalText text).IsNumber ↔ ∀ leaf ∈ tree.leaves, (i.eval leaf).IsNumber :=
      Expr.isNumber_eval_iff plain
    refine ⟨plain, strict.mpr, ?_⟩
    rintro ⟨leaf, inside, other⟩
    have noNumber : ¬ (i.evalText text).IsNumber := fun number =>
      other (strict.mp number leaf inside)
    rw [value] at noNumber ⊢
    apply Op.apply_eq_null arithmetic
    rw [← not_and_or]
    rintro ⟨leftNumber, rightNumber⟩
    exact noNumber (Op.isNumber_apply arithmetic leftNumber rightNumber)

/-- The name that is not bound makes everything null, and so would the piece behind the quote
that is never closed. Its minus sign is none. -/
theorem evalText_of_unbound :
    let i := empty.set "x" (.number 2)
    Expr.compile "x * y + 'a - b".toList =
        .binary .add (.binary .mul (.var "x") (.var "y")) (.invalid "'a - b") ∧
      i.evalText "x * y + 'a - b" = .null := by
  intro i
  have root : Expr.compile "x * y + 'a - b".toList =
      .binary .add (.binary .mul (.var "x") (.var "y")) (.invalid "'a - b") := by rfl
  obtain ⟨-, -, null⟩ := (evalText_of_binary i "x * y + 'a - b" root).2 (by decide)
  have unbound : .var "y" ∈ (Expr.compile "x * y + 'a - b".toList).leaves := by
    rw [root]
    simp [Expr.leaves]
  refine ⟨root, null ⟨.var "y", unbound, ?_⟩⟩
  rintro ⟨x, number⟩
  cases number

end Interpreter

end Kata
