/-
# Equality of values

Equality is symmetric and transitive, and it fails to be reflexive for one reason alone: the
value has a not-a-number in it, however deep. Both come from what two equal values share, which
is the value with its zeros unsigned. So equality is not sameness, zero being equal to negative
zero, and a value that equals another one also equals itself.

Every verdict on a test rests on this relation, and so does the comparison of expressions. A
name compared with itself is the case a learner meets: it is true unless what it stands for
has a not-a-number in it, and a name that is not bound is no exception.
-/

import Kata.Interpreter
import Kata.Proofs.Expr.Understood
import Kata.Proofs.Value.Display
import Mathlib.Data.List.Forall2

namespace Kata

namespace Value

variable {u v w : Value}

/-! ## The laws -/

/-- A value that equals another one has no not-a-number, and neither has the other one. -/
theorem numeric_of_beq (equal : (u == v) = true) : v.Numeric := by
  obtain ⟨numeric, same⟩ := beq_iff.mp equal
  rwa [← numeric_unsigned_iff, ← same, numeric_unsigned_iff]

instance : PartialEquivBEq Value where
  symm equal := beq_iff.mpr ⟨numeric_of_beq equal, (beq_iff.mp equal).2.symm⟩
  trans first second := by
    obtain ⟨numeric, same⟩ := beq_iff.mp first
    exact beq_iff.mpr ⟨numeric, same.trans (beq_iff.mp second).2⟩

/-- Only not-a-number keeps a value from being equal to itself. -/
theorem beq_self_iff : (v == v) = true ↔ v.Numeric := by
  rw [beq_iff, and_iff_left rfl]

/-- The kinds of values. -/
inductive Kind
  | null
  | bool
  | number
  | text
  | list
  deriving DecidableEq

/-- The kind of a value. -/
def kind : Value → Kind
  | .null => .null
  | .bool _ => .bool
  | .number _ => .number
  | .text _ => .text
  | .list _ => .list

/-- Nothing is converted: values of two kinds are not equal. -/
theorem kind_eq_of_beq (equal : (u == v) = true) : u.kind = v.kind := by
  change same u v = true at equal
  cases u <;> cases v <;> first | rfl | cases equal

theorem sameItems_iff_forall₂ {us vs : List Value} :
    sameItems us vs = true ↔ List.Forall₂ (fun u v => (u == v) = true) us vs := by
  induction us generalizing vs with
  | nil => cases vs <;> simp [sameItems]
  | cons u us ih =>
      cases vs with
      | nil => simp [sameItems]
      | cons v vs =>
          rw [sameItems, Bool.and_eq_true, List.forall₂_cons, ih]
          rfl

/-- Lists are compared by their lengths and place by place. -/
theorem list_beq_iff {us vs : List Value} :
    (list us == list vs) = true ↔ us.length = vs.length ∧
      ∀ n (inFirst : n < us.length) (inSecond : n < vs.length), (us[n] == vs[n]) = true := by
  change sameItems us vs = true ↔ _
  rw [sameItems_iff_forall₂, List.forall₂_iff_get]
  rfl

end Value

/-! ## Comparisons in expressions -/

/-- Two leaves with the sign of comparison between them are compared. -/
theorem Expr.compile_comparison {s t : List Char} {left right : Expr}
    (first : leaf? s = some left) (second : leaf? t = some right) :
    compile (s ++ " == ".toList ++ t) = .binary .eq left right := by
  obtain ⟨o, rfl, rfl⟩ := Chain.exists_operand_of_leaf? first
  obtain ⟨p, rfl, rfl⟩ := Chain.exists_operand_of_leaf? second
  have whole : o.text ++ " == ".toList ++ p.text = (⟨o, [(.eq, p)]⟩ : Chain Operand).text := by
    simp [Chain.text, Chain.linksText, Op.symbol]
  rw [whole, Chain.compile_text]
  rfl

/-- A name compared with itself: what it stands for is compared with itself, null if it stands
for nothing. -/
theorem Interpreter.evalText_self_comparison (i : Interpreter) {x : String}
    (named : Text.isName x.toList = true) (free : Literal.value? x.toList = none) :
    i.evalText (x ++ " == " ++ x) = .bool (i.scopes.look x == i.scopes.look x) := by
  have leaf : Expr.leaf? x.toList = some (.var x) := by
    rw [Expr.leaf?, free]
    simp [named]
  rw [evalText, String.toList_append, String.toList_append, Expr.compile_comparison leaf leaf]
  rfl

/-- Equality of values is a partial equivalence in which only the values that have a
not-a-number in them, at any depth, are not equal to themselves. Values of different kinds are
not equal, and lists are equal if they have the same length and equal items at equal places.
A variable compared with itself is therefore equal to itself unless it is bound to a value with
a not-a-number in it. -/
theorem Value.beq_partial_equivalence :
    (∀ u v : Value, (u == v) = true → (v == u) = true) ∧
    (∀ u v w : Value, (u == v) = true → (v == w) = true → (u == w) = true) ∧
    (∀ v : Value, (v == v) = true ↔ v.Numeric) ∧
    (∀ u v : Value, u.kind ≠ v.kind → (u == v) = false) ∧
    (∀ us vs : List Value, (list us == list vs) = true ↔ us.length = vs.length ∧
      ∀ n (inFirst : n < us.length) (inSecond : n < vs.length), (us[n] == vs[n]) = true) ∧
    ∀ (i : Interpreter) (x : String),
      Text.isName x.toList = true → Literal.value? x.toList = none →
      (i.get? x = none → i.evalText (x ++ " == " ++ x) = .bool true) ∧
      ∀ v, i.get? x = some v →
        (v.Numeric → i.evalText (x ++ " == " ++ x) = .bool true) ∧
        (¬ v.Numeric → i.evalText (x ++ " == " ++ x) = .bool false) := by
  refine ⟨fun u v => BEq.symm, fun u v w => BEq.trans, fun v => beq_self_iff, ?_,
    fun us vs => list_beq_iff, ?_⟩
  · intro u v different
    rw [Bool.eq_false_iff]
    exact fun equal => different (kind_eq_of_beq equal)
  · intro i x named free
    rw [i.evalText_self_comparison named free, Scopes.look]
    refine ⟨fun unbound => ?_, fun v bound => ⟨fun numeric => ?_, fun other => ?_⟩⟩
    · rw [Interpreter.get?] at unbound
      rw [unbound]
      rfl
    · rw [Interpreter.get?] at bound
      rw [bound, Option.getD_some, beq_self_iff.mpr numeric]
    · rw [Interpreter.get?] at bound
      rw [bound, Option.getD_some, Bool.eq_false_iff.mpr (mt beq_self_iff.mp other)]

/-- A list in which a list has a not-a-number is not equal to itself, and one with a negative
zero at its place is. -/
theorem Value.beq_partial_equivalence_of_nested :
    let zero : Value := .list [.text "a", .list [.number (-0.0)]]
    let nan : Value := .list [.text "a", .list [.number (0.0 / 0.0)]]
    let i := (Interpreter.empty.set "x" nan).set "y" zero
    zero.Numeric ∧ ¬ nan.Numeric ∧ i.evalText "x == x" = .bool false ∧
      i.evalText "y == y" = .bool true ∧ i.evalText "z == z" = .bool true := by
  intro zero nan i
  have numeric : zero.Numeric := by
    intro x inside
    obtain rfl : x = -0.0 := by simpa [zero, numbers, numbersOfItems] using inside
    decide
  have other : ¬ nan.Numeric := fun numeric =>
    absurd (numeric (0.0 / 0.0) (by simp [nan, numbers, numbersOfItems])) (by decide)
  obtain ⟨-, -, -, -, -, compared⟩ := beq_partial_equivalence
  refine ⟨numeric, other, ((compared i "x" (by decide) rfl).2 nan rfl).2 other,
    ((compared i "y" (by decide) rfl).2 zero rfl).1 numeric, (compared i "z" (by decide) rfl).1 rfl⟩

end Kata
