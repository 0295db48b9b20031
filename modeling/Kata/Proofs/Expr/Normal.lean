/-
# The normal form of compiled trees

A tree that comes from a text is in the order of precedence, whatever the text is. Under an
operator the right side has only operators that bind tighter, since the text is cut at the
last operator of the loosest level that it offers, and the left side none that binds looser.
So a tree needs no parentheses to be told from another one. The leaves are what the text
left them to be: a literal, a name that is no literal, or a piece that cannot be cut.

Malformed texts are no exception, since a piece without sense is a leaf like the others.
Which of the trees in normal form come from a text is not said here.
-/

import Kata.Proofs.Expr.Operators
import Kata.Proofs.Literal.Grammar
import Kata.Proofs.Number.Double

namespace Kata

/-! ## Levels -/

namespace Op

/-- The level of an operator, the loosest having level zero. -/
def level (op : Op) : Nat := levels.findIdx (·.contains op)

/-- Comparison stands by itself, below the sums, and these stand below the products. -/
example : [eq, add, sub, mul, div, rem].map level = [0, 1, 1, 2, 2, 2] := by decide

variable {op : Op} {earlier later : List (List Op)} {ops : List Op}

theorem level_lt_length (op : Op) : op.level < levels.length := by
  cases op <;> decide

/-- An operator stands in the row of its level. -/
theorem exists_mem_take_of_level_lt {n : Nat} (below : op.level < n) :
    ∃ ops ∈ levels.take n, op ∈ ops := by
  refine ⟨levels.get ⟨op.level, op.level_lt_length⟩, ?_, ?_⟩
  · rw [List.mem_take_iff_getElem]
    exact ⟨op.level, lt_min below op.level_lt_length, rfl⟩
  · have held : (levels.get ⟨op.level, op.level_lt_length⟩).contains op = true :=
      List.findIdx_getElem
    exact List.contains_iff_mem.mp held

/-- An operator of a row has no later level. -/
theorem level_le_of_mem (rows : levels = earlier ++ ops :: later) (inside : op ∈ ops) :
    op.level ≤ earlier.length := by
  rw [level, rows, List.findIdx_append]
  split
  · exact Nat.le_of_lt ‹_›
  · simp [List.findIdx_cons, inside]

end Op

namespace Expr

variable {ops : List Op} {op : Op} {s left right : List Char}

/-! ## Cuts at the loosest level -/

/-- A text is cut at a row of the table whose earlier rows it does not offer. -/
theorem exists_row_of_split? (cut : split? s = some (left, op, right)) :
    ∃ earlier ops later, Op.levels = earlier ++ ops :: later ∧
      splitLast? ops none s = some (left, op, right) ∧
      ∀ looser ∈ earlier, ¬ Offers looser none s := by
  obtain ⟨earlier, ops, later, rows, here, missed⟩ := List.findSome?_eq_some_iff.mp cut
  exact ⟨earlier, ops, later, rows, here, fun looser inside =>
    splitLast?_eq_none_iff.mp (missed looser inside)⟩

/-- The right side of a cut offers no operator of the level of the cut, which is at the last
one. -/
theorem not_offers_right (cut : splitLast? ops none s = some (left, op, right)) :
    ¬ Offers ops none right := by
  intro offers
  have found : splitLast? ops none right ≠ none := fun none => splitLast?_eq_none_iff.mp none offers
  obtain ⟨⟨front, last, back⟩, deeper⟩ := Option.ne_none_iff_exists'.mp found
  rw [← quoteAfter_front cut] at deeper
  have again := splitLast?_append_of_some deeper
  have whole : left ++ ' ' :: (op.symbol.toList ++ [' ']) ++ right = s := by
    rw [(of_splitLast?_eq_some cut).2]
    simp
  rw [whole, cut, Option.some.injEq, Prod.mk.injEq] at again
  have sizes := congrArg List.length again.1
  simp at sizes

/-- On the right of a cut operators bind tighter than the one that is cut at, and on the left
none binds looser. -/
theorem level_of_has_side (cut : split? s = some (left, op, right)) {other : Op} :
    ((compile right).Has other → op.level < other.level) ∧
      ((compile left).Has other → op.level ≤ other.level) := by
  obtain ⟨earlier, ops, later, rows, here, missed⟩ := exists_row_of_split? cut
  have bound := Op.level_le_of_mem rows (of_splitLast?_eq_some here).1
  have looser : ∀ row ∈ earlier, ¬ Offers row none left ∧ ¬ Offers row none right :=
    fun row inside => ⟨fun offers => missed row inside (.of_side here (.inl offers)),
      fun offers => missed row inside (.of_side here (.inr offers))⟩
  constructor
  · intro has
    by_contra loose
    have below : other.level < earlier.length + 1 := by omega
    obtain ⟨row, among, held⟩ := Op.exists_mem_take_of_level_lt below
    refine not_has_compile ?_ held has
    have rowsTaken : Op.levels.take (earlier.length + 1) = earlier ++ [ops] := by
      rw [rows]
      simp [List.take_append]
    rw [rowsTaken, List.mem_append, List.mem_singleton] at among
    rcases among with inside | rfl
    · exact (looser row inside).2
    · exact not_offers_right here
  · intro has
    by_contra loose
    have below : other.level < earlier.length := by omega
    obtain ⟨row, among, held⟩ := Op.exists_mem_take_of_level_lt below
    refine not_has_compile ?_ held has
    rw [rows, List.take_left] at among
    exact (looser row among).1

/-! ## Normal form -/

/-- The parts of a tree, beginning with the tree itself. -/
def parts : Expr → List Expr
  | .binary op left right => .binary op left right :: (left.parts ++ right.parts)
  | leaf => [leaf]

/-- What a part is like in a tree in normal form. -/
def Normal : Expr → Prop
  | .binary op left right =>
      (∀ other l r, right = .binary other l r → op.level < other.level) ∧
        ∀ other l r, left = .binary other l r → op.level ≤ other.level
  | .var name => Text.isName name.toList = true ∧ Literal.value? name.toList = none
  | .literal v =>
      v = .null ∨ (∃ b, v = .bool b) ∨ (∃ t, v = .text t) ∨ ∃ x, v = .number x ∧ x.isNaN = false
  | .invalid text => Text.trim text.toList = text.toList ∧ ∀ op, ¬ Offers [op] none text.toList

/-- What is written down is a scalar, and if it is a number then not not-a-number. -/
theorem normal_literal {v : Value} (written : Literal.Written s v) : (literal v).Normal := by
  cases written with
  | number plain => exact .inr (.inr (.inr ⟨_, rfl, Numeral.isNaN_toFloat _⟩))
  | quoted opens plain => exact .inr (.inr (.inl ⟨_, rfl⟩))
  | true => exact .inr (.inl ⟨_, rfl⟩)
  | false => exact .inr (.inl ⟨_, rfl⟩)
  | null => exact .inl rfl

/-- A text that is not cut offers no operator. -/
theorem not_offers_of_split?_eq_none (uncut : split? s = none) (op : Op) :
    ¬ Offers [op] none s := by
  obtain ⟨row, among, held⟩ := op.exists_mem_take_of_level_lt op.level_lt_length
  rintro ⟨before, other, after, single, shape, closed⟩
  obtain rfl := List.mem_singleton.mp single
  have missed := List.findSome?_eq_none_iff.mp uncut row (List.mem_of_mem_take among)
  exact splitLast?_eq_none_iff.mp missed ⟨before, other, after, held, shape, closed⟩

/-- Every part of a compiled tree is in normal form, whatever the text is. -/
theorem normal_of_mem_parts_compile (s : List Char) :
    ∀ part ∈ (compile s).parts, part.Normal := by
  induction s using compile_induct with
  | leaf s tree single compiled =>
      rw [compiled]
      rcases leaf?_cases single with ⟨v, value, rfl⟩ | ⟨value, named, rfl⟩
      · rw [parts, List.forall_mem_singleton]
        · exact normal_literal (Literal.value?_eq_some_iff.mp value)
        · simp
      · rw [parts, List.forall_mem_singleton]
        · rw [Normal, String.toList_ofList]
          exact ⟨named, value⟩
        · simp
  | cut s left op right single cut compiled ihLeft ihRight =>
      rw [compiled, parts, List.forall_mem_cons, List.forall_mem_append]
      refine ⟨⟨?_, ?_⟩, ihLeft, ihRight⟩
      · intro other l r root
        refine (level_of_has_side cut).1 ?_
        rw [root]
        exact .inl rfl
      · intro other l r root
        refine (level_of_has_side cut).2 ?_
        rw [root]
        exact .inl rfl
  | invalid s uncut compiled =>
      rw [compiled, parts, List.forall_mem_singleton]
      · rw [Normal, String.toList_ofList]
        exact ⟨Text.trim_trim s, not_offers_of_split?_eq_none uncut⟩
      · simp

/-- Of two signs that share a space the last one is cut at, and what is left of it is a piece
without sense. The product on the right binds tighter. -/
theorem normal_of_mem_parts_of_doubled_sign :
    let tree : Expr :=
      .binary .sub (.invalid "a -") (.binary .mul (.var "b") (.literal (.text "c + d")))
    compile "a - - b * 'c + d'".toList = tree ∧ tree ∈ tree.parts ∧ tree.Normal ∧
      .invalid "a -" ∈ tree.parts ∧ (Expr.invalid "a -").Normal := by
  intro tree
  have compiled : compile "a - - b * 'c + d'".toList = tree := by rfl
  have normal := normal_of_mem_parts_compile "a - - b * 'c + d'".toList
  rw [compiled] at normal
  have whole : tree ∈ tree.parts := List.mem_cons_self
  have piece : .invalid "a -" ∈ tree.parts := List.mem_cons_of_mem _ List.mem_cons_self
  exact ⟨compiled, whole, normal _ whole, piece, normal _ piece⟩

end Expr

end Kata
