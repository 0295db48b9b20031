/-
# From text to expression trees

A text that is a literal or a name is a leaf. Otherwise it is cut at an operator with
a space on either side, outside quotes: at the last one of the loosest level that
occurs. Cutting at the last makes every level group to the left, and taking the
loosest level first lets `2 + 3 * 4` multiply first. Both sides are then understood
in the same way, and a text with no operator to cut at is invalid.

There are no parentheses, and `a+b` without spaces is no sum.
-/

import Kata.Expr
import Kata.Literal
import Kata.Text.Occurrence
import Kata.Text.Word

namespace Kata

namespace Expr

/-- The operator, of those given, that a text starts with, and the text behind it. The
space that must follow the operator is not part of that text. -/
def operatorAt? (ops : List Op) (s : List Char) : Option (Op × List Char) :=
  ops.findSome? fun op =>
    ((op.symbol.toList ++ [' ']).isPrefixOf? s).map fun rest => (op, rest)

/-- Cut a text at the last of the given operators that has a space on either side and
stands outside quotes, given the quote that is open in front of the text. -/
def splitLast? (ops : List Op) : Option Char → List Char → Option (List Char × Op × List Char)
  | _, [] => none
  | quote, c :: rest =>
    match splitLast? ops (Text.afterChar quote c) rest with
    | some (left, op, right) => some (c :: left, op, right)
    | none =>
      if quote.isNone && c == ' ' then
        (operatorAt? ops rest).map fun (op, right) => ([], op, right)
      else none

/-- Cut a text at an operator of the loosest level that has one. -/
def split? (s : List Char) : Option (List Char × Op × List Char) :=
  Op.levels.findSome? fun ops => splitLast? ops none s

/-- The leaf that a trimmed text is: a literal before a name, so digits are a number and
`true` is no variable. -/
def leaf? (s : List Char) : Option Expr :=
  match Literal.value? s with
  | some value => some (.literal value)
  | none => if Text.isName s then some (.var (String.ofList s)) else none

/-- A leaf is a literal, or else a name. -/
theorem leaf?_cases {s : List Char} {tree : Expr} (found : leaf? s = some tree) :
    (∃ value, Literal.value? s = some value ∧ tree = .literal value) ∨
      Literal.value? s = none ∧ Text.isName s = true ∧ tree = .var (String.ofList s) := by
  rw [leaf?] at found
  cases read : Literal.value? s with
  | some value =>
    rw [read] at found
    exact .inl ⟨value, rfl, (Option.some.inj found).symm⟩
  | none =>
    simp only [read, Option.ite_none_right_eq_some, Option.some.injEq] at found
    exact .inr ⟨rfl, found.1, found.2.symm⟩

/-- The tree of a text, cutting at most so many times one inside the other. -/
def compileWith : Nat → List Char → Expr
  | 0, s => (leaf? (Text.trim s)).getD (.invalid (String.ofList (Text.trim s)))
  | fuel + 1, s =>
    match leaf? (Text.trim s) with
    | some leaf => leaf
    | none =>
      match split? (Text.trim s) with
      | some (left, op, right) => .binary op (compileWith fuel left) (compileWith fuel right)
      | none => .invalid (String.ofList (Text.trim s))

/-- The tree of a text. Each cut leaves two shorter texts, so a text is never cut more
deeply than it has characters. -/
def compile (s : List Char) : Expr := compileWith s.length s

/-- What stands behind an operator is shorter than the text that started with it. -/
theorem length_operatorAt? {ops : List Op} {s right : List Char} {op : Op}
    (h : operatorAt? ops s = some (op, right)) : right.length < s.length := by
  obtain ⟨found, _, starts⟩ := List.exists_of_findSome?_eq_some h
  cases behind : (found.symbol.toList ++ [' ']).isPrefixOf? s with
  | none => simp [behind] at starts
  | some rest =>
    simp only [behind, Option.map_some, Option.some.injEq, Prod.mk.injEq] at starts
    obtain ⟨_, rfl⟩ := starts
    have whole := Text.append_of_isPrefixOf? behind
    have sizes := congrArg List.length whole
    simp only [List.length_append, List.length_cons, List.length_nil] at sizes
    omega

/-- Both sides of a cut are shorter than the text. -/
theorem length_splitLast? {ops : List Op} {quote : Option Char} {s left right : List Char}
    {op : Op} (h : splitLast? ops quote s = some (left, op, right)) :
    left.length < s.length ∧ right.length < s.length := by
  induction s generalizing quote left with
  | nil => simp [splitLast?] at h
  | cons c rest ih =>
    rw [splitLast?] at h
    split at h
    · rename_i found _ _ deeper
      simp only [Option.some.injEq, Prod.mk.injEq] at h
      obtain ⟨rfl, rfl, rfl⟩ := h
      have := ih deeper
      simp only [List.length_cons]
      omega
    · split at h
      · cases here : operatorAt? ops rest with
        | none => simp [here] at h
        | some cut =>
          simp only [here, Option.map_some, Option.some.injEq, Prod.mk.injEq] at h
          obtain ⟨rfl, rfl, rfl⟩ := h
          have := length_operatorAt? here
          simp only [List.length_nil, List.length_cons]
          omega
      · simp at h

/-- Both sides of a cut are shorter than the text. -/
theorem length_split? {s left right : List Char} {op : Op}
    (h : split? s = some (left, op, right)) :
    left.length < s.length ∧ right.length < s.length := by
  obtain ⟨ops, _, cut⟩ := List.exists_of_findSome?_eq_some h
  exact length_splitLast? cut

/-- An empty text has no operator to cut at, however many cuts are allowed. -/
theorem compileWith_nil (fuel : Nat) : compileWith fuel [] = .invalid "" := by
  cases fuel <;> rfl

/-- Allowing more cuts than a text has characters changes nothing. -/
theorem compileWith_congr {a b : Nat} {s : List Char} (ha : s.length ≤ a) (hb : s.length ≤ b) :
    compileWith a s = compileWith b s := by
  induction a generalizing b s with
  | zero =>
    have empty : s = [] := List.eq_nil_of_length_eq_zero (Nat.le_zero.mp ha)
    rw [empty, compileWith_nil, compileWith_nil]
  | succ a ih =>
    cases b with
    | zero =>
      have empty : s = [] := List.eq_nil_of_length_eq_zero (Nat.le_zero.mp hb)
      rw [empty, compileWith_nil, compileWith_nil]
    | succ b =>
      rw [compileWith, compileWith]
      cases cut : split? (Text.trim s) with
      | none => rfl
      | some parts =>
        obtain ⟨left, op, right⟩ := parts
        have shorter := length_split? cut
        have trimmed := Text.length_trim_le s
        have sameLeft : compileWith a left = compileWith b left := ih (by omega) (by omega)
        have sameRight : compileWith a right = compileWith b right := ih (by omega) (by omega)
        simp only [sameLeft, sameRight]

/-- How a text is understood, without any count of cuts. -/
theorem compile_eq (s : List Char) :
    compile s =
      match leaf? (Text.trim s) with
      | some leaf => leaf
      | none =>
        match split? (Text.trim s) with
        | some (left, op, right) => .binary op (compile left) (compile right)
        | none => .invalid (String.ofList (Text.trim s)) := by
  have enough : compile s = compileWith (s.length + 1) s :=
    compileWith_congr (Nat.le_refl _) (Nat.le_succ _)
  rw [enough, compileWith]
  cases cut : split? (Text.trim s) with
  | none => rfl
  | some parts =>
    obtain ⟨left, op, right⟩ := parts
    have shorter := length_split? cut
    have trimmed := Text.length_trim_le s
    have sameLeft : compileWith s.length left = compile left :=
      compileWith_congr (by omega) (Nat.le_refl _)
    have sameRight : compileWith s.length right = compile right :=
      compileWith_congr (by omega) (Nat.le_refl _)
    simp only [sameLeft, sameRight]

/-- Induction along the cuts of a text. A text is a leaf, or has a cut with two shorter texts
beside it, or is invalid. -/
@[elab_as_elim]
theorem compile_induct {motive : List Char → Prop}
    (leaf : ∀ s tree, leaf? (Text.trim s) = some tree → compile s = tree → motive s)
    (cut : ∀ s left op right, leaf? (Text.trim s) = none →
      split? (Text.trim s) = some (left, op, right) →
      compile s = .binary op (compile left) (compile right) →
      motive left → motive right → motive s)
    (invalid : ∀ s, split? (Text.trim s) = none →
      compile s = .invalid (String.ofList (Text.trim s)) → motive s)
    (s : List Char) : motive s := by
  induction size : s.length using Nat.strongRecOn generalizing s with
  | ind n ih =>
    have compiled := compile_eq s
    cases single : leaf? (Text.trim s) with
    | some tree =>
      rw [single] at compiled
      exact leaf s tree single compiled
    | none =>
      cases parts : split? (Text.trim s) with
      | none =>
        rw [single, parts] at compiled
        exact invalid s parts compiled
      | some found =>
        obtain ⟨left, op, right⟩ := found
        rw [single, parts] at compiled
        have shorter := length_split? parts
        have trimmed := Text.length_trim_le s
        exact cut s left op right single parts compiled (ih left.length (by omega) left rfl)
          (ih right.length (by omega) right rfl)

end Expr

/-- Compile a text and keep it, trimmed, beside its tree. -/
def Expression.ofChars (s : List Char) : Expression :=
  ⟨String.ofList (Text.trim s), Expr.compile (Text.trim s)⟩

end Kata
