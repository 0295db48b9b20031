/-
# Flat expressions

The expressions of the exercise language have no parentheses, so a well-formed one is a
flat sequence: padded operands with a spaced operator between each two. A chain of padded
operands is such a sequence, and `Chain.text` writes it. The main statement here says
where the compiler cuts such a text: at the last operator of a level that the chain uses,
whatever the padding and whatever the quoted operands hold.
-/

import Kata.Proofs.Expr.Chain
import Kata.Proofs.Expr.Split
import Kata.Proofs.Literal.Grammar

namespace Kata

/-- A literal or a name between blanks. -/
structure Operand where
  front : List Char
  word : List Char
  back : List Char
  front_blank : Text.allBlank front = true
  back_blank : Text.allBlank back = true
  isLeaf : (Literal.value? word).isSome = true ∨ Text.isName word = true

namespace Operand

/-- An operand as it is written. -/
def text (o : Operand) : List Char := o.front ++ (o.word ++ o.back)

/-- A literal stands for its value and any other name for a variable. -/
def tree (o : Operand) : Expr :=
  match Literal.value? o.word with
  | some value => .literal value
  | none => .var (String.ofList o.word)

/-- The same word between other blanks. -/
def within (o : Operand) (front back : List Char) (front_blank : Text.allBlank front = true)
    (back_blank : Text.allBlank back = true) : Operand :=
  { o with front, back, front_blank, back_blank }

theorem leaf?_word (o : Operand) : Expr.leaf? o.word = some o.tree := by
  rw [Expr.leaf?, tree]
  cases read : Literal.value? o.word with
  | some value => rfl
  | none =>
      have name : Text.isName o.word = true := by simpa [read] using o.isLeaf
      simp [name]

end Operand

theorem Expr.atom_of_leaf? {s : List Char} {leaf : Expr} (found : leaf? s = some leaf) :
    Text.Atom s := by
  rcases leaf?_cases found with ⟨value, read, -⟩ | ⟨-, name, -⟩
  · exact (Literal.value?_eq_some_iff.mp read).atom
  · exact Text.atom_of_isName name

namespace Operand

theorem atom_word (o : Operand) : Text.Atom o.word := Expr.atom_of_leaf? o.leaf?_word

theorem quoteAfter_text (o : Operand) : Text.quoteAfter none o.text = none := by
  rw [text, Text.quoteAfter_append, Text.quoteAfter_of_allBlank o.front_blank,
    Text.quoteAfter_append, o.atom_word.quoteAfter_eq_none,
    Text.quoteAfter_of_allBlank o.back_blank]

/-- An operand starts with a blank or with an atom, so no operator stands there. -/
theorem operatorAt?_text (ops : List Op) (o : Operand) (t : List Char) :
    Expr.operatorAt? ops (o.text ++ t) = none := by
  have blank := Text.allBlank_iff.mp o.front_blank
  rw [text, List.append_assoc, List.append_assoc]
  cases shape : o.front with
  | nil => exact Expr.operatorAt?_eq_none_of_atom o.atom_word _
  | cons c rest =>
      refine Expr.operatorAt?_eq_none_of_startsBlank ?_
      exact blank c (shape ▸ List.mem_cons_self)

/-- An operand offers no cut when none follows it. -/
theorem splitLast?_text {ops : List Op} (o : Operand) {t : List Char}
    (later : Expr.splitLast? ops none t = none) (next : Expr.operatorAt? ops t = none) :
    Expr.splitLast? ops none (o.text ++ t) = none := by
  have behind : Expr.splitLast? ops none (o.back ++ t) = none :=
    Expr.splitLast?_append_of_allBlank o.back_blank later next
  have word : Expr.splitLast? ops none (o.word ++ (o.back ++ t)) = none := by
    refine Expr.splitLast?_append_of_hides (o.atom_word.hides (by decide) (by decide)) ?_
    rwa [o.atom_word.quoteAfter_eq_none]
  rw [text, List.append_assoc, List.append_assoc]
  exact Expr.splitLast?_append_of_allBlank o.front_blank word
    (Expr.operatorAt?_eq_none_of_atom o.atom_word _)

end Operand

namespace Chain

/-! ## Chains as texts -/

/-- The operands behind the first one as they are written, each behind a spaced operator. -/
def linksText : List (Op × Operand) → List Char
  | [] => []
  | (op, o) :: rest => ' ' :: (sign op ++ ' ' :: (o.text ++ linksText rest))

/-- A chain as it is written. -/
def text (c : Chain Operand) : List Char := c.first.text ++ linksText c.links

/-- The tree of a chain of operands. -/
def compiled (c : Chain Operand) : Expr := (c.map Operand.tree).tree

theorem linksText_cons (op : Op) (o : Operand) (rest : List (Op × Operand)) :
    linksText ((op, o) :: rest) =
      ' ' :: (op.symbol.toList ++ ' ' :: (o.text ++ linksText rest)) := by
  rw [linksText, sign_eq]

theorem linksText_append (a b : List (Op × Operand)) :
    linksText (a ++ b) = linksText a ++ linksText b := by
  induction a with
  | nil => rfl
  | cons link rest ih => simp [linksText, ih]

theorem text_join (left : Chain Operand) (op : Op) (right : Chain Operand) :
    (left.join op right).text =
      left.text ++ ' ' :: (op.symbol.toList ++ ' ' :: right.text) := by
  simp [text, join, linksText_append, linksText]

theorem quoteAfter_text (c : Chain Operand) : Text.quoteAfter none c.text = none := by
  have later (links : List (Op × Operand)) : Text.quoteAfter none (linksText links) = none := by
    induction links with
    | nil => rfl
    | cons link rest ih =>
        obtain ⟨op, o⟩ := link
        have space : Text.afterChar none ' ' = none := by decide
        rw [linksText_cons, Text.quoteAfter_cons, space, Text.quoteAfter_append,
          (Expr.symbol_quoteless op).1, Text.quoteAfter_cons, space, Text.quoteAfter_append,
          o.quoteAfter_text, ih]
  rw [text, Text.quoteAfter_append, c.first.quoteAfter_text, later]

/-- What follows an operand in a chain is no operator: it is nothing or a space. -/
theorem operatorAt?_linksText (ops : List Op) (links : List (Op × Operand)) :
    Expr.operatorAt? ops (linksText links) = none := by
  cases links with
  | nil =>
      cases found : Expr.operatorAt? ops [] with
      | none => exact found
      | some cut =>
          have shape := (Expr.of_operatorAt?_eq_some found).2
          simp at shape
  | cons link rest =>
      exact Expr.operatorAt?_eq_none_of_startsBlank (show Text.isBlank ' ' = true by decide)

/-- Behind the space in front of an operator there is no cut before the next operand's. -/
theorem splitLast?_symbol {ops : List Op} (op : Op) (o : Operand) {t : List Char}
    (later : Expr.splitLast? ops none t = none) (next : Expr.operatorAt? ops t = none) :
    Expr.splitLast? ops none (op.symbol.toList ++ ' ' :: (o.text ++ t)) = none := by
  refine Expr.splitLast?_append_of_hides
    (Text.hides_of_not_mem none (Expr.symbol_quoteless op).2) ?_
  rw [(Expr.symbol_quoteless op).1]
  exact Expr.splitLast?_append_of_allBlank (s := [' ']) (by decide)
    (o.splitLast?_text later next) (o.operatorAt?_text ops t)

theorem splitLast?_linksText {ops : List Op} {links : List (Op × Operand)}
    (unused : ∀ link ∈ links, link.1 ∉ ops) :
    Expr.splitLast? ops none (linksText links) = none := by
  induction links with
  | nil => rfl
  | cons link rest ih =>
      obtain ⟨op, o⟩ := link
      have later := ih fun link inside => unused link (List.mem_cons_of_mem _ inside)
      have behind := splitLast?_symbol op o later (operatorAt?_linksText ops rest)
      rw [linksText_cons]
      exact Expr.splitLast?_append_of_allBlank (s := [' ']) (by decide) behind
        (Expr.operatorAt?_symbol_eq_none (unused (op, o) List.mem_cons_self) _)

theorem splitLast?_text_eq_none {ops : List Op} {c : Chain Operand} (unused : ¬ c.Uses ops) :
    Expr.splitLast? ops none c.text = none := by
  refine c.first.splitLast?_text (splitLast?_linksText fun link inside used => ?_)
    (operatorAt?_linksText ops c.links)
  exact unused ⟨link, inside, used⟩

/-- The text of two chains is cut at the operator between them, if the second chain does
not use one of its level. -/
theorem splitLast?_text_join {ops : List Op} {op : Op} (inside : op ∈ ops)
    (left : Chain Operand) {right : Chain Operand} (last : ¬ right.Uses ops) :
    Expr.splitLast? ops none (left.join op right).text = some (left.text, op, right.text) := by
  have unused : ∀ link ∈ right.links, link.1 ∉ ops := fun link member used =>
    last ⟨link, member, used⟩
  have behind := splitLast?_symbol op right.first (splitLast?_linksText unused)
    (operatorAt?_linksText ops right.links)
  have found : Expr.splitLast? ops (Text.quoteAfter none left.text)
      (' ' :: (op.symbol.toList ++ ' ' :: right.text)) = some ([], op, right.text) := by
    rw [left.quoteAfter_text]
    exact Expr.splitLast?_space inside behind
  have cut := Expr.splitLast?_append_of_some found
  rw [List.append_nil] at cut
  rw [text_join]
  exact cut

end Chain

end Kata
