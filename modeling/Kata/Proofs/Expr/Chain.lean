/-
# Precedence trees of operator chains

A chain is what an expression says before anyone groups it: a first operand and the
others, each behind its operator. Its tree is given level by level. The chain is cut at
the operators of the loosest level, every part becomes a tree by the tighter levels, and
the trees of the parts are grouped to the left. No text and no position occurs here, so
this is what a reader of texts can be compared with. The levels and the signs of the
operators are written down again for that purpose, and what the reader goes by is compared
with them once.
-/

import Kata.Expr

namespace Kata

/-- Operands with an operator before every one but the first. -/
structure Chain (α : Type) where
  first : α
  links : List (Op × α)

namespace Chain

variable {α β : Type}

def map (f : α → β) (c : Chain α) : Chain β :=
  ⟨f c.first, c.links.map fun link => (link.1, f link.2)⟩

/-- Two chains in a row, with an operator between them. -/
def join (left : Chain α) (op : Op) (right : Chain α) : Chain α :=
  ⟨left.first, left.links ++ (op, right.first) :: right.links⟩

/-- Whether an operator of a chain is among the given ones. -/
def Uses (ops : List Op) (c : Chain α) : Prop := ∃ link ∈ c.links, link.1 ∈ ops

/-- The parts that the given operators leave of a first operand and its links. -/
def cutFrom (ops : List Op) (first : α) : List (Op × α) → Chain (Chain α)
  | [] => ⟨⟨first, []⟩, []⟩
  | (op, next) :: rest =>
    let later := cutFrom ops next rest
    if op ∈ ops then ⟨⟨first, []⟩, (op, later.first) :: later.links⟩
    else ⟨⟨first, (op, later.first.first) :: later.first.links⟩, later.links⟩

/-- Cut a chain at the given operators. The parts are a chain of chains. -/
def cut (ops : List Op) (c : Chain α) : Chain (Chain α) := cutFrom ops c.first c.links

/-- Group a chain of trees to the left. -/
def groupLeft (c : Chain Expr) : Expr :=
  c.links.foldl (fun left link => .binary link.1 left link.2) c.first

/-- The tree of a chain by levels of operators, loosest first. -/
def treeBy : List (List Op) → Chain Expr → Expr
  | [], c => c.groupLeft
  | ops :: tighter, c => ((c.cut ops).map (treeBy tighter)).groupLeft

/-- The levels of the language, loosest first. -/
def levels : List (List Op) := [[.eq], [.add, .sub], [.mul, .div, .rem]]

/-- The sign of an operator in the language. -/
def sign : Op → List Char
  | .add => ['+']
  | .sub => ['-']
  | .mul => ['*']
  | .div => ['/']
  | .rem => ['%']
  | .eq => ['=', '=']

/-- The tree of a chain: comparison binds loosest, then sums, then products, and every
level groups to the left. -/
def tree (c : Chain Expr) : Expr := treeBy levels c

/-- The reader of texts goes by the levels of the language. -/
theorem levels_eq : levels = Op.levels := by
  have rows := congrArg (List.map (List.map Prod.fst)) Op.levels_with_symbols
  simp only [List.map_map, Function.comp_def, List.map_id', List.map_cons, List.map_nil] at rows
  exact rows.symm

/-- The reader of texts looks for the signs of the language. -/
@[simp]
theorem sign_eq (op : Op) : sign op = op.symbol.toList := by
  cases op <;> rfl

theorem cut_of_not_uses {ops : List Op} {c : Chain α} (unused : ¬ c.Uses ops) :
    c.cut ops = ⟨c, []⟩ := by
  obtain ⟨first, links⟩ := c
  show cutFrom ops first links = _
  induction links generalizing first with
  | nil => rfl
  | cons link rest ih =>
      obtain ⟨op, next⟩ := link
      have here : op ∉ ops := fun used => unused ⟨(op, next), List.mem_cons_self, used⟩
      have later : ¬ (⟨next, rest⟩ : Chain α).Uses ops := fun ⟨link, inside, used⟩ =>
        unused ⟨link, List.mem_cons_of_mem _ inside, used⟩
      rw [cutFrom, if_neg here, ih next later]

/-- Cutting at the operator between two chains cuts each of them. -/
theorem cut_join {ops : List Op} {op : Op} (cuts : op ∈ ops) (left right : Chain α) :
    (left.join op right).cut ops = (left.cut ops).join op (right.cut ops) := by
  obtain ⟨first, links⟩ := left
  show cutFrom ops first (links ++ (op, right.first) :: right.links) =
    (cutFrom ops first links).join op (cutFrom ops right.first right.links)
  induction links generalizing first with
  | nil => simp [cutFrom, cuts, join]
  | cons link rest ih =>
      obtain ⟨other, next⟩ := link
      by_cases used : other ∈ ops
      · simp only [List.cons_append, cutFrom, used, if_true, ih, join]
      · simp only [List.cons_append, cutFrom, used, if_false, ih, join]

/-- Behind the last operator a group of trees is an operation. -/
theorem groupLeft_join (left : Chain Expr) (op : Op) (last : Expr) :
    (left.join op ⟨last, []⟩).groupLeft = .binary op left.groupLeft last := by
  simp [groupLeft, join]

/-- A level that a chain does not use has no part in its tree. -/
theorem treeBy_of_not_uses {ops : List Op} {tighter : List (List Op)} {c : Chain Expr}
    (unused : ¬ c.Uses ops) : treeBy (ops :: tighter) c = treeBy tighter c := by
  rw [treeBy, cut_of_not_uses unused]
  rfl

/-- The last operator of the loosest level that a chain uses is at the root of its tree. -/
theorem treeBy_join {ops : List Op} {tighter : List (List Op)} {op : Op} (loosest : op ∈ ops)
    (left : Chain Expr) {right : Chain Expr} (last : ¬ right.Uses ops) :
    treeBy (ops :: tighter) (left.join op right) =
      .binary op (treeBy (ops :: tighter) left) (treeBy (ops :: tighter) right) := by
  have mapped : ((left.cut ops).join op ⟨right, []⟩).map (treeBy tighter) =
      ((left.cut ops).map (treeBy tighter)).join op ⟨treeBy tighter right, []⟩ := by
    simp [map, join]
  rw [treeBy_of_not_uses last, treeBy, cut_join loosest, cut_of_not_uses last, mapped,
    groupLeft_join, treeBy]

/-- A chain that uses an operator of a level has a last one. -/
theorem exists_last_join {ops : List Op} {c : Chain α} (used : c.Uses ops) :
    ∃ left op right, op ∈ ops ∧ ¬ Uses ops right ∧ c = join left op right := by
  obtain ⟨first, links⟩ := c
  induction links generalizing first with
  | nil =>
      obtain ⟨link, inside, -⟩ := used
      exact absurd inside List.not_mem_nil
  | cons link rest ih =>
      obtain ⟨op, next⟩ := link
      by_cases later : (⟨next, rest⟩ : Chain α).Uses ops
      · obtain ⟨left, last, right, cuts, tail, shape⟩ := ih next later
        obtain ⟨rfl, rfl⟩ : next = left.first ∧
            rest = left.links ++ (last, right.first) :: right.links := by
          simpa [join] using shape
        exact ⟨⟨first, (op, left.first) :: left.links⟩, last, right, cuts, tail, rfl⟩
      · refine ⟨⟨first, []⟩, op, ⟨next, rest⟩, ?_, later, rfl⟩
        obtain ⟨found, inside, cuts⟩ := used
        rcases List.mem_cons.mp inside with rfl | inside
        · exact cuts
        · exact absurd ⟨found, inside, cuts⟩ later

end Chain

end Kata
