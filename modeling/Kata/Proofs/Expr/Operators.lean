/-
# Which operators a compiled tree has

An operator is in the tree of a text only if it stands in the text, between two spaces and
where no quote is open. Such a place is an offer to cut. A cut and the trimming of its two
sides take offers away and bring none in, since both sides start with all quotes closed, so
what a text does not offer its tree does not have. This holds of malformed texts as well.

The levels are tried from the loosest one on. A root of a tighter level therefore says that no
looser operator is anywhere in the tree, and for comparison, which has the loosest level to
itself, that is the last theorem here. Where in a tree the operators of one level stand is
left open.
-/

import Kata.Proofs.Expr.Split

namespace Kata.Expr

variable {ops : List Op} {op : Op} {quote : Option Char} {s left right : List Char}

/-- Whether an operator stands at a node of a tree. -/
def Has (op : Op) : Expr → Prop
  | .binary root left right => root = op ∨ left.Has op ∨ right.Has op
  | .literal _ | .var _ | .invalid _ => False

/-! ## Offers -/

/-- A text has one of the operators between two spaces, and no quote is open there. -/
def Offers (ops : List Op) (quote : Option Char) (s : List Char) : Prop :=
  ∃ before op after, op ∈ ops ∧ s = before ++ ' ' :: (op.symbol.toList ++ ' ' :: after) ∧
    Text.quoteAfter quote before = none

/-- A text is cut at some operators exactly if it offers one of them. -/
theorem splitLast?_eq_none_iff : splitLast? ops quote s = none ↔ ¬ Offers ops quote s := by
  constructor
  · rintro uncut ⟨before, op, after, inside, rfl, closed⟩
    have found : ∃ cut, splitLast? ops none (' ' :: (op.symbol.toList ++ ' ' :: after)) =
        some cut := by
      rw [splitLast?]
      split
      · exact ⟨_, rfl⟩
      · simp [operatorAt?_symbol inside]
    obtain ⟨⟨left, last, right⟩, found⟩ := found
    rw [splitLast?_append_of_some (closed ▸ found)] at uncut
    cases uncut
  · intro refused
    rw [← List.append_nil s]
    refine splitLast?_append_of_none rfl fun before after shape closed => ?_
    cases found : operatorAt? ops (after ++ []) with
    | none => rfl
    | some cut =>
        obtain ⟨op, right⟩ := cut
        obtain ⟨inside, starts⟩ := of_operatorAt?_eq_some found
        rw [List.append_nil] at starts
        exact absurd ⟨before, op, right, inside, starts ▸ shape, closed⟩ refused

/-- What a part of a text offers the text offers, if no quote is open where the part begins. -/
theorem Offers.append {front : List Char} (offers : Offers ops none s)
    (closed : Text.quoteAfter none front = none) (back : List Char) :
    Offers ops none (front ++ (s ++ back)) := by
  obtain ⟨before, op, after, inside, rfl, outside⟩ := offers
  refine ⟨front ++ before, op, after ++ back, inside, by simp, ?_⟩
  rw [Text.quoteAfter_append, closed, outside]

theorem Offers.of_trim (offers : Offers ops none (Text.trim s)) : Offers ops none s := by
  obtain ⟨front, back, frontBlank, -, whole⟩ := Text.exists_padding s
  rw [whole]
  exact offers.append (Text.quoteAfter_of_allBlank frontBlank) back

/-- No quote is open where a text is cut. -/
theorem quoteAfter_of_splitLast? (cut : splitLast? ops quote s = some (left, op, right)) :
    Text.quoteAfter quote left = none := by
  induction s generalizing quote left with
  | nil => simp [splitLast?] at cut
  | cons c rest ih =>
      rw [splitLast?] at cut
      split at cut
      · rename_i front found back deeper
        obtain ⟨rfl, same⟩ := Prod.mk.inj (Option.some.inj cut)
        obtain ⟨rfl, rfl⟩ := Prod.mk.inj same
        rw [Text.quoteAfter_cons]
        exact ih deeper
      · split at cut
        · rename_i space
          simp only [Option.map_eq_some_iff, Prod.mk.injEq, Prod.exists] at cut
          obtain ⟨-, -, -, rfl, -⟩ := cut
          simpa using (Bool.and_eq_true_iff.mp space).1
        · cases cut

/-- No quote is open behind the operator either. -/
theorem quoteAfter_front (cut : splitLast? ops quote s = some (left, op, right)) :
    Text.quoteAfter quote (left ++ ' ' :: (op.symbol.toList ++ [' '])) = none := by
  have space : Text.afterChar none ' ' = none := by decide
  rw [Text.quoteAfter_append, quoteAfter_of_splitLast? cut, Text.quoteAfter_cons, space,
    Text.quoteAfter_append, (symbol_quoteless op).1, Text.quoteAfter_cons, space,
    Text.quoteAfter_nil]

/-- Neither side of a cut offers anything that the whole text does not. -/
theorem Offers.of_side {others : List Op}
    (cut : splitLast? others none s = some (left, op, right))
    (offers : Offers ops none left ∨ Offers ops none right) : Offers ops none s := by
  obtain ⟨-, rfl⟩ := of_splitLast?_eq_some cut
  rcases offers with offers | offers
  · exact offers.append (show Text.quoteAfter none [] = none from rfl) _
  · have whole := offers.append (quoteAfter_front cut) []
    rw [List.append_nil] at whole
    simpa using whole

/-! ## Trees -/

/-- What a text does not offer its tree does not have. -/
theorem not_has_compile (refused : ¬ Offers ops none s) (inside : op ∈ ops) :
    ¬ (compile s).Has op := by
  induction s using compile_induct with
  | leaf s tree single compiled =>
      rw [compiled]
      rcases leaf?_cases single with ⟨v, -, rfl⟩ | ⟨-, -, rfl⟩ <;> exact id
  | cut s left root right _ cut compiled ihLeft ihRight =>
      obtain ⟨level, -, cut⟩ := List.exists_of_findSome?_eq_some cut
      have trimmed : ¬ Offers ops none (Text.trim s) := fun offers => refused offers.of_trim
      rw [compiled]
      rintro (rfl | inLeft | inRight)
      · have whole := (of_splitLast?_eq_some cut).2
        exact trimmed ⟨left, root, right, inside, whole, quoteAfter_of_splitLast? cut⟩
      · exact ihLeft (fun offers => trimmed (.of_side cut (.inl offers))) inLeft
      · exact ihRight (fun offers => trimmed (.of_side cut (.inr offers))) inRight
  | invalid s _ compiled =>
      rw [compiled]
      exact id

/-- An operator at the root is where the text is cut. -/
theorem exists_split?_of_root {leftTree rightTree : Expr}
    (root : compile s = .binary op leftTree rightTree) :
    ∃ left right, split? (Text.trim s) = some (left, op, right) := by
  induction s using compile_induct with
  | leaf s tree single compiled =>
      rw [compiled] at root
      rcases leaf?_cases single with ⟨v, -, rfl⟩ | ⟨-, -, rfl⟩ <;> cases root
  | cut s left first right single cut compiled _ _ =>
      obtain rfl : first = op := (Expr.binary.inj (compiled.symm.trans root)).1
      exact ⟨left, right, cut⟩
  | invalid s uncut compiled =>
      rw [compiled] at root
      cases root

/-- Comparison binds loosest, so with any other operator at the root there is none. -/
theorem not_has_eq_of_root {leftTree rightTree : Expr}
    (root : compile s = .binary op leftTree rightTree) (other : op ≠ .eq) :
    ¬ (compile s).Has .eq := by
  obtain ⟨left, right, split⟩ := exists_split?_of_root root
  have uncut : splitLast? [.eq] none (Text.trim s) = none := by
    cases cut : splitLast? [.eq] none (Text.trim s) with
    | none => rfl
    | some parts =>
        rw [split?, Op.levels, List.findSome?_cons, cut] at split
        obtain rfl := Option.some.inj split
        exact absurd (List.mem_singleton.mp (of_splitLast?_eq_some cut).1) other
  have compiled : compile (Text.trim s) = compile s := by
    rw [compile_eq, Text.trim_trim, ← compile_eq]
  rw [← compiled]
  exact not_has_compile (splitLast?_eq_none_iff.mp uncut) List.mem_cons_self

end Kata.Expr
