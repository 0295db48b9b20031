/-
# Where an expression is cut

The reader of expressions cuts at the last fitting operator outside quotes. This file
says what that means for a text given in pieces: a cut that lies in the later piece is
the cut of the whole, and an earlier piece offers one only if a space of it, outside
quotes, is followed by an operator and a space. Atoms and blanks offer none.
-/

import Kata.Expr.Compile
import Kata.Proofs.Text.Atom
import Mathlib.Data.List.Basic

namespace Kata.Expr

variable {ops : List Op} {op : Op} {quote : Option Char} {s t left right : List Char}

/-! ## Operators at the front of a text -/

/-- The operator at the front of a text is one of those looked for, and a space follows. -/
theorem of_operatorAt?_eq_some (found : operatorAt? ops s = some (op, right)) :
    op ∈ ops ∧ s = op.symbol.toList ++ ' ' :: right := by
  obtain ⟨other, inside, starts⟩ := List.exists_of_findSome?_eq_some found
  simp only [Option.map_eq_some_iff, Prod.mk.injEq] at starts
  obtain ⟨rest, here, rfl, rfl⟩ := starts
  refine ⟨inside, ?_⟩
  simpa using (List.isPrefixOf?_eq_some_iff_append_eq.mp here).symm

/-- No operator with its space is the beginning of another with its space. -/
theorem symbol_append_injective {a b : Op}
    (same : a.symbol.toList ++ ' ' :: s = b.symbol.toList ++ ' ' :: t) : a = b ∧ s = t := by
  cases a <;> cases b <;> simp_all [Op.symbol]

theorem operatorAt?_symbol (inside : op ∈ ops) (right : List Char) :
    operatorAt? ops (op.symbol.toList ++ ' ' :: right) = some (op, right) := by
  cases found : operatorAt? ops (op.symbol.toList ++ ' ' :: right) with
  | none =>
      have missed := List.findSome?_eq_none_iff.mp found op inside
      simp only [Option.map_eq_none_iff] at missed
      have here : (op.symbol.toList ++ [' ']).isPrefixOf?
          (op.symbol.toList ++ ' ' :: right) = some right :=
        List.isPrefixOf?_eq_some_iff_append_eq.mpr (by simp)
      simp [missed] at here
  | some cut =>
      obtain ⟨other, rest⟩ := cut
      obtain ⟨-, shape⟩ := of_operatorAt?_eq_some found
      obtain ⟨rfl, rfl⟩ := symbol_append_injective shape
      rfl

theorem operatorAt?_symbol_eq_none (outside : op ∉ ops) (right : List Char) :
    operatorAt? ops (op.symbol.toList ++ ' ' :: right) = none := by
  cases found : operatorAt? ops (op.symbol.toList ++ ' ' :: right) with
  | none => rfl
  | some cut =>
      obtain ⟨other, rest⟩ := cut
      obtain ⟨inside, shape⟩ := of_operatorAt?_eq_some found
      obtain ⟨rfl, -⟩ := symbol_append_injective shape
      exact absurd inside outside

/-- Every operator starts with a character that is no blank and no quote, and only the
minus sign is a plain one. -/
theorem exists_cons_symbol (op : Op) :
    ∃ c rest, op.symbol.toList = c :: rest ∧ Text.isBlank c = false ∧
      Text.isQuote c = false ∧ (Text.isPlain c = true → c = '-' ∧ rest = []) := by
  cases op <;> exact ⟨_, _, rfl, by decide, by decide, by decide⟩

theorem operatorAt?_eq_none_of_startsBlank (blank : Text.startsBlank s = true) :
    operatorAt? ops s = none := by
  cases found : operatorAt? ops s with
  | none => rfl
  | some cut =>
      obtain ⟨other, rest⟩ := cut
      obtain ⟨-, rfl⟩ := of_operatorAt?_eq_some found
      obtain ⟨c, more, shape, solid, -, -⟩ := exists_cons_symbol other
      rw [shape, List.cons_append, Text.startsBlank_cons] at blank
      simp [solid] at blank

/-- An atom is no operator: a minus sign that opens one is followed by no space. -/
theorem operatorAt?_eq_none_of_atom (atom : Text.Atom s) (t : List Char) :
    operatorAt? ops (s ++ t) = none := by
  cases found : operatorAt? ops (s ++ t) with
  | none => rfl
  | some cut =>
      obtain ⟨other, rest⟩ := cut
      obtain ⟨-, shape⟩ := of_operatorAt?_eq_some found
      obtain ⟨c, more, symbol, -, unquoted, minus⟩ := exists_cons_symbol other
      obtain ⟨d, tail, rfl⟩ := List.exists_cons_of_ne_nil atom.ne_nil
      rw [symbol, List.cons_append, List.cons_append] at shape
      obtain ⟨rfl, behind⟩ := List.cons_eq_cons.mp shape
      have plain : Text.isPlain d = true := by
        generalize whole : d :: tail = word at atom
        cases atom with
        | plain _ plain => exact plain d (whole ▸ List.mem_cons_self)
        | quoted opens _ =>
            obtain ⟨rfl, -⟩ := List.cons_eq_cons.mp whole
            simp [opens] at unquoted
      obtain ⟨rfl, rfl⟩ := minus plain
      obtain ⟨e, others, rfl, solid⟩ := atom.exists_cons_of_minus
      obtain ⟨rfl, -⟩ := List.cons_eq_cons.mp behind
      exact absurd solid (by decide)

theorem symbol_quoteless (op : Op) :
    Text.quoteAfter none op.symbol.toList = none ∧ ' ' ∉ op.symbol.toList := by
  cases op <;> decide

/-! ## Cuts of a text in pieces -/

/-- Left side, space, operator, space and right side make up the text again. -/
theorem of_splitLast?_eq_some (cut : splitLast? ops quote s = some (left, op, right)) :
    op ∈ ops ∧ s = left ++ ' ' :: (op.symbol.toList ++ ' ' :: right) := by
  induction s generalizing quote left with
  | nil => simp [splitLast?] at cut
  | cons c rest ih =>
      rw [splitLast?] at cut
      split at cut
      · rename_i front found back deeper
        simp only [Option.some.injEq, Prod.mk.injEq] at cut
        obtain ⟨rfl, rfl, rfl⟩ := cut
        obtain ⟨inside, shape⟩ := ih deeper
        exact ⟨inside, by rw [shape, List.cons_append]⟩
      · split at cut
        · rename_i space
          simp only [Option.map_eq_some_iff, Prod.mk.injEq, Prod.exists] at cut
          obtain ⟨found, back, here, rfl, rfl, rfl⟩ := cut
          obtain ⟨inside, shape⟩ := of_operatorAt?_eq_some here
          have blank : c = ' ' := by simpa using (Bool.and_eq_true_iff.mp space).2
          exact ⟨inside, by rw [shape, blank, List.nil_append]⟩
        · simp at cut

/-- A cut in the later piece is the cut of the whole, since the last one counts. -/
theorem splitLast?_append_of_some
    (cut : splitLast? ops (Text.quoteAfter quote s) t = some (left, op, right)) :
    splitLast? ops quote (s ++ t) = some (s ++ left, op, right) := by
  induction s generalizing quote with
  | nil => exact cut
  | cons c rest ih => rw [List.cons_append, splitLast?, ih cut]; rfl

/-- Without a cut in the later piece and without an operator behind one of its open
spaces, a piece offers no cut. -/
theorem splitLast?_append_of_none
    (later : splitLast? ops (Text.quoteAfter quote s) t = none)
    (here : ∀ before after, s = before ++ ' ' :: after →
      Text.quoteAfter quote before = none → operatorAt? ops (after ++ t) = none) :
    splitLast? ops quote (s ++ t) = none := by
  induction s generalizing quote with
  | nil => exact later
  | cons c rest ih =>
      have deeper : splitLast? ops (Text.afterChar quote c) (rest ++ t) = none := by
        refine ih later fun before after shape closed => ?_
        exact here (c :: before) after (by rw [shape, List.cons_append]) closed
      rw [List.cons_append, splitLast?, deeper]
      dsimp only
      split
      · rename_i space
        obtain ⟨outside, rfl⟩ : quote = none ∧ c = ' ' := by simpa using space
        simp [here [] rest rfl outside]
      · rfl

theorem splitLast?_append_of_hides (hidden : Text.Hides ' ' quote s)
    (later : splitLast? ops (Text.quoteAfter quote s) t = none) :
    splitLast? ops quote (s ++ t) = none :=
  splitLast?_append_of_none later fun before after shape closed =>
    absurd closed (hidden before after shape)

theorem splitLast?_append_of_allBlank (blank : Text.allBlank s = true)
    (later : splitLast? ops none t = none) (next : operatorAt? ops t = none) :
    splitLast? ops none (s ++ t) = none := by
  refine splitLast?_append_of_none (by rwa [Text.quoteAfter_of_allBlank blank]) ?_
  rintro before after rfl -
  cases after with
  | nil => exact next
  | cons c rest =>
      have inside : Text.isBlank c = true := Text.allBlank_iff.mp blank c (by simp)
      exact operatorAt?_eq_none_of_startsBlank (by simpa using inside)

/-- A cut at an open space, when nothing behind it offers a later one. -/
theorem splitLast?_space (inside : op ∈ ops)
    (later : splitLast? ops none (op.symbol.toList ++ ' ' :: right) = none) :
    splitLast? ops none (' ' :: (op.symbol.toList ++ ' ' :: right)) = some ([], op, right) := by
  rw [splitLast?, show Text.afterChar none ' ' = none by decide, later]
  simp [operatorAt?_symbol inside]

end Kata.Expr
