/-
# Texts in pieces

The pieces of a text end at the separators that stand outside quotes. `Parted` says so from
the side of the pieces: none of them shows a separator, and each closes its quotes before the
separator behind it. Only the last piece may leave a quote open. A text falls into pieces in
one way, and the splitter finds it.
-/

import Kata.Proofs.Text.Quote

namespace Kata.Text

variable {c : Char} {s piece : List Char} {pieces : List (List Char)}

/-- The pieces of a text between the separators outside quotes. -/
inductive Parted (c : Char) : List Char → List (List Char) → Prop
  | last {s : List Char} (hidden : Hides c none s) : Parted c s [s]
  | cons {piece s : List Char} {pieces : List (List Char)} (hidden : Hides c none piece)
      (closed : quoteAfter none piece = none) (rest : Parted c s pieces) :
      Parted c (piece ++ c :: s) (piece :: pieces)

/-- A text hides the separator, or it goes up to the first one that stands outside quotes. -/
theorem hides_or_exists_append_cons (c : Char) (quote : Option Char) (s : List Char) :
    Hides c quote s ∨ ∃ piece rest, s = piece ++ c :: rest ∧ Hides c quote piece ∧
      quoteAfter quote piece = none := by
  induction s generalizing quote with
  | nil => exact .inl (hides_of_not_mem quote List.not_mem_nil)
  | cons d rest ih =>
      by_cases ends : d = c ∧ quote = none
      · obtain ⟨rfl, rfl⟩ := ends
        exact .inr ⟨[], rest, rfl, hides_of_not_mem none List.not_mem_nil, rfl⟩
      · have first : d = c → quote ≠ none := fun same outside => ends ⟨same, outside⟩
        rcases ih (afterChar quote d) with hidden | ⟨piece, later, rfl, hidden, closed⟩
        · exact .inl (hides_cons.mpr ⟨first, hidden⟩)
        · exact .inr ⟨d :: piece, later, rfl, hides_cons.mpr ⟨first, hidden⟩, closed⟩

theorem Parted.splitOutsideQuotes_eq (parted : Parted c s pieces) :
    splitOutsideQuotes c none s = pieces := by
  induction parted with
  | last hidden => exact splitOutsideQuotes_eq_singleton hidden
  | cons hidden closed _ ih => rw [splitOutsideQuotes_append_cons hidden closed, ih]

/-- Every text falls into pieces. What is left behind a separator is shorter. -/
theorem parted_splitOutsideQuotes (c : Char) (s : List Char) :
    Parted c s (splitOutsideQuotes c none s) := by
  induction size : s.length using Nat.strongRecOn generalizing s with
  | ind n ih =>
      rcases hides_or_exists_append_cons c none s with
        hidden | ⟨piece, rest, rfl, hidden, closed⟩
      · rw [splitOutsideQuotes_eq_singleton hidden]
        exact .last hidden
      · have shorter : rest.length < n := by
          rw [← size, List.length_append, List.length_cons]
          omega
        rw [splitOutsideQuotes_append_cons hidden closed]
        exact .cons hidden closed (ih rest.length shorter rest rfl)

/-- No piece shows the separator. -/
theorem Parted.hides (parted : Parted c s pieces) : ∀ piece ∈ pieces, Hides c none piece := by
  induction parted with
  | last hidden => exact List.forall_mem_singleton.mpr hidden
  | cons hidden _ _ ih => exact List.forall_mem_cons.mpr ⟨hidden, ih⟩

/-- The splitter finds the pieces of a text. -/
theorem parted_iff : Parted c s pieces ↔ splitOutsideQuotes c none s = pieces := by
  refine ⟨Parted.splitOutsideQuotes_eq, ?_⟩
  rintro rfl
  exact parted_splitOutsideQuotes c s

end Kata.Text
