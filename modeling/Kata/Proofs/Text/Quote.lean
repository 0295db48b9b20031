/-
# Open quotes and what they hide

A reader that minds quotes carries one piece of state along a text. This file follows
that state through concatenations and says when a character of a text is hidden from
such a reader. A text that hides every separator is a single piece, and it stays in one
piece when it is embedded in a longer text.
-/

import Kata.Text.Quote
import Kata.Proofs.Text.Trim

namespace Kata.Text

variable {c : Char} {quote : Option Char} {s t : List Char}

@[simp]
theorem quoteAfter_nil (quote : Option Char) : quoteAfter quote [] = quote := rfl

@[simp]
theorem quoteAfter_cons (quote : Option Char) (c : Char) (s : List Char) :
    quoteAfter quote (c :: s) = quoteAfter (afterChar quote c) s := rfl

@[simp]
theorem quoteAfter_append (quote : Option Char) (s t : List Char) :
    quoteAfter quote (s ++ t) = quoteAfter (quoteAfter quote s) t :=
  List.foldl_append

theorem quoteAfter_none_of_quoteless (quoteless : ∀ c ∈ s, isQuote c = false) :
    quoteAfter none s = none := by
  induction s with
  | nil => rfl
  | cons c rest ih =>
      have plain := quoteless c List.mem_cons_self
      rw [quoteAfter_cons, afterChar, if_neg (by simp [plain])]
      exact ih fun d inside => quoteless d (List.mem_cons_of_mem c inside)

/-- Only the quote that opened a stretch closes it. -/
theorem quoteAfter_some_of_not_mem {q : Char} (open_ : q ∉ s) :
    quoteAfter (some q) s = some q := by
  induction s with
  | nil => rfl
  | cons c rest ih =>
      simp only [List.mem_cons, not_or] at open_
      have other : (c == q) = false := by simpa using fun same => open_.1 same.symm
      rw [quoteAfter_cons, afterChar, if_neg (by simp [other])]
      exact ih open_.2

theorem quoteAfter_quoted {q : Char} {body : List Char} (opens : isQuote q = true)
    (plain : q ∉ body) : quoteAfter none (q :: (body ++ [q])) = none := by
  rw [quoteAfter_cons, afterChar, if_pos opens, quoteAfter_append,
    quoteAfter_some_of_not_mem plain, quoteAfter_cons, afterChar, if_pos (by simp),
    quoteAfter_nil]

theorem isQuote_eq_false_of_isBlank (blank : isBlank c = true) : isQuote c = false := by
  by_contra quoted
  simp only [isQuote, Bool.not_eq_false, Bool.or_eq_true, beq_iff_eq] at quoted
  rcases quoted with rfl | rfl <;> exact absurd blank (by decide)

theorem quoteAfter_of_allBlank (blank : allBlank s = true) : quoteAfter none s = none :=
  quoteAfter_none_of_quoteless fun _ inside =>
    isQuote_eq_false_of_isBlank (allBlank_iff.mp blank _ inside)

/-- Trimming takes no quotes away. -/
theorem quoteAfter_eq_none_of_trim (closed : quoteAfter none (trim s) = none) :
    quoteAfter none s = none := by
  obtain ⟨front, back, frontBlank, backBlank, whole⟩ := exists_padding s
  rw [whole, quoteAfter_append, quoteAfter_of_allBlank frontBlank, quoteAfter_append, closed,
    quoteAfter_of_allBlank backBlank]

/-- Wherever a text has this character, a quote is open in front of it. -/
def Hides (c : Char) (quote : Option Char) (s : List Char) : Prop :=
  ∀ before after, s = before ++ c :: after → quoteAfter quote before ≠ none

theorem hides_of_not_mem (quote : Option Char) (absent : c ∉ s) : Hides c quote s := by
  rintro before after rfl
  exact absurd (by simp) absent

/-- Hiding is settled character by character, the state moving along. -/
theorem hides_cons {d : Char} :
    Hides c quote (d :: s) ↔ (d = c → quote ≠ none) ∧ Hides c (afterChar quote d) s := by
  constructor
  · intro hidden
    constructor
    · rintro rfl
      exact hidden [] s rfl
    · rintro before after rfl
      exact hidden (d :: before) after rfl
  · rintro ⟨first, rest⟩ before after shape
    cases before with
    | nil =>
        obtain ⟨rfl, -⟩ := List.cons_eq_cons.mp shape
        exact first rfl
    | cons e before =>
        obtain ⟨rfl, rfl⟩ := List.cons_eq_cons.mp shape
        exact rest before after rfl

/-- Two texts hide a character together when each does from where it starts. -/
theorem hides_append (front : Hides c quote s) (back : Hides c (quoteAfter quote s) t) :
    Hides c quote (s ++ t) := by
  induction s generalizing quote with
  | nil => exact back
  | cons d rest ih =>
      obtain ⟨first, later⟩ := hides_cons.mp front
      exact hides_cons.mpr ⟨first, ih later back⟩

/-- Behind an open quote everything is hidden up to the quote that closes it. -/
theorem hides_of_open {q : Char} (plain : q ∉ s) : Hides c (some q) s := by
  rintro before after rfl
  have closed : q ∉ before := fun inside => plain (List.mem_append_left _ inside)
  simp [quoteAfter_some_of_not_mem closed]

/-- A quoted stretch hides every character that is not its quote. -/
theorem hides_quoted {q : Char} {body : List Char} (opens : isQuote q = true)
    (plain : q ∉ body) (other : q ≠ c) : Hides c none (q :: (body ++ [q])) := by
  refine hides_cons.mpr ⟨fun same => absurd same other, ?_⟩
  rw [afterChar, if_pos opens]
  refine hides_append (hides_of_open plain) ?_
  exact hides_of_not_mem _ (by simpa using other.symm)

/-- A text that hides the separator stays whole in front of whatever follows. -/
theorem splitOutsideQuotes_append (hidden : Hides c quote s) (t : List Char) :
    splitOutsideQuotes c quote (s ++ t) =
      (splitOutsideQuotes c (quoteAfter quote s) t).modifyHead (s ++ ·) := by
  induction s generalizing quote with
  | nil =>
      cases pieces : splitOutsideQuotes c quote t <;> simp [pieces]
  | cons d rest ih =>
      obtain ⟨first, later⟩ := hides_cons.mp hidden
      have inside : (quote.isNone && d == c) = false := by
        by_cases same : d = c
        · simp [first same]
        · simp [same]
      rw [List.cons_append, splitOutsideQuotes, if_neg (by simp [inside]), ih later,
        List.modifyHead_modifyHead]
      rfl

theorem splitOutsideQuotes_eq_singleton (hidden : Hides c quote s) :
    splitOutsideQuotes c quote s = [s] := by
  have whole := splitOutsideQuotes_append hidden []
  simpa [splitOutsideQuotes] using whole

/-- Behind a closed text that hides the separator, a separator ends the first piece. -/
theorem splitOutsideQuotes_append_cons (hidden : Hides c none s)
    (closed : quoteAfter none s = none) (t : List Char) :
    splitOutsideQuotes c none (s ++ c :: t) = s :: splitOutsideQuotes c none t := by
  rw [splitOutsideQuotes_append hidden, closed, splitOutsideQuotes]
  simp

/-- If no piece leaves a quote open, the whole text leaves none open: what is open in
front of the text is closed in its first piece. -/
theorem quoteAfter_eq_none_of_pieces (plain : isQuote c = false) {piece : List Char}
    {more : List (List Char)} (cut : splitOutsideQuotes c quote s = piece :: more)
    (first : quoteAfter quote piece = none) (rest : ∀ p ∈ more, quoteAfter none p = none) :
    quoteAfter quote s = none := by
  induction s generalizing quote piece more with
  | nil =>
      obtain ⟨rfl, rfl⟩ : [] = piece ∧ [] = more := by simpa [splitOutsideQuotes] using cut
      exact first
  | cons d later ih =>
      rw [splitOutsideQuotes] at cut
      split at cut
      · rename_i outside
        obtain ⟨rfl, rfl⟩ : quote = none ∧ d = c := by simpa using outside
        obtain ⟨rfl, rfl⟩ := List.cons_eq_cons.mp cut
        rw [quoteAfter_cons, afterChar, if_neg (by simp [plain])]
        obtain ⟨next, others, again⟩ := List.exists_cons_of_ne_nil
          (splitOutsideQuotes_ne_nil d none later)
        rw [again] at rest
        exact ih again (rest next List.mem_cons_self)
          fun p inside => rest p (List.mem_cons_of_mem _ inside)
      · obtain ⟨next, others, again⟩ := List.exists_cons_of_ne_nil
          (splitOutsideQuotes_ne_nil c (afterChar quote d) later)
        rw [again, List.modifyHead_cons] at cut
        obtain ⟨rfl, rfl⟩ := List.cons_eq_cons.mp cut
        exact ih again first rest

end Kata.Text
