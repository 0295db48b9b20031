/-
# Reading with quotes in mind

Commas and operators count only outside quoted text. Single and double quotes
both open a quoted stretch, the next quote of the same kind closes it, and there
are no escapes. A reader therefore needs one piece of state, the quote it is
inside of, and a stretch that is never closed reaches to the end of the text.
-/

namespace Kata.Text

/-- The double quote. -/
def doubleQuote : Char := '\x22'

/-- The single quote. -/
def singleQuote : Char := '\x27'

/-- The two characters that open a quoted stretch. -/
def isQuote (c : Char) : Bool := c == doubleQuote || c == singleQuote

/-- The quote a reader is inside of after one more character, `none` being outside. -/
def afterChar : Option Char → Char → Option Char
  | some quote, c => if c == quote then none else some quote
  | none, c => if isQuote c then some c else none

/-- The quote a reader is inside of after a whole text. -/
def quoteAfter (quote : Option Char) (s : List Char) : Option Char := s.foldl afterChar quote

/-- Cut a text at every separator that stands outside quotes. The pieces keep their
quotes and blanks; joined by the separator they give the text back. -/
def splitOutsideQuotes (separator : Char) : Option Char → List Char → List (List Char)
  | _, [] => [[]]
  | quote, c :: rest =>
    if quote.isNone && c == separator then
      [] :: splitOutsideQuotes separator none rest
    else
      (splitOutsideQuotes separator (afterChar quote c) rest).modifyHead (c :: ·)

/-- Cutting always leaves at least one piece. -/
theorem splitOutsideQuotes_ne_nil (separator : Char) (quote : Option Char) (s : List Char) :
    splitOutsideQuotes separator quote s ≠ [] := by
  induction s generalizing quote with
  | nil => simp [splitOutsideQuotes]
  | cons c rest ih =>
    rw [splitOutsideQuotes]
    split
    · simp
    · simpa using ih (afterChar quote c)

/-- The pieces, joined by the separator, are the text that was cut. -/
theorem intercalate_splitOutsideQuotes (separator : Char) (quote : Option Char)
    (s : List Char) :
    [separator].intercalate (splitOutsideQuotes separator quote s) = s := by
  induction s generalizing quote with
  | nil => simp [splitOutsideQuotes]
  | cons c rest ih =>
    rw [splitOutsideQuotes]
    split
    · rename_i outside
      have same : c = separator := by simpa using (Bool.and_eq_true_iff.mp outside).2
      have again := ih none
      cases pieces : splitOutsideQuotes separator none rest with
      | nil => exact absurd pieces (splitOutsideQuotes_ne_nil _ _ _)
      | cons piece more =>
        rw [pieces] at again
        simp [List.intercalate, List.intersperse, same] at again ⊢
        exact again
    · have again := ih (afterChar quote c)
      cases pieces : splitOutsideQuotes separator (afterChar quote c) rest with
      | nil => exact absurd pieces (splitOutsideQuotes_ne_nil _ _ _)
      | cons piece more =>
        rw [pieces] at again
        cases more with
        | nil => simpa [List.intercalate] using again
        | cons next others => simpa [List.intercalate] using again

end Kata.Text
