/-
# Literals

A literal is a number, a quoted text or one of the words `true`, `false` and `null`.
Arguments and expected values of assertions are literals and nothing else; in
expressions they are the leaves next to variables.
-/

import Kata.Text.Blank
import Kata.Text.Quote
import Kata.Number.Numeral
import Kata.ReadError
import Kata.Value

namespace Kata.Literal

/-- The numeral of a number literal behind its sign: digits, with or without a fraction.
Either side of the point needs a digit. -/
def unsigned? (negative : Bool) (s : List Char) : Option Numeral :=
  let whole := s.takeWhile Char.isDigit
  if whole.isEmpty then none
  else
    match s.dropWhile Char.isDigit with
    | [] => some ⟨negative, whole, [], none⟩
    | '.' :: fraction =>
      if fraction.isEmpty || !fraction.all Char.isDigit then none
      else some ⟨negative, whole, fraction, none⟩
    | _ => none

/-- The numeral of a number literal. It may have a minus sign but neither a plus sign nor
an exponent. -/
def numeral? : List Char → Option Numeral
  | '-' :: rest => unsigned? true rest
  | s => unsigned? false s

/-- The body of a text between two quotes of one kind. The body may not hold that
quote, and there are no escapes. -/
def unquote? : List Char → Option (List Char)
  | quote :: rest =>
    if Text.isQuote quote && rest.dropWhile (· != quote) == [quote] then
      some (rest.takeWhile (· != quote))
    else none
  | [] => none

/-- The words that are literals. -/
def word? (s : List Char) : Option Value :=
  if s = "true".toList then some (.bool true)
  else if s = "false".toList then some (.bool false)
  else if s = "null".toList then some .null
  else none

/-- The value of a literal. Blanks around it are not allowed for. -/
def value? (s : List Char) : Option Value :=
  match numeral? s with
  | some numeral => some (.number numeral.toFloat)
  | none =>
    match unquote? s with
    | some body => some (.text (String.ofList body))
    | none => word? s

/-- The value of a literal between blanks. The error names the trimmed text. -/
def read (s : List Char) : Except ReadError Value :=
  match value? (Text.trim s) with
  | some value => .ok value
  | none => .error (.notALiteral (String.ofList (Text.trim s)))

end Kata.Literal
