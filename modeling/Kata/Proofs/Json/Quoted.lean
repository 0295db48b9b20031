/-
# Quoted text is read back

Every character is escaped to something that is read as that character alone, whatever
follows it. So a text between quotes is read back up to its closing quote. Escapes with a
number are written for control characters only, and no half of a surrogate pair comes up.
-/

import Kata.Json.Parser

namespace Kata.Json

/-! ## Characters -/

/-- A character is escaped by a letter that names it, by its number if it is a control
character, or not at all. -/
theorem escape_cases (c : Char) :
    (∃ letter, escape c = ['\x5c', letter] ∧ letter ≠ 'u' ∧ unescape? letter = some c) ∨
    (c.toNat < 0x20 ∧ escape c = hexEscape c) ∨
    (0x20 ≤ c.toNat ∧ c ≠ '\x22' ∧ c ≠ '\x5c' ∧ escape c = [c]) := by
  by_cases short : c ∈ ['\x22', '\x5c', '\x08', '\x0c', '\n', '\r', '\t']
  · left
    simp only [List.mem_cons, List.not_mem_nil, or_false] at short
    rcases short with rfl | rfl | rfl | rfl | rfl | rfl | rfl <;>
      exact ⟨_, rfl, by decide, by decide⟩
  · right
    simp only [List.mem_cons, List.not_mem_nil, or_false, not_or] at short
    obtain ⟨quote, slash, back, feed, line, ret, tab⟩ := short
    by_cases control : c.toNat < 0x20
    · exact .inl ⟨control, by simp [escape, quote, slash, back, feed, line, ret, tab, control]⟩
    · exact .inr ⟨Nat.le_of_not_lt control, quote, slash,
        by simp [escape, quote, slash, back, feed, line, ret, tab, control]⟩

theorem hexUnit?_of_lt {n : Nat} (small : n < 0x20) :
    hexUnit? '0' '0' (Nat.digitChar (n / 16)) (Nat.digitChar (n % 16)) = some n := by
  revert n
  decide

/-- The number of a control character is no half of a surrogate pair. -/
theorem ofUnit_of_lt {c : Char} (small : c.toNat < 0x20) : Piece.ofUnit c.toNat = .char c := by
  have noHigh : isHighHalf c.toNat = false := by
    simp only [isHighHalf, Bool.and_eq_false_iff, decide_eq_false_iff_not]
    omega
  have noLow : isLowHalf c.toNat = false := by
    simp only [isLowHalf, Bool.and_eq_false_iff, decide_eq_false_iff_not]
    omega
  simp [Piece.ofUnit, noHigh, noLow, Char.ofNat_toNat]

theorem pieces_letter {letter c : Char} (named : unescape? letter = some c)
    (noNumber : letter ≠ 'u') (rest : List Char) :
    pieces ('\x5c' :: letter :: rest) =
      (pieces rest).map fun read => (.char c :: read.1, read.2) := by
  simp only [pieces, named, noNumber, Option.bind_eq_bind, Option.bind_some, false_implies,
    implies_true, Option.map_eq_bind]
  rfl

/-- An escaped character is read as one item, whatever follows. -/
theorem pieces_escape (c : Char) (rest : List Char) :
    pieces (escape c ++ rest) = (pieces rest).map fun read => (.char c :: read.1, read.2) := by
  rcases escape_cases c with ⟨letter, escaped, noNumber, named⟩ | ⟨control, escaped⟩ |
    ⟨printable, quote, slash, escaped⟩
  · rw [escaped]
    exact pieces_letter named noNumber rest
  · have opened : hexEscape c ++ rest = '\x5c' :: 'u' :: '0' :: '0' ::
        Nat.digitChar (c.toNat / 16) :: Nat.digitChar (c.toNat % 16) :: rest := rfl
    rw [escaped, opened, pieces, hexUnit?_of_lt control]
    cases pieces rest with
    | none => rfl
    | some read => simp [ofUnit_of_lt control]
  · have open_ended : ¬(c = '\x5c' ∨ c.toNat < 0x20) := by
      rintro (same | control)
      · exact slash same
      · omega
    rw [escaped, List.singleton_append, pieces]
    · simp only [open_ended, if_false, Option.map_eq_bind]
      rfl
    · exact fun same => quote same
    · exact fun _ _ _ _ _ same => absurd same slash
    · exact fun _ _ same => absurd same slash

/-! ## Texts -/

theorem pieces_flatMap_escape (s rest : List Char) :
    pieces (s.flatMap escape ++ '\x22' :: rest) = some (s.map .char, rest) := by
  induction s with
  | nil => rfl
  | cons c s ih =>
      rw [List.flatMap_cons, List.append_assoc, pieces_escape, ih]
      rfl

theorem assemble_map_char (s : List Char) : assemble (s.map .char) = some s := by
  induction s with
  | nil => rfl
  | cons c s ih =>
      rw [List.map_cons, assemble, ih]
      rfl

/-- A text is read back from behind its opening quote. -/
theorem string?_flatMap_escape (s : String) (rest : List Char) :
    Parser.string? (s.toList.flatMap escape ++ '\x22' :: rest) = some (some s, rest) := by
  rw [Parser.string?, pieces_flatMap_escape]
  simp [assemble_map_char]

end Kata.Json
