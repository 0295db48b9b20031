/-
# Blank characters and trimming

Everything the exercise language reads is cut at blanks and trimmed of them. A
blank is a character with the Unicode property White_Space, so a no-break space
or an ideographic space around a keyword counts as indentation too. Trimming
never looks inside a text: it removes a blank run at either end and nothing else.
-/

namespace Kata.Text

/-- The code points with the Unicode property White_Space, as inclusive ranges. -/
def blankRanges : List (Nat × Nat) :=
  [(0x9, 0xD), (0x20, 0x20), (0x85, 0x85), (0xA0, 0xA0), (0x1680, 0x1680), (0x2000, 0x200A),
    (0x2028, 0x2029), (0x202F, 0x202F), (0x205F, 0x205F), (0x3000, 0x3000)]

/-- The ranges are in order and hold twenty-five code points. -/
example : blankRanges.Pairwise (fun a b => a.2 < b.1) ∧
    (blankRanges.map fun range => range.2 + 1 - range.1).sum = 25 := by decide

/-- A character is blank when one of the ranges holds its code point. -/
def isBlank (c : Char) : Bool :=
  blankRanges.any fun range => range.1 ≤ c.toNat && c.toNat ≤ range.2

/-- A text is blank when it holds nothing but blank characters; the empty text is blank. -/
def allBlank (s : List Char) : Bool := s.all isBlank

/-- Remove the blanks that open a text. -/
def trimStart (s : List Char) : List Char := s.dropWhile isBlank

/-- Remove the blanks that close a text. -/
def trimEnd (s : List Char) : List Char := (s.reverse.dropWhile isBlank).reverse

/-- Remove the blanks at both ends. -/
def trim (s : List Char) : List Char := trimEnd (trimStart s)

/-- Whether a text opens with a blank; the empty text does not. -/
def startsBlank (s : List Char) : Bool := s.head?.any isBlank

/-- Whether a text closes with a blank; the empty text does not. -/
def endsBlank (s : List Char) : Bool := s.getLast?.any isBlank

/-- Every character that survives at the front of a trimmed text is no blank. -/
theorem startsBlank_trimStart (s : List Char) : startsBlank (trimStart s) = false := by
  induction s with
  | nil => rfl
  | cons c rest ih =>
    by_cases h : isBlank c
    · simpa [trimStart, h] using ih
    · simp [trimStart, startsBlank, h]

/-- Trimming the end of a text is trimming the start of its reversal. -/
theorem reverse_trimEnd (s : List Char) : (trimEnd s).reverse = trimStart s.reverse := by
  simp [trimEnd, trimStart]

/-- Trimming the front leaves a text of at most the same length. -/
theorem length_trimStart_le (s : List Char) : (trimStart s).length ≤ s.length := by
  induction s with
  | nil => simp [trimStart]
  | cons c rest ih =>
    by_cases h : isBlank c
    · simp only [trimStart, List.dropWhile_cons, h, if_true, List.length_cons] at ih ⊢
      omega
    · simp [trimStart, h]

/-- Trimming leaves a text of at most the same length. -/
theorem length_trim_le (s : List Char) : (trim s).length ≤ s.length := by
  have back := length_trimStart_le (trimStart s).reverse
  have front := length_trimStart_le s
  rw [← reverse_trimEnd, List.length_reverse, List.length_reverse] at back
  exact Nat.le_trans back front

/-- A blank text trims to nothing. -/
theorem trim_eq_nil_of_allBlank {s : List Char} (h : allBlank s = true) : trim s = [] := by
  have start : trimStart s = [] := by
    induction s with
    | nil => rfl
    | cons c rest ih =>
      simp only [allBlank, List.all_cons, Bool.and_eq_true] at h
      simpa [trimStart, h.1] using ih h.2
  simp [trim, start, trimEnd]

end Kata.Text
