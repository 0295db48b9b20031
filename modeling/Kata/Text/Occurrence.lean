/-
# Occurrences of a word

A line such as `ASSERT f(1) == 2` is cut at an occurrence of a marker word. The
occurrences are found from left to right and do not overlap: the search goes on
behind the word it has found. Each occurrence is given by what stands before it
and what stands after it, so no position has to be trusted.
-/

namespace Kata.Text

/-- What follows a word at the front of a text. -/
theorem append_of_isPrefixOf? {word s after : List Char}
    (h : word.isPrefixOf? s = some after) : word ++ after = s := by
  induction word generalizing s with
  | nil => exact (Option.some.inj h).symm
  | cons c word ih =>
    cases s with
    | nil => exact nomatch h
    | cons d rest =>
      change (if c == d then word.isPrefixOf? rest else none) = some after at h
      by_cases same : c = d
      · simp only [same, beq_self_eq_true, if_true] at h
        simp [same, ih h]
      · simp [same] at h

/-- The cuts of a text at a word, left to right. The first argument counts the
characters that still belong to the occurrence found last and cannot start another. -/
def cutsFrom (word : List Char) : Nat → List Char → List (List Char × List Char)
  | _, [] => []
  | skip + 1, c :: rest =>
    (cutsFrom word skip rest).map fun cut => (c :: cut.1, cut.2)
  | 0, c :: rest =>
    match word.isPrefixOf? (c :: rest) with
    | some after =>
      ([], after) :: (cutsFrom word (word.length - 1) rest).map fun cut => (c :: cut.1, cut.2)
    | none => (cutsFrom word 0 rest).map fun cut => (c :: cut.1, cut.2)

/-- Every way to cut a text at one of the separate occurrences of a word: the text
before it and the text after it, in order from left to right. -/
def cuts (word s : List Char) : List (List Char × List Char) := cutsFrom word 0 s

/-- Before, word and after make up the text again. -/
theorem append_of_mem_cutsFrom {word s before after : List Char} {skip : Nat}
    (h : (before, after) ∈ cutsFrom word skip s) : before ++ word ++ after = s := by
  induction s generalizing skip before with
  | nil => simp [cutsFrom] at h
  | cons c rest ih =>
    cases skip with
    | succ skip =>
      simp only [cutsFrom, List.mem_map, Prod.exists, Prod.mk.injEq] at h
      obtain ⟨front, back, found, rfl, rfl⟩ := h
      simpa using ih found
    | zero =>
      rw [cutsFrom] at h
      split at h
      · rename_i back starts
        simp only [List.mem_cons, List.mem_map, Prod.exists, Prod.mk.injEq] at h
        rcases h with ⟨rfl, rfl⟩ | ⟨front, back, found, rfl, rfl⟩
        · simpa using append_of_isPrefixOf? starts
        · simpa using ih found
      · simp only [List.mem_map, Prod.exists, Prod.mk.injEq] at h
        obtain ⟨front, back, found, rfl, rfl⟩ := h
        simpa using ih found

/-- Before, word and after make up the text again. -/
theorem append_of_mem_cuts {word s before after : List Char}
    (h : (before, after) ∈ cuts word s) : before ++ word ++ after = s :=
  append_of_mem_cutsFrom h

end Kata.Text
