/-
# Which occurrences of a word are cuts

The cuts of a text are some of the occurrences of a word in it, from left to right and
apart from one another. An occurrence can be passed over only if it overlaps one that
starts earlier, so an occurrence that nothing overlaps is a cut, and in front of every
occurrence, or at it, there is one. A character that the word does not have parts the
occurrences in front of it from those behind it.
-/

import Kata.Text.Occurrence
import Mathlib.Data.List.Basic

namespace Kata.Text

variable {c : Char} {word s t before after front back : List Char} {skip : Nat}

theorem isPrefixOf?_append (word rest : List Char) :
    word.isPrefixOf? (word ++ rest) = some rest :=
  List.isPrefixOf?_eq_some_iff_append_eq.mpr rfl

/-! ## The order of the cuts -/

private theorem pairwise_map_cons {found : List (List Char × List Char)} (c : Char)
    (sorted : found.Pairwise fun cut other => cut.1.length < other.1.length) :
    (found.map fun cut => (c :: cut.1, cut.2)).Pairwise
      fun cut other => cut.1.length < other.1.length :=
  List.pairwise_map.mpr (sorted.imp fun earlier => by simpa using earlier)

/-- The cuts are found from left to right. -/
theorem pairwise_cutsFrom (word : List Char) (skip : Nat) (s : List Char) :
    (cutsFrom word skip s).Pairwise fun cut other => cut.1.length < other.1.length := by
  induction s generalizing skip with
  | nil => simp [cutsFrom]
  | cons c rest ih =>
      cases skip with
      | succ skip => exact pairwise_map_cons c (ih skip)
      | zero =>
          rw [cutsFrom]
          split
          · refine List.pairwise_cons.mpr ⟨fun cut later => ?_, pairwise_map_cons c (ih _)⟩
            obtain ⟨other, -, rfl⟩ := List.mem_map.mp later
            simp
          · exact pairwise_map_cons c (ih 0)

/-- A search stops no later than at any cut that fits. -/
theorem exists_find?_cuts {cut : List Char × List Char} {fits : List Char × List Char → Bool}
    (inside : cut ∈ cuts word s) (fit : fits cut = true) :
    ∃ found ∈ cuts word s, (cuts word s).find? fits = some found ∧ fits found = true ∧
      found.1.length ≤ cut.1.length := by
  obtain ⟨found, first⟩ : ∃ found, (cuts word s).find? fits = some found :=
    Option.isSome_iff_exists.mp (List.find?_isSome.mpr ⟨cut, inside, fit⟩)
  refine ⟨found, List.mem_of_find?_eq_some first, first, List.find?_some first, ?_⟩
  obtain ⟨-, earlier, later, shape, unfit⟩ := List.find?_eq_some_iff_append.mp first
  have sorted : (cuts word s).Pairwise _ := pairwise_cutsFrom word 0 s
  rw [shape] at sorted inside
  rcases List.mem_append.mp inside with passed | inside
  · exact absurd fit (by simpa using unfit cut passed)
  · rcases List.mem_cons.mp inside with rfl | behind
    · exact Nat.le_refl _
    · have ordered := (List.pairwise_append.mp sorted).2.1
      exact Nat.le_of_lt ((List.pairwise_cons.mp ordered).1 cut behind)

theorem eq_of_mem_cuts {cut other : List Char × List Char} (inside : cut ∈ cuts word s)
    (also : other ∈ cuts word s) (place : cut.1.length = other.1.length) : cut = other := by
  have same : cut.1 ++ (word ++ cut.2) = other.1 ++ (word ++ other.2) := by
    rw [← List.append_assoc, append_of_mem_cuts inside, ← List.append_assoc,
      append_of_mem_cuts also]
  obtain ⟨front, behind⟩ := List.append_inj same place
  exact Prod.ext front (List.append_cancel_left behind)

/-- No cut is behind one that ends the text. -/
theorem getLast?_filter_cuts {fits : List Char × List Char → Bool}
    (ends : (before, []) ∈ cuts word s) (fit : fits (before, []) = true) :
    ((cuts word s).filter fits).getLast? = some (before, []) := by
  have sorted : ((cuts word s).filter fits).Pairwise _ := (pairwise_cutsFrom word 0 s).filter fits
  have inside : (before, []) ∈ (cuts word s).filter fits := List.mem_filter.mpr ⟨ends, fit⟩
  obtain ⟨earlier, last, shape⟩ :=
    (List.eq_nil_or_concat' _).resolve_left (List.ne_nil_of_mem inside)
  have lastInside : last ∈ (cuts word s).filter fits := by simp [shape]
  rw [shape] at sorted inside ⊢
  rw [List.getLast?_concat]
  rcases List.mem_append.mp inside with passed | here
  · have ordered : before.length < last.1.length :=
      (List.pairwise_append.mp sorted).2.2 _ passed last List.mem_cons_self
    have whole : last.1 ++ word ++ last.2 = s :=
      append_of_mem_cuts (List.mem_filter.mp lastInside).1
    have sizes := congrArg List.length (whole.trans (append_of_mem_cuts ends).symm)
    simp only [List.length_append, List.length_nil] at sizes
    omega
  · rw [List.mem_singleton.mp here]

/-! ## Occurrences that are cuts -/

/-- At every occurrence of a word, or in front of it, there is a cut. -/
theorem exists_cut_le (filled : word ≠ []) (shape : before ++ word ++ after = s) :
    ∃ cut ∈ cuts word s, cut.1.length ≤ before.length := by
  induction s generalizing before with
  | nil =>
      simp only [List.append_eq_nil_iff] at shape
      exact absurd shape.1.2 filled
  | cons c rest ih =>
      rw [cuts, cutsFrom]
      split
      · exact ⟨_, List.mem_cons_self, Nat.zero_le _⟩
      · rename_i elsewhere
        cases before with
        | nil =>
            rw [List.nil_append] at shape
            simp [← shape, isPrefixOf?_append] at elsewhere
        | cons d before =>
            obtain ⟨-, rfl⟩ := List.cons_eq_cons.mp shape
            obtain ⟨cut, inside, earlier⟩ := ih rfl
            exact ⟨_, List.mem_map_of_mem inside, by simpa using earlier⟩

/-- An occurrence that no other overlaps from the left is a cut, as long as the search
has not skipped it already. -/
theorem mem_cutsFrom_of_apart (filled : word ≠ []) (shape : before ++ word ++ after = s)
    (ahead : skip ≤ before.length)
    (apart : ∀ front back, front ++ word ++ back = s → front.length < before.length →
      front.length + word.length ≤ before.length) :
    (before, after) ∈ cutsFrom word skip s := by
  induction s generalizing before skip with
  | nil =>
      simp only [List.append_eq_nil_iff] at shape
      exact absurd shape.1.2 filled
  | cons c rest ih =>
      -- Behind the first character the same occurrences are left, each one place nearer.
      have step (before : List Char) (skip : Nat)
          (shape : before ++ word ++ after = rest) (ahead : skip ≤ before.length)
          (apart : ∀ front back, front ++ word ++ back = c :: rest →
            front.length < before.length + 1 →
              front.length + word.length ≤ before.length + 1) :
          (c :: before, after) ∈
            (cutsFrom word skip rest).map fun cut => (c :: cut.1, cut.2) := by
        refine List.mem_map_of_mem (ih shape ahead fun front back found shorter => ?_)
        have shifted := apart (c :: front) back (by simp [← found])
          (by simpa using shorter)
        simp only [List.length_cons] at shifted
        omega
      cases before with
      | nil =>
          obtain rfl : skip = 0 := by simpa using ahead
          rw [List.nil_append] at shape
          rw [cutsFrom, ← shape, isPrefixOf?_append]
          exact List.mem_cons_self
      | cons d before =>
          obtain ⟨rfl, rest_eq⟩ := List.cons_eq_cons.mp shape
          cases skip with
          | succ skip => exact step before skip rest_eq (by simpa using ahead) apart
          | zero =>
              rw [cutsFrom]
              split
              · rename_i rest' found
                have room := apart [] rest' (append_of_isPrefixOf? found) (by simp)
                refine List.mem_cons_of_mem _ (step before _ rest_eq ?_ apart)
                simp only [List.length_nil, List.length_cons] at room
                omega
              · exact step before 0 rest_eq (Nat.zero_le _) apart

/-- A character that a word does not have parts its occurrences. -/
theorem append_eq_append_cons (absent : c ∉ word) (shape : before ++ word ++ after = s ++ c :: t) :
    (∃ middle, s = before ++ word ++ middle ∧ after = middle ++ c :: t) ∨
      ∃ middle, before = s ++ c :: middle ∧ t = middle ++ word ++ after := by
  rcases List.append_eq_append_iff.mp shape with ⟨middle, rfl, rfl⟩ | ⟨middle, wordEnd, later⟩
  · exact .inl ⟨middle, rfl, rfl⟩
  · cases middle with
    | nil =>
        refine .inl ⟨[], by simpa using wordEnd.symm, by simpa using later.symm⟩
    | cons d middle =>
        obtain ⟨rfl, rfl⟩ := List.cons_eq_cons.mp later
        rcases List.append_eq_append_iff.mp wordEnd with ⟨bite, rfl, bitten⟩ | ⟨bite, rfl, bitten⟩
        · exact absurd (by simp [bitten]) absent
        · cases bite with
          | nil =>
              rw [List.nil_append] at bitten
              exact absurd (by simp [← bitten]) absent
          | cons e bite =>
              obtain ⟨rfl, rfl⟩ := List.cons_eq_cons.mp bitten
              exact .inr ⟨bite, rfl, rfl⟩

/-- An occurrence right behind a character that the word does not have is a cut. -/
theorem mem_cuts_behind (filled : word ≠ []) (absent : c ∉ word)
    (shape : before ++ c :: (word ++ after) = s) : (before ++ [c], after) ∈ cuts word s := by
  refine mem_cutsFrom_of_apart filled (by simpa using shape) (Nat.zero_le _) ?_
  intro front back found earlier
  rcases append_eq_append_cons absent (found.trans shape.symm) with
    ⟨middle, rfl, -⟩ | ⟨middle, rfl, -⟩
  · simp
  · simp at earlier

/-- A word whose first character does not come back in it cannot overlap itself, so every
occurrence of it is a cut. -/
theorem mem_cuts_of_not_mem_tail (single : c ∉ word)
    (shape : before ++ c :: word ++ after = s) : (before, after) ∈ cuts (c :: word) s := by
  refine mem_cutsFrom_of_apart (by simp) shape (Nat.zero_le _) ?_
  intro front back found earlier
  have same : (front ++ [c]) ++ word ++ back = before ++ c :: (word ++ after) := by
    simpa using found.trans shape.symm
  rcases append_eq_append_cons single same with ⟨middle, rfl, -⟩ | ⟨middle, again, -⟩
  · simp
  · have longer := congrArg List.length again
    simp only [List.length_append, List.length_cons, List.length_nil] at longer
    omega

end Kata.Text
