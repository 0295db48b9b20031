/-
# What trimming does to padded texts

Trimming removes exactly the blanks at the two ends. Padding a text with blanks is
therefore invisible after trimming, a text without blanks at its ends is left alone, and
every text is its trimmed form between two blank runs. Readers that trim are compared
with grammars that allow padding through these three facts.
-/

import Kata.Text.Blank
import Mathlib.Data.List.DropRight
import Mathlib.Data.List.TakeWhile

namespace Kata.Text

variable {s w : List Char}

theorem allBlank_iff : allBlank w = true ↔ ∀ c ∈ w, isBlank c = true :=
  List.all_eq_true

@[simp]
theorem allBlank_nil : allBlank [] = true := rfl

@[simp]
theorem allBlank_append (s t : List Char) : allBlank (s ++ t) = (allBlank s && allBlank t) :=
  List.all_append

@[simp]
theorem allBlank_cons (c : Char) (s : List Char) :
    allBlank (c :: s) = (isBlank c && allBlank s) := rfl

@[simp]
theorem startsBlank_cons (c : Char) (s : List Char) : startsBlank (c :: s) = isBlank c := rfl

/-- How a text starts does not depend on what is put behind it. -/
theorem startsBlank_append {s : List Char} (filled : s ≠ []) (t : List Char) :
    startsBlank (s ++ t) = startsBlank s := by
  rw [startsBlank, startsBlank, List.head?_append_of_ne_nil s filled]

@[simp]
theorem endsBlank_append_singleton (s : List Char) (c : Char) :
    endsBlank (s ++ [c]) = isBlank c := by
  simp [endsBlank]

/-- How a text ends is decided by its last part that is not empty. -/
theorem endsBlank_append (s : List Char) {t : List Char} (filled : t ≠ []) :
    endsBlank (s ++ t) = endsBlank t := by
  rw [endsBlank, endsBlank, List.getLast?_append_of_ne_nil s filled]

/-- Blanks in front of a text are trimmed away with its own. -/
theorem trimStart_append_left (blank : allBlank w = true) (s : List Char) :
    trimStart (w ++ s) = trimStart s :=
  List.dropWhile_append_of_pos (allBlank_iff.mp blank)

theorem trimEnd_append_right (s : List Char) (blank : allBlank w = true) :
    trimEnd (s ++ w) = trimEnd s := by
  have reversed : ∀ c ∈ w.reverse, isBlank c = true := by
    simpa using allBlank_iff.mp blank
  rw [trimEnd, List.reverse_append, List.dropWhile_append_of_pos reversed, trimEnd]

theorem trim_append_left (blank : allBlank w = true) (s : List Char) :
    trim (w ++ s) = trim s := by
  rw [trim, trimStart_append_left blank, trim]

/-- A text that does not start with a blank has nothing to trim there. -/
theorem trimStart_eq_self (bare : startsBlank s = false) : trimStart s = s := by
  cases s with
  | nil => rfl
  | cons c rest =>
      rw [startsBlank_cons] at bare
      simp [trimStart, bare]

theorem trimEnd_eq_self (bare : endsBlank s = false) : trimEnd s = s := by
  have front : startsBlank s.reverse = false := by
    simpa [startsBlank, endsBlank] using bare
  have same := trimStart_eq_self front
  rw [← reverse_trimEnd] at same
  exact List.reverse_injective same

/-- A text with no blank at either end is its own trimmed form. -/
theorem trim_eq_self (front : startsBlank s = false) (back : endsBlank s = false) :
    trim s = s := by
  rw [trim, trimStart_eq_self front, trimEnd_eq_self back]

theorem trimStart_eq_nil_iff : trimStart s = [] ↔ allBlank s = true := by
  rw [trimStart, List.dropWhile_eq_nil_iff, allBlank_iff]

/-- A text is a blank run and what trimming its front leaves. -/
theorem exists_append_trimStart (s : List Char) :
    ∃ front, allBlank front = true ∧ s = front ++ trimStart s := by
  refine ⟨s.takeWhile isBlank, ?_, List.takeWhile_append_dropWhile.symm⟩
  exact allBlank_iff.mpr fun c inside => by simpa using List.mem_takeWhile_imp inside

theorem exists_trimEnd_append (s : List Char) :
    ∃ back, allBlank back = true ∧ s = trimEnd s ++ back := by
  obtain ⟨front, blank, whole⟩ := exists_append_trimStart s.reverse
  refine ⟨front.reverse, ?_, ?_⟩
  · simpa [allBlank] using blank
  · rw [← reverse_trimEnd] at whole
    simpa using congrArg List.reverse whole

/-- Every text is its trimmed form between two blank runs. -/
theorem exists_padding (s : List Char) :
    ∃ front back, allBlank front = true ∧ allBlank back = true ∧
      s = front ++ (trim s ++ back) := by
  obtain ⟨front, frontBlank, opened⟩ := exists_append_trimStart s
  obtain ⟨back, backBlank, closed⟩ := exists_trimEnd_append (trimStart s)
  refine ⟨front, back, frontBlank, backBlank, ?_⟩
  rw [trim, ← closed]
  exact opened

theorem trim_eq_nil_iff : trim s = [] ↔ allBlank s = true := by
  constructor
  · intro nothing
    obtain ⟨front, back, frontBlank, backBlank, whole⟩ := exists_padding s
    rw [whole, nothing, List.nil_append, allBlank_append, frontBlank, backBlank]
    rfl
  · exact trim_eq_nil_of_allBlank

theorem allBlank_eq_false_of_trim_ne_nil (filled : trim s ≠ []) : allBlank s = false := by
  simpa [trim_eq_nil_iff] using filled

/-- Padding behind does not survive trimming. -/
theorem trim_append_right (s : List Char) (blank : allBlank w = true) :
    trim (s ++ w) = trim s := by
  by_cases empty : allBlank s = true
  · rw [trim_eq_nil_of_allBlank empty, trim_eq_nil_of_allBlank]
    simp [empty, blank]
  · have filled : trimStart s ≠ [] := fun nothing => empty (trimStart_eq_nil_iff.mp nothing)
    have kept : trimStart (s ++ w) = trimStart s ++ w := by
      rw [trimStart] at filled
      simp only [trimStart, List.dropWhile_append, List.isEmpty_iff, filled, if_false]
    rw [trim, kept, trimEnd_append_right _ blank, trim]

/-- A trimmed text does not end in a blank part. -/
theorem allBlank_eq_false_of_trim_eq (s : List Char) (filled : w ≠ [])
    (trim_eq : trim (s ++ w) = s ++ w) : allBlank w = false := by
  by_contra blank
  have shorter := length_trim_le s
  rw [← trim_append_right s (by simpa using blank), trim_eq, List.length_append] at shorter
  have size := List.length_pos_of_ne_nil filled
  omega

theorem mem_of_mem_trimStart {c : Char} (inside : c ∈ trimStart s) : c ∈ s :=
  (List.dropWhile_suffix isBlank).subset inside

/-- Trimming makes no characters up. -/
theorem mem_of_mem_trim {c : Char} (inside : c ∈ trim s) : c ∈ s := by
  obtain ⟨front, back, -, -, whole⟩ := exists_padding s
  rw [whole]
  exact List.mem_append_right _ (List.mem_append_left _ inside)

theorem endsBlank_trimEnd (s : List Char) : endsBlank (trimEnd s) = false := by
  have front := startsBlank_trimStart s.reverse
  rw [← reverse_trimEnd] at front
  simpa [startsBlank, endsBlank] using front

theorem endsBlank_trim (s : List Char) : endsBlank (trim s) = false :=
  endsBlank_trimEnd (trimStart s)

theorem startsBlank_trim (s : List Char) : startsBlank (trim s) = false := by
  obtain ⟨back, -, closed⟩ := exists_trimEnd_append (trimStart s)
  have front := startsBlank_trimStart s
  rw [closed] at front
  rw [trim]
  cases shape : trimEnd (trimStart s) with
  | nil => rfl
  | cons c rest => simpa [shape] using front

@[simp]
theorem trim_trim (s : List Char) : trim (trim s) = trim s :=
  trim_eq_self (startsBlank_trim s) (endsBlank_trim s)

theorem trimEnd_eq_nil_iff : trimEnd s = [] ↔ allBlank s = true := by
  rw [← List.reverse_eq_nil_iff, reverse_trimEnd, trimStart_eq_nil_iff, allBlank, allBlank,
    List.all_reverse]

/-- What is put in front of a text survives the trimming of its end if something behind it does
or if it does not end in a blank itself. -/
theorem trimEnd_append (s : List Char) {t : List Char}
    (kept : allBlank t = false ∨ endsBlank s = false) : trimEnd (s ++ t) = s ++ trimEnd t := by
  obtain ⟨tail, blank, whole⟩ := exists_trimEnd_append t
  have ends : endsBlank (s ++ trimEnd t) = false := by
    by_cases nothing : trimEnd t = []
    · rw [nothing, List.append_nil]
      exact kept.resolve_left (by simp [trimEnd_eq_nil_iff.mp nothing])
    · rw [endsBlank_append s nothing, endsBlank_trimEnd]
  calc trimEnd (s ++ t) = trimEnd (s ++ trimEnd t ++ tail) := by rw [List.append_assoc, ← whole]
    _ = trimEnd (s ++ trimEnd t) := trimEnd_append_right _ blank
    _ = s ++ trimEnd t := trimEnd_eq_self ends

end Kata.Text
