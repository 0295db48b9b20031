/-
# Written numbers are strict

Counts and finite doubles are written with a digit in front of the point and with no zero in
front of another digit. The digits of a natural number start with no zero unless the number is
zero, and the decimal of a positive double is not zero, because zero does not read back as
that double.
-/

import Kata.Json.Basic
import Kata.Proofs.Json.Numeral

namespace Kata

namespace Double

variable {rank : Nat}

theorem units_pos (positive : 0 < rank) : 0 < units rank := by
  apply Nat.mul_pos _ (Nat.pow_pos (by decide))
  simp only [binade, Nat.pow_eq]
  omega

end Double

namespace Decimal

variable {rank : Nat} {exponent : Int}

theorem tensBelow_pos : 0 < tensBelow exponent := Nat.pow_pos (by decide)

/-- Zero is not read as a positive double. -/
theorem readsAs_zero (positive : 0 < rank) : readsAs rank exponent 0 = false := by
  have low : 0 < (Double.units (rank - 1) + Double.units rank) * tensBelow exponent :=
    Nat.mul_pos (Nat.add_pos_right _ (Double.units_pos positive)) tensBelow_pos
  rw [readsAs]
  generalize Double.unitsInOne = one
  rw [Nat.mul_zero, Nat.zero_mul, Nat.zero_mul]
  generalize (Double.units (rank - 1) + Double.units rank) * tensBelow exponent = bound at low
  simp [Nat.ne_of_gt low]

/-- The choice between a point of a grid and the next one, where `left` out of `den` parts of
the way are left, for any notion of reading back. -/
def choose (tie : Tie) (exponent : Int) (den below left : Nat) (read : Nat → Bool) :
    Option Decimal :=
  match read below, read (below + 1) with
  | true, true =>
    if 2 * left < den then some ⟨below, exponent⟩
    else if den < 2 * left then some ⟨below + 1, exponent⟩
    else match tie with
      | .up => some ⟨below + 1, exponent⟩
      | .toEven => some ⟨below + below % 2, exponent⟩
  | true, false => some ⟨below, exponent⟩
  | false, true => some ⟨below + 1, exponent⟩
  | false, false => none

theorem onGrid?_eq_choose (tie : Tie) (rank : Nat) (exponent : Int) :
    onGrid? tie rank exponent =
      let num := Double.units rank * tensBelow exponent
      let den := tensAbove exponent * Double.unitsInOne
      choose tie exponent den (num / den) (num % den) (readsAs rank exponent) := rfl

theorem of_choose_eq_some {tie : Tie} {den below left : Nat} {read : Nat → Bool} {d : Decimal}
    (chosen : choose tie exponent den below left read = some d) :
    d.exponent = exponent ∧ read d.digits = true := by
  rw [choose.eq_def] at chosen
  cases readBelow : read below <;> cases readAbove : read (below + 1) <;>
    simp only [readBelow, readAbove] at chosen
  · cases chosen
  · obtain rfl := Option.some.inj chosen
    exact ⟨rfl, readAbove⟩
  · obtain rfl := Option.some.inj chosen
    exact ⟨rfl, readBelow⟩
  · have even : read (below + below % 2) = true := by
      rcases Nat.mod_two_eq_zero_or_one below with parity | parity
      · rwa [parity]
      · rwa [parity]
    split at chosen
    · obtain rfl := Option.some.inj chosen
      exact ⟨rfl, readBelow⟩
    · split at chosen
      · obtain rfl := Option.some.inj chosen
        exact ⟨rfl, readAbove⟩
      · cases tie with
        | toEven =>
            obtain rfl := Option.some.inj chosen
            exact ⟨rfl, even⟩
        | up =>
            obtain rfl := Option.some.inj chosen
            exact ⟨rfl, readAbove⟩

/-- What the search finds on a grid lies on it and reads back. -/
theorem of_onGrid?_eq_some {tie : Tie} {d : Decimal} (found : onGrid? tie rank exponent = some d) :
    d.exponent = exponent ∧ readsAs rank exponent d.digits = true := by
  rw [onGrid?_eq_choose] at found
  exact of_choose_eq_some found

/-- The shortest decimal is found on one of the grids, or it is the last resort. -/
theorem shortest_cases (tie : Tie) (rank : Nat) :
    (∃ exponent, onGrid? tie rank exponent = some (shortest tie rank)) ∨
      shortest tie rank = ⟨Double.units rank * Nat.pow 5 1074, -1074⟩ := by
  rw [shortest]
  cases found : (List.range 24).findSome? fun (step : Nat) =>
      onGrid? tie rank (coarsest rank - step) with
  | some d =>
      obtain ⟨step, -, here⟩ := List.exists_of_findSome?_eq_some found
      exact .inl ⟨_, here⟩
  | none => exact .inr rfl

theorem digits_shortest_pos (tie : Tie) (positive : 0 < rank) :
    0 < (shortest tie rank).digits := by
  rcases shortest_cases tie rank with ⟨exponent, found⟩ | last
  · rw [Nat.pos_iff_ne_zero]
    intro zero
    have read := (of_onGrid?_eq_some found).2
    rw [zero, readsAs_zero positive] at read
    cases read
  · rw [last]
    apply Nat.mul_pos (Double.units_pos positive)
    apply Nat.pow_pos
    decide

end Decimal

namespace Numeral

variable {style : NumeralStyle} {negative : Bool} {d : Decimal} {n : Nat}

theorem isDigit_of_mem_toDigits : ∀ c ∈ Nat.toDigits 10 n, c.isDigit = true :=
  fun _ inside => Nat.isDigit_of_mem_toDigits (by decide) (by decide) inside

/-- The digits of a positive number do not start with a zero. -/
theorem head?_toDigits_ne (positive : 0 < n) : (Nat.toDigits 10 n).head? ≠ some '0' := by
  induction n using Nat.strongRecOn with
  | ind n ih =>
      by_cases one : n < 10
      · have digit : ∀ n < 10, 0 < n → [n.digitChar].head? ≠ some '0' := by decide
        rw [Nat.toDigits_of_lt_base one]
        exact digit n one positive
      · have front : (Nat.toDigits 10 (n / 10)).head? ≠ none := by simp [Nat.toDigits_ne_nil]
        rw [Nat.toDigits_of_base_le (by decide) (Nat.le_of_not_lt one), List.head?_append,
          Option.or_of_isSome (Option.isSome_iff_ne_none.mpr front)]
        exact ih (n / 10) (by omega) (by omega)

/-- The digits of a number start with a zero only if that is all there is. -/
theorem length_toDigits_of_head? (zero : (Nat.toDigits 10 n).head? = some '0') :
    (Nat.toDigits 10 n).length = 1 := by
  rcases Nat.eq_zero_or_pos n with rfl | positive
  · rfl
  · exact absurd zero (head?_toDigits_ne positive)

/-- A decimal that is not a written-out zero gets a strict numeral in every style. -/
theorem strict_ofDecimal (zero : d.digits = 0 → d.exponent = 0) :
    (ofDecimal style negative d).Strict := by
  have filled : Nat.toDigits 10 d.digits ≠ [] := Nat.toDigits_ne_nil
  have length := List.length_pos_iff.mpr filled
  have digits := isDigit_of_mem_toDigits (n := d.digits)
  have zeros : ∀ count, ∀ c ∈ List.replicate count '0', c.isDigit = true := by
    intro count c inside
    rw [List.eq_of_mem_replicate inside]
    rfl
  rw [ofDecimal]
  split
  · exact {
      whole := by simp [filled]
      whole_digits := fun c inside => digits c (List.mem_of_mem_take inside)
      bare := fun _ => by rw [List.length_take]; omega
      fraction_digits := fun c inside => digits c (List.mem_of_mem_drop inside) }
  · split
    · rename_i whole
      exact {
        whole := by simp [filled]
        whole_digits := by
          intro c inside
          rcases List.mem_append.mp inside with inside | inside
          · exact digits c inside
          · exact zeros _ c inside
        bare := by
          intro first
          have front : (Nat.toDigits 10 d.digits).head? = some '0' := by
            simpa [List.head?_append, filled] using first
          rcases Nat.eq_zero_or_pos d.digits with none | some_
          · simp [none, zero none]
          · exact absurd front (head?_toDigits_ne some_)
        fraction_digits := by
          intro c inside
          split at inside
          · obtain rfl := List.mem_singleton.mp inside
            rfl
          · cases inside }
    · split
      · rename_i part leading
        exact {
          whole := by simp [filled]
          whole_digits := fun c inside => digits c (List.mem_of_mem_take inside)
          bare := by
            intro first
            have front : (Nat.toDigits 10 d.digits).head? = some '0' := by
              rwa [List.head?_take, if_neg (Nat.succ_ne_zero _)] at first
            rw [List.length_take, length_toDigits_of_head? front]
            omega
          fraction_digits := fun c inside => digits c (List.mem_of_mem_drop inside) }
      · exact {
          whole := List.cons_ne_nil _ _
          whole_digits := by
            intro c inside
            obtain rfl := List.mem_singleton.mp inside
            rfl
          bare := fun _ => rfl
          fraction_digits := by
            intro c inside
            rcases List.mem_append.mp inside with inside | inside
            · exact zeros _ c inside
            · exact digits c inside }

theorem strict_ofRank (style : NumeralStyle) (negative : Bool) (tie : Tie) (rank : Nat) :
    (ofDecimal style negative (Decimal.ofRank tie rank)).Strict := by
  apply strict_ofDecimal
  intro none
  rw [Decimal.ofRank] at none ⊢
  split at none
  · rename_i zero
    rw [if_pos zero]
  · rename_i positive
    have some_ := Decimal.digits_shortest_pos tie (Nat.pos_of_ne_zero positive)
    omega

/-- Every double gets a strict numeral. -/
theorem strict_ofFloat (style : NumeralStyle) (x : Float) : (ofFloat style x).Strict :=
  strict_ofRank ..

/-- Every count is written as a strict numeral. -/
theorem strict_count (n : Nat) : Strict ⟨false, Nat.toDigits 10 n, [], none⟩ where
  whole := Nat.toDigits_ne_nil
  whole_digits := isDigit_of_mem_toDigits
  bare := length_toDigits_of_head?
  fraction_digits := by simp

end Numeral

end Kata
