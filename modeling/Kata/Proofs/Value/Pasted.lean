/-
# Pasting a shown value

What a message shows of a value looks like a literal, but the two grammars differ: a literal has
no exponent, no escapes and no lists. So a shown value is a literal of the same value unless it
is a list, a number that is not finite or gets an exponent, or a text with an escape. An escaped
quote ends the literal too early. Any other escape stays in the literal as it is written, so
what is read is a longer text.
-/

import Kata.Proofs.Literal.Grammar
import Kata.Proofs.Number.Plain
import Kata.Proofs.Number.Reread
import Kata.Proofs.Value.Display

namespace Kata

/-- What starts like no numeral and like no word is a literal only between quotes. -/
theorem Literal.value?_cons_eq_none {c : Char} {s : List Char} (digit : c.isDigit = false)
    (sign : c ≠ '-') (point : c ≠ '.') (small : c.isLower = false)
    (ended : ∀ body, Text.isQuote c = true → s = body ++ [c] → c ∈ body) :
    value? (c :: s) = none := by
  rw [Option.eq_none_iff_forall_ne_some]
  intro v read
  obtain ⟨q, body, opens, plain, shape⟩ := exists_quoted_of_mem
    (value?_eq_some_iff.mp read) List.mem_cons_self digit sign point small
  obtain ⟨rfl, rest⟩ := List.cons.inj shape
  exact plain (ended body opens rest)

/-! ## Numerals -/

namespace Numeral

variable {n : Numeral}

/-- A strict numeral without an exponent is a literal. -/
theorem Strict.isPlain (strict : n.Strict) (plain : n.exponent = none) : n.IsPlain where
  whole_ne_nil := strict.whole
  whole_digits := strict.whole_digits
  fraction_digits := strict.fraction_digits
  exponent_eq_none := plain

/-- A numeral holds no blanks. -/
theorem Strict.trim_toChars (strict : n.Strict) : Text.trim n.toChars = n.toChars := by
  have unblank : ∀ c ∈ n.toChars, Text.isBlank c = false := by
    intro c inside
    rcases strict.isDigit_or_mem inside with digit | mark
    · exact (Text.not_isBlank_and_not_isQuote_of_isPlain
        (Text.isPlain_of_isNameChar (Literal.isNameChar_of_isDigit digit))).1
    · simp only [List.mem_cons, List.not_mem_nil, or_false] at mark
      rcases mark with rfl | rfl | rfl | rfl <;> rfl
  apply Text.trim_eq_self
  · cases shape : n.toChars with
    | nil => rfl
    | cons c rest => exact unblank c (shape ▸ List.mem_cons_self)
  · cases last : n.toChars.getLast? with
    | none => rw [Text.endsBlank, last]; rfl
    | some c => rw [Text.endsBlank, last]; exact unblank c (List.mem_of_getLast? last)

/-- No literal has an exponent. -/
theorem Strict.value?_toChars (strict : n.Strict) (exponent : n.exponent ≠ none) :
    Literal.value? n.toChars = none := by
  have marked : 'e' ∈ n.toChars := by
    obtain ⟨e, shape⟩ := Option.ne_none_iff_exists'.mp exponent
    simp [toChars, shape, exponentChars]
  have own : ∀ c ∈ n.toChars, c.isDigit = true ∨ c ∈ ['-', '.', 'e', '+'] :=
    fun c inside => strict.isDigit_or_mem inside
  rw [Option.eq_none_iff_forall_ne_some]
  intro v read
  have written := Literal.value?_eq_some_iff.mp read
  generalize n.toChars = s at marked own written
  -- A plain numeral lacks the mark of the exponent, and the others start with a foreign letter.
  cases written with
  | number plain => exact absurd (Literal.isDigit_or_eq_of_mem_toChars plain marked) (by decide)
  | @quoted q body opens _ =>
      simp only [Text.isQuote, Bool.or_eq_true, beq_iff_eq] at opens
      have first := own q List.mem_cons_self
      rcases opens with rfl | rfl <;> exact absurd first (by decide)
  | true => exact absurd (own 't' (by decide)) (by decide)
  | false => exact absurd (own 'f' (by decide)) (by decide)
  | null => exact absurd (own 'n' (by decide)) (by decide)

end Numeral

namespace Value

/-- The values that are read back from what a message shows of them. -/
def IsPastable : Value → Prop
  | .null | .bool _ => True
  | .number x => (x == 0) = true ∨ (1e-6 ≤ x.abs ∧ x.abs < 1e21)
  | .text s => ∀ c ∈ s.toList, c ≠ '\x22' ∧ c ≠ '\x5c' ∧ 0x20 ≤ c.toNat
  | .list _ => False

/-- The values that a message does not show as a literal. -/
def IsUnread : Value → Prop
  | .null | .bool _ => False
  | .number x =>
    Double.isFinite x = false ∨ (x == 0) = false ∧ (x.abs < 1e-6 ∨ 1e21 ≤ x.abs)
  | .text s => '\x22' ∈ s.toList
  | .list _ => True

/-- The texts that are shown with escapes, none of them for a quote. -/
def IsEscaped : Value → Prop
  | .text s => '\x22' ∉ s.toList ∧ ∃ c ∈ s.toList, c = '\x5c' ∨ c.toNat < 0x20
  | _ => False

variable {v : Value} {x : Float} {s : String}

/-! ## Numbers -/

/-- The bounds of the numbers that are shown without an exponent, as doubles. -/
theorem bounds_numberStyle :
    (Decimal.ofRank numberStyle.tie (Double.rank 1e-6)).value = 10 ^ numberStyle.leastPlain ∧
    (Decimal.ofRank numberStyle.tie (Double.rank 1e21)).value =
      10 ^ (numberStyle.greatestPlain + 1) := by
  have least : Decimal.ofRank .up (Double.rank 1e-6) = ⟨1, -6⟩ := by decide +kernel
  have greatest : Decimal.ofRank .up (Double.rank 1e21) = ⟨1, 21⟩ := by decide +kernel
  constructor
  · simp [numberStyle, least, Decimal.value]
  · simp [numberStyle, greatest, Decimal.value]

/-- Comparing with the bounds is comparing with their ranks. -/
theorem abs_bounds_iff (number : x.isNaN = false) :
    (1e-6 ≤ x.abs ↔ Double.rank 1e-6 ≤ Double.rank x) ∧
    (x.abs < 1e-6 ↔ Double.rank x < Double.rank 1e-6) ∧
    (1e21 ≤ x.abs ↔ Double.rank 1e21 ≤ Double.rank x) ∧
    (x.abs < 1e21 ↔ Double.rank x < Double.rank 1e21) := by
  have least : (1e-6 : Float).isNaN = false ∧ Double.isNegative 1e-6 = false := by decide +kernel
  have greatest : (1e21 : Float).isNaN = false ∧ Double.isNegative 1e21 = false := by
    decide +kernel
  exact ⟨Double.le_abs_iff number least.1 least.2, Double.abs_lt_iff number least.1 least.2,
    Double.le_abs_iff number greatest.1 greatest.2, Double.abs_lt_iff number greatest.1 greatest.2⟩

/-- A number other than zero is shown without an exponent if it is within the bounds. -/
theorem exponent_numeral_eq_none_iff (number : x.isNaN = false) (some_ : (x == 0) = false) :
    (Numeral.ofFloat numberStyle x).exponent = none ↔ 1e-6 ≤ x.abs ∧ x.abs < 1e21 := by
  have positive : Double.rank x ≠ 0 := by
    rwa [ne_eq, Double.rank_eq_zero_iff, Bool.not_eq_true]
  have bounds := abs_bounds_iff number
  rw [bounds.1, bounds.2.2.2]
  exact Numeral.exponent_ofFloat_eq_none_iff positive bounds_numberStyle.1 bounds_numberStyle.2

/-- A finite number is shown as its numeral. -/
theorem display_number (finite : Double.isFinite x = true) :
    (Value.number x).display.toList = (Numeral.ofFloat numberStyle x).toChars := by
  have number := Double.isNaN_of_isFinite finite
  rw [display, String.toList_ofList, displayChars, numberChars, number, if_neg Bool.false_ne_true,
    if_pos finite]

/-- A number that is shown without an exponent is read back. -/
theorem read_number (finite : Double.isFinite x = true)
    (plain : (Numeral.ofFloat numberStyle x).exponent = none) :
    ∃ w, Literal.read (Value.number x).display.toList = .ok w ∧ (w == .number x) = true := by
  have strict := Numeral.strict_ofFloat numberStyle x
  have written : Literal.value? (Numeral.ofFloat numberStyle x).toChars =
      some (.number (Numeral.ofFloat numberStyle x).toFloat) :=
    Literal.value?_eq_some_iff.mpr (.number (strict.isPlain plain))
  refine ⟨.number (Numeral.ofFloat numberStyle x).toFloat, ?_, ?_⟩
  · rw [Literal.read, display_number finite, strict.trim_toChars, written]
  · exact Numeral.toFloat_ofFloat_beq finite

/-- What is shown with nothing to trim is not read unless it is a literal. -/
theorem read_display_eq_error (trimmed : Text.trim v.display.toList = v.display.toList)
    (foreign : Literal.value? v.display.toList = none) :
    Literal.read v.display.toList = .error (.notALiteral v.display) := by
  rw [Literal.read, trimmed, foreign, String.ofList_toList]

/-- What is not finite is shown as one of three words, none of them a literal. -/
theorem read_number_of_infinite (infinite : Double.isFinite x = false) :
    Literal.read (Value.number x).display.toList =
      .error (.notALiteral (Value.number x).display) := by
  have shown : (Value.number x).display.toList = numberChars x := String.toList_ofList
  apply read_display_eq_error
  all_goals
    rw [shown, numberChars, infinite]
    split
    · rfl
    · split
      · contradiction
      · split <;> rfl

theorem read_number_of_isUnread (unread : (Value.number x).IsUnread) :
    Literal.read (Value.number x).display.toList =
      .error (.notALiteral (Value.number x).display) := by
  cases finite : Double.isFinite x with
  | false => exact read_number_of_infinite finite
  | true =>
      rw [IsUnread, finite] at unread
      obtain ⟨some_, outside⟩ := unread.resolve_left (by decide)
      have number := Double.isNaN_of_isFinite finite
      have strict := Numeral.strict_ofFloat numberStyle x
      have exponent : (Numeral.ofFloat numberStyle x).exponent ≠ none := by
        rw [ne_eq, exponent_numeral_eq_none_iff number some_]
        have bounds := abs_bounds_iff number
        simp only [bounds] at outside ⊢
        omega
      apply read_display_eq_error
      · rw [display_number finite, strict.trim_toChars]
      · rw [display_number finite, strict.value?_toChars exponent]

/-- Not-a-number compares with nothing. -/
theorem isNaN_of_le_abs (least : 1e-6 ≤ x.abs) : x.isNaN = false := by
  rw [Double.isNaN_eq_false_iff]
  rintro rfl
  exact absurd least (by decide +kernel)

theorem read_number_of_isPastable (pastable : (Value.number x).IsPastable) :
    ∃ w, Literal.read (Value.number x).display.toList = .ok w ∧ (w == .number x) = true := by
  cases zero : x == 0 with
  | true =>
      have none_ := Double.rank_eq_zero_iff.mpr zero
      have finite : Double.isFinite x = true := by
        rw [Double.isFinite, none_]
        rfl
      exact read_number finite (Numeral.exponent_ofFloat_of_rank_eq_zero none_ (by decide))
  | false =>
      rw [IsPastable, zero] at pastable
      have within := pastable.resolve_left Bool.false_ne_true
      have number := isNaN_of_le_abs within.1
      have finite : Double.isFinite x = true := by
        have below : Double.rank 1e21 < Double.infinityRank := by decide +kernel
        have small := (abs_bounds_iff number).2.2.2.mp within.2
        exact decide_eq_true (small.trans below)
      exact read_number finite ((exponent_numeral_eq_none_iff number zero).mpr within)

/-- Zeros and numbers within the bounds are read back, and the others are not read. -/
theorem isPastable_or_isUnread_number (x : Float) :
    (Value.number x).IsPastable ∨ (Value.number x).IsUnread := by
  cases finite : Double.isFinite x with
  | false => exact .inr (.inl finite)
  | true =>
      have bounds := abs_bounds_iff (Double.isNaN_of_isFinite finite)
      cases zero : x == 0 with
      | true => exact .inl (.inl zero)
      | false =>
          rcases Nat.lt_or_ge (Double.rank x) (Double.rank 1e-6) with below | least
          · exact .inr (.inr ⟨zero, .inl (bounds.2.1.mpr below)⟩)
          · rcases Nat.lt_or_ge (Double.rank x) (Double.rank 1e21) with small | great
            · exact .inl (.inr ⟨bounds.1.mpr least, bounds.2.2.2.mpr small⟩)
            · exact .inr (.inr ⟨zero, .inr (bounds.2.2.1.mpr great)⟩)

/-! ## Texts -/

/-- A text as it stands between quotes. -/
theorem display_text (s : String) : (Value.text s).display.toList =
    '\x22' :: (s.toList.flatMap Json.escape ++ ['\x22']) := by
  simp [display, displayChars, Json.quoted]

theorem trim_display_text (s : String) :
    Text.trim (Value.text s).display.toList = (Value.text s).display.toList := by
  rw [display_text]
  exact Text.trim_eq_self rfl (Text.endsBlank_append_singleton (_ :: _) _)

/-- The characters that are not shown as they are. -/
def NeedsEscape (c : Char) : Prop := c = '\x22' ∨ c = '\x5c' ∨ c.toNat < 0x20

instance (c : Char) : Decidable (NeedsEscape c) :=
  inferInstanceAs (Decidable (c = '\x22' ∨ c = '\x5c' ∨ c.toNat < 0x20))

theorem escape_of_not_needsEscape {c : Char} (plain : ¬NeedsEscape c) : Json.escape c = [c] := by
  have other (d : Char) (needed : NeedsEscape d) : c ≠ d := by
    rintro rfl
    exact plain needed
  have printable : ¬c.toNat < 0x20 := fun control => plain (.inr (.inr control))
  simp only [Json.escape, other '\x22' (by decide), other '\x5c' (by decide),
    other '\x08' (by decide), other '\x0c' (by decide), other '\n' (by decide),
    other '\r' (by decide), other '\t' (by decide), printable, if_false]

/-- An escape is longer than what it stands for, and holds a quote only for a quote. -/
theorem escape_of_needsEscape {c : Char} (needed : NeedsEscape c) :
    1 < (Json.escape c).length ∧ ('\x22' ∈ Json.escape c ↔ c = '\x22') := by
  have table : ∀ n < 93, NeedsEscape (Char.ofNat n) → 1 < (Json.escape (Char.ofNat n)).length ∧
      ('\x22' ∈ Json.escape (Char.ofNat n) ↔ Char.ofNat n = '\x22') := by decide
  have small : c.toNat < 93 := by
    rcases needed with rfl | rfl | control
    · decide
    · decide
    · omega
  simpa using table c.toNat small (by simpa using needed)

theorem mem_flatMap_escape_iff {s : List Char} :
    '\x22' ∈ s.flatMap Json.escape ↔ '\x22' ∈ s := by
  have each (c : Char) : '\x22' ∈ Json.escape c ↔ '\x22' = c := by
    by_cases needed : NeedsEscape c
    · rw [(escape_of_needsEscape needed).2, eq_comm]
    · rw [escape_of_not_needsEscape needed, List.mem_singleton]
  simp [List.mem_flatMap, each]

/-- A text without quotes is read as what stands between the quotes that it is shown in. -/
theorem read_text (unquoted : '\x22' ∉ s.toList) :
    Literal.read (Value.text s).display.toList =
      .ok (.text (String.ofList (s.toList.flatMap Json.escape))) := by
  have written : Literal.value? (Value.text s).display.toList =
      some (.text (String.ofList (s.toList.flatMap Json.escape))) := by
    rw [display_text]
    exact Literal.value?_eq_some_iff.mpr (.quoted rfl (mt mem_flatMap_escape_iff.mp unquoted))
  rw [Literal.read, trim_display_text, written]

/-- A shown quote ends the literal too early. -/
theorem read_text_of_mem (quote : '\x22' ∈ s.toList) :
    Literal.read (Value.text s).display.toList =
      .error (.notALiteral (Value.text s).display) := by
  apply read_display_eq_error (trim_display_text s)
  rw [display_text]
  refine Literal.value?_cons_eq_none (by decide) (by decide) (by decide) (by decide) ?_
  intro body _ shape
  rw [← List.append_cancel_right shape]
  exact mem_flatMap_escape_iff.mpr quote

theorem flatMap_escape_eq_self {s : List Char} (plain : ∀ c ∈ s, ¬NeedsEscape c) :
    s.flatMap Json.escape = s := by
  induction s with
  | nil => rfl
  | cons c s ih =>
      obtain ⟨first, later⟩ := List.forall_mem_cons.mp plain
      rw [List.flatMap_cons, escape_of_not_needsEscape first, ih later, List.singleton_append]

theorem length_le_length_flatMap_escape (s : List Char) :
    s.length ≤ (s.flatMap Json.escape).length := by
  induction s with
  | nil => exact Nat.le_refl _
  | cons c s ih =>
      have first : 1 ≤ (Json.escape c).length := by
        by_cases needed : NeedsEscape c
        · exact (escape_of_needsEscape needed).1.le
        · rw [escape_of_not_needsEscape needed, List.length_singleton]
      rw [List.flatMap_cons, List.length_append, List.length_cons]
      omega

/-- Every escape makes a shown text longer. -/
theorem length_lt_length_flatMap_escape {s : List Char} {c : Char} (inside : c ∈ s)
    (needed : NeedsEscape c) : s.length < (s.flatMap Json.escape).length := by
  obtain ⟨front, back, rfl⟩ := List.append_of_mem inside
  have longer := (escape_of_needsEscape needed).1
  have before := length_le_length_flatMap_escape front
  have behind := length_le_length_flatMap_escape back
  simp only [List.flatMap_append, List.flatMap_cons, List.length_append, List.length_cons]
  omega

/-! ## Lists -/

/-- No literal starts with a bracket. -/
theorem read_list (items : List Value) :
    Literal.read (Value.list items).display.toList =
      .error (.notALiteral (Value.list items).display) := by
  have shown : (Value.list items).display.toList =
      '[' :: ([','].intercalate (displayItems items) ++ [']']) := by
    simp [display, displayChars]
  apply read_display_eq_error
  · rw [shown]
    exact Text.trim_eq_self rfl (Text.endsBlank_append_singleton (_ :: _) _)
  · rw [shown]
    refine Literal.value?_cons_eq_none (by decide) (by decide) (by decide) (by decide) ?_
    intro body opens
    exact absurd opens (by decide)

/-! ## Values -/

theorem text_beq_iff {s t : String} : (Value.text s == .text t) = true ↔ s = t := by
  change (s == t) = true ↔ s = t
  exact beq_iff_eq

theorem read_of_isPastable (pastable : v.IsPastable) :
    ∃ w, Literal.read v.display.toList = .ok w ∧ (w == v) = true := by
  cases v with
  | null => exact ⟨.null, rfl, rfl⟩
  | bool b => cases b <;> exact ⟨.bool _, rfl, rfl⟩
  | number x => exact read_number_of_isPastable pastable
  | text s =>
      have plain : ∀ c ∈ s.toList, ¬NeedsEscape c := by
        rintro c inside (quote | slash | control)
        · exact (pastable c inside).1 quote
        · exact (pastable c inside).2.1 slash
        · exact absurd control (Nat.not_lt.mpr (pastable c inside).2.2)
      have unquoted : '\x22' ∉ s.toList := fun inside => plain _ inside (.inl rfl)
      refine ⟨.text s, ?_, text_beq_iff.mpr rfl⟩
      rw [read_text unquoted, flatMap_escape_eq_self plain, String.ofList_toList]
  | list items => cases pastable

theorem read_of_isUnread (unread : v.IsUnread) :
    Literal.read v.display.toList = .error (.notALiteral v.display) := by
  cases v with
  | null | bool => cases unread
  | number x => exact read_number_of_isUnread unread
  | text s => exact read_text_of_mem unread
  | list items => exact read_list items

theorem read_of_isEscaped (escaped : v.IsEscaped) :
    ∃ s t, v = .text s ∧ Literal.read v.display.toList = .ok (.text t) ∧ s.length < t.length := by
  cases v with
  | text s =>
      obtain ⟨unquoted, c, inside, needed⟩ := escaped
      refine ⟨s, _, rfl, read_text unquoted, ?_⟩
      rw [String.length_ofList, ← String.length_toList]
      exact length_lt_length_flatMap_escape inside (.inr needed)
  | null | bool | number | list => cases escaped

theorem isPastable_or_isUnread_or_isEscaped (v : Value) :
    v.IsPastable ∨ v.IsUnread ∨ v.IsEscaped := by
  cases v with
  | null | bool => exact .inl trivial
  | number x => exact (isPastable_or_isUnread_number x).imp_right .inl
  | text s =>
      by_cases quote : '\x22' ∈ s.toList
      · exact .inr (.inl quote)
      · by_cases escaped : ∃ c ∈ s.toList, c = '\x5c' ∨ c.toNat < 0x20
        · exact .inr (.inr ⟨quote, escaped⟩)
        · refine .inl fun c inside => ⟨?_, ?_, ?_⟩
          · rintro rfl
            exact quote inside
          · rintro rfl
            exact escaped ⟨_, inside, .inl rfl⟩
          · by_contra control
            exact escaped ⟨c, inside, .inr (by omega)⟩
  | list items => exact .inr (.inl trivial)

/-- What a message shows of a value is read as an equal value exactly if the value is pastable.
It is not read at all if it is a list, a number without a plain numeral or a text with a quote.
The other texts with an escape are read as longer texts. -/
theorem read_display (v : Value) :
    ((∃ w, Literal.read v.display.toList = .ok w ∧ (w == v) = true) ↔ v.IsPastable) ∧
    (Literal.read v.display.toList = .error (.notALiteral v.display) ↔ v.IsUnread) ∧
    ((∃ s t, v = .text s ∧ Literal.read v.display.toList = .ok (.text t) ∧
      s.length < t.length) ↔ v.IsEscaped) ∧
    (v.IsPastable ∨ v.IsUnread ∨ v.IsEscaped) := by
  have all := isPastable_or_isUnread_or_isEscaped v
  refine ⟨⟨?_, read_of_isPastable⟩, ⟨?_, read_of_isUnread⟩, ⟨?_, read_of_isEscaped⟩, all⟩
  -- The three outcomes exclude one another, so each of them is had by its own values only.
  · rintro ⟨w, read, equal⟩
    rcases all with pastable | unread | escaped
    · exact pastable
    · rw [read_of_isUnread unread] at read
      cases read
    · obtain ⟨s, t, rfl, longer, length⟩ := read_of_isEscaped escaped
      obtain rfl := Except.ok.inj (longer.symm.trans read)
      obtain rfl := text_beq_iff.mp equal
      exact absurd length (Nat.lt_irrefl _)
  · intro read
    rcases all with pastable | unread | escaped
    · obtain ⟨w, back, -⟩ := read_of_isPastable pastable
      rw [back] at read
      cases read
    · exact unread
    · obtain ⟨s, t, -, longer, -⟩ := read_of_isEscaped escaped
      rw [longer] at read
      cases read
  · rintro ⟨s, t, rfl, longer, length⟩
    rcases all with pastable | unread | escaped
    · obtain ⟨w, back, equal⟩ := read_of_isPastable pastable
      obtain rfl := Except.ok.inj (longer.symm.trans back)
      obtain rfl := text_beq_iff.mp equal
      exact absurd length (Nat.lt_irrefl _)
    · rw [read_of_isUnread unread] at longer
      cases longer
    · exact escaped

end Value

end Kata
