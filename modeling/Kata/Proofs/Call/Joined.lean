/-
# Argument texts that are joined

A call can be put together from any argument texts, literals or not, with bare commas
between them. The texts come apart at the same commas as long as each of them keeps its own
commas in quotes and closes the quotes that it opens. Parentheses in them do no harm. One
blank text alone would be no argument at all.
-/

import Kata.Proofs.Call.Grammar

namespace Kata

namespace Text

variable {c : Char} {word s t : List Char} {texts : List (List Char)}

/-- Texts that hide the separator and close their quotes come apart where they were joined. -/
theorem splitOutsideQuotes_intercalate (some_ : texts ≠ [])
    (hidden : ∀ text ∈ texts, Hides c none text)
    (closed : ∀ text ∈ texts, quoteAfter none text = none) :
    splitOutsideQuotes c none ([c].intercalate texts) = texts := by
  induction texts with
  | nil => exact absurd rfl some_
  | cons text rest ih =>
      have first := hidden text List.mem_cons_self
      cases rest with
      | nil => rw [List.intercalate_singleton, splitOutsideQuotes_eq_singleton first]
      | cons next rest =>
          have later := ih (List.cons_ne_nil next rest)
            (fun other inside => hidden other (List.mem_cons_of_mem text inside))
            (fun other inside => closed other (List.mem_cons_of_mem text inside))
          rw [List.intercalate_cons_cons, List.append_assoc, List.singleton_append,
            splitOutsideQuotes_append_cons first (closed text List.mem_cons_self), later]

/-- A word does not arise around a character that it does not have. -/
theorem not_infix_append_cons (absent : c ∉ word) (front : ¬ word <:+: s)
    (back : ¬ word <:+: t) : ¬ word <:+: s ++ c :: t := by
  rintro ⟨before, after, shape⟩
  rcases append_eq_append_cons absent shape with ⟨middle, inFront, -⟩ | ⟨middle, -, behind⟩
  · exact front ⟨before, middle, inFront.symm⟩
  · exact back ⟨middle, after, behind.symm⟩

theorem not_infix_intercalate (filled : word ≠ []) (absent : c ∉ word)
    (each : ∀ text ∈ texts, ¬ word <:+: text) : ¬ word <:+: [c].intercalate texts := by
  induction texts with
  | nil => simpa using filled
  | cons text rest ih =>
      have first := each text List.mem_cons_self
      cases rest with
      | nil => rwa [List.intercalate_singleton]
      | cons next rest =>
          rw [List.intercalate_cons_cons, List.append_assoc, List.singleton_append]
          exact not_infix_append_cons absent first
            (ih fun other inside => each other (List.mem_cons_of_mem text inside))

end Text

/-! ## Literals and other argument texts -/

namespace Literal

/-- A text is a literal, perhaps between blanks. -/
def Reads (text : List Char) : Prop := ∃ v, read text = .ok v

instance (text : List Char) : Decidable (Reads text) :=
  match found : read text with
  | .ok v => isTrue ⟨v, found⟩
  | .error _ => isFalse fun ⟨_, reads⟩ => nomatch found.symm.trans reads

@[simp]
theorem read_trim (text : List Char) : read (Text.trim text) = read text := by
  rw [read, Text.trim_trim, read]

theorem read_of_not_reads {text : List Char} (other : ¬ Reads text) :
    read text = .error (.notALiteral (String.ofList (Text.trim text))) := by
  rw [read]
  cases found : value? (Text.trim text) with
  | none => rfl
  | some v => exact absurd ⟨v, by rw [read, found]⟩ other

theorem Reads.allBlank_eq_false {text : List Char} (reads : Reads text) :
    Text.allBlank text = false := by
  obtain ⟨v, read_eq⟩ := reads
  exact Text.allBlank_eq_false_of_trim_ne_nil (written_of_read read_eq).atom.ne_nil

/-- A literal hides its commas and closes its quotes, whatever blanks are around it. -/
theorem Reads.hides_and_closes {text : List Char} (reads : Reads text) :
    Text.Hides ',' none text ∧ Text.quoteAfter none text = none := by
  obtain ⟨v, read_eq⟩ := reads
  have atom := (written_of_read read_eq).atom
  obtain ⟨front, back, frontBlank, backBlank, whole⟩ := Text.exists_padding text
  have bare {pad : List Char} (blank : Text.allBlank pad = true) : ',' ∉ pad := fun inside =>
    absurd (Text.allBlank_iff.mp blank ',' inside) (by decide)
  refine ⟨?_, Text.quoteAfter_eq_none_of_trim atom.quoteAfter_eq_none⟩
  rw [whole]
  refine Text.hides_append (Text.hides_of_not_mem none (bare frontBlank)) ?_
  rw [Text.quoteAfter_of_allBlank frontBlank]
  exact Text.hides_append (atom.hides (by decide) (by decide))
    (Text.hides_of_not_mem _ (bare backBlank))

end Literal

namespace Call

variable {name : List Char} {texts : List (List Char)}

/-- An argument text that goes into a call as one piece: a literal, or any text without
commas and quotes. -/
def Whole (text : List Char) : Prop :=
  Literal.Reads text ∨ ∀ c ∈ [',', Text.doubleQuote, Text.singleQuote], c ∉ text

instance (text : List Char) : Decidable (Whole text) :=
  inferInstanceAs (Decidable (_ ∨ _))

theorem Whole.hides_and_closes {text : List Char} (whole : Whole text) :
    Text.Hides ',' none text ∧ Text.quoteAfter none text = none := by
  rcases whole with reads | plain
  · exact reads.hides_and_closes
  · refine ⟨Text.hides_of_not_mem none (plain ',' (by simp)), ?_⟩
    refine Text.quoteAfter_none_of_quoteless fun c inside => ?_
    by_contra quote
    simp only [Text.isQuote, Bool.not_eq_false, Bool.or_eq_true, beq_iff_eq] at quote
    rcases quote with rfl | rfl <;> exact plain _ (by simp) inside

/-- The text of a call on argument texts. -/
def joined (name : List Char) (texts : List (List Char)) : List Char :=
  name ++ '(' :: ([','].intercalate texts ++ [')'])

/-- The argument texts are found again. A blank text is left out where it is the only one. -/
theorem argTexts_intercalate (whole : ∀ text ∈ texts, Whole text)
    (filled : ∀ text, texts = [text] → Text.allBlank text = false) :
    argTexts ([','].intercalate texts) = texts := by
  cases texts with
  | nil => rfl
  | cons text rest =>
      have solid : Text.allBlank ([','].intercalate (text :: rest)) = false := by
        cases rest with
        | nil => simpa using filled text rfl
        | cons next rest =>
            rw [List.intercalate_cons_cons, Text.allBlank_append, Text.allBlank_append]
            simp [show Text.isBlank ',' = false by decide]
      rw [argTexts, if_neg (by simp [solid])]
      exact Text.splitOutsideQuotes_intercalate (List.cons_ne_nil text rest)
        (fun other inside => (whole other inside).hides_and_closes.1)
        (fun other inside => (whole other inside).hides_and_closes.2)

/-- To read a call that was put together is to read its argument texts. -/
theorem read_joined (named : Text.isName name = true) (whole : ∀ text ∈ texts, Whole text)
    (filled : ∀ text, texts = [text] → Text.allBlank text = false) :
    read (joined name texts) = (texts.mapM Literal.read).map (Call.mk (String.ofList name)) := by
  rw [read, joined, trim_of_isName named, outline?_of_isName named]
  simp only [argTexts_intercalate whole filled]
  rfl

/-- No marker of an assertion arises where the parts of a call meet. -/
theorem not_infix_joined {word : List Char} (filled : word ≠ []) (named : ¬ word <:+: name)
    (separators : ∀ c ∈ ['(', ')', ','], c ∉ word) (each : ∀ text ∈ texts, ¬ word <:+: text) :
    ¬ word <:+: joined name texts :=
  Text.not_infix_append_cons (separators '(' (by simp)) named
    (Text.not_infix_append_cons (separators ')' (by simp))
      (Text.not_infix_intercalate filled (separators ',' (by simp)) each)
      (by simpa using filled))

/-- The leftmost text that is no literal is the one that is reported. -/
theorem mapM_read_of_leftmost {earlier later : List (List Char)} {text : List Char}
    (literals : ∀ other ∈ earlier, Literal.Reads other) (found : ¬ Literal.Reads text) :
    (earlier ++ text :: later).mapM Literal.read =
      .error (.notALiteral (String.ofList (Text.trim text))) := by
  induction earlier with
  | nil =>
      rw [List.nil_append, List.mapM_cons, Literal.read_of_not_reads found]
      rfl
  | cons other earlier ih =>
      obtain ⟨⟨v, reads⟩, rest⟩ := List.forall_mem_cons.mp literals
      rw [List.cons_append, List.mapM_cons, reads, ih rest]
      rfl

theorem exists_mapM_read_eq_ok_iff :
    (∃ values, texts.mapM Literal.read = .ok values) ↔ ∀ text ∈ texts, Literal.Reads text := by
  constructor
  · rintro ⟨values, read_eq⟩ text inside
    have among := List.mem_map_of_mem (f := Literal.read) inside
    rw [mapM_read_eq_ok_iff.mp read_eq] at among
    obtain ⟨v, -, reads⟩ := List.mem_map.mp among
    exact ⟨v, reads.symm⟩
  · intro literals
    induction texts with
    | nil => exact ⟨[], rfl⟩
    | cons text rest ih =>
        obtain ⟨⟨v, reads⟩, others⟩ := List.forall_mem_cons.mp literals
        obtain ⟨values, read_eq⟩ := ih others
        exact ⟨v :: values, by rw [List.mapM_cons, reads, read_eq]; rfl⟩

end Call

end Kata
