/-
# Which texts are calls

A call is a name, perhaps blanks, and parentheses around its arguments: nothing but blanks, or
literals between blanks, joined by commas. The texts that are read as calls are these, with
the values of their literals, and every other text is refused for one of two reasons. Either
it has not even the outline of a call, or of the pieces between its commas the leftmost that
is no literal is named. Commas and parentheses in quoted arguments part nothing, and a quote
that is left open hides all commas behind it.
-/

import Kata.Proofs.Call.Joined
import Kata.Proofs.Text.Parted
import Mathlib.Data.List.Forall2

namespace Kata

namespace Literal

/-- A literal between blanks, with its value. -/
inductive Padded : List Char → Value → Prop
  | within {front word back : List Char} {v : Value} (front_blank : Text.allBlank front = true)
      (written : Written word v) (back_blank : Text.allBlank back = true) :
      Padded (front ++ (word ++ back)) v

theorem read_eq_ok_iff {text : List Char} {v : Value} : read text = .ok v ↔ Padded text v := by
  constructor
  · intro read_eq
    obtain ⟨front, back, frontBlank, backBlank, shape⟩ := Text.exists_padding text
    rw [shape]
    exact .within frontBlank (written_of_read read_eq) backBlank
  · rintro ⟨frontBlank, written, backBlank⟩
    rw [read, Text.trim_append_left frontBlank, Text.trim_append_right _ backBlank,
      written.atom.trim_eq_self, value?_eq_some_iff.mpr written]

theorem reads_iff {text : List Char} : Reads text ↔ ∃ v, Padded text v := by
  simp only [Reads, read_eq_ok_iff]

end Literal

namespace Call

variable {s name inner : List Char}

/-- The texts between the parentheses of calls, with the values of the arguments. -/
inductive Arguments : List Char → List Value → Prop
  | none {inner : List Char} (blank : Text.allBlank inner = true) : Arguments inner []
  | joined {texts : List (List Char)} {args : List Value} (some_ : texts ≠ [])
      (padded : List.Forall₂ Literal.Padded texts args) :
      Arguments ([','].intercalate texts) args

/-- The texts of calls, with nothing around them. -/
inductive Written : List Char → Call → Prop
  | call {name pad inner : List Char} {args : List Value} (named : Text.isName name = true)
      (blank : Text.allBlank pad = true) (arguments : Arguments inner args) :
      Written (name ++ (pad ++ '(' :: (inner ++ [')']))) ⟨String.ofList name, args⟩

/-- The texts that lack the outline of a call. -/
inductive Shapeless : List Char → Prop
  /-- No parenthesis is opened. -/
  | unopened {s : List Char} (absent : '(' ∉ s) : Shapeless s
  /-- What comes behind the first parenthesis does not end with a closing one. -/
  | unclosed {before after : List Char} (first : '(' ∉ before) (open_ : ¬ [')'] <:+ after) :
      Shapeless (before ++ '(' :: after)
  /-- What comes in front of it is no name. -/
  | unnamed {before after : List Char} (first : '(' ∉ before)
      (unnamed : Text.isName (Text.trimEnd before) = false) : Shapeless (before ++ '(' :: after)

/-- The texts that have the outline of a call, each with the leftmost argument piece that is
no literal. -/
inductive Spoilt : List Char → List Char → Prop
  | argument {name pad inner piece : List Char} {earlier later : List (List Char)}
      (named : Text.isName name = true) (blank : Text.allBlank pad = true)
      (filled : Text.allBlank inner = false)
      (parted : Text.Parted ',' inner (earlier ++ piece :: later))
      (literals : ∀ other ∈ earlier, ∃ v, Literal.Padded other v)
      (found : ¬ ∃ v, Literal.Padded piece v) :
      Spoilt (name ++ (pad ++ '(' :: (inner ++ [')']))) piece

/-! ## Outlines -/

theorem outline?_eq_some_iff : outline? s = some (name, inner) ↔
    ∃ pad, Text.allBlank pad = true ∧ Text.isName name = true ∧
      s = name ++ (pad ++ '(' :: (inner ++ [')'])) := by
  refine ⟨exists_of_outline?, ?_⟩
  rintro ⟨pad, blank, named, rfl⟩
  have absent : '(' ∉ name ++ pad := by
    intro inside
    rcases List.mem_append.mp inside with inName | inPad
    · exact Text.not_mem_of_isName named (by decide) inName
    · exact absurd (Text.allBlank_iff.mp blank _ inPad) (by decide)
  have bare : Text.trimEnd (name ++ pad) = name := by
    rw [Text.trimEnd_append_right name blank,
      Text.trimEnd_eq_self (Text.atom_of_isName named).endsBlank_eq_false]
  rw [← List.append_assoc, outline?, Text.takeWhile_bne absent, Text.dropWhile_bne absent, bare]
  simp [named]

theorem outline?_append_cons {before after : List Char} (first : '(' ∉ before) :
    outline? (before ++ '(' :: after) =
      if after.getLast? == some ')' && Text.isName (Text.trimEnd before) then
        some (Text.trimEnd before, after.dropLast)
      else none := by
  rw [outline?, Text.takeWhile_bne first, Text.dropWhile_bne first]

theorem outline?_eq_none_iff : outline? s = none ↔ Shapeless s := by
  constructor
  · intro none_
    by_cases absent : '(' ∉ s
    · exact .unopened absent
    · obtain ⟨before, after, rfl, first⟩ := List.eq_append_cons_of_mem (not_not.mp absent)
      rw [outline?_append_cons first] at none_
      by_cases closed : [')'] <:+ after
      · obtain ⟨front, rfl⟩ := closed
        exact .unnamed first (by simpa using none_)
      · exact .unclosed first closed
  · rintro (absent | ⟨first, open_⟩ | ⟨first, unnamed⟩)
    · have nothing : s.dropWhile (· != '(') = [] := by
        rw [List.dropWhile_eq_nil_iff]
        intro c inside
        simpa using fun same : c = '(' => absent (same ▸ inside)
      rw [outline?, nothing]
    · rw [outline?_append_cons first, if_neg]
      simp only [Bool.and_eq_true, beq_iff_eq, not_and]
      intro closes
      obtain ⟨front, rfl⟩ := List.getLast?_eq_some_iff.mp closes
      exact absurd ⟨front, rfl⟩ open_
    · rw [outline?_append_cons first, if_neg (by simp [unnamed])]

/-! ## Arguments -/

variable {texts : List (List Char)} {args : List Value}

theorem mapM_read_eq_ok_iff_forall₂ :
    texts.mapM Literal.read = .ok args ↔ List.Forall₂ Literal.Padded texts args := by
  rw [mapM_read_eq_ok_iff]
  induction texts generalizing args with
  | nil => cases args <;> simp
  | cons text rest ih =>
      cases args with
      | nil => simp
      | cons v args =>
          rw [List.map_cons, List.map_cons, List.cons.injEq, List.forall₂_cons,
            Literal.read_eq_ok_iff, ih]

/-- Argument texts that are not read together have a leftmost one that is no literal. -/
theorem mapM_read_eq_error_iff {e : ReadError} :
    texts.mapM Literal.read = .error e ↔
      ∃ earlier piece later, texts = earlier ++ piece :: later ∧
        (∀ other ∈ earlier, Literal.Reads other) ∧ ¬ Literal.Reads piece ∧
          e = .notALiteral (String.ofList (Text.trim piece)) := by
  constructor
  · intro read_eq
    have some_ : ∃ text ∈ texts, ¬ Literal.Reads text := by
      by_contra none_
      obtain ⟨values, all⟩ := exists_mapM_read_eq_ok_iff.mpr
        fun text inside => not_not.mp fun other => none_ ⟨text, inside, other⟩
      simp [all] at read_eq
    obtain ⟨piece, first⟩ : ∃ piece, texts.find? (fun text => !decide (Literal.Reads text)) =
        some piece := Option.isSome_iff_exists.mp (List.find?_isSome.mpr (by simpa using some_))
    obtain ⟨other, earlier, later, rfl, literals⟩ := List.find?_eq_some_iff_append.mp first
    have found : ¬ Literal.Reads piece := by simpa using other
    have literals : ∀ text ∈ earlier, Literal.Reads text := by simpa using literals
    rw [mapM_read_of_leftmost literals found] at read_eq
    exact ⟨earlier, piece, later, rfl, literals, found, (Except.error.inj read_eq).symm⟩
  · rintro ⟨earlier, piece, later, rfl, literals, found, rfl⟩
    exact mapM_read_of_leftmost literals found

/-- What stands between the parentheses is read as the arguments that it writes. -/
theorem mapM_read_argTexts_eq_ok_iff :
    (argTexts inner).mapM Literal.read = .ok args ↔ Arguments inner args := by
  constructor
  · intro read_eq
    by_cases blank : Text.allBlank inner = true
    · rw [argTexts, if_pos blank] at read_eq
      obtain rfl : [] = args := Except.ok.inj read_eq
      exact .none blank
    · rw [argTexts, if_neg blank, mapM_read_eq_ok_iff_forall₂] at read_eq
      have joined := Text.intercalate_splitOutsideQuotes ',' none inner
      have arguments := Arguments.joined (Text.splitOutsideQuotes_ne_nil ',' none inner) read_eq
      rwa [joined] at arguments
  · rintro (blank | ⟨some_, padded⟩)
    · rw [argTexts, if_pos blank]
      rfl
    · rename_i texts
      have values := mapM_read_eq_ok_iff_forall₂.mpr padded
      have reads : ∀ text ∈ texts, Literal.Reads text := exists_mapM_read_eq_ok_iff.mp ⟨_, values⟩
      have solid (text : List Char) (alone : texts = [text]) : Text.allBlank text = false :=
        (reads text (by simp [alone])).allBlank_eq_false
      rw [argTexts_intercalate (fun text inside => .inl (reads text inside)) solid]
      exact values

/-! ## Calls -/

theorem read_of_outline?_eq_some (outlined : outline? (Text.trim s) = some (name, inner)) :
    read s = ((argTexts inner).mapM Literal.read).map (Call.mk (String.ofList name)) := by
  rw [read, outlined]
  rfl

theorem Written.isSome_outline? {call : Call} (written : Written s call) :
    (outline? s).isSome = true := by
  obtain ⟨named, blank, -⟩ := written
  rw [outline?_eq_some_iff.mpr ⟨_, blank, named, rfl⟩, Option.isSome_some]

theorem Spoilt.isSome_outline? {piece : List Char} (spoilt : Spoilt s piece) :
    (outline? s).isSome = true := by
  obtain ⟨named, blank, -, -, -, -⟩ := spoilt
  rw [outline?_eq_some_iff.mpr ⟨_, blank, named, rfl⟩, Option.isSome_some]

/-- A text with an outline is a call if what its parentheses hold are arguments. -/
theorem written_iff_of_outline?_eq_some (outlined : outline? s = some (name, inner))
    {call : Call} :
    Written s call ↔ Arguments inner call.args ∧ call.name = String.ofList name := by
  constructor
  · rintro ⟨named, blank, arguments⟩
    rw [outline?_eq_some_iff.mpr ⟨_, blank, named, rfl⟩] at outlined
    obtain ⟨rfl, rfl⟩ := Prod.mk.inj (Option.some.inj outlined)
    exact ⟨arguments, rfl⟩
  · rintro ⟨arguments, same⟩
    obtain ⟨pad, blank, named, rfl⟩ := outline?_eq_some_iff.mp outlined
    obtain ⟨callName, args⟩ := call
    obtain rfl : callName = String.ofList name := same
    exact .call named blank arguments

/-- A text with an outline is spoilt by the leftmost argument text that is no literal. -/
theorem spoilt_iff_of_outline?_eq_some (outlined : outline? s = some (name, inner))
    {piece : List Char} : Spoilt s piece ↔
      ∃ earlier later, argTexts inner = earlier ++ piece :: later ∧
        (∀ other ∈ earlier, Literal.Reads other) ∧ ¬ Literal.Reads piece := by
  constructor
  · rintro ⟨named, blank, filled, parted, literals, found⟩
    rename_i earlier later
    rw [outline?_eq_some_iff.mpr ⟨_, blank, named, rfl⟩] at outlined
    obtain ⟨rfl, rfl⟩ := Prod.mk.inj (Option.some.inj outlined)
    refine ⟨earlier, later, ?_, fun other inside => Literal.reads_iff.mpr (literals other inside),
      fun reads => found (Literal.reads_iff.mp reads)⟩
    rw [argTexts, if_neg (by simp [filled]), parted.splitOutsideQuotes_eq]
  · rintro ⟨earlier, later, pieces, literals, found⟩
    obtain ⟨pad, blank, named, rfl⟩ := outline?_eq_some_iff.mp outlined
    rw [argTexts] at pieces
    split at pieces
    · simp at pieces
    · rename_i filled
      exact .argument named blank (by simpa using filled) (Text.parted_iff.mpr pieces)
        (fun other inside => Literal.reads_iff.mp (literals other inside))
        fun reads => found (Literal.reads_iff.mpr reads)

theorem read_eq_ok_iff {call : Call} : read s = .ok call ↔ Written (Text.trim s) call := by
  cases outlined : outline? (Text.trim s) with
  | none =>
      refine iff_of_false (by simp [read, outlined]) fun written => ?_
      simpa [outlined] using written.isSome_outline?
  | some parts =>
      obtain ⟨name, inner⟩ := parts
      rw [read_of_outline?_eq_some outlined, written_iff_of_outline?_eq_some outlined,
        ← mapM_read_argTexts_eq_ok_iff]
      cases (argTexts inner).mapM Literal.read with
      | error e => simp [Except.map]
      | ok args =>
          obtain ⟨callName, callArgs⟩ := call
          simp [Except.map, and_comm, eq_comm]

/-- A text that is no call is refused as such if it lacks the outline of one, and otherwise for
its leftmost piece that is no literal. -/
theorem read_eq_error_iff {e : ReadError} : read s = .error e ↔
    (Shapeless (Text.trim s) ∧ e = .notACall (String.ofList (Text.trim s))) ∨
    ∃ piece, Spoilt (Text.trim s) piece ∧
      e = .notALiteral (String.ofList (Text.trim piece)) := by
  cases outlined : outline? (Text.trim s) with
  | none =>
      have refused : read s = .error (.notACall (String.ofList (Text.trim s))) := by
        rw [read, outlined]
      have shapeless := outline?_eq_none_iff.mp outlined
      rw [refused, Except.error.injEq, eq_comm, or_iff_left, and_iff_right shapeless]
      rintro ⟨piece, spoilt, -⟩
      simpa [outlined] using spoilt.isSome_outline?
  | some parts =>
      obtain ⟨name, inner⟩ := parts
      have whole : ¬ Shapeless (Text.trim s) := by simp [← outline?_eq_none_iff, outlined]
      have errors : ((argTexts inner).mapM Literal.read).map (Call.mk (String.ofList name)) =
          .error e ↔ (argTexts inner).mapM Literal.read = .error e := by
        cases (argTexts inner).mapM Literal.read <;> simp [Except.map]
      rw [read_of_outline?_eq_some outlined]
      simp only [errors, mapM_read_eq_error_iff, spoilt_iff_of_outline?_eq_some outlined, whole,
        false_and, false_or]
      constructor
      · rintro ⟨earlier, piece, later, pieces, literals, found, told⟩
        exact ⟨piece, ⟨earlier, later, pieces, literals, found⟩, told⟩
      · rintro ⟨piece, ⟨earlier, later, pieces, literals, found⟩, told⟩
        exact ⟨earlier, piece, later, pieces, literals, found, told⟩

/-- A text is read as the call that it writes between blanks. Any other text is refused: as no
call if it lacks the outline of one, and otherwise for its leftmost piece that is no literal. -/
theorem read_classifies (s : List Char) :
    (∀ call, read s = .ok call ↔ Written (Text.trim s) call) ∧
    (∀ e, read s = .error e ↔
      (Shapeless (Text.trim s) ∧ e = .notACall (String.ofList (Text.trim s))) ∨
      ∃ piece, Spoilt (Text.trim s) piece ∧
        e = .notALiteral (String.ofList (Text.trim piece))) :=
  ⟨fun _ => read_eq_ok_iff, fun _ => read_eq_error_iff⟩

/-- Of two arguments that are no literals the left one is reported, and the comma in the quoted
argument in front of them parts nothing. -/
example : read "f ('a, b', x y , 2, z)".toList = .error (.notALiteral "x y") := rfl

end Call

end Kata
