/-
# Cutting an expression at byte offsets

A text can be compiled without ever looking at its characters: go through its bytes, keep the
offset of the last operator outside quotes, cut there and go on with the two sides. An offset
inside a character would be no place to cut at. Here it is shown that none of the offsets is
one, whatever characters the text has, since the operators, the space, the comma and the quotes
are ASCII; that the two sides are shorter than the text, so that the cutting ends; and that the
tree is the one the compiler of characters finds. The same holds for the commas between
arguments.
-/

import Kata.Proofs.Expr.Split
import Kata.Proofs.Text.Encoded
import Kata.Proofs.Text.Parted

namespace Kata.Expr

variable {ops : List Op} {op : Op} {quote : Option Char} {s left right : List Char}
  {text : String} {place : Nat} {found : Option (Nat × Op)}

/-! ## Looking for an operator -/

/-- Whether some bytes begin with an operator and a space. -/
def standsAt (op : Op) (rest : List UInt8) : Bool :=
  (Text.bytes op.symbol).isPrefixOf rest &&
    rest[(Text.bytes op.symbol).length]? == some ' '.toUInt8

/-- The place and the operator that the bytes behind an open space begin with, or else what has
been found before. -/
def placeAt (ops : List Op) (place : Nat) (found : Option (Nat × Op)) (rest : List UInt8) :
    Option (Nat × Op) :=
  ops.foldl (fun found op => if standsAt op rest then some (place, op) else found) found

/-- Go through bytes and keep the last operator between spaces outside quotes, with the offset
of the space in front of it. The numbers count the bytes. -/
def lastPlaceFrom (ops : List Op) :
    Option UInt8 → Nat → Option (Nat × Op) → List UInt8 → Option (Nat × Op)
  | _, _, found, [] => found
  | quote, place, found, b :: rest =>
    lastPlaceFrom ops (Text.afterByte quote b) (place + 1)
      (if quote.isNone && b == ' '.toUInt8 then placeAt ops place found rest else found) rest

/-- The place of the last of some operators in a text. -/
def lastPlace? (ops : List Op) (text : String) : Option (Nat × Op) :=
  lastPlaceFrom ops none 0 none (Text.bytes text)

theorem isAscii_space : Text.IsAscii ' ' := by decide

theorem isAscii_of_mem_symbol (op : Op) : ∀ c ∈ op.symbol.toList, Text.IsAscii c := by
  have all : op.symbol.toList.all (fun c => decide (Text.IsAscii c)) = true := by
    cases op <;> rfl
  simpa using all

theorem isPrefixOf_and_getElem? {α : Type} [BEq α] [LawfulBEq α] {word rest : List α} {b : α} :
    (word.isPrefixOf rest && rest[word.length]? == some b) = true ↔ word ++ [b] <+: rest := by
  rw [Bool.and_eq_true, List.isPrefixOf_iff_prefix, beq_iff_eq]
  constructor
  · rintro ⟨⟨behind, rfl⟩, next⟩
    rw [List.getElem?_append_right (Nat.le_refl _), Nat.sub_self] at next
    cases behind with
    | nil => simp at next
    | cons c behind =>
        obtain rfl : c = b := by simpa using next
        exact ⟨behind, by simp⟩
  · rintro ⟨behind, rfl⟩
    exact ⟨⟨b :: behind, by simp⟩, by simp⟩

theorem standsAt_encode :
    standsAt op (Text.encode s) = true ↔ op.symbol.toList ++ [' '] <+: s := by
  have spaced : ∀ c ∈ op.symbol.toList ++ [' '], Text.IsAscii c := by
    intro c inside
    rcases List.mem_append.mp inside with inside | inside
    · exact isAscii_of_mem_symbol op c inside
    · rw [List.mem_singleton.mp inside]
      exact isAscii_space
  rw [standsAt, isPrefixOf_and_getElem?, Text.bytes_eq_encode,
    Text.encode_eq_map (isAscii_of_mem_symbol op), ← Text.map_toUInt8_prefix_encode spaced,
    List.map_append, List.map_singleton]

/-- At most one operator fits at a place, so it does not matter in which order they are tried. -/
theorem placeAt_encode : placeAt ops place found (Text.encode s) =
    ((operatorAt? ops s).map fun cut => (place, cut.1)).or found := by
  induction ops generalizing found with
  | nil => rfl
  | cons op more ih =>
      rw [placeAt, List.foldl_cons, ← placeAt, ih]
      by_cases starts : op.symbol.toList ++ [' '] <+: s
      · rw [if_pos (standsAt_encode.mpr starts)]
        obtain ⟨right, rfl⟩ := starts
        rw [List.append_assoc, List.singleton_append, operatorAt?_symbol List.mem_cons_self]
        cases later : operatorAt? more (op.symbol.toList ++ ' ' :: right) with
        | none => rfl
        | some cut =>
            obtain ⟨other, rest⟩ := cut
            obtain ⟨rfl, -⟩ := symbol_append_injective (of_operatorAt?_eq_some later).2
            rfl
      · have absent : (op.symbol.toList ++ [' ']).isPrefixOf? s = none := by
          rw [Option.eq_none_iff_forall_ne_some]
          exact fun rest here => starts ⟨rest, Text.append_of_isPrefixOf? here⟩
        rw [if_neg (standsAt_encode.not.mpr starts), operatorAt?, operatorAt?,
          List.findSome?_cons, absent, Option.map_none]

/-- No operator is looked for inside a wider character. -/
theorem lastPlaceFrom_append_of_le (opened : ∀ q ∈ quote, Text.isQuote q = true)
    {wide : List UInt8} (above : ∀ b ∈ wide, 128 ≤ b.toNat) (place : Nat)
    (rest : List UInt8) :
    lastPlaceFrom ops (quote.map Char.toUInt8) place found (wide ++ rest) =
      lastPlaceFrom ops (quote.map Char.toUInt8) (place + wide.length) found rest := by
  induction wide generalizing place with
  | nil => rfl
  | cons b wide ih =>
      obtain ⟨here, later⟩ := List.forall_mem_cons.mp above
      rw [List.cons_append, lastPlaceFrom, Text.beq_toUInt8_eq_false isAscii_space here,
        Bool.and_false, if_neg Bool.false_ne_true, Text.afterByte_of_le opened here, ih later,
        List.length_cons, Nat.add_right_comm, Nat.add_assoc]

/-- The reader of bytes keeps the operator that the reader of characters cuts at. -/
theorem lastPlaceFrom_encode (opened : ∀ q ∈ quote, Text.isQuote q = true) :
    lastPlaceFrom ops (quote.map Char.toUInt8) place found (Text.encode s) =
      ((splitLast? ops quote s).map fun cut =>
        (place + (Text.encode cut.1).length, cut.2.1)).or found := by
  induction s generalizing quote place found with
  | nil => rfl
  | cons c rest ih =>
      rw [splitLast?]
      by_cases narrow : Text.IsAscii c
      · rw [Text.encode_cons_of_isAscii narrow, lastPlaceFrom, Option.isNone_map,
          Text.beq_toUInt8 narrow isAscii_space, Text.afterByte_toUInt8 opened narrow,
          ih (Text.isQuote_of_mem_afterChar opened)]
        cases splitLast? ops (Text.afterChar quote c) rest with
        | some cut =>
            simp only [Option.map_some, Option.some_or, Text.encode_cons_of_isAscii narrow,
              List.length_cons, Nat.add_assoc, Nat.add_comm 1]
        | none =>
            -- Nothing is found behind this character, so what is found at it counts.
            rw [Option.map_none, Option.none_or, placeAt_encode]
            dsimp only
            split
            · simp [Option.map_map, Function.comp_def]
            · rfl
      · -- One reader passes over several bytes and the other over one character.
        rw [Text.encode_cons, lastPlaceFrom_append_of_le opened fun b =>
            Text.le_toNat_of_mem_utf8EncodeChar narrow, Text.afterChar_of_not_isAscii opened narrow,
          ih opened, Text.beq_eq_false_of_not_isAscii narrow isAscii_space, Bool.and_false,
          if_neg Bool.false_ne_true]
        cases splitLast? ops quote rest with
        | some cut =>
            simp only [Option.map_some, Option.some_or, Text.encode_cons, List.length_append,
              Nat.add_assoc]
        | none => rfl

theorem lastPlace?_eq (ops : List Op) (text : String) :
    lastPlace? ops text = (splitLast? ops none text.toList).map fun cut =>
      ((String.ofList cut.1).utf8ByteSize, cut.2.1) := by
  have whole : lastPlaceFrom ops none 0 none (Text.encode text.toList) = _ :=
    lastPlaceFrom_encode Text.isQuote_of_mem_none
  simpa [lastPlace?, Text.bytes_eq_encode, Text.length_encode] using whole

/-! ## Cutting there -/

/-- The bytes of an operator with the space on either side. -/
def width (op : Op) : Nat := op.symbol.utf8ByteSize + 2

/-- The texts in front of an operator and behind it, the operator standing at an offset. There
are none if one of the offsets is no place to cut at. -/
def sides? (text : String) (place : Nat) (op : Op) : Option (String × String) := do
  let left ← Text.slice? text 0 place
  let right ← Text.slice? text (place + width op) text.utf8ByteSize
  return (left, right)

theorem sides?_eq_some_iff {left right : String} :
    sides? text place op = some (left, right) ↔ Text.slice? text 0 place = some left ∧
      Text.slice? text (place + width op) text.utf8ByteSize = some right := by
  simp [sides?, Option.bind_eq_some_iff]

/-- What is cut out of a text on both sides of an operator is shorter than the text. -/
theorem utf8ByteSize_lt_of_sides? {left right : String}
    (cut : sides? text place op = some (left, right)) :
    left.utf8ByteSize < text.utf8ByteSize ∧ right.utf8ByteSize < text.utf8ByteSize := by
  obtain ⟨front, back⟩ := sides?_eq_some_iff.mp cut
  obtain ⟨before, -, -, opens, closes⟩ := Text.slice?_eq_some_iff.mp front
  obtain ⟨skipped, -, -, start, stop⟩ := Text.slice?_eq_some_iff.mp back
  rw [String.utf8ByteSize_append] at closes stop
  rw [width] at start
  omega

theorem utf8ByteSize_trim_le (text : String) :
    (String.ofList (Text.trim text.toList)).utf8ByteSize ≤ text.utf8ByteSize := by
  obtain ⟨front, back, -, -, whole⟩ := Text.exists_padding text.toList
  have size := congrArg (fun s => (Text.encode s).length) whole
  simp only [Text.encode_append, List.length_append, Text.length_encode,
    String.ofList_toList] at size
  omega

/-- An operator stands in a text at an offset, a space on either side. Where it begins and where
it ends are places to cut at, and what is cut out in front of it and behind it is shorter than
the text. -/
structure CutsAt (text : String) (place : Nat) (op : Op) (left right : String) : Prop where
  spaced : Text.bytes (" " ++ op.symbol ++ " ") <+: (Text.bytes text).drop place
  opens : String.Pos.Raw.IsValid text ⟨place⟩
  closes : String.Pos.Raw.IsValid text ⟨place + width op⟩
  sides : sides? text place op = some (left, right)
  left_lt : left.utf8ByteSize < text.utf8ByteSize
  right_lt : right.utf8ByteSize < text.utf8ByteSize

/-- The tree of a text by a compiler that cuts at byte offsets. -/
def compileBytes? (text : String) : Option Expr :=
  let trimmed := String.ofList (Text.trim text.toList)
  match leaf? trimmed.toList with
  | some leaf => some leaf
  | none =>
    match Op.levels.findSome? fun ops => lastPlace? ops trimmed with
    | none => some (.invalid trimmed)
    | some (place, op) =>
      match _cut : sides? trimmed place op with
      | none => none
      | some (left, right) => do
        return .binary op (← compileBytes? left) (← compileBytes? right)
  termination_by text.utf8ByteSize
  decreasing_by
    · exact Nat.lt_of_lt_of_le (utf8ByteSize_lt_of_sides? _cut).1 (utf8ByteSize_trim_le text)
    · exact Nat.lt_of_lt_of_le (utf8ByteSize_lt_of_sides? _cut).2 (utf8ByteSize_trim_le text)

/-- How a text is made up that is cut at an operator. -/
theorem ofList_of_splitLast? (cut : splitLast? ops quote s = some (left, op, right)) :
    String.ofList s =
      String.ofList left ++ (" " ++ op.symbol ++ " ") ++ String.ofList right := by
  obtain ⟨-, rfl⟩ := of_splitLast?_eq_some cut
  rw [← String.toList_inj]
  simp

theorem utf8ByteSize_spaced (op : Op) : (" " ++ op.symbol ++ " ").utf8ByteSize = width op := by
  rw [String.utf8ByteSize_append, String.utf8ByteSize_append, width,
    show " ".utf8ByteSize = 1 from rfl]
  omega

/-- At the offset of an operator the two sides are the ones the reader of characters finds. -/
theorem sides?_of_splitLast? (cut : splitLast? ops quote s = some (left, op, right)) :
    sides? (String.ofList s) (String.ofList left).utf8ByteSize op =
      some (String.ofList left, String.ofList right) := by
  rw [ofList_of_splitLast? cut, sides?_eq_some_iff, Text.slice?_eq_some_iff,
    Text.slice?_eq_some_iff]
  refine ⟨⟨"", " " ++ op.symbol ++ " " ++ String.ofList right, ?_, rfl, ?_⟩,
    ⟨String.ofList left ++ (" " ++ op.symbol ++ " "), "", ?_, ?_, rfl⟩⟩
  · rw [String.empty_append, String.append_assoc]
  · rw [String.empty_append]
  · rw [String.append_empty]
  · rw [String.utf8ByteSize_append, utf8ByteSize_spaced]

/-- An operator that is found by its bytes cuts the text. -/
theorem exists_cutsAt (found : lastPlace? ops text = some (place, op)) :
    ∃ left right, CutsAt text place op left right := by
  rw [lastPlace?_eq, Option.map_eq_some_iff] at found
  obtain ⟨⟨left, last, right⟩, cut, same⟩ := found
  obtain ⟨rfl, rfl⟩ := Prod.mk.inj same
  have shape := ofList_of_splitLast? cut
  have sides := sides?_of_splitLast? cut
  rw [String.ofList_toList] at shape sides
  obtain ⟨front, back⟩ := sides?_eq_some_iff.mp sides
  have shorter := utf8ByteSize_lt_of_sides? sides
  refine ⟨String.ofList left, String.ofList right, ?_, (Text.isValid_of_slice? front).2.1,
    (Text.isValid_of_slice? back).1, sides, shorter.1, shorter.2⟩
  have whole : Text.bytes text = Text.bytes (String.ofList left) ++
      (Text.bytes (" " ++ last.symbol ++ " ") ++ Text.bytes (String.ofList right)) := by
    rw [← Text.bytes_append, ← Text.bytes_append, ← String.append_assoc, ← shape]
  rw [whole, ← Text.length_bytes, List.drop_left]
  exact List.prefix_append ..

theorem findSome?_lastPlace? (s : List Char) :
    (Op.levels.findSome? fun ops => lastPlace? ops (String.ofList s)) =
      (split? s).map fun cut => ((String.ofList cut.1).utf8ByteSize, cut.2.1) := by
  rw [split?, List.map_findSome?]
  simp only [lastPlace?_eq, String.toList_ofList, Function.comp_def]

/-- Cutting at byte offsets never fails, and leads to the tree of the text. -/
theorem compileBytes?_eq (text : String) :
    compileBytes? text = some (compile text.toList) := by
  generalize shape : text.toList = s
  obtain rfl : text = String.ofList s := by rw [← shape, String.ofList_toList]
  clear shape
  induction s using compile_induct with
  | leaf s tree single compiled =>
      rw [compileBytes?]
      simp only [String.toList_ofList, single, compiled]
  | cut s left op right single cut compiled ihLeft ihRight =>
      obtain ⟨ops, -, found⟩ := List.exists_of_findSome?_eq_some cut
      rw [compileBytes?]
      simp only [String.toList_ofList, single, findSome?_lastPlace?, cut, Option.map_some]
      split
      · rename_i missed
        rw [String.toList_ofList, sides?_of_splitLast? found] at missed
        cases missed
      · rename_i first second here
        rw [String.toList_ofList, sides?_of_splitLast? found, Option.some.injEq,
          Prod.mk.injEq] at here
        obtain ⟨rfl, rfl⟩ := here
        simp [ihLeft, ihRight, compiled]
  | invalid s uncut compiled =>
      rw [compileBytes?]
      cases single : leaf? (Text.trim s) with
      | some tree => simp [compile_eq s, single]
      | none => simp [single, findSome?_lastPlace?, uncut, compiled]

/-- A compiler and a splitter that go by bytes never cut a character in two. Whichever
operators are looked for in whichever text, they are found where the reader of characters finds
them, and they cut the text into two shorter ones; so the compiler always arrives at a tree, and
it is the tree of the text. The offsets between commas are places to cut at as well: they
delimit the pieces that the splitter of characters leaves, which make up the text again and
show no comma. -/
theorem byte_scans_cut_between_characters (ops : List Op) (text : String) :
    (lastPlace? ops text = (splitLast? ops none text.toList).map fun cut =>
        ((String.ofList cut.1).utf8ByteSize, cut.2.1)) ∧
      (∀ place op, lastPlace? ops text = some (place, op) →
        ∃ left right, CutsAt text place op left right) ∧
      compileBytes? text = some (compile text.toList) ∧
      (∀ range ∈ Text.ranges ',' text, String.Pos.Raw.IsValid text ⟨range.1⟩ ∧
        String.Pos.Raw.IsValid text ⟨range.2⟩ ∧ range.1 ≤ range.2) ∧
      ∃ pieces : List String,
        ((Text.ranges ',' text).map fun range => Text.slice? text range.1 range.2) =
            pieces.map some ∧
          pieces.map String.toList = Text.splitOutsideQuotes ',' none text.toList ∧
          ",".intercalate pieces = text ∧
          ∀ piece ∈ pieces, Text.Hides ',' none piece.toList := by
  have comma : Text.IsAscii ',' := by decide
  refine ⟨lastPlace?_eq ops text, fun place op => exists_cutsAt, compileBytes?_eq text,
    Text.isValid_of_mem_ranges comma text,
    (Text.splitOutsideQuotes ',' none text.toList).map String.ofList, ?_, ?_, ?_, ?_⟩
  · rw [Text.map_slice?_ranges comma, List.map_map]
    rfl
  · simp [Function.comp_def]
  · rw [← String.toList_inj, String.toList_intercalate]
    simpa [Function.comp_def] using
      Text.intercalate_splitOutsideQuotes ',' none text.toList
  · intro piece inside
    obtain ⟨s, cut, rfl⟩ := List.mem_map.mp inside
    rw [String.toList_ofList]
    exact (Text.parted_splitOutsideQuotes ',' text.toList).hides s cut

/-- A quoted plus sign behind a character of two bytes is passed over, and the sum is cut at the
plus sign behind the quotes. -/
theorem byte_scans_cut_behind_wide_quotes :
    lastPlace? [.add, .sub] "'é + ' + ü" = some (7, .add) ∧
      ∃ left right, CutsAt "'é + ' + ü" 7 .add left right := by
  have found : lastPlace? [.add, .sub] "'é + ' + ü" = some (7, .add) := by decide
  exact ⟨found, (byte_scans_cut_between_characters [.add, .sub] "'é + ' + ü").2.1 7 .add found⟩

end Kata.Expr
