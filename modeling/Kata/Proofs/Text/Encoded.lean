/-
# Texts as bytes

A reader may go through a text byte by byte and cut it at byte offsets. What it looks for are
ASCII characters, and of these each is one byte that occurs in no other character, so it finds
them where a reader of characters finds them. An offset is a place to cut only if it lies
between two characters; a part of a text is given here by two offsets, and there is none if one
of them lies elsewhere.
-/

import Kata.Proofs.Text.Parted
import Mathlib.Data.List.Basic

namespace Kata.Text

/-! ## Encoding -/

/-- The bytes of some characters, in UTF-8. -/
def encode (s : List Char) : List UInt8 := s.flatMap String.utf8EncodeChar

/-- The bytes of a text. -/
def bytes (text : String) : List UInt8 := text.toUTF8.data.toList

variable {s t : List Char} {c d : Char} {b : UInt8}

@[simp]
theorem encode_nil : encode [] = [] := rfl

theorem encode_cons (c : Char) (s : List Char) :
    encode (c :: s) = String.utf8EncodeChar c ++ encode s := List.flatMap_cons

@[simp]
theorem encode_append (s t : List Char) : encode (s ++ t) = encode s ++ encode t :=
  List.flatMap_append

theorem bytes_eq_encode (text : String) : bytes text = encode text.toList := by
  conv_lhs => rw [← String.ofList_toList (s := text)]
  rw [bytes, String.toUTF8_eq_toByteArray, String.toByteArray_ofList, List.utf8Encode,
    List.data_toByteArray, encode]

@[simp]
theorem bytes_append (text other : String) : bytes (text ++ other) = bytes text ++ bytes other := by
  simp [bytes_eq_encode]

theorem length_bytes (text : String) : (bytes text).length = text.utf8ByteSize := rfl

theorem length_encode (s : List Char) : (encode s).length = (String.ofList s).utf8ByteSize := by
  rw [← length_bytes, bytes_eq_encode, String.toList_ofList]

/-- A character of one byte. -/
def IsAscii (c : Char) : Prop := c.toNat < 128

instance (c : Char) : Decidable (IsAscii c) := inferInstanceAs (Decidable (_ < _))

theorem utf8EncodeChar_of_isAscii (ascii : IsAscii c) :
    String.utf8EncodeChar c = [c.toUInt8] := by
  have small : c.val ≤ 127 := by
    rw [UInt32.le_iff_toNat_le]
    exact Nat.le_of_lt_succ ascii
  rw [String.utf8EncodeChar_eq_singleton (Char.utf8Size_eq_one_iff.mpr small)]
  rfl

theorem encode_cons_of_isAscii (ascii : IsAscii c) (s : List Char) :
    encode (c :: s) = c.toUInt8 :: encode s := by
  rw [encode_cons, utf8EncodeChar_of_isAscii ascii, List.singleton_append]

theorem encode_eq_map (ascii : ∀ c ∈ s, IsAscii c) : encode s = s.map Char.toUInt8 := by
  induction s with
  | nil => rfl
  | cons c rest ih =>
      obtain ⟨first, later⟩ := List.forall_mem_cons.mp ascii
      rw [encode_cons_of_isAscii first, ih later, List.map_cons]

/-- ASCII characters are told by their bytes. -/
theorem toUInt8_inj (first : IsAscii c) (second : IsAscii d) : c.toUInt8 = d.toUInt8 ↔ c = d := by
  have value {c : Char} (ascii : IsAscii c) : c.toUInt8.toNat = c.toNat := by
    rw [Char.toUInt8, UInt32.toNat_toUInt8]
    exact Nat.mod_eq_of_lt (Nat.lt_trans ascii (by decide))
  rw [← UInt8.toNat_inj, value first, value second, Char.toNat_inj]

theorem beq_toUInt8 (first : IsAscii c) (second : IsAscii d) :
    (c.toUInt8 == d.toUInt8) = (c == d) := by
  rw [Bool.eq_iff_iff, beq_iff_eq, beq_iff_eq, toUInt8_inj first second]

theorem beq_eq_false_of_not_isAscii (wide : ¬ IsAscii c) (ascii : IsAscii d) :
    (c == d) = false := by
  rw [beq_eq_false_iff_ne]
  rintro rfl
  exact wide ascii

/-- All bytes of a wider character lie above ASCII. -/
theorem le_toNat_of_mem_utf8EncodeChar (wide : ¬ IsAscii c)
    (inside : b ∈ String.utf8EncodeChar c) : 128 ≤ b.toNat := by
  have wide : ¬ c.val.toNat ≤ 127 := fun small => wide (Nat.lt_succ_of_le small)
  simp only [String.utf8EncodeChar, if_neg wide] at inside
  split at inside
  · simp only [List.mem_cons, List.not_mem_nil, or_false] at inside
    rcases inside with rfl | rfl <;> simp only [UInt8.toNat_ofNat'] <;> omega
  · split at inside
    · simp only [List.mem_cons, List.not_mem_nil, or_false] at inside
      rcases inside with rfl | rfl | rfl <;> simp only [UInt8.toNat_ofNat'] <;> omega
    · simp only [List.mem_cons, List.not_mem_nil, or_false] at inside
      rcases inside with rfl | rfl | rfl | rfl <;> simp only [UInt8.toNat_ofNat'] <;> omega

theorem beq_toUInt8_eq_false (ascii : IsAscii c) (above : 128 ≤ b.toNat) :
    (b == c.toUInt8) = false := by
  rw [beq_eq_false_iff_ne]
  rintro rfl
  rw [Char.toUInt8, UInt32.toNat_toUInt8] at above
  have small : c.val.toNat < 128 := ascii
  omega

/-- An ASCII word stands at the front of a text exactly if its bytes do. -/
theorem map_toUInt8_prefix_encode {word : List Char} (ascii : ∀ d ∈ word, IsAscii d) :
    word.map Char.toUInt8 <+: encode s ↔ word <+: s := by
  induction word generalizing s with
  | nil => simp
  | cons d word ih =>
      obtain ⟨first, later⟩ := List.forall_mem_cons.mp ascii
      cases s with
      | nil => simp
      | cons c rest =>
          rw [List.map_cons, List.cons_prefix_cons]
          by_cases narrow : IsAscii c
          · rw [encode_cons_of_isAscii narrow, List.cons_prefix_cons, ih later,
              toUInt8_inj first narrow]
          · -- The character there is wider, so its first byte is no byte of the word.
            obtain ⟨b, more, shape⟩ := List.exists_cons_of_ne_nil
              (show String.utf8EncodeChar c ≠ [] by simp)
            have above : 128 ≤ b.toNat :=
              le_toNat_of_mem_utf8EncodeChar narrow (shape ▸ List.mem_cons_self)
            have other : b ≠ d.toUInt8 := beq_eq_false_iff_ne.mp (beq_toUInt8_eq_false first above)
            have apart : c ≠ d :=
              beq_eq_false_iff_ne.mp (beq_eq_false_of_not_isAscii narrow first)
            rw [encode_cons, shape, List.cons_append, List.cons_prefix_cons]
            simp [other.symm, apart.symm]

/-! ## Open quotes -/

/-- The quote that a reader of bytes is inside of after one more byte. -/
def afterByte : Option UInt8 → UInt8 → Option UInt8
  | some quote, b => if b == quote then none else some quote
  | none, b => if b == doubleQuote.toUInt8 || b == singleQuote.toUInt8 then some b else none

variable {quote : Option Char}

theorem isAscii_of_isQuote (quoted : isQuote c = true) : IsAscii c := by
  simp only [isQuote, Bool.or_eq_true, beq_iff_eq] at quoted
  rcases quoted with rfl | rfl <;> decide

theorem isQuote_of_mem_none : ∀ q ∈ (none : Option Char), isQuote q = true := by simp

/-- Only quotes are ever open. -/
theorem isQuote_of_mem_afterChar (opened : ∀ q ∈ quote, isQuote q = true) :
    ∀ q ∈ afterChar quote c, isQuote q = true := by
  intro q inside
  cases quote with
  | none =>
      rw [afterChar, Option.mem_def, Option.ite_none_right_eq_some] at inside
      obtain ⟨quoted, same⟩ := inside
      exact Option.some.inj same ▸ quoted
  | some open_ =>
      rw [afterChar, Option.mem_def, Option.ite_none_left_eq_some] at inside
      exact opened q inside.2

/-- On ASCII both readers agree about the quote that is open. -/
theorem afterByte_toUInt8 (opened : ∀ q ∈ quote, isQuote q = true) (ascii : IsAscii c) :
    afterByte (quote.map Char.toUInt8) c.toUInt8 = (afterChar quote c).map Char.toUInt8 := by
  have same {d : Char} (quoted : isQuote d = true) : (c.toUInt8 == d.toUInt8) = (c == d) :=
    beq_toUInt8 ascii (isAscii_of_isQuote quoted)
  cases quote with
  | none =>
      rw [Option.map_none, afterByte, afterChar, same (by decide), same (by decide)]
      change (if isQuote c then some c.toUInt8 else none) = _
      split <;> rfl
  | some q =>
      rw [Option.map_some, afterByte, afterChar, same (opened q rfl)]
      split <;> rfl

/-- Bytes above ASCII neither open nor close a quote. -/
theorem afterByte_of_le (opened : ∀ q ∈ quote, isQuote q = true) (above : 128 ≤ b.toNat) :
    afterByte (quote.map Char.toUInt8) b = quote.map Char.toUInt8 := by
  have other {d : Char} (quoted : isQuote d = true) : (b == d.toUInt8) = false :=
    beq_toUInt8_eq_false (isAscii_of_isQuote quoted) above
  cases quote with
  | none =>
      rw [Option.map_none, afterByte, other (by decide), other (by decide)]
      rfl
  | some q =>
      rw [Option.map_some, afterByte, other (opened q rfl)]
      rfl

theorem afterChar_of_not_isAscii (opened : ∀ q ∈ quote, isQuote q = true) (wide : ¬ IsAscii c) :
    afterChar quote c = quote := by
  cases quote with
  | none =>
      rw [afterChar, if_neg]
      exact fun quoted => wide (isAscii_of_isQuote quoted)
  | some q =>
      have ascii : IsAscii q := isAscii_of_isQuote (opened q rfl)
      rw [afterChar, beq_eq_false_of_not_isAscii wide ascii, if_neg Bool.false_ne_true]

/-! ## Offsets -/

/-- The part of a text between two byte offsets. There is none if one of them lies inside a
character or beyond the end, or if they are not in order. -/
def slice? (text : String) (start stop : Nat) : Option String := do
  let first ← text.pos? ⟨start⟩
  let last ← text.pos? ⟨stop⟩
  if first ≤ last then some (String.extract first last) else none

variable {text part : String} {start stop : Nat}

theorem pos?_eq_some_iff {offset : String.Pos.Raw} {p : text.Pos} :
    text.pos? offset = some p ↔ p.offset = offset := by
  rw [String.pos?, String.Slice.pos?, Option.map_eq_some_iff]
  constructor
  · rintro ⟨q, found, rfl⟩
    rw [Option.dite_none_right_eq_some] at found
    obtain ⟨valid, same⟩ := found
    rw [String.Pos.offset_ofToSlice, ← Option.some.inj same, String.Slice.offset_pos]
  · rintro rfl
    have valid : String.Pos.Raw.isValidForSlice text.toSlice p.offset = true := by
      rw [String.Pos.Raw.isValidForSlice_eq_true_iff, String.Pos.Raw.isValidForSlice_toSlice_iff]
      exact p.isValid
    exact ⟨_, dif_pos valid, String.Pos.ext rfl⟩

/-- A part of a text is what two other parts leave of it. -/
theorem slice?_eq_some_iff : slice? text start stop = some part ↔
    ∃ before after, text = before ++ part ++ after ∧ start = before.utf8ByteSize ∧
      stop = (before ++ part).utf8ByteSize := by
  have found : slice? text start stop = some part ↔ ∃ first last : text.Pos,
      first.offset = ⟨start⟩ ∧ last.offset = ⟨stop⟩ ∧
        ∃ ordered, (text.slice first last ordered).copy = part := by
    simp only [slice?, bind, Option.bind_eq_some_iff, pos?_eq_some_iff,
      Option.ite_none_right_eq_some, Option.some.injEq]
    constructor
    · rintro ⟨first, opens, last, closes, ordered, rfl⟩
      exact ⟨first, last, opens, closes, ordered, (String.extract_eq_copy_slice ..).symm⟩
    · rintro ⟨first, last, opens, closes, ordered, rfl⟩
      exact ⟨first, opens, last, closes, ordered, String.extract_eq_copy_slice ..⟩
  rw [found]
  constructor
  · rintro ⟨first, last, opens, closes, cut⟩
    obtain ⟨before, after, front, back⟩ := String.copy_slice_eq_iff_splits.mp cut
    refine ⟨before, after, back.eq_append, ?_, ?_⟩
    · exact congrArg String.Pos.Raw.byteIdx (opens.symm.trans front.offset_eq_rawEndPos)
    · exact congrArg String.Pos.Raw.byteIdx (closes.symm.trans back.offset_eq_rawEndPos)
  · rintro ⟨before, after, rfl, rfl, rfl⟩
    have front : String.Pos.Raw.IsValid (before ++ part ++ after) before.rawEndPos :=
      String.Pos.Raw.isValid_iff_exists_append.mpr ⟨_, _, String.append_assoc .., rfl⟩
    have back : String.Pos.Raw.IsValid (before ++ part ++ after) (before ++ part).rawEndPos :=
      String.Pos.Raw.isValid_iff_exists_append.mpr ⟨_, _, rfl, rfl⟩
    exact ⟨⟨_, front⟩, ⟨_, back⟩, rfl, rfl, String.copy_slice_eq_iff_splits.mpr
      ⟨before, after, ⟨String.append_assoc .., rfl⟩, ⟨rfl, rfl⟩⟩⟩

/-- Whatever is cut out of a text reaches from one place between characters to another. -/
theorem isValid_of_slice? (cut : slice? text start stop = some part) :
    String.Pos.Raw.IsValid text ⟨start⟩ ∧ String.Pos.Raw.IsValid text ⟨stop⟩ ∧ start ≤ stop := by
  obtain ⟨before, after, rfl, rfl, rfl⟩ := slice?_eq_some_iff.mp cut
  refine ⟨?_, ?_, ?_⟩
  · exact String.Pos.Raw.isValid_iff_exists_append.mpr ⟨_, _, String.append_assoc, rfl⟩
  · exact String.Pos.Raw.isValid_iff_exists_append.mpr ⟨_, _, rfl, rfl⟩
  · rw [String.utf8ByteSize_append]
    exact Nat.le_add_right ..

/-! ## Pieces -/

/-- Go through bytes and note from where to where each piece reaches, the pieces ending at the
separators outside quotes. The numbers are the offset at which the piece here began and the
offset of the next byte. -/
def rangesFrom (separator : UInt8) : Option UInt8 → Nat → Nat → List UInt8 → List (Nat × Nat)
  | _, start, place, [] => [(start, place)]
  | quote, start, place, b :: rest =>
    if quote.isNone && b == separator then
      (start, place) :: rangesFrom separator none (place + 1) (place + 1) rest
    else rangesFrom separator (afterByte quote b) start (place + 1) rest

/-- Where the pieces of a text lie. -/
def ranges (separator : Char) (text : String) : List (Nat × Nat) :=
  rangesFrom separator.toUInt8 none 0 0 (bytes text)

/-- Where pieces lie that follow one another from an offset on with one byte between them. -/
def spans : Nat → List (List Char) → List (Nat × Nat)
  | _, [] => []
  | start, piece :: more =>
    (start, start + (encode piece).length) :: spans (start + (encode piece).length + 1) more

/-- No piece ends in a wider character. -/
theorem rangesFrom_append_of_le (ascii : IsAscii c) (opened : ∀ q ∈ quote, isQuote q = true)
    {wide : List UInt8} (above : ∀ b ∈ wide, 128 ≤ b.toNat) (start place : Nat)
    (rest : List UInt8) :
    rangesFrom c.toUInt8 (quote.map Char.toUInt8) start place (wide ++ rest) =
      rangesFrom c.toUInt8 (quote.map Char.toUInt8) start (place + wide.length) rest := by
  induction wide generalizing place with
  | nil => rfl
  | cons b wide ih =>
      obtain ⟨here, later⟩ := List.forall_mem_cons.mp above
      rw [List.cons_append, rangesFrom, beq_toUInt8_eq_false ascii here, Bool.and_false,
        if_neg Bool.false_ne_true, afterByte_of_le opened here, ih later, List.length_cons,
        Nat.add_right_comm, Nat.add_assoc]

theorem modifyHead_spans_self (place : Nat) (pieces : List (List Char)) :
    (spans place pieces).modifyHead (fun range => (place, range.2)) = spans place pieces := by
  cases pieces <;> rfl

/-- A piece that began earlier and has one more character here. -/
theorem modifyHead_spans_cons (start place : Nat) (c : Char) (pieces : List (List Char)) :
    (spans place (pieces.modifyHead (c :: ·))).modifyHead (fun range => (start, range.2)) =
      (spans (place + (String.utf8EncodeChar c).length) pieces).modifyHead
        (fun range => (start, range.2)) := by
  cases pieces with
  | nil => rfl
  | cons piece more => simp [spans, encode_cons, Nat.add_assoc]

/-- The reader of bytes ends its pieces where the reader of characters does. -/
theorem rangesFrom_encode (ascii : IsAscii c) (opened : ∀ q ∈ quote, isQuote q = true)
    (start place : Nat) (s : List Char) :
    rangesFrom c.toUInt8 (quote.map Char.toUInt8) start place (encode s) =
      (spans place (splitOutsideQuotes c quote s)).modifyHead
        (fun range => (start, range.2)) := by
  induction s generalizing quote start place with
  | nil => simp [rangesFrom, splitOutsideQuotes, spans]
  | cons d rest ih =>
      by_cases narrow : IsAscii d
      · rw [encode_cons_of_isAscii narrow, rangesFrom, Option.isNone_map,
          beq_toUInt8 narrow ascii, splitOutsideQuotes]
        split
        · have next := ih isQuote_of_mem_none (place + 1) (place + 1)
          rw [Option.map_none, modifyHead_spans_self] at next
          rw [next]
          simp [spans]
        · rw [afterByte_toUInt8 opened narrow, ih (isQuote_of_mem_afterChar opened),
            modifyHead_spans_cons, utf8EncodeChar_of_isAscii narrow, List.length_singleton]
      · rw [encode_cons, rangesFrom_append_of_le ascii opened fun b =>
            le_toNat_of_mem_utf8EncodeChar narrow, splitOutsideQuotes,
          beq_eq_false_of_not_isAscii narrow ascii, Bool.and_false, if_neg Bool.false_ne_true,
          afterChar_of_not_isAscii opened narrow, ih opened, modifyHead_spans_cons]

theorem ranges_eq_spans (ascii : IsAscii c) (text : String) :
    ranges c text = spans 0 (splitOutsideQuotes c none text.toList) := by
  have whole := rangesFrom_encode ascii isQuote_of_mem_none 0 0 text.toList
  rw [Option.map_none, modifyHead_spans_self] at whole
  rw [ranges, bytes_eq_encode, whole]

/-- Each span of pieces that are joined in a text is the piece again. -/
theorem map_slice?_spans (ascii : IsAscii c) {before : String} {pieces : List (List Char)}
    (shape : text = before ++ String.ofList ([c].intercalate pieces)) :
    (spans before.utf8ByteSize pieces).map (fun range => slice? text range.1 range.2) =
      pieces.map fun piece => some (String.ofList piece) := by
  induction pieces generalizing before with
  | nil => rfl
  | cons piece more ih =>
      have here {after : String} (cut : text = before ++ String.ofList piece ++ after) :
          slice? text before.utf8ByteSize (before.utf8ByteSize + (encode piece).length) =
            some (String.ofList piece) :=
        slice?_eq_some_iff.mpr
          ⟨before, after, cut, rfl, by rw [String.utf8ByteSize_append, length_encode]⟩
      cases more with
      | nil =>
          have last : text = before ++ String.ofList piece ++ "" := by
            simpa [List.intercalate] using shape
          simp [spans, here last]
      | cons next others =>
          have joined : text = before ++ String.ofList piece ++
              (String.ofList [c] ++ String.ofList ([c].intercalate (next :: others))) := by
            simpa [List.intercalate, String.append_assoc] using shape
          -- The rest of the pieces begins behind this one and its separator.
          have size : (before ++ String.ofList piece ++ String.ofList [c]).utf8ByteSize =
              before.utf8ByteSize + (encode piece).length + 1 := by
            rw [String.utf8ByteSize_append, String.utf8ByteSize_append, length_encode,
              ← length_encode [c], encode_cons_of_isAscii ascii, encode_nil, List.length_singleton]
          have behind : text = before ++ String.ofList piece ++ String.ofList [c] ++
              String.ofList ([c].intercalate (next :: others)) :=
            joined.trans String.append_assoc.symm
          have later := ih behind
          rw [size] at later
          rw [spans, List.map_cons, List.map_cons, here joined, later]

/-- The reader of bytes cuts out the pieces that the reader of characters does. -/
theorem map_slice?_ranges (ascii : IsAscii c) (text : String) :
    (ranges c text).map (fun range => slice? text range.1 range.2) =
      (splitOutsideQuotes c none text.toList).map fun piece => some (String.ofList piece) := by
  have whole : text = "" ++
      String.ofList ([c].intercalate (splitOutsideQuotes c none text.toList)) := by
    rw [intercalate_splitOutsideQuotes, String.ofList_toList, String.empty_append]
  rw [ranges_eq_spans ascii]
  exact map_slice?_spans ascii whole

/-- A comma inside quotes ends no piece, and an offset counts the two bytes of a letter. -/
example : ranges ',' "'é,',ü" = [(0, 5), (6, 8)] := by decide

/-- Every piece lies between two places to cut the text at. -/
theorem isValid_of_mem_ranges (ascii : IsAscii c) (text : String) :
    ∀ range ∈ ranges c text, String.Pos.Raw.IsValid text ⟨range.1⟩ ∧
      String.Pos.Raw.IsValid text ⟨range.2⟩ ∧ range.1 ≤ range.2 := by
  intro range inside
  have cut : slice? text range.1 range.2 ∈
      (ranges c text).map fun range => slice? text range.1 range.2 := List.mem_map_of_mem inside
  rw [map_slice?_ranges ascii, List.mem_map] at cut
  obtain ⟨piece, -, cut⟩ := cut
  exact isValid_of_slice? cut.symm

end Kata.Text
