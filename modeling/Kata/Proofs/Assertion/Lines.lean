/-
# Assertion lines on their own

The assertion lines of a case are trimmed and have no line feeds. Each of them, taken as
the whole code of a case, is therefore the one assertion line of that case.
-/

import Kata.Assertion
import Kata.Proofs.Text.Lines

namespace Kata

namespace Assertion

variable {code : List Char} {line : Style × List Char}

/-- Code without line feeds that opens like an assertion is the one line of its case. -/
theorem lines_of_unbroken {style : Style} (unbroken : '\n' ∉ code)
    (styled : style? (Text.trim code) = some style) : lines code = [(style, Text.trim code)] := by
  rw [lines, Text.trimmedLines, List.splitOn_eq_singleton unbroken]
  simp [styled]

/-- A trimmed line without line feeds that opens like an assertion is the only one. -/
theorem lines_eq_singleton (line : Style × List Char) (unbroken : '\n' ∉ line.2)
    (bare : Text.trim line.2 = line.2) (styled : style? line.2 = some line.1) :
    lines line.2 = [line] := by
  have whole := lines_of_unbroken unbroken (by rw [bare, styled])
  rwa [bare] at whole

/-- Each assertion line of a case is the only one of the case that consists of it. -/
theorem lines_of_mem_lines (inside : line ∈ lines code) : lines line.2 = [line] := by
  obtain ⟨trimmed, among, styled⟩ := List.mem_filterMap.mp inside
  obtain ⟨style, opens, rfl⟩ := Option.map_eq_some_iff.mp styled
  obtain ⟨raw, piece, rfl⟩ := List.mem_map.mp among
  refine lines_eq_singleton (style, Text.trim raw) (fun broken => ?_) (Text.trim_trim raw) opens
  exact Text.not_mem_of_mem_splitOn piece (Text.mem_of_mem_trim broken)

end Assertion

end Kata
