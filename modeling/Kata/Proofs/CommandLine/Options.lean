/-
# What the arguments of a run say

The arguments of `run` are a row of pieces: files, flags, and options with a value behind them.
A row says what to run whatever the order of its pieces, as long as the two files stand in
theirs, and of an option that is said twice the later one counts. The value of an option is
taken as it is, so it may look like an option or a file itself.

The rows that say something are the only ones that are read. Any other list of arguments is
refused, for its first piece that is none or else for its number of files.
-/

import Kata.CommandLine
import Mathlib.Data.List.Perm.Basic

namespace Kata.CommandLine

/-- Whether an argument opens like an option. Files do not. -/
def isDashed (arg : String) : Bool := "--".toList.isPrefixOf arg.toList

/-- One thing that the arguments of a run say. -/
inductive Piece
  | file (path : String) (plain : isDashed path = false)
  | suite (name : String)
  | settings (path : String)
  | allAssertions
  | json
  deriving DecidableEq

namespace Piece

/-- The arguments that a piece takes up. -/
def args : Piece → List String
  | .file path _ => [path]
  | .suite name => ["--suite", name]
  | .settings path => ["--config", path]
  | .allAssertions => ["--all-assertions"]
  | .json => ["--json"]

/-- The path of a piece that is a file. -/
def file? : Piece → Option String
  | .file path _ => some path
  | _ => none

/-- The name in a piece that names the suite. -/
def suite? : Piece → Option String
  | .suite name => some name
  | _ => none

/-- The path in a piece that names the settings. -/
def settings? : Piece → Option String
  | .settings path => some path
  | _ => none

end Piece

/-- The arguments that a row of pieces takes up. -/
def spelled (pieces : List Piece) : List String := pieces.flatMap Piece.args

/-- The options are what the pieces say. Flags and options may be said more than once. -/
structure Means (pieces : List Piece) (o : RunOptions) : Prop where
  files : pieces.filterMap Piece.file? = [o.implementation, o.tests]
  suite : o.suite = (pieces.filterMap Piece.suite?).getLast?
  settings : o.settings = (pieces.filterMap Piece.settings?).getLast?
  allAssertions : o.allAssertions = true ↔ .allAssertions ∈ pieces
  json : o.json = true ↔ .json ∈ pieces

/-- The pieces of some options without the files, each once. -/
def RunOptions.extras (o : RunOptions) : List Piece :=
  o.suite.toList.map .suite ++ o.settings.toList.map .settings ++
    (if o.allAssertions then [.allAssertions] else []) ++ if o.json then [.json] else []

/-- The pieces are the two files in order and, in any order among and around them, the other
pieces of the options. -/
structure Interleaves (pieces : List Piece) (o : RunOptions) : Prop where
  files : pieces.filterMap Piece.file? = [o.implementation, o.tests]
  extras : (pieces.filter fun piece => piece.file?.isNone).Perm o.extras

/-- The arguments that do not start with a piece, and what is wrong with the first. -/
inductive Stuck : List String → Misuse → Prop
  /-- An option is the last argument and lacks its value. -/
  | noValue {flag : String} (valued : flag ∈ ["--suite", "--config"]) :
      Stuck [flag] (.noValue flag)
  /-- An argument that opens like an option is none. -/
  | unknownOption {flag : String} {rest : List String} (dashed : isDashed flag = true)
      (unknown : flag ∉ ["--suite", "--config", "--all-assertions", "--json"]) :
      Stuck (flag :: rest) (.unknownOption flag)

/-- The arguments that are refused, and what for. -/
inductive Refused : List String → Misuse → Prop
  /-- Something behind the pieces at the front is no piece. -/
  | stuck {pieces : List Piece} {rest : List String} {misuse : Misuse}
      (stuck : Stuck rest misuse) : Refused (spelled pieces ++ rest) misuse
  /-- There are too few files, or too many. -/
  | files {pieces : List Piece} (count : (pieces.filterMap Piece.file?).length ≠ 2) :
      Refused (spelled pieces) .runFiles

/-! ## Going through pieces -/

/-- What is known with one more piece. -/
def Gathered.take (seen : Gathered) : Piece → Gathered
  | .file path _ => { seen with files := seen.files ++ [path] }
  | .suite name => { seen with suite := some name }
  | .settings path => { seen with settings := some path }
  | .allAssertions => { seen with allAssertions := true }
  | .json => { seen with json := true }

variable {seen : Gathered} {pieces : List Piece} {o : RunOptions} {args rest : List String}
  {misuse : Misuse}

theorem gather_of_plain {arg : String} (plain : isDashed arg = false) (rest : List String) :
    gather seen (arg :: rest) = gather { seen with files := seen.files ++ [arg] } rest := by
  have other {flag : String} (dashed : isDashed flag = true) : arg ≠ flag := by
    rintro rfl
    rw [dashed] at plain
    cases plain
  have suite : arg ≠ "--suite" := other rfl
  have settings : arg ≠ "--config" := other rfl
  have allAssertions : arg ≠ "--all-assertions" := other rfl
  have json : arg ≠ "--json" := other rfl
  rw [isDashed] at plain
  rw [gather] <;> simp_all

/-- A piece is taken as a whole. -/
theorem gather_args_append (seen : Gathered) (piece : Piece) (rest : List String) :
    gather seen (piece.args ++ rest) = gather (seen.take piece) rest := by
  cases piece with
  | file path plain => exact gather_of_plain plain rest
  | suite | settings | allAssertions | json => simp [Piece.args, gather, Gathered.take]

theorem gather_spelled_append (seen : Gathered) (pieces : List Piece) (rest : List String) :
    gather seen (spelled pieces ++ rest) = gather (pieces.foldl .take seen) rest := by
  induction pieces generalizing seen with
  | nil => rfl
  | cons piece pieces ih =>
      rw [spelled, List.flatMap_cons, List.append_assoc, gather_args_append]
      exact ih (seen.take piece)

/-- What a row of pieces comes to: all its files, the last of each option, and the flags that
are among them. -/
theorem foldl_take (seen : Gathered) (pieces : List Piece) :
    pieces.foldl .take seen =
      ⟨seen.files ++ pieces.filterMap Piece.file?,
        (pieces.filterMap Piece.suite?).getLast?.or seen.suite,
        seen.allAssertions || decide (.allAssertions ∈ pieces),
        seen.json || decide (.json ∈ pieces),
        (pieces.filterMap Piece.settings?).getLast?.or seen.settings⟩ := by
  induction pieces generalizing seen with
  | nil => simp
  | cons piece pieces ih =>
      rw [List.foldl_cons, ih]
      cases piece <;>
        simp [Gathered.take, Piece.file?, Piece.suite?, Piece.settings?, List.filterMap_cons,
          List.getLast?_cons]

/-! ## Reading the options -/

theorem read_spelled (pieces : List Piece) :
    RunOptions.read (spelled pieces) =
      match pieces.filterMap Piece.file? with
      | [implementation, tests] =>
        .ok ⟨implementation, tests, (pieces.filterMap Piece.suite?).getLast?,
          decide (.allAssertions ∈ pieces), decide (.json ∈ pieces),
          (pieces.filterMap Piece.settings?).getLast?⟩
      | _ => .error .runFiles := by
  have gathered := gather_spelled_append {} pieces []
  rw [List.append_nil, foldl_take] at gathered
  rw [RunOptions.read, gathered, gather]
  simp only [List.nil_append, Option.or_none, Bool.false_or]
  rfl

theorem Means.read_spelled (means : Means pieces o) :
    RunOptions.read (spelled pieces) = .ok o := by
  obtain ⟨implementation, tests, suite, allAssertions, json, settings⟩ := o
  obtain ⟨files, rfl, rfl, flag, flag'⟩ := means
  rw [CommandLine.read_spelled, files]
  simp [← flag, ← flag']

theorem Stuck.gather_eq (stuck : Stuck args misuse) (seen : Gathered) :
    gather seen args = .error misuse := by
  cases stuck with
  | noValue valued =>
      simp only [List.mem_cons, List.not_mem_nil, or_false] at valued
      rcases valued with rfl | rfl <;> rfl
  | unknownOption dashed unknown =>
      simp only [List.mem_cons, List.not_mem_nil, or_false, not_or] at unknown
      rw [isDashed] at dashed
      rw [gather] <;> simp_all

theorem Refused.read_eq (refused : Refused args misuse) :
    RunOptions.read args = .error misuse := by
  cases refused with
  | stuck stuck =>
      rw [RunOptions.read, gather_spelled_append, stuck.gather_eq]
      rfl
  | files count =>
      rw [read_spelled]
      split
      · rename_i implementation tests files
        rw [files] at count
        exact absurd rfl count
      · rfl

/-! ## All lists of arguments -/

/-- Every list of arguments starts with pieces, and behind them is nothing or no piece. -/
theorem exists_spelled_append (args : List String) :
    ∃ pieces rest, args = spelled pieces ++ rest ∧ (rest = [] ∨ ∃ misuse, Stuck rest misuse) := by
  have more {args : List String} (piece : Piece)
      (found : ∃ pieces rest, args = spelled pieces ++ rest ∧
        (rest = [] ∨ ∃ misuse, Stuck rest misuse)) :
      ∃ pieces rest, piece.args ++ args = spelled pieces ++ rest ∧
        (rest = [] ∨ ∃ misuse, Stuck rest misuse) := by
    obtain ⟨pieces, rest, rfl, ends⟩ := found
    exact ⟨piece :: pieces, rest, by simp [spelled], ends⟩
  have stuck {args : List String} {misuse : Misuse} (stuck : Stuck args misuse) :
      ∃ pieces rest, args = spelled pieces ++ rest ∧
        (rest = [] ∨ ∃ misuse, Stuck rest misuse) :=
    ⟨[], args, rfl, .inr ⟨misuse, stuck⟩⟩
  -- The cases are those of the reader, whatever it has seen.
  induction ({} : Gathered), args using gather.induct with
  | case1 => exact ⟨[], [], rfl, .inl rfl⟩
  | case2 seen name rest ih => exact more (.suite name) ih
  | case3 seen => exact stuck (.noValue (by decide))
  | case4 seen path rest ih => exact more (.settings path) ih
  | case5 seen => exact stuck (.noValue (by decide))
  | case6 seen rest ih => exact more .allAssertions ih
  | case7 seen rest ih => exact more .json ih
  | case8 seen arg rest suite settings allAssertions json dashed =>
      refine stuck (.unknownOption dashed ?_)
      simpa using ⟨suite, settings, allAssertions, json⟩
  | case9 seen arg rest _ _ _ _ plain ih =>
      exact more (.file arg (Bool.eq_false_iff.mpr plain)) ih

/-- Arguments either say what to run or are refused. -/
theorem means_or_refused (args : List String) :
    (∃ pieces o, args = spelled pieces ∧ Means pieces o) ∨ ∃ misuse, Refused args misuse := by
  obtain ⟨pieces, rest, rfl, rfl | ⟨misuse, stuck⟩⟩ := exists_spelled_append args
  · rw [List.append_nil]
    by_cases count : (pieces.filterMap Piece.file?).length = 2
    · obtain ⟨implementation, tests, files⟩ := List.length_eq_two.mp count
      let o : RunOptions := ⟨implementation, tests, (pieces.filterMap Piece.suite?).getLast?,
        decide (.allAssertions ∈ pieces), decide (.json ∈ pieces),
        (pieces.filterMap Piece.settings?).getLast?⟩
      have means : Means pieces o := ⟨files, rfl, rfl, by simp [o], by simp [o]⟩
      exact .inl ⟨pieces, o, rfl, means⟩
    · exact .inr ⟨_, .files count⟩
  · exact .inr ⟨misuse, .stuck stuck⟩

/-! ## Interleavings -/

/-- What files have no part in can be seen without them. -/
theorem filterMap_filter_isNone {f : Piece → Option String}
    (fileless : ∀ piece, piece.file?.isSome → f piece = none) (pieces : List Piece) :
    (pieces.filter fun piece => piece.file?.isNone).filterMap f = pieces.filterMap f := by
  rw [List.filterMap_filter]
  congr 1
  funext piece
  cases shape : piece.file? with
  | none => simp
  | some path => simp [fileless piece (by simp [shape])]

/-- An option that is there once is the last one. -/
theorem getLast?_of_perm_toList {values : List String} {value : Option String}
    (perm : values.Perm value.toList) : values.getLast? = value := by
  cases value with
  | none => rw [List.perm_nil.mp perm, List.getLast?_nil]
  | some name => rw [List.perm_singleton.mp perm, List.getLast?_singleton]

theorem Interleaves.mem_iff (interleaves : Interleaves pieces o) {piece : Piece}
    (other : piece.file? = none) : piece ∈ pieces ↔ piece ∈ o.extras := by
  rw [← interleaves.extras.mem_iff, List.mem_filter]
  simp [other]

theorem RunOptions.filterMap_extras (o : RunOptions) :
    o.extras.filterMap Piece.suite? = o.suite.toList ∧
      o.extras.filterMap Piece.settings? = o.settings.toList := by
  obtain ⟨implementation, tests, suite, allAssertions, json, settings⟩ := o
  cases suite <;> cases settings <;> cases allAssertions <;> cases json <;> exact ⟨rfl, rfl⟩

/-- Interleaved pieces mean the options that they were taken from. -/
theorem Interleaves.means (interleaves : Interleaves pieces o) : Means pieces o := by
  obtain ⟨suite, settings⟩ := o.filterMap_extras
  refine ⟨interleaves.files, ?_, ?_, ?_, ?_⟩
  · have perm := interleaves.extras.filterMap Piece.suite?
    rw [suite, filterMap_filter_isNone (by rintro ⟨⟩ <;> simp [Piece.file?, Piece.suite?])] at perm
    exact (getLast?_of_perm_toList perm).symm
  · have perm := interleaves.extras.filterMap Piece.settings?
    rw [settings,
      filterMap_filter_isNone (by rintro ⟨⟩ <;> simp [Piece.file?, Piece.settings?])] at perm
    exact (getLast?_of_perm_toList perm).symm
  · rw [interleaves.mem_iff rfl, RunOptions.extras]
    cases o.allAssertions <;> simp
  · rw [interleaves.mem_iff rfl, RunOptions.extras]
    cases o.json <;> simp

/-! ## Reading a run -/

theorem read_run (args : List String) :
    Command.read ("run" :: args) =
      match RunOptions.read args with
      | .ok o => .ok (.run o)
      | .error misuse => .error (.misuse misuse) := rfl

/-- The arguments of a run are read back. Files in their order and other pieces in any order
give the options that they were taken from, whatever the values behind the options look like.
The lists that are read are rows of pieces, with the options that these mean, the last of a kind
winning, and every other list is refused as a misuse. -/
theorem run_arguments_read_back :
    (∀ o pieces, Interleaves pieces o →
      Command.read ("run" :: spelled pieces) = .ok (.run o)) ∧
    ∀ args : List String,
      (∀ o, Command.read ("run" :: args) = .ok (.run o) ↔
        ∃ pieces, args = spelled pieces ∧ Means pieces o) ∧
      (∀ misuse, Command.read ("run" :: args) = .error (.misuse misuse) ↔
        Refused args misuse) ∧
      ((∃ pieces o, args = spelled pieces ∧ Means pieces o) ∨
        ∃ misuse, Refused args misuse) := by
  have accepted {pieces : List Piece} {o : RunOptions} (means : Means pieces o) :
      Command.read ("run" :: spelled pieces) = .ok (.run o) := by
    rw [read_run, means.read_spelled]
  have refused {args : List String} {misuse : Misuse} (refused : Refused args misuse) :
      Command.read ("run" :: args) = .error (.misuse misuse) := by
    rw [read_run, refused.read_eq]
  refine ⟨fun o pieces interleaves => accepted interleaves.means, fun args => ?_⟩
  refine ⟨fun o => ⟨fun read => ?_, ?_⟩, fun misuse => ⟨fun read => ?_, refused⟩,
    means_or_refused args⟩
  · rcases means_or_refused args with ⟨pieces, other, rfl, means⟩ | ⟨misuse, found⟩
    · rw [accepted means] at read
      obtain rfl := Command.run.inj (Except.ok.inj read)
      exact ⟨pieces, rfl, means⟩
    · rw [refused found] at read
      cases read
  · rintro ⟨pieces, rfl, means⟩
    exact accepted means
  · rcases means_or_refused args with ⟨pieces, o, rfl, means⟩ | ⟨other, found⟩
    · rw [accepted means] at read
      cases read
    · rw [refused found] at read
      obtain rfl := Problem.misuse.inj (Except.error.inj read)
      exact found

/-- A suite that is called `--json`, between the files and in front of a settings file that is
called `--suite`. -/
theorem run_arguments_read_back_of_dashed_values :
    let o : RunOptions := ⟨"a", "b", some "--json", false, true, some "--suite"⟩
    let pieces : List Piece := [.json, .file "a" (by decide), .suite "--json",
      .settings "--suite", .file "b" (by decide)]
    Interleaves pieces o ∧ spelled pieces =
        ["--json", "a", "--suite", "--json", "--config", "--suite", "b"] ∧
      Command.read ("run" :: spelled pieces) = .ok (.run o) := by
  intro o pieces
  have interleaves : Interleaves pieces o := ⟨by decide, by decide⟩
  exact ⟨interleaves, rfl, run_arguments_read_back.1 o pieces interleaves⟩

end Kata.CommandLine
