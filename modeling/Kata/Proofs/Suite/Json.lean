/-
# Suites are read back

Cases, suites and journal entries come back from their JSON with the numbers of their values
reread, and settings come back as they are. What a case or an entry does not have is left out
and comes back missing, and a value that is null is not left out. Counts come back if they fit
in sixty-four bits.
-/

import Kata.Proofs.Number.Written
import Kata.Proofs.Value.Json
import Kata.Session.Json
import Kata.Settings.Json

namespace Kata

open Value (reread)

variable {change other : Float → Value} {room : Nat}

namespace Json

/-- A count that fits is read back. -/
theorem count?_ofCount {n : Nat} (fits : n < 2 ^ 64) : (ofCount n).count? = some n := by
  rw [ofCount, count?, Nat.ofDigitChars_ten_toDigits]
  exact if_pos fits

/-- A field that is left out when it has no value, and whose value is not null. -/
theorem optional?_map {α β : Type} {read : Json → Option β} {write : α → Json} {result : α → β}
    {value : Option α} (some_ : ∀ v, write v ≠ .null)
    (each : ∀ v ∈ value, read (write v) = some (result v)) :
    optional? read (value.map write) = some (value.map result) := by
  cases value with
  | none => rfl
  | some v =>
      rw [Option.map_some, optional?, each v rfl]
      · rfl
      · exact some_ v

/-- A field that is left out when it has no value, and whose value may be null. -/
theorem present?_map {α β : Type} {read : Json → Option β} {write : α → Json} {result : α → β}
    {value : Option α} (each : ∀ v ∈ value, read (write v) = some (result v)) :
    present? read (value.map write) = some (value.map result) := by
  cases value with
  | none => rfl
  | some v =>
      rw [Option.map_some, present?, each v rfl]
      rfl

theorem Holds.of_mem_map {kind : Numeral → Prop} {α : Type} {write : α → Json} {value : Option α}
    (each : ∀ v, (write v).Holds kind) : ∀ json ∈ value.map write, json.Holds kind := by
  cases value with
  | none => simp
  | some v => simpa using each v

theorem option_map_eq_self_iff {α : Type} {f : α → α} {value : Option α} :
    value.map f = value ↔ ∀ v ∈ value.toList, f v = v := by
  cases value <;> simp

end Json

theorem Failure.ofJson?_word (f : Failure) : ofJson? room (.text f.word) = some f := by
  cases f <;> rfl

theorem Status.ofJson?_toJson (s : Status) : ofJson? room s.toJson = some s := by
  cases s <;> rfl

theorem Mode.ofJson?_word (m : Mode) : ofJson? room (.text m.word) = some m := by
  cases m <;> rfl

/-! ## Cases -/

namespace Case

variable {c : Case}

/-- The numbers in the two values of a case. -/
def numbers (c : Case) : List Float :=
  c.actual.toList.flatMap Value.numbers ++ c.expected.toList.flatMap Value.numbers

/-- Put a value in the place of every number of the two values. -/
def mapNumbers (change : Float → Value) (c : Case) : Case :=
  { c with
    actual := c.actual.map (Value.mapNumbers change)
    expected := c.expected.map (Value.mapNumbers change) }

theorem mapNumbers_congr (same : ∀ x ∈ c.numbers, change x = other x) :
    c.mapNumbers change = c.mapNumbers other := by
  rw [numbers, List.forall_mem_append, List.forall_mem_flatMap, List.forall_mem_flatMap] at same
  rw [mapNumbers, mapNumbers,
    Option.map_congr fun v shown => Value.mapNumbers_congr (same.1 v (Option.mem_toList.mpr shown)),
    Option.map_congr fun v shown => Value.mapNumbers_congr (same.2 v (Option.mem_toList.mpr shown))]

theorem mapNumbers_eq_self_iff :
    c.mapNumbers change = c ↔ ∀ x ∈ c.numbers, change x = .number x := by
  obtain ⟨name, code, passed, error, failure, actual, expected⟩ := c
  simp only [mapNumbers, numbers, mk.injEq, true_and, Json.option_map_eq_self_iff,
    List.forall_mem_append, List.forall_mem_flatMap, Value.mapNumbers_eq_self_iff]

theorem strict_toJson : c.toJson.Holds Numeral.Strict := by
  have value (v : Value) : v.toJson.Holds Numeral.Strict :=
    Value.holds_toJson fun x _ => Numeral.strict_ofFloat Json.numberStyle x
  have passed : (c.passed.elim .null .bool : Json).Holds Numeral.Strict := by
    cases c.passed with
    | none => exact .null
    | some b => exact .bool b
  apply Json.Holds.ofMembers
  simp only [List.forall_mem_cons]
  exact ⟨by simpa using .text c.name, by simpa using .text c.code, by simpa using passed,
    .of_mem_map .text, .of_mem_map fun _ => .text _, .of_mem_map value, .of_mem_map value, by simp⟩

theorem ofJson?_toJson (shallow : c.toJson.depth ≤ room) :
    ofJson? room c.toJson = some (c.mapNumbers reread) := by
  obtain ⟨rest, rfl, parts⟩ := Json.exists_room_of_ofMembers shallow
  have fields : c.toJson.fields?
      ["name", "code", "passed", "error", "failure", "actual", "expected"] =
        some [_, _, _, _, _, _, _] := Json.fields?_ofMembers _ rfl (by decide)
  have readPassed : Json.optional? Json.bool? (some (c.passed.elim .null .bool)) =
      some c.passed := by
    cases c.passed <;> rfl
  have readError : Json.optional? Json.text? (c.error.map .text) = some (c.error.map id) :=
    Json.optional?_map (by simp) fun _ _ => rfl
  have readFailure : Json.optional? (Failure.ofJson? rest)
      (c.failure.map fun f => .text f.word) = some (c.failure.map id) :=
    Json.optional?_map (by simp) fun f _ => Failure.ofJson?_word f
  have readActual : Json.present? (Value.ofJson? rest) (c.actual.map Value.toJson) = _ :=
    Json.present?_map fun v shown => Value.ofJson?_toJson
      (parts ("actual", c.actual.map Value.toJson) (by simp) v.toJson
        (Option.map_eq_some_iff.mpr ⟨v, shown, rfl⟩))
  have readExpected : Json.present? (Value.ofJson? rest) (c.expected.map Value.toJson) = _ :=
    Json.present?_map fun v shown => Value.ofJson?_toJson
      (parts ("expected", c.expected.map Value.toJson) (by simp) v.toJson
        (Option.map_eq_some_iff.mpr ⟨v, shown, rfl⟩))
  rw [ofJson?, fields]
  simp only [Option.bind_eq_bind, Option.bind_some, Json.required?, readPassed, readError,
    readFailure, readActual, readExpected, Option.map_id_fun]
  rfl

end Case

/-! ## Suites -/

namespace Suite

variable {s : Suite}

/-- The numbers in the cases of a suite. -/
def numbers (s : Suite) : List Float := s.cases.flatMap Case.numbers

/-- The counts of a suite. -/
def counts (s : Suite) : List Nat := [s.passed, s.failed, s.total]

/-- Put a value in the place of every number of every case. -/
def mapNumbers (change : Float → Value) (s : Suite) : Suite :=
  { s with cases := s.cases.map (Case.mapNumbers change) }

theorem mapNumbers_congr (same : ∀ x ∈ s.numbers, change x = other x) :
    s.mapNumbers change = s.mapNumbers other := by
  rw [numbers, List.forall_mem_flatMap] at same
  rw [mapNumbers, mapNumbers,
    List.map_congr_left fun c inside => Case.mapNumbers_congr (same c inside)]

theorem mapNumbers_eq_self_iff :
    s.mapNumbers change = s ↔ ∀ x ∈ s.numbers, change x = .number x := by
  obtain ⟨name, cases, passed, failed, total⟩ := s
  simp only [mapNumbers, numbers, mk.injEq, true_and, and_true, Json.map_eq_self_iff,
    List.forall_mem_flatMap, Case.mapNumbers_eq_self_iff]

theorem strict_toJson : s.toJson.Holds Numeral.Strict :=
  .object (by simpa using ⟨.text _, .list (by simpa using fun c _ => Case.strict_toJson),
    .num (Numeral.strict_count _), .num (Numeral.strict_count _), .num (Numeral.strict_count _)⟩)

theorem ofJson?_toJson (shallow : s.toJson.depth ≤ room) (counts : ∀ n ∈ s.counts, n < 2 ^ 64) :
    ofJson? room s.toJson = some (s.mapNumbers reread) := by
  obtain ⟨outer, rfl, parts⟩ := Json.exists_room_of_object shallow
  obtain ⟨rest, rfl, casesShallow⟩ := Json.exists_room_of_list
    (parts ("tests", .list (s.cases.map Case.toJson)) (by simp))
  have fields : s.toJson.fields? ["name", "tests", "passed", "failed", "total"] =
      some [_, _, _, _, _] := Json.fields?_object _ rfl (by decide)
  have readCases : (s.cases.map Case.toJson).mapM (Case.ofJson? rest) = _ :=
    Json.mapM_map_eq_some fun c inside =>
      Case.ofJson?_toJson (casesShallow _ (List.mem_map_of_mem inside))
  have readPassed := Json.count?_ofCount (counts s.passed (by simp [Suite.counts]))
  have readFailed := Json.count?_ofCount (counts s.failed (by simp [Suite.counts]))
  have readTotal := Json.count?_ofCount (counts s.total (by simp [Suite.counts]))
  rw [ofJson?, fields]
  simp only [Option.bind_eq_bind, Option.bind_some, Json.required?, Json.listOf?, readCases,
    readPassed, readFailed, readTotal]
  rfl

end Suite

/-! ## Journal entries -/

namespace Entry

variable {e : Entry}

/-- The numbers in the suite of an entry. -/
def numbers (e : Entry) : List Float := e.suite.toList.flatMap Suite.numbers

/-- The counts of an entry. -/
def counts (e : Entry) : List Nat := e.sequence :: e.suite.toList.flatMap Suite.counts

/-- Put a value in the place of every number of the suite. -/
def mapNumbers (change : Float → Value) (e : Entry) : Entry :=
  { e with suite := e.suite.map (Suite.mapNumbers change) }

theorem mapNumbers_congr (same : ∀ x ∈ e.numbers, change x = other x) :
    e.mapNumbers change = e.mapNumbers other := by
  rw [numbers, List.forall_mem_flatMap] at same
  rw [mapNumbers, mapNumbers,
    Option.map_congr fun s there => Suite.mapNumbers_congr (same s (Option.mem_toList.mpr there))]

theorem mapNumbers_eq_self_iff :
    e.mapNumbers change = e ↔ ∀ x ∈ e.numbers, change x = .number x := by
  obtain ⟨sequence, status, suite, digest⟩ := e
  simp only [mapNumbers, numbers, mk.injEq, true_and, and_true, Json.option_map_eq_self_iff,
    List.forall_mem_flatMap, Suite.mapNumbers_eq_self_iff]

theorem strict_toJson : e.toJson.Holds Numeral.Strict := by
  apply Json.Holds.ofMembers
  simp only [List.forall_mem_cons]
  exact ⟨by simpa using .num (Numeral.strict_count _), by simpa using .text _,
    .of_mem_map fun _ => Suite.strict_toJson, by simpa using .text _, by simp⟩

theorem ofJson?_toJson (shallow : e.toJson.depth ≤ room) (counts : ∀ n ∈ e.counts, n < 2 ^ 64) :
    ofJson? room e.toJson = some (e.mapNumbers reread) := by
  obtain ⟨rest, rfl, parts⟩ := Json.exists_room_of_ofMembers shallow
  obtain ⟨sequence, suiteCounts⟩ := List.forall_mem_cons.mp counts
  have fields : e.toJson.fields? ["sequence", "status", "suite", "implementation_digest"] =
      some [_, _, _, _] := Json.fields?_ofMembers _ rfl (by decide)
  have readSuite : Json.optional? (Suite.ofJson? rest) (e.suite.map Suite.toJson) = _ :=
    Json.optional?_map (fun _ => by simp [Suite.toJson]) fun s there => Suite.ofJson?_toJson
      (parts ("suite", e.suite.map Suite.toJson) (by simp) s.toJson
        (Option.map_eq_some_iff.mpr ⟨s, there, rfl⟩))
      (List.forall_mem_flatMap.mp suiteCounts s (Option.mem_toList.mpr there))
  have readSequence := Json.count?_ofCount sequence
  have readStatus : Status.ofJson? rest e.status.toJson = _ := Status.ofJson?_toJson e.status
  rw [ofJson?, fields]
  simp only [Option.bind_eq_bind, Option.bind_some, Json.required?, readSequence, readStatus,
    readSuite]
  rfl

end Entry

/-! ## Settings -/

namespace Settings

variable {s : Settings}

theorem strict_toJson : s.toJson.Holds Numeral.Strict :=
  .object (by simpa using ⟨.text _, .text _⟩)

theorem ofJson?_toJson (shallow : s.toJson.depth ≤ room) : ofJson? room s.toJson = some s := by
  obtain ⟨rest, rfl, -⟩ := Json.exists_room_of_object shallow
  have fields : s.toJson.fields? ["assertion_mode", "default_suite_name"] = some [_, _] :=
    Json.fields?_object _ rfl (by decide)
  have readMode : Mode.ofJson? rest (.text s.mode.word) = _ := Mode.ofJson?_word s.mode
  rw [ofJson?, fields]
  simp only [Option.bind_eq_bind, Option.bind_some, Json.defaulted?, readMode]
  rfl

end Settings

end Kata
