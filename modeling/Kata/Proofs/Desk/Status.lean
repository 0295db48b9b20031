/-
# A desk reads its own suites

What a desk answers to a run, and what it shows of a stored suite, is JSON that it can be
asked about again: the answer is the status of the suite itself. Results that are not finite
are null in that JSON, but the counts are what the status goes by. No program makes a list, so
the JSON is nowhere near as deep as a reader goes, and a script in memory has too few cases
for a count that does not fit.
-/

import Kata.Desk
import Kata.Proofs.Json.Layouts
import Kata.Proofs.Runner.WellFormed
import Kata.Proofs.Suite.Json

namespace Kata

/-! ## Cases in a script -/

theorem Text.length_le_length_intercalate (c : Char) (parts : List (List Char)) :
    parts.length ≤ ([c].intercalate parts).length + 1 := by
  induction parts with
  | nil => simp
  | cons part rest ih =>
      cases rest with
      | nil => simp
      | cons next rest =>
          rw [List.intercalate_cons_cons]
          simp only [List.length_cons, List.length_append, List.length_nil] at ih ⊢
          omega

theorem Script.length_casesFrom_le (current : Option Draft) (lines : List (List Char)) :
    (casesFrom current lines).length ≤ lines.length + current.toList.length := by
  induction lines generalizing current with
  | nil => cases current <;> simp [casesFrom]
  | cons line rest ih =>
      rw [casesFrom]
      split
      · rename_i name _
        have later := ih (some ⟨Text.trim name, []⟩)
        cases current <;> simp at later ⊢ <;> omega
      · split
        · have later := ih none
          cases current <;> simp at later ⊢ <;> omega
        · have later := ih (current.map (·.addLine line))
          cases current <;> simp at later ⊢ <;> omega

/-- A script has no more cases than characters, but for one. -/
theorem Script.length_cases_le (script : List Char) :
    (cases script).length ≤ script.length + 1 := by
  have lines := Text.length_le_length_intercalate '\n' (script.splitOn '\n')
  rw [List.intercalate_splitOn] at lines
  have kept : (Text.significantLines script).length ≤ (script.splitOn '\n').length := by
    refine (List.length_filter_le _ _).trans ?_
    rw [Text.trimmedLines, List.length_map]
  exact ((length_casesFrom_le none _).trans kept).trans lines

/-! ## Shallow suites -/

theorem Value.IsScalar.depth_toJson {v : Value} (scalar : v.IsScalar) : v.toJson.depth = 0 := by
  cases v with
  | list items => exact absurd rfl (scalar items)
  | number x =>
      rw [Value.toJson, Json.ofFloat]
      split <;> rfl
  | null | bool | text => rfl

theorem Case.Settled.depth_toJson_le {case : Case} (settled : case.Settled) :
    case.toJson.depth ≤ 1 := by
  have values {value : Option Value} (scalar : ∀ v, value = some v → v.IsScalar) :
      ∀ json ∈ value.map Value.toJson, json.depth ≤ 0 := by
    intro json shown
    obtain ⟨v, there, rfl⟩ := Option.map_eq_some_iff.mp shown
    exact (scalar v there).depth_toJson.le
  have passed : (case.passed.elim .null .bool : Json).depth = 0 := by
    cases case.passed <;> rfl
  apply Json.depth_ofMembers_le
  simp only [List.forall_mem_cons]
  refine ⟨?_, ?_, ?_, ?_, ?_, values settled.actual, values settled.expected, by simp⟩
  · simp [Json.depth]
  · simp [Json.depth]
  · simp [passed]
  · cases case.error <;> simp [Json.depth]
  · cases case.failure <;> simp [Json.depth]

namespace Suite

/-- What a run leaves behind: settled cases, counted, and not too many of them. -/
structure Finished (s : Suite) : Prop where
  counted : ofCases s.name s.cases = s
  settled : ∀ case ∈ s.cases, case.Settled
  few : s.cases.length < 2 ^ 64

variable {s : Suite}

theorem Finished.depth_toJson_le (finished : s.Finished) : s.toJson.depth ≤ 3 := by
  have inner : (Json.list (s.cases.map Case.toJson)).depth ≤ 2 :=
    Json.depth_list_le (List.forall_mem_map.mpr fun case inside =>
      (finished.settled case inside).depth_toJson_le)
  apply Json.depth_object_le
  simp only [List.forall_mem_cons]
  exact ⟨by simp [Json.depth], inner, by simp [Json.depth, Json.ofCount],
    by simp [Json.depth, Json.ofCount], by simp [Json.depth, Json.ofCount], by simp⟩

theorem Finished.counts_lt (finished : s.Finished) : ∀ n ∈ s.counts, n < 2 ^ 64 := by
  have few := finished.few
  rw [← finished.counted]
  simp only [counts, ofCases, List.forall_mem_cons]
  exact ⟨List.countP_le_length.trans_lt few, List.countP_le_length.trans_lt few, few, by simp⟩

/-- A suite that was run is read back from its JSON with its counts. -/
theorem Finished.ofJson?_toJson (finished : s.Finished) :
    ofJson? Json.deepest s.toJson = some (s.mapNumbers Value.reread) :=
  Suite.ofJson?_toJson (finished.depth_toJson_le.trans (by decide)) finished.counts_lt

theorem Finished.parse?_compact (finished : s.Finished) :
    (Json.parse? s.toJson.compact).bind (ofJson? Json.deepest) =
      some (s.mapNumbers Value.reread) := by
  rw [Json.parse?_compact strict_toJson, Option.bind_some, finished.ofJson?_toJson]

end Suite

/-- A run leaves a finished suite. -/
theorem Runner.finished_run (r : Runner) (implementation : String) {script : String}
    (short : script.length < 2 ^ 63) (suiteName : String) :
    (r.run implementation script suiteName).1.Finished := by
  rw [run_eq]
  constructor
  · rfl
  · intro case inside
    obtain ⟨case, among, rfl⟩ := List.mem_map.mp inside
    exact (Script.fresh_of_mem_casesFrom among).settled_run r.settings.mode
      (Interpreter.programmed_load implementation)
  · have most := Script.length_cases_le script.toList
    rw [String.length_toList] at most
    simp only [Suite.ofCases, List.length_map]
    omega

/-! ## Desks -/

namespace Desk

/-- What an editor can ask of a desk. -/
inductive Call
  | run (implementation script suiteName : String)
  | status (text : String)
  | suite (suiteName : String)
  | suites
  | clear
  deriving DecidableEq, Repr

/-- No script in memory is longer than this. -/
def Call.Fits : Call → Prop
  | .run _ script _ => script.length < 2 ^ 63
  | _ => True

/-- The desk after a call. To answer a question changes nothing. -/
def perform (d : Desk) : Call → Desk
  | .run implementation script suiteName => (d.run implementation script suiteName).2
  | .clear => d.clear
  | .status _ | .suite _ | .suites => d

/-- Every stored suite was run. -/
def Kept (d : Desk) : Prop :=
  ∀ name suite, d.runner.suites.get? name = some suite → suite.Finished

theorem kept_start (mode : Mode) : (start mode).Kept := by
  intro name suite stored
  cases stored

variable {d : Desk}

theorem Kept.perform (kept : d.Kept) {call : Call} (fits : call.Fits) : (d.perform call).Kept := by
  cases call with
  | run implementation script suiteName =>
      intro name suite stored
      have ran := d.runner.run_eq implementation script suiteName
      have finished := d.runner.finished_run implementation fits suiteName
      have after : (d.perform (.run implementation script suiteName)).runner.suites =
          d.runner.suites.insert suiteName (d.runner.run implementation script suiteName).1 := by
        simp only [Desk.perform, Desk.run, ran]
      rw [after, Roster.get?_insert] at stored
      split at stored
      · obtain rfl := Option.some.inj stored
        exact finished
      · exact kept name suite stored
  | clear =>
      intro name suite stored
      cases stored
  | status | suite | suites => exact kept

/-- After any calls every stored suite is one that was run. -/
theorem Kept.foldl (kept : d.Kept) {calls : List Call} (fit : ∀ call ∈ calls, call.Fits) :
    (calls.foldl Desk.perform d).Kept := by
  induction calls generalizing d with
  | nil => exact kept
  | cons call calls ih =>
      obtain ⟨first, later⟩ := List.forall_mem_cons.mp fit
      exact ih (kept.perform first) later

/-- What a desk answers to the text of a suite is the status of that suite: idle without
cases, red if a case failed, and green otherwise. -/
structure Answered (text : String) (s : Suite) : Prop where
  status : Desk.status text = .ok s.status.toJson.compact
  idle : Desk.status text = .ok "\"idle\"" ↔ s.cases = []
  red : Desk.status text = .ok "\"red\"" ↔ ∃ case ∈ s.cases, case.passed = some false
  green : Desk.status text = .ok "\"green\"" ↔
    s.cases ≠ [] ∧ ¬∃ case ∈ s.cases, case.passed = some false

/-- The words for the statuses are different. -/
theorem compact_status_injective {s t : Status} (same : s.toJson.compact = t.toJson.compact) :
    s = t := by
  cases s <;> cases t <;> first
    | rfl
    | exact absurd same (by decide +kernel)

theorem answered_of_finished {s : Suite} (finished : s.Finished) :
    Answered s.toJson.compact s := by
  have answer : Desk.status s.toJson.compact = .ok s.status.toJson.compact := by
    rw [Desk.status, finished.parse?_compact]
    rfl
  have ran : ∀ case ∈ s.cases, case.isPending = false :=
    fun case inside => (finished.settled case inside).ran
  have told (status : Status) :
      Desk.status s.toJson.compact = .ok status.toJson.compact ↔ s.status = status := by
    rw [answer, Except.ok.injEq]
    exact ⟨compact_status_injective, congrArg fun status : Status => status.toJson.compact⟩
  have idle := Suite.status_ofCases_eq_idle_iff ran s.name
  have red := Suite.status_ofCases_eq_red_iff ran s.name
  have green := Suite.status_ofCases_eq_green_iff ran s.name
  rw [finished.counted] at idle red green
  refine ⟨answer, (told .idle).trans idle, (told .red).trans red, (told .green).trans ?_⟩
  -- A case that has run has passed or failed, so what has no failure has passed.
  rw [green]
  refine and_congr_right fun _ => ⟨?_, ?_⟩
  · rintro all ⟨case, inside, failed⟩
    simp [all case inside] at failed
  · intro none case inside
    have settled := ran case inside
    cases result : case.passed with
    | none => simp [Case.isPending, result] at settled
    | some passed =>
        cases passed with
        | true => rfl
        | false => exact absurd ⟨case, inside, result⟩ none

/-- A desk reads what it writes. After any calls, the answer to what a run returns, and to what
is shown of a stored suite, is the status of that suite; the run is idle just when the script
has no cases. -/
theorem status_of_own_suites (mode : Mode) (calls : List Call) (fit : ∀ call ∈ calls, call.Fits)
    (implementation script suiteName : String) (short : script.length < 2 ^ 63) :
    let d := calls.foldl perform (start mode)
    let suite := (d.runner.run implementation script suiteName).1
    Answered (d.run implementation script suiteName).1 suite ∧
      (suite.cases = [] ↔ Script.cases script.toList = []) ∧
      ∀ name stored, d.runner.suites.get? name = some stored →
        Answered (d.suite name) stored := by
  intro d suite
  have kept : d.Kept := (kept_start mode).foldl fit
  refine ⟨answered_of_finished (d.runner.finished_run implementation short suiteName), ?_,
    fun name stored found => ?_⟩
  · simp only [suite, Runner.run_eq, Suite.ofCases, List.map_eq_nil_iff]
  · rw [Desk.suite, found]
    exact answered_of_finished (kept name stored found)

/-- A desk that was asked to run a division by zero, whose result JSON has no number for. -/
def divided : List Call :=
  [.clear, .run "FUNCTION f(a)\nRETURN a / 0\nEND" "TEST \"huge ✓\"\nASSERT f(1) == 2\nEND" "a",
    .suite "b", .suites]

/-- The suite with the infinite result is red still, and a script without cases is idle. -/
theorem status_of_divided :
    let d := divided.foldl perform (start .all)
    (∀ call ∈ divided, call.Fits) ∧ "".length < 2 ^ 63 ∧
      Desk.status (d.run "" "" "b").1 = .ok "\"idle\"" ∧
      Desk.status (d.suite "a") = .ok "\"red\"" := by
  intro d
  have fit : ∀ call ∈ divided, call.Fits := by
    simp only [divided, List.forall_mem_cons, Call.Fits, true_and]
    exact ⟨by decide +kernel, by simp⟩
  have short : "".length < 2 ^ 63 := by decide
  obtain ⟨run, none, stored⟩ := status_of_own_suites .all divided fit "" "" "b" short
  refine ⟨fit, short, run.idle.mpr (none.mpr (by decide +kernel)), ?_⟩
  have found : ∃ suite, d.runner.suites.get? "a" = some suite ∧
      ∃ case ∈ suite.cases, case.passed = some false := by decide +kernel
  obtain ⟨suite, there, failed⟩ := found
  exact (stored "a" suite there).red.mpr failed

end Desk

end Kata
