/-
# Runs without history

A run forgets whatever the interpreter knew, so the suite depends on the settings and on
the texts of the run alone. Within the run every case finds the interpreter as the
implementation has left it, because the cases in front of it have given it back unchanged.
So a case is judged as if it were the only one, and cases that change places take their
results with them.
-/

import Kata.Proofs.Runner.Judgement

namespace Kata

/-! ## Rearranging a list -/

variable {α β : Type}

/-- The items that stand at some places of a list, in the order of the places. Places that
the list does not have are passed over. -/
def rearrange (places : List Nat) (items : List α) : List α := places.filterMap (items[·]?)

theorem map_rearrange (f : α → β) (places : List Nat) (items : List α) :
    (rearrange places items).map f = rearrange places (items.map f) := by
  simp only [rearrange, List.map_filterMap, List.getElem?_map]

theorem rearrange_range (items : List α) : rearrange (List.range items.length) items = items := by
  induction items with
  | nil => rfl
  | cons item rest ih =>
      rw [List.length_cons, List.range_succ_eq_map, rearrange, List.filterMap_cons]
      simpa [List.filterMap_map, rearrange, Function.comp_def] using ih

/-- With every place once the list is permuted. -/
theorem rearrange_perm {places : List Nat} {items : List α}
    (each : places.Perm (List.range items.length)) : (rearrange places items).Perm items := by
  have permuted := each.filterMap (items[·]?)
  rwa [← rearrange, ← rearrange, rearrange_range] at permuted

/-! ## What is loaded -/

namespace Interpreter

theorem reset_eq_empty (i : Interpreter) : i.reset = empty := rfl

/-- After functions were added, a name stands for the last of them that has it, or for what
it stood for before. -/
theorem get?_routines_add (i : Interpreter) (routines : List Routine) (name : String) :
    (i.add routines).routines.get? name =
      (routines.reverse.find? (·.name == name)).or (i.routines.get? name) := by
  induction routines generalizing i with
  | nil => rfl
  | cons routine rest ih =>
      have later := ih (i.add [routine])
      have first : (i.add [routine]).routines.get? name =
          if name = routine.name then some routine else i.routines.get? name :=
        Roster.get?_insert i.routines routine.name name routine
      rw [first] at later
      rw [show i.add (routine :: rest) = (i.add [routine]).add rest from rfl, later,
        List.reverse_cons, List.find?_append]
      by_cases same : name = routine.name
      · simp [same]
      · have other : (routine.name == name) = false := by simpa using fun h => same h.symm
        simp [same, other]

end Interpreter

namespace Suite

theorem ofCases_of_perm (name : String) {cases others : List Case} (perm : others.Perm cases) :
    ofCases name others = { ofCases name cases with cases := others } := by
  simp [ofCases, perm.countP_eq, perm.length_eq]

end Suite

namespace Runner

variable (r : Runner) (implementation script suiteName : String)

/-- A run judges every case of the script in an interpreter that knows nothing but the
implementation, and stores the suite. -/
theorem run_eq :
    r.run implementation script suiteName =
      let alone := (Interpreter.empty.load implementation).2
      let suite := Suite.ofCases suiteName
        ((Script.cases script.toList).map fun case => (case.run r.settings.mode alone).1)
      (suite, { r with interpreter := alone, suites := r.suites.insert suiteName suite }) := by
  simp only [run, Interpreter.reset_eq_empty, Case.runAll_eq]
  rfl

/-- Runners of one setting get the same suite from the same texts. -/
theorem run_fst_congr {r other : Runner} (same : r.settings = other.settings) :
    (r.run implementation script suiteName).1 = (other.run implementation script suiteName).1 := by
  rw [run_eq, run_eq, same]

/-- A run depends on its texts and the settings, and no case on another. The suite is that of
a runner that has never run anything; the case at any place is judged as it would be alone
with the implementation; another script with the same cases in another order gives the same
suite with its results in that order and leaves all else as it is. Afterwards no variable is
bound, and the functions are those of the implementation, the last of every name. -/
theorem run_isolated :
    let suite := (r.run implementation script suiteName).1
    let after := (r.run implementation script suiteName).2
    let fresh : Runner := { settings := r.settings }
    let alone := (Interpreter.empty.load implementation).2
    let cases := Script.cases script.toList
    suite = (fresh.run implementation script suiteName).1 ∧
    (∀ place : Nat, suite.cases[place]? =
      cases[place]?.map fun case : Case => (case.run r.settings.mode alone).1) ∧
    (∀ (places : List Nat) (reordered : String), places.Perm (List.range cases.length) →
      Script.cases reordered.toList = rearrange places cases →
      let suite' := { suite with cases := rearrange places suite.cases }
      r.run implementation reordered suiteName =
        (suite', { after with suites := r.suites.insert suiteName suite' })) ∧
    after.interpreter = alone ∧ alone.scopes.depth = 1 ∧ (∀ name, alone.get? name = none) ∧
    ∀ name, alone.routines.get? name =
      (Program.routines implementation.toList).reverse.find? (·.name == name) := by
  intro suite after fresh alone cases
  have ran := r.run_eq implementation script suiteName
  have results : suite.cases = cases.map fun case => (case.run r.settings.mode alone).1 := by
    simp only [suite, ran]
    rfl
  refine ⟨?_, fun place => ?_, fun places reordered each same => ?_, ?_, rfl, fun name => rfl,
    fun name => ?_⟩
  · simp only [suite, fresh, run_eq]
  · rw [results, List.getElem?_map]
  · intro suite'
    have perm : (rearrange places suite.cases).Perm suite.cases :=
      rearrange_perm (by simpa [results] using each)
    have counted : suite' = Suite.ofCases suiteName (rearrange places suite.cases) := by
      rw [Suite.ofCases_of_perm suiteName perm]
      simp only [suite', suite, ran]
      rfl
    rw [r.run_eq implementation reordered suiteName]
    simp only [same, map_rearrange, counted, results, after, ran]
    rfl
  · simp only [after, ran]
    rfl
  · exact (Interpreter.get?_routines_add .empty _ name).trans (Option.or_none)

/-- A runner with a history: a function and a variable that a run must not see. -/
def usedRunner : Runner where
  interpreter := (Interpreter.empty.load "FUNCTION g()\nRETURN a\nEND").2.set "a" (.text "old")
  settings := { mode := .all }

/-- A case that passes and one whose function is missing. -/
def passThenMiss : String :=
  "TEST one\nASSERT f('x') == 'x'\nEND\nTEST two\nASSERT g() == 'old'\nEND"

/-- The same cases the other way round. -/
def missThenPass : String :=
  "TEST two\nASSERT g() == 'old'\nEND\nTEST one\nASSERT f('x') == 'x'\nEND"

/-- Two cases that change places change the places of their results. -/
theorem run_isolated_of_swapped :
    let echo := "FUNCTION f(a)\nRETURN a\nEND"
    [1, 0].Perm (List.range (Script.cases passThenMiss.toList).length) ∧
      Script.cases missThenPass.toList = rearrange [1, 0] (Script.cases passThenMiss.toList) ∧
      (usedRunner.run echo missThenPass "s").1.cases =
        rearrange [1, 0] (usedRunner.run echo passThenMiss "s").1.cases := by
  intro echo
  have each : [1, 0].Perm (List.range (Script.cases passThenMiss.toList).length) := by decide
  have same : Script.cases missThenPass.toList =
      rearrange [1, 0] (Script.cases passThenMiss.toList) := rfl
  have isolated := run_isolated usedRunner echo passThenMiss "s"
  have swapped := isolated.2.2.1 [1, 0] missThenPass each same
  exact ⟨each, same, by rw [swapped]⟩

end Runner

end Kata
