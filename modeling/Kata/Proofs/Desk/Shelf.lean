/-
# Suites on the shelf

A runner keeps the suites that it has run, and a desk shows them. What is kept can be told
from the runs, removals and clearings alone: the latest suite of every name, in the order in
which the names came up. What a run returns does not depend on the runs before it, so the
history says what each of its suites was. All suites are shown as a list of what is shown of
each.
-/

import Kata.Proofs.Desk.Status
import Kata.Proofs.Roster.History

namespace Kata

/-! ## Stores -/

/-- A store of suites shows what its history, newest edit first, has left. -/
structure Suite.Shelved (store : Roster Suite) (history : List (Roster.Edit Suite)) : Prop where
  nodup_names : store.names.Nodup
  get?_eq : ∀ name, store.get? name = Roster.latest? Suite.name name history
  mem_names_iff : ∀ name, name ∈ store.names ↔ (store.get? name).isSome = true
  names_ordered : store.names.Pairwise (Roster.Precedes Suite.name history)
  map_name_values : store.values.map Suite.name = store.names
  map_get?_names : store.names.map store.get? = store.values.map some
  entries_erase : ∀ name, (store.erase name).entries = store.entries.eraseP (·.1 == name)

theorem Roster.Records.shelved {store : Roster Suite} {history : List (Roster.Edit Suite)}
    (records : store.Records Suite.name history) : Suite.Shelved store history where
  nodup_names := records.nodup
  get?_eq := records.get?_eq
  mem_names_iff := fun _ => Roster.mem_names_iff
  names_ordered := records.ordered
  map_name_values := records.map_key_values
  map_get?_names := Roster.map_get?_names records.nodup
  entries_erase := Roster.entries_erase records.nodup

theorem Suite.shelved_foldl_edit (edits : List (Roster.Edit Suite)) :
    Shelved (edits.foldl (Roster.edit Suite.name) .empty) edits.reverse := by
  have records : Roster.Records Suite.name (edits.foldl (Roster.edit Suite.name) .empty)
      (edits.reverse ++ []) := Roster.Records.empty.foldl_edit edits
  rw [List.append_nil] at records
  exact records.shelved

/-! ## Runners -/

namespace Runner

/-- One use of a runner. -/
inductive Action
  | run (implementation script suiteName : String)
  | runDefault (implementation script : String)
  | runCase (case : Case)
  | remove (suiteName : String)
  | clear

/-- The runner after a use. -/
def perform (r : Runner) : Action → Runner
  | .run implementation script suiteName => (r.run implementation script suiteName).2
  | .runDefault implementation script => (r.runDefault implementation script).2
  | .runCase case => (r.runCase case).2
  | .remove suiteName => (r.remove suiteName).2
  | .clear => r.clear

/-- What a use changes in the store. A run stores what a new runner would return. -/
def Action.edit? (settings : Settings) : Action → Option (Roster.Edit Suite)
  | .run implementation script suiteName =>
    some (.insert (({ settings := settings } : Runner).run implementation script suiteName).1)
  | .runDefault implementation script =>
    some (.insert (({ settings := settings } : Runner).runDefault implementation script).1)
  | .runCase _ => none
  | .remove suiteName => some (.erase suiteName)
  | .clear => some .clear

variable (r : Runner)

theorem settings_perform (action : Action) : (r.perform action).settings = r.settings := by
  cases action <;> rfl

/-- A run stores its suite under the name of the suite. -/
theorem suites_run (implementation script suiteName : String) :
    (r.run implementation script suiteName).2.suites =
      r.suites.insert suiteName (r.run implementation script suiteName).1 := by
  rw [run_eq]

theorem suites_perform (action : Action) :
    (r.perform action).suites =
      (action.edit? r.settings).elim r.suites (r.suites.edit Suite.name) := by
  have stored (implementation script suiteName : String) :
      (r.run implementation script suiteName).2.suites = r.suites.edit Suite.name (.insert
        (({ settings := r.settings } : Runner).run implementation script suiteName).1) := by
    have same : r.settings = ({ settings := r.settings } : Runner).settings := rfl
    rw [suites_run, run_fst_congr implementation script suiteName same]
    rfl
  cases action with
  | run implementation script suiteName => exact stored implementation script suiteName
  | runDefault implementation script => exact stored implementation script _
  | runCase | remove | clear => rfl

/-- After any uses the store is what their edits make of it. -/
theorem suites_foldl_perform (actions : List Action) :
    (actions.foldl perform r).suites =
      (actions.filterMap (·.edit? r.settings)).foldl (Roster.edit Suite.name) r.suites := by
  induction actions generalizing r with
  | nil => rfl
  | cons action rest ih =>
      rw [List.foldl_cons, ih, settings_perform, suites_perform, List.filterMap_cons]
      cases action.edit? r.settings <;> rfl

end Runner

/-! ## Desks -/

theorem Json.compact_list (items : List Json) :
    (Json.list items).compact = "[" ++ ",".intercalate (items.map Json.compact) ++ "]" := by
  apply String.toList_inj.mp
  simp [compact, compactChars_list, compactItems_eq_map, Function.comp_def]

namespace Desk

/-- What a call asks of the runner behind a desk. -/
def Call.action? : Call → Option Runner.Action
  | .run implementation script suiteName => some (.run implementation script suiteName)
  | .clear => some .clear
  | .status _ | .suite _ | .suites => none

theorem runner_foldl_perform (d : Desk) (calls : List Call) :
    (calls.foldl perform d).runner =
      (calls.filterMap Call.action?).foldl Runner.perform d.runner := by
  induction calls generalizing d with
  | nil => rfl
  | cons call rest ih =>
      rw [List.foldl_cons, ih]
      cases call <;> rfl

/-- All suites are shown as the list of what is shown under each name. -/
theorem suites_eq_intercalate {d : Desk} (distinct : d.runner.suites.names.Nodup) :
    d.suites = "[" ++ ",".intercalate (d.runner.suites.names.map d.suite) ++ "]" := by
  have shown : d.runner.suites.names.map d.suite =
      (d.runner.suites.values.map Suite.toJson).map Json.compact := by
    have each : d.suite = (fun stored : Option Suite =>
        ((stored.map Suite.toJson).getD .null).compact) ∘ d.runner.suites.get? := rfl
    rw [each, ← List.map_map, Roster.map_get?_names distinct, List.map_map, List.map_map]
    rfl
  rw [suites, Json.compact_list, shown]

end Desk

/-- Stored suites follow their history. After any insertions, removals and clearings a store
has every name once, under it the suite stored last since the name was dropped, and the names
in the order in which they were first stored since then; removing a name takes out that one
suite. The store of a runner is what its runs, removals and clearings make of it, whatever the
interpreter it was built around; a run files what it returns and touches no other name; and
what a desk shows of all suites is the list of what it shows of each. -/
theorem stored_suites_follow_history :
    (∀ edits : List (Roster.Edit Suite),
      Suite.Shelved (edits.foldl (Roster.edit Suite.name) .empty) edits.reverse) ∧
    (∀ (interpreter : Interpreter) (settings : Settings) (actions : List Runner.Action),
      let r := actions.foldl Runner.perform { interpreter := interpreter, settings := settings }
      let d : Desk := { runner := r }
      Suite.Shelved r.suites (actions.filterMap (·.edit? settings)).reverse ∧
      (∀ implementation script suiteName other,
        let ran := r.run implementation script suiteName
        ran.2.suites.get? other = if other = suiteName then some ran.1 else r.suites.get? other) ∧
      (∀ suiteName, (r.remove suiteName).1 = r.suites.get? suiteName ∧
        (r.remove suiteName).2.suites = r.suites.erase suiteName) ∧
      d.suites = "[" ++ ",".intercalate (r.suites.names.map d.suite) ++ "]") ∧
    ∀ (mode : Mode) (calls : List Desk.Call),
      (calls.foldl Desk.perform (Desk.start mode)).runner =
        (calls.filterMap Desk.Call.action?).foldl Runner.perform
          { settings := { mode := mode } } := by
  refine ⟨Suite.shelved_foldl_edit, fun interpreter settings actions => ?_,
    fun mode calls => (Desk.start mode).runner_foldl_perform calls⟩
  intro r d
  have history := Runner.suites_foldl_perform { interpreter, settings } actions
  have shelved : Suite.Shelved r.suites (actions.filterMap (·.edit? settings)).reverse :=
    history ▸ Suite.shelved_foldl_edit _
  refine ⟨shelved, fun implementation script suiteName other => ?_,
    fun suiteName => ⟨rfl, rfl⟩, Desk.suites_eq_intercalate shelved.nodup_names⟩
  intro ran
  rw [Runner.suites_run, Roster.get?_insert]

end Kata
