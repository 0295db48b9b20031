/-
# What a roster has kept

Entries that go by a name of their own are stored in a roster, removed by name or removed
all at once. What the roster holds after any such history can be told from the history: under
a name stands the entry stored last, unless the name was dropped since, and the names stand
in the order in which they were first stored since they were last dropped. Histories are
looked at from their newest end, where the answer is.
-/

import Kata.Roster
import Mathlib.Data.List.Nodup

namespace Kata.Roster

variable {α : Type}

/-! ## Histories -/

/-- One change of a roster whose entries go by names of their own. -/
inductive Edit (α : Type)
  | insert (entry : α)
  | erase (name : String)
  | clear

/-- Whether nothing is left under a name after an edit. -/
def Edit.drops (name : String) : Edit α → Bool
  | .insert _ => false
  | .erase other => other == name
  | .clear => true

section

variable (key : α → String)

/-- The roster after an edit. -/
def edit (r : Roster α) : Edit α → Roster α
  | .insert entry => r.insert (key entry) entry
  | .erase name => r.erase name
  | .clear => .empty

/-- The entry that an edit stores under a name. -/
def Edit.entry? (name : String) : Edit α → Option α
  | .insert entry => if key entry = name then some entry else none
  | .erase _ | .clear => none

/-- The entry that was last stored under a name and not dropped since. The newest edit is
the first of the history. -/
def latest? (name : String) : List (Edit α) → Option α
  | [] => none
  | edit :: older =>
    if edit.drops name then none else (edit.entry? key name).or (latest? name older)

/-- The place in the history, counted from its oldest end, where a name was first stored
since it was last dropped. -/
def firstPlace? (name : String) : List (Edit α) → Option Nat
  | [] => none
  | edit :: older =>
    if edit.drops name then none
    else (firstPlace? name older).or ((edit.entry? key name).map fun _ => older.length)

/-- Both names are stored, and the first one has been for longer. -/
def Precedes (history : List (Edit α)) (a b : String) : Prop :=
  ∃ p ∈ firstPlace? key a history, ∃ q ∈ firstPlace? key b history, p < q

end

variable {key : α → String} {history : List (Edit α)} {name other : String} {entry : α}

theorem firstPlace?_isSome (name : String) (history : List (Edit α)) :
    (firstPlace? key name history).isSome = (latest? key name history).isSome := by
  induction history with
  | nil => rfl
  | cons edit older ih =>
      rw [firstPlace?, latest?]
      split
      · rfl
      · simp [ih, Bool.or_comm]

theorem firstPlace?_lt_length {place : Nat} (found : firstPlace? key name history = some place) :
    place < history.length := by
  induction history with
  | nil => cases found
  | cons edit older ih =>
      rw [firstPlace?] at found
      split at found
      · cases found
      · rcases Option.or_eq_some_iff.mp found with earlier | ⟨-, now⟩
        · exact Nat.lt_succ_of_lt (ih earlier)
        · obtain ⟨_, -, rfl⟩ := Option.map_eq_some_iff.mp now
          exact Nat.lt_succ_self _

/-- A name that is stored keeps its place unless an edit drops it. -/
theorem firstPlace?_cons_of_isSome {edit : Edit α} (kept : edit.drops name = false)
    (stored : (firstPlace? key name history).isSome = true) :
    firstPlace? key name (edit :: history) = firstPlace? key name history := by
  rw [firstPlace?, if_neg (by simp [kept]), Option.or_of_isSome stored]

/-! ## Names and entries -/

variable {r : Roster α}

theorem map_fst_put (name : String) (entry : α) (entries : List (String × α)) :
    (put name entry entries).map Prod.fst =
      if name ∈ entries.map Prod.fst then entries.map Prod.fst
      else entries.map Prod.fst ++ [name] := by
  induction entries with
  | nil => rfl
  | cons first rest ih =>
      obtain ⟨first, old⟩ := first
      by_cases here : name = first
      · simp [put, here]
      · rw [put, if_neg here, List.map_cons, ih]
        simp only [List.map_cons, List.mem_cons, here, false_or]
        split
        · rfl
        · rfl

/-- Storing under a name that is taken keeps the names as they are; a new name comes last. -/
theorem names_insert (r : Roster α) (name : String) (entry : α) :
    (r.insert name entry).names = if name ∈ r.names then r.names else r.names ++ [name] :=
  map_fst_put name entry r.entries

theorem names_erase (r : Roster α) (name : String) :
    (r.erase name).names = r.names.filter (· ≠ name) := by
  rw [names, erase, names, List.filter_map]
  rfl

theorem mem_of_mem_put {item : String × α} {entries : List (String × α)}
    (inside : item ∈ put name entry entries) : item = (name, entry) ∨ item ∈ entries := by
  induction entries with
  | nil => exact .inl (List.mem_singleton.mp inside)
  | cons first rest ih =>
      rw [put] at inside
      split at inside
      · rcases List.mem_cons.mp inside with here | later
        · exact .inl here
        · exact .inr (List.mem_cons_of_mem _ later)
      · rcases List.mem_cons.mp inside with here | later
        · exact .inr (here ▸ List.mem_cons_self)
        · exact (ih later).imp_right (List.mem_cons_of_mem _)

theorem mem_names_iff : name ∈ r.names ↔ (r.get? name).isSome = true := by
  rw [get?, List.lookup_isSome_iff, names, List.mem_map]
  simp only [beq_iff_eq, eq_comm (a := name)]

/-- Where names are distinct, the entries are what is found under the names. -/
theorem map_get?_names (distinct : r.names.Nodup) : r.names.map r.get? = r.values.map some := by
  obtain ⟨entries⟩ := r
  simp only [names, values, List.map_map] at distinct ⊢
  apply List.map_congr_left
  intro item inside
  obtain ⟨before, after, rfl⟩ := List.append_of_mem inside
  refine List.lookup_eq_some_iff.mpr
    ⟨before, after, rfl, fun earlier among => bne_iff_ne.mpr fun same => ?_⟩
  rw [List.map_append, List.nodup_append] at distinct
  exact distinct.2.2 earlier.1 (List.mem_map_of_mem among) item.1
    (List.mem_map_of_mem List.mem_cons_self) same.symm

/-- Where names are distinct, removing one takes out its one entry and nothing else. -/
theorem entries_erase (distinct : r.names.Nodup) (name : String) :
    (r.erase name).entries = r.entries.eraseP (·.1 == name) := by
  obtain ⟨entries⟩ := r
  simp only [names, erase] at distinct ⊢
  induction entries with
  | nil => rfl
  | cons first rest ih =>
      rw [List.map_cons, List.nodup_cons] at distinct
      by_cases here : first.1 = name
      · have others : ∀ item ∈ rest, decide (item.1 ≠ name) = true := fun item inside =>
          decide_eq_true fun same =>
            distinct.1 (List.mem_map.mpr ⟨item, inside, same.trans here.symm⟩)
        simp only [List.filter_cons_of_neg, List.eraseP_cons_of_pos, here, beq_self_eq_true,
          ne_eq, not_true_eq_false, decide_false, Bool.false_eq_true, not_false_eq_true]
        exact List.filter_eq_self.mpr others
      · rw [List.filter_cons_of_pos (by simpa using here),
          List.eraseP_cons_of_neg (by simpa using here), ih distinct.2]

/-! ## The invariant -/

/-- A roster holds what a history has left, the newest edit being the first. -/
structure Records (key : α → String) (r : Roster α) (history : List (Edit α)) : Prop where
  nodup : r.names.Nodup
  keyed : ∀ item ∈ r.entries, key item.2 = item.1
  get?_eq : ∀ name, r.get? name = latest? key name history
  ordered : r.names.Pairwise (Precedes key history)

namespace Records

theorem empty : Records key .empty [] where
  nodup := List.nodup_nil
  keyed := by simp [Roster.empty]
  get?_eq := fun _ => rfl
  ordered := List.Pairwise.nil

theorem isSome_firstPlace? (records : r.Records key history) (stored : name ∈ r.names) :
    (firstPlace? key name history).isSome = true := by
  rw [firstPlace?_isSome, ← records.get?_eq]
  exact mem_names_iff.mp stored

/-- Names that an edit does not drop stay in order. -/
theorem precedes_cons (records : r.Records key history) {edit : Edit α} {a b : String}
    (storedA : a ∈ r.names) (storedB : b ∈ r.names) (keptA : edit.drops a = false)
    (keptB : edit.drops b = false) (before : Precedes key history a b) :
    Precedes key (edit :: history) a b := by
  rwa [Precedes, firstPlace?_cons_of_isSome keptA (records.isSome_firstPlace? storedA),
    firstPlace?_cons_of_isSome keptB (records.isSome_firstPlace? storedB)]

theorem insert (records : r.Records key history) (entry : α) :
    Records key (r.insert (key entry) entry) (.insert entry :: history) where
  nodup := by
    rw [names_insert]
    split
    · exact records.nodup
    · rename_i absent
      rw [List.nodup_append]
      exact ⟨records.nodup, List.nodup_singleton _,
        fun a there b new => by rintro rfl; exact absent (List.mem_singleton.mp new ▸ there)⟩
  keyed := by
    intro item inside
    rcases mem_of_mem_put inside with rfl | old
    · rfl
    · exact records.keyed item old
  get?_eq := by
    intro name
    rw [get?_insert, records.get?_eq, latest?]
    by_cases same : name = key entry
    · simp [Edit.drops, Edit.entry?, same]
    · simp [Edit.drops, Edit.entry?, same, Ne.symm same]
  ordered := by
    have old : r.names.Pairwise (Precedes key (.insert entry :: history)) :=
      records.ordered.imp_of_mem fun storedA storedB before =>
        records.precedes_cons storedA storedB rfl rfl before
    rw [names_insert]
    split
    · exact old
    · rename_i absent
      -- The new name has not come up since it was dropped, so its place is the newest one.
      have fresh : firstPlace? key (key entry) history = none := by
        rw [← Option.not_isSome_iff_eq_none, firstPlace?_isSome, ← records.get?_eq]
        exact fun stored => absent (mem_names_iff.mpr stored)
      have new : firstPlace? key (key entry) (.insert entry :: history) =
          some history.length := by
        simp [firstPlace?, Edit.drops, Edit.entry?, fresh]
      rw [List.pairwise_append]
      refine ⟨old, List.pairwise_singleton _ _, fun a storedA b same => ?_⟩
      obtain rfl := List.mem_singleton.mp same
      have stored := records.isSome_firstPlace? storedA
      obtain ⟨place, found⟩ := Option.isSome_iff_exists.mp stored
      have kept : firstPlace? key a (.insert entry :: history) = some place :=
        (firstPlace?_cons_of_isSome rfl stored).trans found
      exact ⟨place, kept, history.length, new, firstPlace?_lt_length found⟩

theorem erase (records : r.Records key history) (name : String) :
    Records key (r.erase name) (.erase name :: history) where
  nodup := by
    rw [names_erase]
    exact records.nodup.filter _
  keyed := fun item inside => records.keyed item (List.mem_filter.mp inside).1
  get?_eq := by
    intro other
    rw [get?_erase, records.get?_eq, latest?]
    by_cases same : other = name
    · simp [Edit.drops, same]
    · simp [Edit.drops, Edit.entry?, same, Ne.symm same]
  ordered := by
    have kept {a : String} (other : a ≠ name) : (Edit.erase (α := α) name).drops a = false :=
      beq_eq_false_iff_ne.mpr other.symm
    rw [names_erase]
    refine (records.ordered.filter _).imp_of_mem fun {a b} amongA amongB before => ?_
    simp only [List.mem_filter, decide_eq_true_eq] at amongA amongB
    exact records.precedes_cons amongA.1 amongB.1 (kept amongA.2) (kept amongB.2) before

theorem edit (records : r.Records key history) (edit : Edit α) :
    Records key (r.edit key edit) (edit :: history) := by
  cases edit with
  | insert entry => exact records.insert entry
  | erase name => exact records.erase name
  | clear =>
      exact ⟨List.nodup_nil, by simp [Roster.edit, Roster.empty], fun _ => rfl, List.Pairwise.nil⟩

/-- After any edits a roster holds what they have left. -/
theorem foldl_edit (records : r.Records key history) (edits : List (Edit α)) :
    Records key (edits.foldl (Roster.edit key) r) (edits.reverse ++ history) := by
  induction edits generalizing r history with
  | nil => exact records
  | cons edit rest ih =>
      rw [List.reverse_cons, List.append_assoc]
      exact ih (records.edit edit)

/-- The names are those that the entries go by. -/
theorem map_key_values (records : r.Records key history) : r.values.map key = r.names := by
  rw [values, names, List.map_map]
  exact List.map_congr_left records.keyed

end Records

end Kata.Roster
