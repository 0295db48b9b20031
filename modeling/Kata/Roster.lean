/-
# Rosters

A roster holds entries under names, at most one each, in the order in which the names
came up. Storing under a name that is taken replaces the entry and keeps its place.
Functions, the bindings of a scope and finished suites are all kept in rosters.
-/

namespace Kata

/-- Named entries in order. -/
structure Roster (α : Type) where
  entries : List (String × α) := []
  deriving Inhabited

namespace Roster

variable {α : Type}

/-- The roster without entries. -/
def empty : Roster α := ⟨[]⟩

/-- The names in order. -/
def names (r : Roster α) : List String := r.entries.map (·.1)

/-- The entries in order, without their names. -/
def values (r : Roster α) : List α := r.entries.map (·.2)

/-- The number of entries. -/
def size (r : Roster α) : Nat := r.entries.length

/-- Whether there is no entry. -/
def isEmpty (r : Roster α) : Bool := r.entries.isEmpty

/-- The entry under a name. -/
def get? (r : Roster α) (name : String) : Option α := r.entries.lookup name

/-- Put an entry where its name stands in a list, or at the end. -/
def put (name : String) (value : α) : List (String × α) → List (String × α)
  | [] => [(name, value)]
  | (other, old) :: rest =>
    if name = other then (name, value) :: rest else (other, old) :: put name value rest

/-- Store an entry under a name, in place of one that is there. -/
def insert (r : Roster α) (name : String) (value : α) : Roster α :=
  ⟨put name value r.entries⟩

/-- Remove the entry under a name, if there is one. -/
def erase (r : Roster α) (name : String) : Roster α :=
  ⟨r.entries.filter fun entry => entry.1 ≠ name⟩

/-- A list after `put` holds the new entry under its name and the old ones elsewhere. -/
theorem lookup_put (name other : String) (value : α) (entries : List (String × α)) :
    (put name value entries).lookup other =
      if other = name then some value else entries.lookup other := by
  have missed {a b : String} (h : ¬ a = b) : (a == b) = false := by simpa using h
  induction entries with
  | nil => by_cases h : other = name <;> simp [put, List.lookup_cons, h, missed]
  | cons entry rest ih =>
    obtain ⟨key, old⟩ := entry
    by_cases here : name = key
    · subst here
      by_cases h : other = name <;> simp [put, List.lookup_cons, h, missed]
    · by_cases h : other = key
      · have apart : ¬ key = name := fun same => here same.symm
        simp [put, here, h, apart]
      · simp [put, here, List.lookup_cons, missed h, ih]

/-- What is found after storing an entry. -/
theorem get?_insert (r : Roster α) (name other : String) (value : α) :
    (r.insert name value).get? other = if other = name then some value else r.get? other :=
  lookup_put name other value r.entries

/-- What is found after removing an entry. -/
theorem get?_erase (r : Roster α) (name other : String) :
    (r.erase name).get? other = if other = name then none else r.get? other := by
  obtain ⟨entries⟩ := r
  simp only [get?, erase]
  induction entries with
  | nil => simp
  | cons entry rest ih =>
    obtain ⟨key, value⟩ := entry
    by_cases here : key = name
    · subst here
      by_cases h : other = key
      · subst h
        simpa using ih
      · have apart : (other == key) = false := by simpa using h
        simpa [h, List.lookup_cons, apart] using ih
    · by_cases h : other = key
      · subst h
        simp [here]
      · have apart : (other == key) = false := by simpa using h
        simpa [here, List.lookup_cons, apart] using ih

end Roster

end Kata
