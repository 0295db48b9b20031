/-
# What trees hold and how deep they are

A tree that is written out holds no unreadable piece, and its numerals are of a kind: strict
ones for a parser, and such as have a finite value for a reader. A reader also wants the tree
to be shallow, and a record to have each field once. All of this is said here about trees as
such, so that each type has only its own tree to talk about.
-/

import Kata.Json.Reader

namespace Kata.Json

variable {json : Json} {room : Nat}

/-! ## Parts of trees -/

/-- Nothing in a tree is unreadable, and all its numerals are of a kind. -/
inductive Holds (kind : Numeral → Prop) : Json → Prop
  | null : Holds kind .null
  | bool (value : Bool) : Holds kind (.bool value)
  | num {n : Numeral} (of_kind : kind n) : Holds kind (.num n)
  | text (value : String) : Holds kind (.text value)
  | list {items : List Json} (each : ∀ item ∈ items, Holds kind item) : Holds kind (.list items)
  | object {members : List (String × Json)} (each : ∀ member ∈ members, Holds kind member.2) :
      Holds kind (.object members)

/-- The members of a list that are present. -/
def present (members : List (String × Option Json)) : List (String × Json) :=
  members.filterMap fun member => member.2.map (member.1, ·)

theorem mem_present_iff {members : List (String × Option Json)} {member : String × Json} :
    member ∈ present members ↔ (member.1, some member.2) ∈ members := by
  refine List.mem_filterMap.trans ⟨?_, fun listed => ⟨_, listed, rfl⟩⟩
  rintro ⟨⟨name, value⟩, listed, shown⟩
  obtain ⟨value, rfl, rfl⟩ := Option.map_eq_some_iff.mp shown
  exact listed

theorem Holds.ofMembers {kind : Numeral → Prop} {members : List (String × Option Json)}
    (each : ∀ member ∈ members, ∀ value ∈ member.2, Holds kind value) :
    Holds kind (.ofMembers members) :=
  .object fun _ inside => each _ (mem_present_iff.mp inside) _ rfl

mutual

/-- How many lists and objects are open at the deepest place of a tree. -/
def depth : Json → Nat
  | .list items => depthOfItems items + 1
  | .object members => depthOfMembers members + 1
  | _ => 0

/-- The depth of the deepest item. -/
def depthOfItems : List Json → Nat
  | [] => 0
  | item :: rest => max (depth item) (depthOfItems rest)

/-- The depth of the deepest member. -/
def depthOfMembers : List (String × Json) → Nat
  | [] => 0
  | (_, value) :: rest => max (depth value) (depthOfMembers rest)

end

theorem depthOfItems_le_iff {items : List Json} :
    depthOfItems items ≤ room ↔ ∀ item ∈ items, depth item ≤ room := by
  induction items with
  | nil => simp [depthOfItems]
  | cons item items ih => rw [depthOfItems, Nat.max_le, ih, List.forall_mem_cons]

theorem depthOfMembers_le_iff {members : List (String × Json)} :
    depthOfMembers members ≤ room ↔ ∀ member ∈ members, depth member.2 ≤ room := by
  induction members with
  | nil => simp [depthOfMembers]
  | cons member members ih => rw [depthOfMembers, Nat.max_le, ih, List.forall_mem_cons]

theorem depth_list_le {items : List Json} (each : ∀ item ∈ items, depth item ≤ room) :
    depth (.list items) ≤ room + 1 := by
  rw [depth]
  exact Nat.succ_le_succ (depthOfItems_le_iff.mpr each)

theorem depth_object_le {members : List (String × Json)}
    (each : ∀ member ∈ members, depth member.2 ≤ room) : depth (.object members) ≤ room + 1 := by
  rw [depth]
  exact Nat.succ_le_succ (depthOfMembers_le_iff.mpr each)

theorem depth_ofMembers_le {members : List (String × Option Json)}
    (each : ∀ member ∈ members, ∀ value ∈ member.2, depth value ≤ room) :
    depth (.ofMembers members) ≤ room + 1 := by
  apply depth_object_le
  intro member inside
  exact each _ (mem_present_iff.mp inside) _ rfl

/-- A list takes one level of the room, and its items share the rest. -/
theorem exists_room_of_list {items : List Json} (shallow : depth (.list items) ≤ room) :
    ∃ rest, room = rest + 1 ∧ ∀ item ∈ items, depth item ≤ rest := by
  rw [depth] at shallow
  obtain ⟨rest, rfl⟩ := Nat.exists_eq_add_of_le' (Nat.le_of_add_left_le shallow)
  exact ⟨rest, rfl, depthOfItems_le_iff.mp (Nat.le_of_succ_le_succ shallow)⟩

/-- An object takes one level of the room, and its members share the rest. -/
theorem exists_room_of_object {members : List (String × Json)}
    (shallow : depth (.object members) ≤ room) :
    ∃ rest, room = rest + 1 ∧ ∀ member ∈ members, depth member.2 ≤ rest := by
  rw [depth] at shallow
  obtain ⟨rest, rfl⟩ := Nat.exists_eq_add_of_le' (Nat.le_of_add_left_le shallow)
  exact ⟨rest, rfl, depthOfMembers_le_iff.mp (Nat.le_of_succ_le_succ shallow)⟩

theorem exists_room_of_ofMembers {members : List (String × Option Json)}
    (shallow : depth (.ofMembers members) ≤ room) :
    ∃ rest, room = rest + 1 ∧ ∀ member ∈ members, ∀ value ∈ member.2, depth value ≤ rest := by
  obtain ⟨rest, taken, each⟩ := exists_room_of_object shallow
  refine ⟨rest, taken, ?_⟩
  rintro ⟨name, _⟩ inside value rfl
  exact each (name, value) (mem_present_iff.mpr inside)

/-! ## Sound trees -/

theorem soundItems_iff {items : List Json} :
    soundItems room items = true ↔ ∀ item ∈ items, sound room item = true := by
  induction items with
  | nil => simp [soundItems]
  | cons item items ih => rw [soundItems, Bool.and_eq_true, ih, List.forall_mem_cons]

theorem soundMembers_iff {members : List (String × Json)} :
    soundMembers room members = true ↔ ∀ member ∈ members, sound room member.2 = true := by
  induction members with
  | nil => simp [soundMembers]
  | cons member members ih => rw [soundMembers, Bool.and_eq_true, ih, List.forall_mem_cons]

/-- A shallow tree of finite numbers is sound. -/
theorem Holds.sound (holds : Holds (fun n => (double? n).isSome = true) json)
    (shallow : json.depth ≤ room) : json.sound room = true := by
  induction holds generalizing room with
  | null => rw [Json.sound]
  | bool value => rw [Json.sound]
  | num finite => rwa [Json.sound]
  | text value => rw [Json.sound]
  | list _ ih =>
      obtain ⟨rest, rfl, each⟩ := exists_room_of_list shallow
      rw [Json.sound, soundItems_iff]
      exact fun item inside => ih item inside (each item inside)
  | object _ ih =>
      obtain ⟨rest, rfl, each⟩ := exists_room_of_object shallow
      rw [Json.sound, soundMembers_iff]
      exact fun member inside => ih member inside (each member inside)

/-! ## Records and lists -/

theorem countP_key_le_one {α : Type} {members : List (String × α)}
    (distinct : (members.map Prod.fst).Nodup) (name : String) :
    members.countP (fun member => member.1 == name) ≤ 1 := by
  have count := List.nodup_iff_count.mp distinct name
  rwa [List.count, List.countP_map] at count

theorem present_cons (name : String) (value : Option Json)
    (rest : List (String × Option Json)) :
    present ((name, value) :: rest) = (value.map (name, ·)).toList ++ present rest := by
  cases value <;> rfl

theorem keys_present_sublist (members : List (String × Option Json)) :
    ((present members).map Prod.fst).Sublist (members.map Prod.fst) := by
  induction members with
  | nil => exact List.Sublist.slnil
  | cons member rest ih =>
      obtain ⟨name, value⟩ := member
      rw [present_cons]
      cases value with
      | none => exact ih.cons name
      | some value => exact ih.cons_cons name

/-- Where keys are distinct, a present member is found by its key. -/
theorem lookup_present {members : List (String × Option Json)}
    (distinct : (members.map Prod.fst).Nodup) :
    ∀ member ∈ members, (present members).lookup member.1 = member.2 := by
  induction members with
  | nil => simp
  | cons first rest ih =>
      obtain ⟨name, value⟩ := first
      obtain ⟨fresh, distinctRest⟩ := List.nodup_cons.mp distinct
      intro member inside
      rw [present_cons]
      rcases List.mem_cons.mp inside with rfl | later
      · cases value with
        | some value => simp
        | none =>
            rw [Option.map_none, Option.toList_none, List.nil_append, List.lookup_eq_none_iff]
            intro other listed
            rw [bne_iff_ne]
            rintro rfl
            exact fresh (List.mem_map.mpr ⟨_, mem_present_iff.mp listed, rfl⟩)
      · have other : member.1 ≠ name := by
          rintro rfl
          exact fresh (List.mem_map.mpr ⟨member, later, rfl⟩)
        cases value with
        | none => exact ih distinctRest member later
        | some value =>
            rw [Option.map_some, Option.toList_some, List.singleton_append, List.lookup_cons,
              beq_eq_false_iff_ne.mpr other]
            exact ih distinctRest member later

/-- A record with distinct fields is read as its fields. -/
theorem fields?_ofMembers {names : List String} (members : List (String × Option Json))
    (named : members.map Prod.fst = names) (distinct : names.Nodup) :
    (ofMembers members).fields? names = some (members.map Prod.snd) := by
  subst named
  have once : ((members.map Prod.fst).any fun name =>
      1 < (present members).countP fun member => member.1 == name) = false := by
    rw [List.any_eq_false]
    intro name _ twice
    have one := countP_key_le_one (distinct.sublist (keys_present_sublist members)) name
    simp only [decide_eq_true_eq] at twice
    omega
  have found : (members.map Prod.fst).map (fun name => (present members).lookup name) =
      members.map Prod.snd := by
    rw [List.map_map]
    exact List.map_congr_left (lookup_present distinct)
  have opened : ofMembers members = .object (present members) := rfl
  rw [opened, fields?, once, found]
  rfl

/-- A record that has all its fields. -/
theorem fields?_object {names : List String} (members : List (String × Json))
    (named : members.map Prod.fst = names) (distinct : names.Nodup) :
    (object members).fields? names = some (members.map fun member => some member.2) := by
  have all := fields?_ofMembers (members.map fun member => (member.1, some member.2))
    (by rw [List.map_map]; exact named) distinct
  have kept : present (members.map fun member => (member.1, some member.2)) = members := by
    rw [present, List.filterMap_map]
    exact List.filterMap_some
  have opened : ofMembers (members.map fun member => (member.1, some member.2)) =
      .object members := congrArg object kept
  rwa [opened, List.map_map] at all

/-- Items that are written and read one by one. -/
theorem mapM_map_eq_some {α β : Type} {items : List α} {write : α → Json}
    {read : Json → Option β} {result : α → β}
    (each : ∀ item ∈ items, read (write item) = some (result item)) :
    (items.map write).mapM read = some (items.map result) := by
  induction items with
  | nil => rfl
  | cons item items ih =>
      obtain ⟨here, later⟩ := List.forall_mem_cons.mp each
      rw [List.map_cons, List.mapM_cons, here, ih later]
      rfl

theorem map_eq_self_iff {α : Type} {f : α → α} {items : List α} :
    items.map f = items ↔ ∀ item ∈ items, f item = item := by
  induction items with
  | nil => simp
  | cons item items ih => rw [List.map_cons, List.cons.injEq, ih, List.forall_mem_cons]

end Kata.Json
