import Sqlwright.Keyed

/-!
Lists in which entries are found by name. A lookup is kept beside such a list and leads every name
to a position; who changes the list has to bring it up to date. Of several entries of one name the
last counts, so an entry that is appended hides earlier ones. `Current` says that a lookup is up to
date, and its lemmas say which changes of a list leave it so.
-/

namespace Sqlwright

/-- Positions by name, kept beside the list that they point into. -/
abbrev Lookup := List (String × Nat)

namespace Named

variable {α : Type} (key : α → String)

/-- The position of the last entry of a name. -/
def position? (name : String) : List α → Option Nat
  | [] => none
  | entry :: rest =>
    match position? name rest with
    | some i => some (i + 1)
    | none => if key entry = name then some 0 else none

/-- The lookup of a whole list, made anew. -/
def positions (entries : List α) : Lookup := Keyed.ofEntries (entries.map key).zipIdx

/-- The entry that a lookup leads to. -/
def find? (lookup : Lookup) (name : String) (entries : List α) : Option α :=
  (Keyed.find? name lookup).bind fun i => entries[i]?

/-- Changes the entry that a lookup leads to. -/
def update (lookup : Lookup) (name : String) (change : α → α) (entries : List α) : List α :=
  match Keyed.find? name lookup with
  | some i => entries.modify i change
  | none => entries

/-- Whether a lookup knows a name. -/
def contains (lookup : Lookup) (name : String) : Bool := (Keyed.find? name lookup).isSome

/-- All entries but those of a name. -/
def erase (name : String) (entries : List α) : List α := entries.filter fun e => key e != name

/-- A lookup that leads every name to the last entry of it, and no name elsewhere. -/
def Current (lookup : Lookup) (entries : List α) : Prop :=
  ∀ name, Keyed.find? name lookup = position? key name entries

section Positions

variable {key} {name : String} {entries : List α}

theorem position?_eq_some {i : Nat} (found : position? key name entries = some i) :
    ∃ entry, entries[i]? = some entry ∧ key entry = name := by
  induction entries generalizing i with
  | nil => simp [position?] at found
  | cons entry rest ih =>
    cases later : position? key name rest with
    | some j =>
      obtain rfl : j + 1 = i := by simpa [position?, later] using found
      simpa using ih later
    | none =>
      by_cases same : key entry = name
      · obtain rfl : 0 = i := by simpa [position?, later, same] using found
        exact ⟨entry, rfl, same⟩
      · simp [position?, later, same] at found

theorem position?_isSome :
    (position? key name entries).isSome ↔ ∃ entry ∈ entries, key entry = name := by
  induction entries with
  | nil => simp [position?]
  | cons entry rest ih =>
    cases later : position? key name rest with
    | some j =>
      rw [later] at ih
      simp only [position?, later, Option.isSome_some, true_iff]
      obtain ⟨other, member, same⟩ := ih.1 rfl
      exact ⟨other, List.mem_cons_of_mem _ member, same⟩
    | none =>
      rw [later] at ih
      have absent : ¬ ∃ other ∈ rest, key other = name := fun h => absurd (ih.2 h) (by simp)
      by_cases same : key entry = name
      · simp [position?, later, same]
      · simp only [position?, later, same, if_false, Option.isSome_none, Bool.false_eq_true,
          false_iff]
        rintro ⟨other, member, named⟩
        rcases List.mem_cons.1 member with rfl | member
        · exact same named
        · exact absent ⟨other, member, named⟩

/-- An appended entry is the last one of its name. -/
theorem position?_concat (name : String) (entries : List α) (last : α) :
    position? key name (entries ++ [last]) =
      if name = key last then some entries.length else position? key name entries := by
  induction entries with
  | nil => simp [position?, eq_comm]
  | cons entry rest ih =>
    rw [List.cons_append, position?, ih]
    by_cases same : name = key last
    · simp [same]
    · simp [same, position?]

/-- Positions depend on the names alone. -/
theorem position?_map_key (name : String) (entries : List α) :
    position? id name (entries.map key) = position? key name entries := by
  induction entries with
  | nil => rfl
  | cons entry rest ih => simp [position?, ih]

end Positions

section Updates

variable (lookup : Lookup) (name : String) (change : α → α) (entries : List α)

/-- Just the entry that the lookup leads to is changed. -/
theorem getElem?_update (i : Nat) :
    (update lookup name change entries)[i]? =
      entries[i]?.map fun e => if Keyed.find? name lookup = some i then change e else e := by
  unfold update
  cases Keyed.find? name lookup with
  | none => simp
  | some j =>
    rw [List.getElem?_modify]
    by_cases here : j = i <;> simp [here]

variable {change} in
/-- A view of the entries is changed in the same place. -/
theorem map_update_eq {β : Type} {view : α → β} {shown : β → β}
    (same : ∀ e, view (change e) = shown (view e)) :
    (update lookup name change entries).map view =
      update lookup name shown (entries.map view) := by
  refine List.ext_getElem? fun i => ?_
  rw [List.getElem?_map, getElem?_update, getElem?_update, List.getElem?_map, Option.map_map,
    Option.map_map]
  congr 1
  funext e
  by_cases here : Keyed.find? name lookup = some i <;> simp [here, same]

/-- What holds of all entries after a change, told before it. -/
theorem forall_update {P : Nat → α → Prop} :
    (∀ i e, (update lookup name change entries)[i]? = some e → P i e) ↔
      ∀ i e, entries[i]? = some e →
        if Keyed.find? name lookup = some i then P i (change e) else P i e := by
  refine forall_congr' fun i => ?_
  rw [getElem?_update]
  by_cases led : Keyed.find? name lookup = some i <;> cases entries[i]? <;> simp [led]

theorem update_update (again : α → α) :
    update lookup name again (update lookup name change entries) =
      update lookup name (fun e => again (change e)) entries := by
  refine List.ext_getElem? fun i => ?_
  rw [getElem?_update, getElem?_update, getElem?_update, Option.map_map]
  congr 1
  funext e
  by_cases here : Keyed.find? name lookup = some i <;> simp [here]

variable {change} in
/-- What the change leaves as it is stays in place. -/
theorem map_update {β : Type} {view : α → β} (kept : ∀ e, view (change e) = view e) :
    (update lookup name change entries).map view = entries.map view := by
  refine List.ext_getElem? fun i => ?_
  rw [List.getElem?_map, List.getElem?_map, getElem?_update, Option.map_map]
  congr 1
  funext e
  by_cases here : Keyed.find? name lookup = some i <;> simp [here, kept]

end Updates

section Lookups

variable {key} {lookup : Lookup} {entries : List α}

/-- A lookup made anew is up to date. -/
theorem current_positions (entries : List α) : Current key (positions key entries) entries := by
  -- names are inserted from the front on, so the induction takes entries off at the end
  have reversed (back : List α) : Current key (positions key back.reverse) back.reverse := by
    induction back with
    | nil => exact fun _ => rfl
    | cons last rest ih =>
      intro name
      have inserted : positions key (rest.reverse ++ [last]) =
          Keyed.insert (key last) rest.reverse.length (positions key rest.reverse) := by
        simp [positions, Keyed.ofEntries, List.zipIdx_append]
      rw [List.reverse_cons, inserted, Keyed.find?_insert, position?_concat, ih name]
  simpa using reversed entries.reverse

/-- An entry that is appended is inserted with the length of the list. -/
theorem Current.concat (current : Current key lookup entries) (last : α) :
    Current key (Keyed.insert (key last) entries.length lookup) (entries ++ [last]) := by
  intro name
  rw [Keyed.find?_insert, position?_concat, current name]

/-- A lookup stays up to date where all names stay in place. -/
theorem Current.of_keys {others : List α} (current : Current key lookup entries)
    (kept : others.map key = entries.map key) : Current key lookup others := by
  intro name
  rw [current name, ← position?_map_key, ← kept, position?_map_key]

theorem Current.update (current : Current key lookup entries) {change : α → α}
    (named : ∀ entry, key (change entry) = key entry) (name : String) :
    Current key lookup (update lookup name change entries) :=
  current.of_keys (map_update lookup name entries named)

/-- An up to date lookup leads from every name in the list to an entry of it. -/
theorem Current.leads (current : Current key lookup entries) {name : String}
    (known : name ∈ entries.map key) :
    ∃ i entry, Keyed.find? name lookup = some i ∧ entries[i]? = some entry ∧ key entry = name := by
  have placed : (position? key name entries).isSome :=
    position?_isSome.mpr (List.mem_map.mp known)
  obtain ⟨i, found⟩ := Option.isSome_iff_exists.mp placed
  obtain ⟨entry, held, named⟩ := position?_eq_some found
  exact ⟨i, entry, (current name).trans found, held, named⟩

/-- Where no name is repeated, a lookup leads to every entry. -/
theorem Current.leads_iff (current : Current key lookup entries)
    (distinct : (entries.map key).Nodup) {entry : α} {i : Nat} (held : entries[i]? = some entry)
    (name : String) : Keyed.find? name lookup = some i ↔ key entry = name := by
  constructor
  · intro led
    obtain ⟨other, there, same⟩ := position?_eq_some ((current name).symm.trans led)
    obtain rfl : other = entry := Option.some.inj (there.symm.trans held)
    exact same
  · rintro rfl
    have known := List.mem_map_of_mem (f := key) (List.mem_of_getElem? held)
    obtain ⟨j, other, led, there, same⟩ := current.leads known
    have inside : i < (entries.map key).length := by
      rw [List.length_map]
      exact (List.getElem?_eq_some_iff.mp held).1
    have alike : (entries.map key)[i]? = (entries.map key)[j]? := by
      rw [List.getElem?_map, List.getElem?_map, held, there, Option.map_some, Option.map_some, same]
    have place : i = j := (List.getElem?_inj inside distinct).mp alike
    rw [led, place]

/-- Where no name is repeated, giving an entry another name changes just this name. -/
theorem Current.keys_update (current : Current key lookup entries)
    (distinct : (entries.map key).Nodup) {change : α → α} {target : String}
    (named : ∀ entry, key (change entry) = target) (source : String) :
    (Named.update lookup source change entries).map key =
      (entries.map key).map fun name => if name = source then target else name := by
  refine List.ext_getElem? fun i => ?_
  simp only [List.getElem?_map, getElem?_update]
  cases held : entries[i]? with
  | none => rfl
  | some entry =>
    simp only [Option.map_some, current.leads_iff distinct held]
    by_cases same : key entry = source <;> simp [same, named]

/-- An entry that takes the place of one that is shown alike changes nothing that is shown. -/
theorem map_set_eq {β : Type} {shown : α → β} {entry : α} {i : Nat}
    (alike : (entries.map shown)[i]? = some (shown entry)) :
    (entries.set i entry).map shown = entries.map shown := by
  obtain ⟨inside, same⟩ := List.getElem?_eq_some_iff.mp alike
  rw [List.map_set, ← same, List.set_getElem_self]

/-- An entry may take the place of the one that the lookup finds under its name. -/
theorem Current.keys_set (current : Current key lookup entries) {entry : α} {i : Nat}
    (found : Keyed.find? (key entry) lookup = some i) :
    (entries.set i entry).map key = entries.map key := by
  obtain ⟨old, held, same⟩ := position?_eq_some ((current (key entry)).symm.trans found)
  refine map_set_eq ?_
  rw [List.getElem?_map, held, Option.map_some, same]

theorem Current.set (current : Current key lookup entries) {entry : α} {i : Nat}
    (found : Keyed.find? (key entry) lookup = some i) :
    Current key lookup (entries.set i entry) :=
  current.of_keys (current.keys_set found)

/-- Every entry of an up to date lookup is the position of an entry of that name. -/
theorem Current.points (current : Current key lookup entries) {name : String} {i : Nat}
    (found : Keyed.find? name lookup = some i) :
    ∃ entry, entries[i]? = some entry ∧ key entry = name :=
  position?_eq_some ((current name).symm.trans found)

/-- An up to date lookup knows exactly the names in the list. -/
theorem Current.contains_iff (current : Current key lookup entries) (name : String) :
    contains lookup name ↔ ∃ entry ∈ entries, key entry = name := by
  rw [contains, current name, position?_isSome]

theorem Current.unled_iff (current : Current key lookup entries) (name : String) :
    Keyed.find? name lookup = none ↔ name ∉ entries.map key := by
  rw [List.mem_map, ← current.contains_iff name, contains]
  simp

/-- What an up to date lookup finds is an entry of the name. -/
theorem Current.of_find? (current : Current key lookup entries) {name : String} {entry : α}
    (found : find? lookup name entries = some entry) : entry ∈ entries ∧ key entry = name := by
  obtain ⟨i, led, held⟩ := Option.bind_eq_some_iff.mp found
  obtain ⟨other, there, same⟩ := current.points led
  obtain rfl : other = entry := Option.some.inj (there.symm.trans held)
  exact ⟨List.mem_of_getElem? held, same⟩

/-- An up to date lookup finds something exactly where there is an entry of the name. -/
theorem Current.find?_isSome_iff (current : Current key lookup entries) (name : String) :
    (find? lookup name entries).isSome ↔ ∃ entry ∈ entries, key entry = name := by
  rw [← current.contains_iff name, find?, contains]
  cases led : Keyed.find? name lookup with
  | none => simp
  | some i =>
    obtain ⟨entry, held, -⟩ := current.points led
    simp [held]

end Lookups

end Named

end Sqlwright
