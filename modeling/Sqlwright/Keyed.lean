/-!
Lists of keyed entries in the order of their keys, each key once. `find?_insert` says that an
insertion is read back under its key and changes nothing under any other.
-/

namespace Sqlwright.Keyed

variable {β : Type}

/-- Puts an entry at its place; an earlier entry of the same key is replaced. -/
def insert (key : String) (value : β) : List (String × β) → List (String × β)
  | [] => [(key, value)]
  | entry :: rest =>
    if key = entry.1 then (key, value) :: rest
    else if key < entry.1 then (key, value) :: entry :: rest
    else entry :: insert key value rest

/-- The value of the first entry with this key. -/
def find? (key : String) : List (String × β) → Option β
  | [] => none
  | entry :: rest => if key = entry.1 then some entry.2 else find? key rest

/-- Inserts entries one after the other, so the last value of a repeated key counts. -/
def ofEntries (entries : List (String × β)) : List (String × β) :=
  entries.foldl (fun sorted entry => insert entry.1 entry.2 sorted) []

theorem find?_insert (key wanted : String) (value : β) (entries : List (String × β)) :
    find? wanted (insert key value entries) =
      if wanted = key then some value else find? wanted entries := by
  induction entries with
  | nil => by_cases h : wanted = key <;> simp [insert, find?, h]
  | cons entry rest ih =>
    by_cases same : key = entry.1
    · by_cases h : wanted = key <;> simp_all [insert, find?]
    · by_cases before : key < entry.1
      · by_cases h : wanted = key <;> simp [insert, find?, same, before, h]
      · simp only [insert, same, before, if_false, find?, ih]
        by_cases h : wanted = entry.1
        · simp [h, Ne.symm same]
        · simp [h]

end Sqlwright.Keyed
