import Sqlwright.Text.Blank

/-!
Cutting text at a separator character and gluing it back. `splitOn` keeps empty fields, so a text
with `n` separators has `n + 1` fields and joining them restores it.
-/

namespace Sqlwright.Text

/-- The fields between the separators, empty ones included; never an empty list. -/
def splitOn (sep : Char) : List Char → List (List Char)
  | [] => [[]]
  | c :: rest =>
    if c = sep then [] :: splitOn sep rest
    else match splitOn sep rest with
      | [] => [[c]]
      | field :: fields => (c :: field) :: fields

/-- The fields with one separator between neighbours. -/
def joinWith (sep : Char) : List (List Char) → List Char
  | [] => []
  | [field] => field
  | field :: fields => field ++ sep :: joinWith sep fields

theorem splitOn_ne_nil (sep : Char) (s : List Char) : splitOn sep s ≠ [] := by
  cases s with
  | nil => simp [splitOn]
  | cons c rest =>
    by_cases h : c = sep
    · simp [splitOn, h]
    · simp only [splitOn, h, if_false]
      split <;> simp

theorem joinWith_splitOn (sep : Char) (s : List Char) : joinWith sep (splitOn sep s) = s := by
  induction s with
  | nil => rfl
  | cons c rest ih =>
    by_cases h : c = sep
    · subst h
      simp only [splitOn, if_true]
      cases hr : splitOn c rest with
      | nil => exact absurd hr (splitOn_ne_nil c rest)
      | cons field fields => simp [joinWith, ← hr, ih]
    · simp only [splitOn, h, if_false]
      cases hr : splitOn sep rest with
      | nil => exact absurd hr (splitOn_ne_nil sep rest)
      | cons field fields =>
        rw [hr] at ih
        cases fields <;> simp_all [joinWith]

theorem splitOn_append (sep : Char) (s rest : List Char) :
    splitOn sep (s ++ sep :: rest) = splitOn sep s ++ splitOn sep rest := by
  induction s with
  | nil => simp [splitOn]
  | cons c more ih =>
    by_cases h : c = sep
    · simp [splitOn, h, ih]
    · obtain ⟨field, fields, shape⟩ := List.exists_cons_of_ne_nil (splitOn_ne_nil sep more)
      simp [splitOn, h, ih, shape]

theorem splitOn_free {sep : Char} {s : List Char} (free : sep ∉ s) : splitOn sep s = [s] := by
  induction s with
  | nil => rfl
  | cons c more ih =>
    obtain ⟨apart, later⟩ : sep ≠ c ∧ sep ∉ more := by simpa using free
    simp [splitOn, Ne.symm apart, ih later]

theorem not_mem_of_mem_splitOn {sep : Char} (s : List Char) :
    ∀ field ∈ splitOn sep s, sep ∉ field := by
  induction s with
  | nil => simp [splitOn]
  | cons c rest ih =>
    by_cases here : c = sep
    · simpa [splitOn, here] using ih
    · obtain ⟨field, fields, shape⟩ := List.exists_cons_of_ne_nil (splitOn_ne_nil sep rest)
      rw [shape] at ih
      simpa [splitOn, here, shape, Ne.symm here] using ih

theorem splitOn_joinWith (sep : Char) {fields : List (List Char)} (some : fields ≠ []) :
    splitOn sep (joinWith sep fields) = fields.flatMap (splitOn sep) := by
  induction fields with
  | nil => exact absurd rfl some
  | cons field rest ih =>
    cases rest with
    | nil => simp [joinWith]
    | cons next more =>
      have joined : joinWith sep (field :: next :: more) =
          field ++ sep :: joinWith sep (next :: more) := rfl
      rw [joined, splitOn_append, ih (List.cons_ne_nil _ _)]
      rfl

/-- `splitOn` on strings. -/
def fields (sep : Char) (s : String) : List String :=
  (splitOn sep s.toList).map .ofList

/-- The text before and after the first separator, none when there is no separator. -/
def cut (sep : Char) : List Char → Option (List Char × List Char)
  | [] => none
  | c :: rest =>
    if c = sep then some ([], rest) else (cut sep rest).map fun parts => (c :: parts.1, parts.2)

/-- The text after the last separator, the whole text when there is none. -/
def afterLast (sep : Char) (s : String) : String :=
  .ofList (s.toList.reverse.takeWhile (· != sep)).reverse

/-- The text without all `front` characters it starts with and all `back` ones it ends in. -/
def stripEnds (front back : Char) (s : List Char) : List Char :=
  ((s.dropWhile (· == front)).reverse.dropWhile (· == back)).reverse

/-- Whether a text occurs within another. -/
def occurs (needle : List Char) : List Char → Bool
  | [] => needle.isEmpty
  | c :: rest => needle.isPrefixOf (c :: rest) || occurs needle rest

/-- The entries of a comma separated list, trimmed, blank ones dropped. -/
def commaList (s : String) : List String :=
  ((fields ',' s).map trim).filter (· != "")

/-- The entries with `sep` between neighbours. -/
def join (sep : String) : List String → String
  | [] => ""
  | [entry] => entry
  | entry :: rest => entry ++ sep ++ join sep rest

theorem toList_join_cons (sep s t : String) (more : List String) :
    (join sep (s :: t :: more)).toList =
      s.toList ++ (sep.toList ++ (join sep (t :: more)).toList) := by
  simp [join, String.toList_append]

end Sqlwright.Text
