import Sqlwright.Proofs.FirstAppearances
import Sqlwright.Proofs.ReflectedIndexes

/-!
Indexes read from a catalog, as a partition of the entries of its listing. The names that indexes
are read under are those of the entries in order of first appearance, so there is one index for each
stored one as long as different stored names are read apart. They are unless a stored name is that
of another index with the qualifier in front.
-/

namespace Sqlwright

namespace IndexEntry

/-- The names of the stored indexes, in the order in which a listing first tells of them. -/
def storedNames (entries : List IndexEntry) : List String := (entries.map stored).eraseDups

/-- An index is what all entries of one stored index tell of it, and has their columns in order. -/
structure Tells (table qualifier : String) (entries : List IndexEntry) (name : String)
    (index : Index) : Prop where
  table : index.tableName = table
  named : ∀ e ∈ entries, e.stored = name → index.name = e.name qualifier
  kind : ∀ e ∈ entries, e.stored = name → index.kind = e.kind
  columns : index.columns = columnsOf entries name

/-- There is one index for each stored index, in the order of the listing. -/
def Partitioned (table qualifier : String) (entries : List IndexEntry) (indexes : List Index) :
    Prop :=
  List.Forall₂ (Tells table qualifier entries) (storedNames entries) indexes

/-- The entries of a stored index agree on its kind, and no index but the primary one is stored
under the qualifier and a name that another index is read under as it is stored. -/
structure ReadApart (qualifier : String) (entries : List IndexEntry) : Prop where
  agree : ∀ first ∈ entries, ∀ second ∈ entries, first.stored = second.stored →
    first.kind = second.kind
  apart : ∀ e ∈ entries, e.primary = false → ∀ other ∈ entries,
    other.name qualifier = other.stored → e.stored = qualifier ++ other.stored → qualifier = ""

/-! ### Names -/

variable {table qualifier : String} {entries : List IndexEntry} {e other : IndexEntry}

theorem add_names (table qualifier : String) (indexes : List Index) (e : IndexEntry) :
    (add table qualifier indexes e).map Index.name =
      if e.name qualifier ∈ indexes.map Index.name then indexes.map Index.name
      else indexes.map Index.name ++ [e.name qualifier] := by
  unfold add
  split
  · next i found =>
    have known : e.name qualifier ∈ indexes.map Index.name := by
      have some_there : (indexes.findIdx? (·.name = e.name qualifier)).isSome := by rw [found]; rfl
      simpa using some_there
    rw [if_pos known]
    exact List.ext_getElem (by simp) fun j _ _ => by
      simp only [List.getElem_map, List.getElem_modify]
      split <;> rfl
  · next none_found =>
    have unknown : e.name qualifier ∉ indexes.map Index.name := by
      simpa using List.findIdx?_eq_none_iff.mp none_found
    rw [if_neg unknown, List.map_append]
    rfl

/-- Indexes are read under the names of the entries, each name once and in order. -/
theorem readIndexes_names (table qualifier : String) (rows : List Row) :
    (readIndexes table qualifier rows).map Index.name =
      ((indexEntries rows).map (name qualifier)).eraseDups := by
  rw [readIndexes_eq]
  generalize indexEntries rows = entries
  induction entries using List.reverseRecOn with
  | nil => rfl
  | append_singleton rest last ih =>
    rw [List.foldl_concat, add_names, List.map_append, List.map_singleton, eraseDups_concat]
    simp only [ih, List.mem_eraseDups]

theorem primary_eq_of_kind_eq (same : e.kind = other.kind) : e.primary = other.primary := by
  have secondary := e.kind_ne_primary
  rw [same, other.kind_ne_primary] at secondary
  cases first : e.primary <;> cases second : other.primary <;> simp_all

/-- A secondary index loses the qualifier where its stored name has it in front. -/
theorem name_of_secondary (qualifier : String) (secondary : e.primary = false) :
    e.stored = qualifier ++ e.name qualifier ∨ e.name qualifier = e.stored := by
  rw [name, secondary, if_neg Bool.false_ne_true, withoutStart]
  split
  · next front =>
    left
    obtain ⟨rest, whole⟩ := List.isPrefixOf_iff_prefix.mp front
    rw [← String.toList_inj, String.toList_append, String.toList_ofList, ← whole,
      List.drop_left]
  · exact .inr rfl

/-- Where entries are read apart, they are read under one name exactly if they are of one stored
index. -/
theorem ReadApart.name_eq_iff (read : ReadApart qualifier entries) (member : e ∈ entries)
    (member' : other ∈ entries) :
    e.name qualifier = other.name qualifier ↔ e.stored = other.stored := by
  -- a name that was stripped is not the stored name of another index
  have stripped {first second : IndexEntry} (there : first ∈ entries) (there' : second ∈ entries)
      (same : first.name qualifier = second.name qualifier)
      (whole : second.name qualifier = second.stored) : first.stored = second.stored := by
    cases primary : first.primary with
    | true => rw [← name_of_primary primary, same, whole]
    | false =>
      rcases name_of_secondary qualifier primary with qualified | kept
      · have own : first.stored = qualifier ++ second.stored := by rw [qualified, same, whole]
        have empty := read.apart first there primary second there' whole own
        rw [own, empty, String.empty_append]
      · rw [← kept, same, whole]
  constructor
  · intro same
    cases primary : other.primary with
    | true => exact stripped member member' same (name_of_primary primary)
    | false =>
      cases primary' : e.primary with
      | true => exact (stripped member' member same.symm (name_of_primary primary')).symm
      | false =>
        rcases name_of_secondary qualifier primary with qualified | kept
        · rcases name_of_secondary qualifier primary' with qualified' | kept'
          · rw [qualified, qualified', same]
          · exact (stripped member' member same.symm kept').symm
        · exact stripped member member' same kept
  · intro same
    have primary := primary_eq_of_kind_eq (read.agree e member other member' same)
    rw [name, name, primary, same]

/-! ### The partition -/

variable {rows : List Row}

/-- The index that is gathered for a name is told of by the entries of one stored index, where these
are read apart. -/
theorem ReadApart.tells (read : ReadApart qualifier entries) (member : e ∈ entries)
    {index : Index} (gathered : gather? table qualifier entries (e.name qualifier) = some index) :
    Tells table qualifier entries e.stored index := by
  obtain ⟨first, chosen, rfl⟩ := Option.map_eq_some_iff.mp gathered
  have inside := List.mem_of_find?_eq_some chosen
  have named : first.name qualifier = e.name qualifier := by simpa using List.find?_some chosen
  have stored : first.stored = e.stored := (read.name_eq_iff inside member).mp named
  constructor
  · rfl
  · intro other there same
    exact ((read.name_eq_iff there member).mpr same).symm
  · intro other there same
    exact read.agree first inside other there (stored.trans same.symm)
  · have alike : entries.filter (·.name qualifier = e.name qualifier) =
        entries.filter (·.stored = e.stored) :=
      List.filter_congr fun other there => decide_eq_decide.mpr (read.name_eq_iff there member)
    rw [columnsOf, ← alike, toIndex]

theorem ReadApart.partitioned (table : String) (read : ReadApart qualifier (indexEntries rows)) :
    Partitioned table qualifier (indexEntries rows) (readIndexes table qualifier rows) := by
  have gathered := readIndexes_gathered table qualifier rows
  have together := eraseDups_map_forall₂ stored (name qualifier) (indexEntries rows)
    fun e member other member' => (read.name_eq_iff member member').symm
  rw [← readIndexes_names table, List.forall₂_map_right_iff, List.forall₂_iff_zip] at together
  refine List.forall₂_iff_zip.mpr ⟨together.1, fun {stored index} paired => ?_⟩
  obtain ⟨e, member, rfl, named⟩ := together.2 paired
  have there := (gathered.mem_iff index).mp (List.of_mem_zip paired).2
  rw [← named] at there
  exact read.tells member there

/-- Every entry is told of by the index of its stored name. -/
theorem Partitioned.exists_tells {indexes : List Index}
    (parts : Partitioned table qualifier entries indexes) (member : e ∈ entries) :
    ∃ i, ∃ (low : i < (storedNames entries).length) (low' : i < indexes.length),
      (storedNames entries)[i] = e.stored ∧
        Tells table qualifier entries e.stored indexes[i] := by
  have listed : e.stored ∈ storedNames entries :=
    List.mem_eraseDups.mpr (List.mem_map_of_mem member)
  obtain ⟨i, low, found⟩ := List.getElem_of_mem listed
  have low' : i < indexes.length := parts.length_eq ▸ low
  refine ⟨i, low, low', found, ?_⟩
  have told := (List.forall₂_iff_get.mp parts).2 i low low'
  simp only [List.get_eq_getElem] at told
  rwa [found] at told

theorem Partitioned.readApart {indexes : List Index}
    (parts : Partitioned table qualifier entries indexes)
    (distinct : (indexes.map Index.name).Nodup) : ReadApart qualifier entries := by
  constructor
  · intro first member second member' same
    obtain ⟨i, _, _, _, told⟩ := parts.exists_tells member
    rw [← told.kind first member rfl, told.kind second member' same.symm]
  · intro e member secondary other member' whole qualified
    obtain ⟨i, low, low', found, told⟩ := parts.exists_tells member
    obtain ⟨j, lowj, lowj', found', told'⟩ := parts.exists_tells member'
    have stripped : e.name qualifier = other.stored := by
      rw [name, secondary, if_neg Bool.false_ne_true, qualified, withoutStart_append]
    have names : indexes[i].name = indexes[j].name := by
      rw [told.named e member rfl, stripped, told'.named other member' rfl, whole]
    obtain rfl : i = j := by
      have inside : i < (indexes.map Index.name).length := by rwa [List.length_map]
      have inside' : j < (indexes.map Index.name).length := by rwa [List.length_map]
      have mapped : (indexes.map Index.name)[i] = (indexes.map Index.name)[j] := by
        rw [List.getElem_map, List.getElem_map, names]
      exact distinct.getElem_inj_iff.mp mapped
    have own : qualifier ++ other.stored = "" ++ other.stored := by
      rw [← qualified, String.empty_append, ← found, found']
    exact (String.append_left_inj _).mp own

end IndexEntry

/-- The indexes that a listing is read as are a partition of its rows, one index for each stored one
with the name, the kind and the columns that its rows tell of, exactly if these rows agree on the
kind and no secondary index is stored under the qualifier and the name of an index that keeps its
name. Otherwise rows of one index go to another. -/
theorem indexes_partitioned_iff (table qualifier : String) (rows : List Row) :
    IndexEntry.Partitioned table qualifier (indexEntries rows)
        (readIndexes table qualifier rows) ↔
      IndexEntry.ReadApart qualifier (indexEntries rows) := by
  have distinct := (IndexEntry.readIndexes_gathered table qualifier rows).distinct
  exact ⟨fun parts => parts.readApart distinct, fun read => read.partitioned table⟩

/-- The column of an index that is stored under the qualifier and the name of the primary one goes
to the primary one. -/
theorem index_gathered_with_primary :
    let rows := [indexRow "pk" "id" true, indexRow "users_pk" "email" false]
    ((readIndexes "users" "users_" rows).map fun index =>
        (index.name, index.kind, index.columns)) = [("pk", .primary, ["id", "email"])] ∧
      IndexEntry.storedNames (indexEntries rows) = ["pk", "users_pk"] ∧
      ¬ IndexEntry.Partitioned "users" "users_" (indexEntries rows)
        (readIndexes "users" "users_" rows) := by
  intro rows
  have merged : (readIndexes "users" "users_" rows).length = 1 := by decide +kernel
  have stored : IndexEntry.storedNames (indexEntries rows) = ["pk", "users_pk"] := by
    decide +kernel
  refine ⟨by decide +kernel, stored, fun parts => ?_⟩
  have alike := parts.length_eq
  rw [stored, merged] at alike
  cases alike

end Sqlwright
