import Sqlwright.Proofs.ColumnReferences
import Sqlwright.Schema

/-!
Indexes read from a catalog, against the names under which they are stored there. Every row tells
that a stored index covers a column; rows whose names read alike are gathered into one index, whose
name has lost the qualifier in front. Statements about that index put the qualifier in front again,
so they name the stored index exactly if it was there.
-/

namespace Sqlwright

/-- What a row of an index listing tells: a stored index covers a column. -/
structure IndexEntry where
  /-- The name under which the index is stored. -/
  stored : String
  column : String
  primary : Bool
  unique : Bool
  comment : Option String

/-- The entry in a row, none where an index or a column has no name. -/
def Row.indexEntry? (row : Row) : Option IndexEntry :=
  match row.filledText? "index_name", row.filledText? "column_name" with
  | some stored, some column =>
    some
      { stored, column
        primary := row.flag "is_primary" || stored = "PRIMARY"
        unique := row.flag "is_unique"
        comment := row.filledText? "index_comment" }
  | _, _ => none

/-- The entries of an index listing. -/
def indexEntries (rows : List Row) : List IndexEntry := rows.filterMap Row.indexEntry?

namespace IndexEntry

/-- The name that the index of an entry is read under. -/
def name (qualifier : String) (e : IndexEntry) : String :=
  if e.primary then e.stored else withoutStart qualifier e.stored

def kind (e : IndexEntry) : IndexKind :=
  if e.primary then .primary else if e.unique then .unique else .plain

/-- An index of a table as an entry tells of it. -/
def toIndex (table name : String) (columns : List String) (e : IndexEntry) : Index :=
  { name, tableName := table, kind := e.kind, columns, comment := e.comment }

/-- The columns that a stored index covers, in the order of the listing. -/
def columnsOf (entries : List IndexEntry) (stored : String) : List String :=
  (entries.filter (·.stored = stored)).map column

/-- The index that the entries of one name are read as; the first of them tells its kind. -/
def gather? (table qualifier : String) (entries : List IndexEntry) (name : String) :
    Option Index :=
  (entries.find? (·.name qualifier = name)).map
    (toIndex table name ((entries.filter (·.name qualifier = name)).map column))

/-- The index with the column of a further entry. -/
def widen (e : IndexEntry) (index : Index) : Index :=
  { index with columns := index.columns ++ [e.column] }

/-- Adds an entry: a further column of the index of that name, or a new index. -/
def add (table qualifier : String) (indexes : List Index) (e : IndexEntry) : List Index :=
  match indexes.findIdx? (·.name = e.name qualifier) with
  | some i => indexes.modify i e.widen
  | none => indexes ++ [e.toIndex table (e.name qualifier) [e.column]]

/-- Indexes of distinct names, each of them gathered from the entries of its name. -/
structure Gathered (table qualifier : String) (entries : List IndexEntry)
    (indexes : List Index) : Prop where
  distinct : (indexes.map Index.name).Nodup
  gather : ∀ name, indexes.find? (·.name = name) = gather? table qualifier entries name

end IndexEntry

/-- The statements that drop and rename an index of a table name an index of the catalog. -/
structure Grammar.Addresses (g : Grammar) (t : Table) (index stored : String) : Prop where
  name : g.indexName t.name index = stored
  drop : ∃ rest, g.alterDropIndex t index = .text "DROP INDEX " :: segment stored :: rest
  rename : g.dialect ≠ .sqlite → ∀ target, ∃ front word,
    g.alterRenameIndex t index target =
      .ok [front ++ pair stored word (g.indexName t.name target)]

/-- A table has the indexes that a listing tells of, but the primary one, under names that lead back
to the stored ones. -/
structure Grammar.Recalls (g : Grammar) (entries : List IndexEntry) (t : Table) : Prop where
  /-- Every index is one of the listing, and is addressed as such. -/
  listed : ∀ index ∈ t.indexes, ∃ e ∈ entries, e.primary = false ∧
    g.Addresses t index.name e.stored ∧
      index = e.toIndex t.name index.name (IndexEntry.columnsOf entries e.stored)
  /-- Every index of the listing is there. -/
  complete : ∀ e ∈ entries, e.primary = false →
    ∃ index ∈ t.indexes, g.indexName t.name index.name = e.stored

/-- The entries of one stored index agree on whether it is the primary one. -/
def IndexEntry.Agree (entries : List IndexEntry) : Prop :=
  ∀ first ∈ entries, ∀ second ∈ entries, first.stored = second.stored →
    first.primary = second.primary

/-- Every index but the primary one is stored under a name that the grammar gives to indexes of the
table, and not under the one that it would give to the primary index. -/
def Grammar.Distinguishes (g : Grammar) (table : String) (entries : List IndexEntry) : Prop :=
  ∀ e ∈ entries, e.primary = false →
    (∃ name, e.stored = g.indexName table name) ∧
      ∀ key ∈ entries, key.primary = true → e.stored ≠ g.indexName table key.stored

/-! ### Gathering -/

/-- A filter that lets more through leaves more. -/
theorem length_filter_lt_length_filter {α : Type} {narrow wide : α → Bool} {entries : List α}
    (wider : ∀ entry ∈ entries, narrow entry → wide entry) {extra : α} (member : extra ∈ entries)
    (inside : wide extra) (outside : narrow extra = false) :
    (entries.filter narrow).length < (entries.filter wide).length := by
  have twice : (entries.filter wide).filter narrow = entries.filter narrow := by
    rw [List.filter_filter]
    apply List.filter_congr
    intro entry there
    cases passes : narrow entry with
    | true => rw [wider entry there passes, Bool.and_self]
    | false => rw [Bool.false_and]
  rw [← twice, List.length_filter_lt_length_iff_exists]
  exact ⟨extra, List.mem_filter.mpr ⟨member, inside⟩, by simp [outside]⟩

/-- A row is added as its entry is. -/
theorem addIndexRow_eq (table qualifier : String) (indexes : List Index) (row : Row) :
    addIndexRow table qualifier indexes row =
      (row.indexEntry?.toList).foldl (IndexEntry.add table qualifier) indexes := by
  unfold addIndexRow Row.indexEntry?
  cases row.filledText? "index_name" with
  | none => rfl
  | some stored =>
    cases row.filledText? "column_name" with
    | none => rfl
    | some column => rfl

theorem readIndexes_eq (table qualifier : String) (rows : List Row) :
    readIndexes table qualifier rows =
      (indexEntries rows).foldl (IndexEntry.add table qualifier) [] := by
  rw [readIndexes, indexEntries]
  generalize ([] : List Index) = indexes
  induction rows generalizing indexes with
  | nil => rfl
  | cons row rest ih =>
    rw [List.foldl_cons, ih, addIndexRow_eq]
    cases told : row.indexEntry? with
    | none => rw [List.filterMap_cons_none told]; rfl
    | some e => rw [List.filterMap_cons_some told]; rfl

namespace IndexEntry

variable {table qualifier : String} {entries : List IndexEntry} {indexes : List Index}

/-- Of indexes with distinct names, changing the first of a name changes all of that name. -/
theorem modify_findIdx? (distinct : (indexes.map Index.name).Nodup) {name : String} {i : Nat}
    (found : indexes.findIdx? (·.name = name) = some i) (change : Index → Index) :
    indexes.modify i change =
      indexes.map fun index => if index.name = name then change index else index := by
  induction indexes generalizing i with
  | nil => cases found
  | cons index rest ih =>
    rw [List.map_cons, List.nodup_cons] at distinct
    rw [List.findIdx?_cons] at found
    by_cases here : index.name = name
    · have apart : ∀ other ∈ rest, other.name ≠ name := by
        rintro other member same
        exact distinct.1 (List.mem_map.mpr ⟨other, member, same.trans here.symm⟩)
      obtain rfl : 0 = i := by simpa [here] using found
      rw [List.modify_zero_cons, List.map_cons, if_pos here]
      congr 1
      exact (List.map_id' rest).symm.trans
        (List.map_congr_left fun other member => (if_neg (apart other member)).symm)
    · obtain ⟨j, later, rfl⟩ : ∃ j, rest.findIdx? (·.name = name) = some j ∧ j + 1 = i := by
        simpa [here] using found
      rw [List.modify_succ_cons, List.map_cons, if_neg here, ih distinct.2 later]

theorem gather?_name {name : String} {index : Index}
    (gathered : gather? table qualifier entries name = some index) : index.name = name := by
  obtain ⟨first, -, rfl⟩ := Option.map_eq_some_iff.mp gathered
  rfl

/-- An entry of another name leaves what is gathered for a name. -/
theorem gather?_concat_of_ne {e : IndexEntry} {name : String} (other : e.name qualifier ≠ name) :
    gather? table qualifier (entries ++ [e]) name = gather? table qualifier entries name := by
  simp [gather?, other]

/-- An entry adds its column to what is gathered for its name. -/
theorem gather?_concat (e : IndexEntry) :
    gather? table qualifier (entries ++ [e]) (e.name qualifier) =
      some ((gather? table qualifier entries (e.name qualifier)).elim
        (e.toIndex table (e.name qualifier) [e.column]) e.widen) := by
  cases found : entries.find? (·.name qualifier = e.name qualifier) with
  | some first => simp [gather?, found, toIndex, widen]
  | none =>
    have none_before : entries.filter (·.name qualifier = e.name qualifier) = [] :=
      List.filter_eq_nil_iff.mpr (List.find?_eq_none.mp found)
    simp [gather?, found, none_before]

/-- A further column is gathered with the others of its index. -/
theorem Gathered.widen (gathered : Gathered table qualifier entries indexes) {e : IndexEntry}
    (known : ∃ index ∈ indexes, index.name = e.name qualifier) :
    Gathered table qualifier (entries ++ [e])
      (indexes.map fun index =>
        if index.name = e.name qualifier then e.widen index else index) := by
  have kept (index : Index) :
      (if index.name = e.name qualifier then e.widen index else index).name = index.name := by
    split <;> rfl
  constructor
  · rw [List.map_map]
    simpa only [Function.comp_def, kept] using gathered.distinct
  · intro name
    have found := gathered.gather name
    simp only [List.find?_map, Function.comp_def, kept, found]
    by_cases here : e.name qualifier = name
    · subst here
      obtain ⟨index, held⟩ : ∃ index, gather? table qualifier entries (e.name qualifier) =
          some index := by
        rw [← found, ← Option.isSome_iff_exists, List.find?_isSome]
        simpa using known
      rw [gather?_concat, held, Option.map_some, if_pos (gather?_name held), Option.elim_some]
    · rw [gather?_concat_of_ne here]
      cases held : gather? table qualifier entries name with
      | none => rfl
      | some index =>
        rw [Option.map_some, if_neg fun same => here (same.symm.trans (gather?_name held))]

/-- A new index is gathered from its first entry. -/
theorem Gathered.fresh (gathered : Gathered table qualifier entries indexes) {e : IndexEntry}
    (fresh : ∀ index ∈ indexes, index.name ≠ e.name qualifier) :
    Gathered table qualifier (entries ++ [e])
      (indexes ++ [e.toIndex table (e.name qualifier) [e.column]]) := by
  constructor
  · rw [List.map_append, List.map_singleton]
    apply List.nodup_append.mpr
    refine ⟨gathered.distinct, List.nodup_singleton _, ?_⟩
    rintro first member last alone rfl
    obtain ⟨index, inside, named⟩ := List.mem_map.mp member
    exact fresh index inside (named.trans (List.mem_singleton.mp alone))
  · intro name
    have found := gathered.gather name
    rw [List.find?_append, found]
    by_cases here : e.name qualifier = name
    · subst here
      have absent : indexes.find? (·.name = e.name qualifier) = none := by
        simpa using fresh
      rw [gather?_concat, ← found, absent]
      simp [toIndex]
    · rw [gather?_concat_of_ne here]
      simp [toIndex, here]

/-- Adding an entry gathers it. -/
theorem Gathered.add (gathered : Gathered table qualifier entries indexes) (e : IndexEntry) :
    Gathered table qualifier (entries ++ [e]) (add table qualifier indexes e) := by
  rw [IndexEntry.add]
  cases found : indexes.findIdx? (·.name = e.name qualifier) with
  | some i =>
    simp only [modify_findIdx? gathered.distinct found]
    apply gathered.widen
    have some_there : (indexes.findIdx? (·.name = e.name qualifier)).isSome := by rw [found]; rfl
    simpa using some_there
  | none =>
    apply gathered.fresh
    simpa using List.findIdx?_eq_none_iff.mp found

/-- The rows of a listing are read as the indexes that their entries tell of. -/
theorem readIndexes_gathered (table qualifier : String) (rows : List Row) :
    Gathered table qualifier (indexEntries rows) (readIndexes table qualifier rows) := by
  have run (more entries : List IndexEntry) (indexes : List Index)
      (gathered : Gathered table qualifier entries indexes) :
      Gathered table qualifier (entries ++ more)
        (more.foldl (IndexEntry.add table qualifier) indexes) := by
    induction more generalizing entries indexes with
    | nil => rwa [List.append_nil]
    | cons e rest ih =>
      have next := ih (entries ++ [e]) _ (gathered.add e)
      rwa [List.append_assoc] at next
  rw [readIndexes_eq]
  exact run (indexEntries rows) [] [] ⟨List.nodup_nil, fun _ => rfl⟩

/-- The indexes are those that are gathered for their names. -/
theorem Gathered.mem_iff (gathered : Gathered table qualifier entries indexes) (index : Index) :
    index ∈ indexes ↔ gather? table qualifier entries index.name = some index := by
  rw [← gathered.gather]
  constructor
  · intro member
    obtain ⟨other, found⟩ : ∃ other, indexes.find? (·.name = index.name) = some other := by
      rw [← Option.isSome_iff_exists, List.find?_isSome]
      exact ⟨index, member, decide_eq_true rfl⟩
    have same : other.name = index.name := by simpa using List.find?_some found
    rw [found, List.inj_on_of_nodup_map gathered.distinct (List.mem_of_find?_eq_some found) member
      same]
  · intro found
    exact List.mem_of_find?_eq_some found

end IndexEntry

/-! ### Listing -/

namespace Table

variable {t : Table}

/-- An index that is listed under a fresh name is appended, unless it is the primary one. -/
theorem listIndex_indexes (indexed : t.Indexed) {index : Index} {next : Table}
    (fresh : index.name ∉ t.indexNames) (listed : t.listIndex index = .ok next) :
    next.indexes = t.indexes ++ [index].filter (·.kind ≠ .primary) := by
  unfold listIndex at listed
  split at listed
  · cases listed
  · have put : (t.putIndex index).indexes = t.indexes ++ [index] := by
      rw [putIndex, (indexed.indexes.unled_iff index.name).mpr fresh]
    cases kind : index.kind <;> simp only [kind, Except.ok.injEq] at listed <;>
      subst listed <;> simp [kind, put]

/-- Indexes that are listed under fresh names are appended, the primary one excepted. -/
theorem listIndexes_indexes (indexed : t.Indexed) {indexes : List Index} {after : Table}
    (fresh : (t.indexNames ++ indexes.map Index.name).Nodup)
    (listed : indexes.foldlM listIndex t = .ok after) :
    after.indexes = t.indexes ++ indexes.filter (·.kind ≠ .primary) := by
  induction indexes generalizing t with
  | nil =>
    cases listed
    rw [List.filter_nil, List.append_nil]
  | cons index rest ih =>
    rw [List.foldlM_cons] at listed
    cases first : t.listIndex index with
    | error fault =>
      rw [first] at listed
      cases listed
    | ok next =>
      rw [first] at listed
      have apart : index.name ∉ t.indexNames := by
        intro known
        exact List.disjoint_of_nodup_append fresh known (List.mem_cons_self ..)
      have appended := listIndex_indexes indexed apart first
      have next_indexed : next.Indexed :=
        listIndex_keeps (P := Indexed) (fun _ index indexed => indexed.putIndex index)
          (fun _ _ indexed => ⟨indexed.columns, indexed.indexes⟩) indexed first
      have names : (next.indexNames ++ rest.map Index.name).Sublist
          (t.indexNames ++ (index :: rest).map Index.name) := by
        rw [indexNames, appended, List.map_append, List.append_assoc]
        apply List.Sublist.append_left
        have split : index :: rest = [index] ++ rest := rfl
        rw [split, List.map_append]
        exact (List.filter_sublist.map Index.name).append_right _
      rw [ih next_indexed (fresh.sublist names) listed, appended, List.append_assoc,
        ← List.filter_append, List.singleton_append]

/-- A catalog gives the indexes that it lists under distinct names, the primary one excepted. -/
theorem ofCatalog_indexes {name : String} {schema : Option String} {columns : List Column}
    {indexes : List Index} (found : ofCatalog name schema columns indexes = .ok t)
    (distinct : (indexes.map Index.name).Nodup) :
    t.indexes = indexes.filter (·.kind ≠ .primary) := by
  have none_yet : (columns.foldl pushColumn { name, schema }).indexes = [] :=
    List.foldlRecOn (motive := fun (t : Table) => t.indexes = []) columns pushColumn rfl
      fun _ kept _ _ => kept
  obtain ⟨listed, all, same⟩ := ofCatalog_lists found
  have appended := listIndexes_indexes (pushColumns_indexed name schema columns)
    (by simpa [indexNames, none_yet]) all
  rw [same, appended, none_yet, List.nil_append]

end Table

/-! ### Names -/

theorem withoutStart_append (start text : String) : withoutStart start (start ++ text) = text := by
  simp [withoutStart, String.toList_append]

/-- A grammar puts one text in front of the names of all indexes of a table. -/
theorem Grammar.indexName_eq_append (g : Grammar) (table name : String) :
    g.indexName table name = g.indexName table "" ++ name := by
  unfold indexName
  cases g.dialect <;> simp

theorem Grammar.indexName_injective (g : Grammar) (table : String) {first second : String}
    (same : g.indexName table first = g.indexName table second) : first = second := by
  rw [g.indexName_eq_append table first, g.indexName_eq_append table second] at same
  exact (String.append_right_inj _).mp same

/-- The statements about an index name what its name leads to. -/
theorem Grammar.addresses_of_name {g : Grammar} {t : Table} {index stored : String}
    (name : g.indexName t.name index = stored) : g.Addresses t index stored := by
  subst name
  refine ⟨rfl, ?_, fun other target => ?_⟩
  · unfold alterDropIndex
    cases g.dialect <;> exact ⟨_, rfl⟩
  · unfold alterRenameIndex
    cases dialect : g.dialect with
    | sqlite => exact absurd dialect other
    | mysql =>
      refine ⟨g.alterTable t ++ [.text (" " ++ "RENAME INDEX ")], " TO ", ?_⟩
      simp [altering]
    | hana => exact ⟨[.text "RENAME INDEX "], " TO ", rfl⟩
    | _ => exact ⟨[.text "ALTER INDEX "], " RENAME TO ", rfl⟩

namespace IndexEntry

variable {g : Grammar} {table : String} {entries : List IndexEntry} {e other : IndexEntry}

theorem kind_ne_primary (e : IndexEntry) : e.kind ≠ .primary ↔ e.primary = false := by
  unfold kind
  cases e.primary <;> cases e.unique <;> simp

theorem name_of_primary {qualifier : String} (primary : e.primary = true) :
    e.name qualifier = e.stored := by
  rw [name, primary, if_pos rfl]

/-- A qualified index is read under the name that its stored name is made of. -/
theorem name_of_qualified {name : String} (secondary : e.primary = false)
    (qualified : e.stored = g.indexName table name) : e.name (g.indexName table "") = name := by
  rw [IndexEntry.name, secondary, qualified, g.indexName_eq_append table name,
    if_neg Bool.false_ne_true, withoutStart_append]

/-- Where the grammar distinguishes the indexes, their names lead back to where they are stored. -/
theorem indexName_name (apart : g.Distinguishes table entries) (member : e ∈ entries)
    (secondary : e.primary = false) :
    g.indexName table (e.name (g.indexName table "")) = e.stored := by
  obtain ⟨⟨name, qualified⟩, -⟩ := apart e member secondary
  rw [name_of_qualified secondary qualified, qualified]

/-- Where the grammar distinguishes the indexes, entries are read under one name exactly if they are
of one stored index. -/
theorem name_eq_iff (agree : Agree entries) (apart : g.Distinguishes table entries)
    (member : e ∈ entries) (secondary : e.primary = false) (inside : other ∈ entries) :
    other.name (g.indexName table "") = e.name (g.indexName table "") ↔
      other.stored = e.stored := by
  constructor
  · intro same
    cases primary : other.primary with
    | true =>
      have leads := indexName_name apart member secondary
      rw [← same, name_of_primary primary] at leads
      exact absurd leads.symm ((apart e member secondary).2 other inside primary)
    | false =>
      rw [← indexName_name apart inside primary, same, indexName_name apart member secondary]
  · intro same
    have primary : other.primary = false := (agree other inside e member same).trans secondary
    rw [IndexEntry.name, IndexEntry.name, primary, secondary, same]

end IndexEntry

/-! ### Tables -/

section Recalls

variable {g : Grammar} {table : String} {schema : Option String} {columns : List Column}
  {rows : List Row} {t : Table}

/-- The indexes of a table that is read are those that are gathered, the primary one excepted. -/
theorem mem_indexes_iff
    (found : Table.ofCatalog table schema columns
      (readIndexes table (g.indexName table "") rows) = .ok t) (index : Index) :
    index ∈ t.indexes ↔
      IndexEntry.gather? table (g.indexName table "") (indexEntries rows) index.name = some index ∧
        index.kind ≠ .primary := by
  have gathered := IndexEntry.readIndexes_gathered table (g.indexName table "") rows
  rw [Table.ofCatalog_indexes found gathered.distinct, List.mem_filter, gathered.mem_iff]
  simp

/-- Where the grammar distinguishes the stored indexes, the table recalls them. -/
theorem Grammar.Distinguishes.recalls
    (found : Table.ofCatalog table schema columns
      (readIndexes table (g.indexName table "") rows) = .ok t)
    (agree : IndexEntry.Agree (indexEntries rows))
    (apart : g.Distinguishes table (indexEntries rows)) : g.Recalls (indexEntries rows) t := by
  have called : t.name = table := (Table.Extended.ofCatalog found).name
  constructor
  · intro index member
    obtain ⟨gathered, kind⟩ := (mem_indexes_iff found index).mp member
    obtain ⟨first, chosen, same⟩ := Option.map_eq_some_iff.mp gathered
    have inside := List.mem_of_find?_eq_some chosen
    have named : first.name (g.indexName table "") = index.name := by
      simpa using List.find?_some chosen
    have secondary : first.primary = false := by
      rw [← same] at kind
      exact first.kind_ne_primary.mp kind
    have leads : g.indexName t.name index.name = first.stored := by
      rw [called, ← named, IndexEntry.indexName_name apart inside secondary]
    refine ⟨first, inside, secondary, g.addresses_of_name leads, ?_⟩
    have all : (indexEntries rows).filter (·.name (g.indexName table "") = index.name) =
        (indexEntries rows).filter (·.stored = first.stored) := by
      apply List.filter_congr
      intro other there
      rw [← named]
      exact decide_eq_decide.mpr (IndexEntry.name_eq_iff agree apart inside secondary there)
    rw [called, IndexEntry.columnsOf, ← all, same]
  · intro e member secondary
    obtain ⟨first, chosen⟩ : ∃ first, (indexEntries rows).find?
        (·.name (g.indexName table "") = e.name (g.indexName table "")) = some first := by
      rw [← Option.isSome_iff_exists, List.find?_isSome]
      exact ⟨e, member, decide_eq_true rfl⟩
    have inside := List.mem_of_find?_eq_some chosen
    have stored : first.stored = e.stored :=
      (IndexEntry.name_eq_iff agree apart member secondary inside).mp
        (by simpa using List.find?_some chosen)
    have kind : first.primary = false := (agree first inside e member stored).trans secondary
    refine ⟨first.toIndex table (e.name (g.indexName table ""))
      (((indexEntries rows).filter
        (·.name (g.indexName table "") = e.name (g.indexName table ""))).map IndexEntry.column),
      ?_, ?_⟩
    · apply (mem_indexes_iff found _).mpr
      refine ⟨?_, first.kind_ne_primary.mpr kind⟩
      rw [IndexEntry.gather?]
      exact Option.map_eq_some_iff.mpr ⟨first, chosen, rfl⟩
    · rw [called]
      exact IndexEntry.indexName_name apart member secondary

/-- A table that recalls the stored indexes has them from a grammar that distinguishes them. -/
theorem Grammar.Recalls.distinguishes
    (found : Table.ofCatalog table schema columns
      (readIndexes table (g.indexName table "") rows) = .ok t)
    (agree : IndexEntry.Agree (indexEntries rows))
    (recalls : g.Recalls (indexEntries rows) t) : g.Distinguishes table (indexEntries rows) := by
  have called : t.name = table := (Table.Extended.ofCatalog found).name
  intro e member secondary
  obtain ⟨index, there, leads⟩ := recalls.complete e member secondary
  rw [called] at leads
  refine ⟨⟨index.name, leads.symm⟩, fun key inside primary taken => ?_⟩
  have own : key.name (g.indexName table "") = index.name := by
    rw [IndexEntry.name_of_primary primary]
    exact g.indexName_injective table (taken.symm.trans leads.symm)
  -- the entries of the primary index would be gathered with those of the other one
  have fewer :
      (IndexEntry.columnsOf (indexEntries rows) e.stored).length < index.columns.length := by
    obtain ⟨gathered, -⟩ := (mem_indexes_iff found index).mp there
    obtain ⟨first, -, same⟩ := Option.map_eq_some_iff.mp gathered
    rw [← same, IndexEntry.columnsOf, IndexEntry.toIndex, List.length_map, List.length_map]
    have stored_apart : key.stored ≠ e.stored := by
      intro stored
      have both := agree key inside e member stored
      rw [primary, secondary] at both
      cases both
    apply length_filter_lt_length_filter _ inside (decide_eq_true own)
      (decide_eq_false stored_apart)
    intro other there same
    have stored : other.stored = e.stored := of_decide_eq_true same
    have kind : other.primary = false := (agree other there e member stored).trans secondary
    exact decide_eq_true (IndexEntry.name_of_qualified kind (stored.trans leads.symm))
  obtain ⟨e', -, -, addressed, same⟩ := recalls.listed index there
  have stored : e'.stored = e.stored := by
    rw [← addressed.name, called, leads]
  rw [same, IndexEntry.toIndex, stored] at fewer
  exact absurd fewer (Nat.lt_irrefl _)

/-- A table recalls the indexes of its catalog exactly if each of them, but the primary one, is
stored under a name that the grammar gives to indexes of the table, and not the one that it would
give to the primary index. Then every index is called by a name that leads to the stored one, the
statements that drop and rename it name that one, and no other is left out. -/
theorem indexes_recalled_iff
    (found : Table.ofCatalog table schema columns
      (readIndexes table (g.indexName table "") rows) = .ok t)
    (agree : IndexEntry.Agree (indexEntries rows)) :
    g.Recalls (indexEntries rows) t ↔ g.Distinguishes table (indexEntries rows) :=
  ⟨Grammar.Recalls.distinguishes found agree, Grammar.Distinguishes.recalls found agree⟩

end Recalls

/-- A row of an index listing. -/
def indexRow (index column : String) (primary : Bool) : Row :=
  ⟨["index_name", "column_name", "is_primary"], [.text index, .text column, .bool primary]⟩

/-- The indexes of a table on Postgres that were named by the grammar are recalled. -/
theorem indexes_recalled_users :
    let g : Grammar := ⟨.postgres, "app_"⟩
    let columns : List Column := ["id", "name", "age"].map fun name => { name, type := .text }
    let rows := [indexRow "app_users_pkey" "id" true, indexRow "app_users_both" "name" false,
      indexRow "app_users_both" "age" false]
    ∃ t, Table.ofCatalog "users" none columns
        (readIndexes "users" (g.indexName "users" "") rows) = .ok t ∧
      g.Recalls (indexEntries rows) t := by
  intro g columns rows
  have listed : ∀ index ∈ readIndexes "users" (g.indexName "users" "") rows,
      ∀ column ∈ index.columns, column ∈ columns.map Column.name := by decide +kernel
  obtain ⟨t, found⟩ := (Table.ofCatalog_accepts_iff "users" none columns _).mpr listed
  have agree : IndexEntry.Agree (indexEntries rows) := by
    unfold IndexEntry.Agree
    decide +kernel
  have named : ∀ e ∈ indexEntries rows, e.primary = false →
      e.stored = g.indexName "users" "both" ∧
        ∀ key ∈ indexEntries rows, key.primary = true →
          e.stored ≠ g.indexName "users" key.stored := by decide +kernel
  refine ⟨t, found, (indexes_recalled_iff found agree).mpr fun e member secondary => ?_⟩
  obtain ⟨qualified, apart⟩ := named e member secondary
  exact ⟨⟨"both", qualified⟩, apart⟩

/-- No name leads to an index that is stored without the name of its table, and dropping it under
the one that it is read under names another index. -/
theorem index_dropped_by_other_name :
    let g : Grammar := ⟨.postgres, ""⟩
    let rows := [indexRow "idx_email" "email" false]
    let read := Table.ofCatalog "users" none [{ name := "email", type := .text }]
      (readIndexes "users" (g.indexName "users" "") rows)
    (indexEntries rows).map IndexEntry.stored = ["idx_email"] ∧
      (∀ name, g.indexName "users" name ≠ "idx_email") ∧
      (read.toOption.map fun t =>
        t.indexes.map fun index => render g.dialect (g.alterDropIndex t index.name)) =
        some ["DROP INDEX \"users_idx_email\""] := by
  intro g rows read
  refine ⟨by decide +kernel, fun name same => ?_, by decide +kernel⟩
  have first : ("users_" ++ name).toList.head? = "idx_email".toList.head? :=
    congrArg (fun text => text.toList.head?) same
  simp [String.toList_append] at first

end Sqlwright
