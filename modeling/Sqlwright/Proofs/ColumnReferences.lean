import Sqlwright.Proofs.DistinctNames
import Sqlwright.Proofs.KeyFlags

/-!
References to columns. Indexes and the primary key name columns of their table, and a catalog takes
no listing in which one of them is missing. Renames are followed by every reference, and a call that
names columns needs them to be there; a drop leaves the references to a column behind.
-/

namespace Sqlwright

/-- The key as a catalog lists it, among the indexes. -/
def PrimaryKey.listed (key : PrimaryKey) : Index where
  name := key.name
  tableName := key.tableName
  kind := .primary
  columns := key.columns

namespace Table

/-- The columns that the indexes name, and those of the primary key. -/
def references (t : Table) : List String := t.indexes.flatMap Index.columns ++ t.keyColumns

/-- Every reference is to a column of the table. -/
def ReferencesResolve (t : Table) : Prop := t.references ⊆ t.columnNames

/-- The indexes and the key as a catalog would list them. -/
def listing (t : Table) : List Index := t.indexes ++ (t.primary.map PrimaryKey.listed).toList

/-- A catalog may list the table as it is. -/
def Relistable (t : Table) : Prop :=
  ∃ again, ofCatalog t.name t.schema t.columns t.listing = .ok again

end Table

/-- A call after which every reference is to a column again: it drops no column that is referred to,
and refers to columns that are there. -/
def TableCall.KeepsReferences (t : Table) : TableCall → Prop
  | .dropColumns names => ∀ name ∈ names, name ∉ t.references
  | .createIndex _ _ columns => columns ⊆ t.columnNames
  | .createPrimary columns => columns ⊆ t.columnNames
  | _ => True

namespace Table

variable {t : Table}

theorem mem_references (name : String) :
    name ∈ t.references ↔ (∃ index ∈ t.indexes, name ∈ index.columns) ∨ name ∈ t.keyColumns := by
  simp [references]

/-! ### Listings -/

/-- An index is listed exactly if all its columns are, and then the columns stay as they are. -/
theorem listIndex_accepts_iff (t : Table) (index : Index) :
    (∃ after, t.listIndex index = .ok after) ↔ t.hasColumns index.columns := by
  unfold listIndex
  cases found : index.columns.find? fun name => !Named.contains t.columnLookup name with
  | some missing =>
    have unknown := List.find?_some found
    refine iff_of_false (by simp) fun known => ?_
    have there := List.all_eq_true.mp known missing (List.mem_of_find?_eq_some found)
    simp [there] at unknown
  | none =>
    have known : t.hasColumns index.columns := by
      simpa [hasColumns] using List.find?_eq_none.mp found
    refine iff_of_true ?_ known
    cases index.kind <;> exact ⟨_, rfl⟩

theorem listIndex_columnLookup {after : Table} {index : Index}
    (listed : t.listIndex index = .ok after) : after.columnLookup = t.columnLookup := by
  refine listIndex_keeps (P := fun after => after.columnLookup = t.columnLookup) ?_ ?_ rfl listed
  · intro after index kept
    obtain ⟨_, _, put⟩ := after.putIndex_eq index
    rw [put]
    exact kept
  · intro after primary kept
    exact kept

theorem listIndexes_accepts_iff (indexes : List Index) (t : Table) :
    (∃ after, indexes.foldlM listIndex t = .ok after) ↔
      ∀ index ∈ indexes, t.hasColumns index.columns := by
  induction indexes generalizing t with
  | nil => exact iff_of_true ⟨t, rfl⟩ (List.forall_mem_nil _)
  | cons index rest ih =>
    rw [List.foldlM_cons, List.forall_mem_cons, ← listIndex_accepts_iff]
    cases first : t.listIndex index with
    | error fault =>
      refine iff_of_false ?_ ?_
      · rintro ⟨after, accepted⟩
        cases accepted
      · rintro ⟨⟨after, accepted⟩, -⟩
        cases accepted
    | ok next =>
      have same (names : List String) : next.hasColumns names = t.hasColumns names := by
        rw [hasColumns, hasColumns, listIndex_columnLookup first]
      have later := ih next
      simp only [same] at later
      refine later.trans ⟨fun all => ⟨⟨next, rfl⟩, all⟩, fun all => all.2⟩

/-- The lookups of a blueprint with the listed columns are up to date. -/
theorem pushColumns_indexed (name : String) (schema : Option String) (columns : List Column) :
    (columns.foldl pushColumn { name, schema }).Indexed := by
  have fresh : Indexed { name, schema } := ⟨fun _ => rfl, fun _ => rfl⟩
  exact List.foldlRecOn columns pushColumn fresh fun _ indexed column _ => indexed.pushColumn column

/-- The blueprint of a catalog has the indexes that were listed on its columns. -/
theorem ofCatalog_lists {name : String} {schema : Option String} {columns : List Column}
    {indexes : List Index} (found : ofCatalog name schema columns indexes = .ok t) :
    ∃ listed, indexes.foldlM listIndex (columns.foldl pushColumn { name, schema }) = .ok listed ∧
      t.indexes = listed.indexes := by
  unfold ofCatalog at found
  cases all : indexes.foldlM listIndex (columns.foldl pushColumn { name, schema }) with
  | error fault =>
    rw [all] at found
    cases found
  | ok listed =>
    rw [all] at found
    cases found
    exact ⟨listed, rfl, listed.flagColumns_indexes _ true⟩

/-- A catalog is read exactly if its indexes name listed columns only. -/
theorem ofCatalog_accepts_iff (name : String) (schema : Option String) (columns : List Column)
    (indexes : List Index) :
    (∃ t, ofCatalog name schema columns indexes = .ok t) ↔
      ∀ index ∈ indexes, index.columns ⊆ columns.map Column.name := by
  have indexed := pushColumns_indexed name schema columns
  have named : (columns.foldl pushColumn { name, schema }).columnNames =
      columns.map Column.name := pushColumns_columnNames columns _
  have known (names : List String) :
      (columns.foldl pushColumn { name, schema }).hasColumns names ↔
        names ⊆ columns.map Column.name := by
    rw [indexed.findsByName.hasColumns_iff, ← named]
    exact forall₂_congr fun name _ => (Indexed.mem_columnNames name).symm
  have listed := listIndexes_accepts_iff indexes (columns.foldl pushColumn { name, schema })
  simp only [known] at listed
  rw [← listed]
  constructor
  · rintro ⟨t, found⟩
    obtain ⟨after, all, -⟩ := ofCatalog_lists found
    exact ⟨after, all⟩
  · rintro ⟨after, all⟩
    rw [ofCatalog, all]
    exact ⟨_, rfl⟩

/-- References resolve exactly if a catalog may list the table so. -/
theorem relistable_iff (t : Table) : t.Relistable ↔ t.ReferencesResolve := by
  rw [Relistable, ofCatalog_accepts_iff, listing]
  constructor
  · intro listed name referred
    rcases (mem_references name).mp referred with ⟨index, member, inside⟩ | inside
    · exact listed index (List.mem_append_left _ member) inside
    · obtain ⟨key, held, inside⟩ := (mem_keyColumns name).mp inside
      refine listed key.listed (List.mem_append_right _ ?_) inside
      simp [held]
  · intro resolve index member name inside
    apply resolve
    rcases List.mem_append.mp member with own | ofKey
    · exact (mem_references name).mpr (.inl ⟨index, own, inside⟩)
    · obtain ⟨key, held, rfl⟩ : ∃ key, t.primary = some key ∧ key.listed = index := by
        simpa using ofKey
      exact (mem_references name).mpr (.inr ((mem_keyColumns name).mpr ⟨key, held, inside⟩))

/-! ### Operations -/

namespace ReferencesResolve

/-- Fewer references to more columns. -/
theorem of_subset {after : Table} (resolve : t.ReferencesResolve)
    (references : after.references ⊆ t.references) (columns : t.columnNames ⊆ after.columnNames) :
    after.ReferencesResolve :=
  fun _ referred => columns (resolve (references referred))

end ReferencesResolve

/-- Of an index that is put, the columns are referred to, besides those that were before. -/
theorem mem_putIndex_indexes (indexed : t.Indexed) (index : Index) :
    index ∈ (t.putIndex index).indexes ∧
      ∀ other ∈ (t.putIndex index).indexes, other = index ∨ other ∈ t.indexes := by
  unfold putIndex
  cases found : Keyed.find? index.name t.indexLookup with
  | some i =>
    obtain ⟨old, held, -⟩ := indexed.indexes.points found
    have inside : i < t.indexes.length := (List.getElem?_eq_some_iff.mp held).1
    exact ⟨List.mem_set inside index, fun other member => (List.mem_or_eq_of_mem_set member).symm⟩
  | none =>
    refine ⟨List.mem_append_right _ (List.mem_singleton_self index), fun other member => ?_⟩
    rcases List.mem_append.mp member with before | last
    · exact .inr before
    · exact .inl (List.mem_singleton.mp last)

/-- An index that is created refers to its columns. -/
theorem createIndex_references (indexed : t.Indexed) (kind : IndexKind) (name : String)
    (columns : List String) :
    columns ⊆ (t.createIndex kind name columns).references ∧
      (t.createIndex kind name columns).references ⊆ columns ++ t.references := by
  let index : Index := { name, tableName := t.name, kind, columns }
  obtain ⟨there, others⟩ := mem_putIndex_indexes indexed index
  have key : (t.createIndex kind name columns).keyColumns = t.keyColumns := by
    obtain ⟨_, _, created⟩ := t.createIndex_eq kind name columns
    rw [created]
    rfl
  constructor
  · intro column member
    exact (mem_references column).mpr (.inl ⟨index, there, member⟩)
  · intro column referred
    apply List.mem_append.mpr
    rcases (mem_references column).mp referred with ⟨other, member, inside⟩ | ofKey
    · rcases others other member with rfl | before
      · exact .inl inside
      · exact .inr ((mem_references column).mpr (.inl ⟨other, before, inside⟩))
    · exact .inr ((mem_references column).mpr (.inr (key ▸ ofKey)))

/-- A key refers to its columns, and the key before it to nothing any more. -/
theorem createPrimary_references (t : Table) (columns : List String) :
    columns ⊆ (t.createPrimary columns).references ∧
      (t.createPrimary columns).references ⊆ columns ++ t.references := by
  have key : (t.createPrimary columns).keyColumns = columns := rfl
  constructor
  · intro column member
    exact (mem_references column).mpr (.inr (key ▸ member))
  · intro column referred
    apply List.mem_append.mpr
    rcases (mem_references column).mp referred with ⟨index, member, inside⟩ | ofKey
    · rw [createPrimary_indexes] at member
      exact .inr ((mem_references column).mpr (.inl ⟨index, member, inside⟩))
    · exact .inl (key ▸ ofKey)

/-- What refers to further columns leaves references resolved exactly if those are there. -/
theorem resolve_iff_of_added {after : Table} {columns : List String} (resolve : t.ReferencesResolve)
    (names : after.columnNames = t.columnNames) (added : columns ⊆ after.references)
    (others : after.references ⊆ columns ++ t.references) :
    after.ReferencesResolve ↔ columns ⊆ t.columnNames := by
  constructor
  · intro resolved name member
    exact names ▸ resolved (added member)
  · intro known name referred
    rw [names]
    rcases List.mem_append.mp (others referred) with new | before
    · exact known new
    · exact resolve before

theorem extend_references (indexed : t.Indexed) (name : String) (modifier : Modifier) :
    (modifier.extend name t).references ⊆ name :: t.references := by
  cases modifier with
  | primary => exact (t.createPrimary_references [name]).2
  | unique => exact (createIndex_references indexed .unique name [name]).2
  | index => exact (createIndex_references indexed .plain name [name]).2
  | _ => exact List.subset_cons_self name t.references

/-- Modifiers refer to the column that they are put on, and to no other. -/
theorem column_references (indexed : t.Indexed) (call : ColumnCall) :
    (call.run t).references ⊆ call.column.name :: t.references := by
  obtain ⟨change, -, -, handled⟩ := t.define_records call
  have named : (call.define t).2.column = call.column.name := congrArg ColumnHandle.column handled
  have defined : (call.define t).1.references = t.references := by
    obtain ⟨change, same⟩ := t.define_eq call
    obtain ⟨_, _, put⟩ := t.putColumn_eq call.column
    rw [same, put]
    rfl
  have kept : (call.run t).Indexed ∧
      (call.run t).references ⊆ call.column.name :: t.references := by
    refine List.foldlRecOn (motive := fun (after : Table) =>
      after.Indexed ∧ after.references ⊆ call.column.name :: t.references) call.modifiers _ ?_ ?_
    · exact ⟨indexed.define call, defined ▸ List.subset_cons_self _ _⟩
    · rintro after ⟨indexed, before⟩ modifier _
      refine ⟨indexed.modify _ modifier, fun name referred => ?_⟩
      have extended := extend_references indexed (call.define t).2.column modifier referred
      rw [named] at extended
      rcases List.mem_cons.mp extended with own | other
      · exact List.mem_cons.mpr (.inl own)
      · exact before other
  exact kept.2

namespace ReferencesResolve

/-- A column that is defined is there for its own indexes and key. -/
theorem column (indexed : t.Indexed) (resolve : t.ReferencesResolve) (call : ColumnCall) :
    (call.run t).ReferencesResolve := by
  have names := column_columnNames indexed call
  have own : call.column.name ∈ (call.run t).columnNames := by
    by_cases known : call.column.name ∈ t.columnNames <;> simp [names, known]
  have others : t.columnNames ⊆ (call.run t).columnNames := by
    intro name member
    by_cases known : call.column.name ∈ t.columnNames <;> simp [names, known, member]
  intro name referred
  rcases List.mem_cons.mp (column_references indexed call referred) with rfl | before
  · exact own
  · exact others (resolve before)

theorem columnCalls (indexed : t.Indexed) (resolve : t.ReferencesResolve)
    (calls : List ColumnCall) : (calls.foldl (fun t call => call.run t) t).ReferencesResolve := by
  induction calls generalizing t with
  | nil => exact resolve
  | cons call rest ih => exact ih (indexed.column call) (resolve.column indexed call)

end ReferencesResolve

/-- A column is there under its new name, and every other column under its old one. -/
theorem mem_renameColumn_columnNames (indexed : t.Indexed) (source target : String) {name : String}
    (known : name ∈ t.columnNames) :
    (if name = source then target else name) ∈ (t.renameColumn source target).columnNames := by
  obtain ⟨i, column, led, held, named⟩ := indexed.columns.leads known
  rw [columnNames, renameColumn_columns]
  refine List.mem_map.mpr
    ⟨if Keyed.find? source t.columnLookup = some i then { column with name := target } else column,
      List.mem_of_getElem? (i := i) ?_, ?_⟩
  · rw [Named.getElem?_update, held]
    rfl
  · by_cases here : name = source
    · rw [if_pos here, if_pos (here ▸ led)]
    · have unled : Keyed.find? source t.columnLookup ≠ some i := fun other =>
        here (named.symm.trans (indexed.led_name held other))
      rw [if_neg here, if_neg unled, named]

/-- Every reference follows the rename of a column that is there. -/
theorem renameColumn_references (indexed : t.Indexed) {source : String}
    (known : source ∈ t.columnNames) (target : String) :
    (t.renameColumn source target).references =
      t.references.map fun name => if name = source then target else name := by
  have there : (t.record (.renameColumn source target)).hasColumns [source] :=
    (indexed.hasColumns_singleton source).mpr known
  have indexes : (t.renameColumn source target).indexes = t.indexes.map fun index =>
      { index with
        columns := index.columns.map fun name => if name = source then target else name } := by
    rw [renameColumn, if_pos there]
    rfl
  rw [references, renameColumn_keyColumns indexed known, indexes, references, List.map_append,
    List.flatMap_map, List.map_flatMap]

namespace ReferencesResolve

theorem renameColumn (indexed : t.Indexed) (resolve : t.ReferencesResolve)
    (source target : String) : (t.renameColumn source target).ReferencesResolve := by
  by_cases known : source ∈ t.columnNames
  · intro name referred
    rw [renameColumn_references indexed known] at referred
    obtain ⟨before, member, rfl⟩ := List.mem_map.mp referred
    exact mem_renameColumn_columnNames indexed source target (resolve member)
  · have absent : ¬ (t.record (.renameColumn source target)).hasColumns [source] := fun there =>
      known ((indexed.hasColumns_singleton source).mp there)
    rw [Table.renameColumn, if_neg absent]
    exact resolve

/-- Columns are dropped without their references, so nothing may refer to them. -/
theorem dropColumns_iff (resolve : t.ReferencesResolve) (names : List String) :
    (t.dropColumns names).ReferencesResolve ↔ ∀ name ∈ names, name ∉ t.references := by
  have references : (t.dropColumns names).references = t.references := by
    rw [Table.references, dropColumns_indexes, keyColumns, dropColumns_primary]
    rfl
  have remaining (name : String) :
      name ∈ (t.dropColumns names).columnNames ↔ name ∈ t.columnNames ∧ name ∉ names := by
    rw [columnNames, dropColumns_columns]
    constructor
    · intro member
      obtain ⟨column, kept, rfl⟩ := List.mem_map.mp member
      obtain ⟨before, apart⟩ := List.mem_filter.mp kept
      exact ⟨List.mem_map_of_mem before, by simpa using apart⟩
    · rintro ⟨member, apart⟩
      obtain ⟨column, before, rfl⟩ := List.mem_map.mp member
      exact List.mem_map_of_mem (List.mem_filter.mpr ⟨before, by simpa using apart⟩)
  constructor
  · intro after name dropped referred
    exact ((remaining name).mp (after (references ▸ referred))).2 dropped
  · intro apart name referred
    rw [references] at referred
    exact (remaining name).mpr ⟨resolve referred, fun dropped => apart name dropped referred⟩

theorem dropIndexes (resolve : t.ReferencesResolve) (names : List String) :
    (t.dropIndexes names).ReferencesResolve := by
  have fewer : (t.dropIndexes names).indexes ⊆ t.indexes := by
    refine List.foldlRecOn (motive := fun (after : Table) => after.indexes ⊆ t.indexes) names _
      (List.Subset.refl t.indexes) ?_
    intro after fewer name _
    exact List.Subset.trans List.filter_sublist.subset fewer
  have key : (t.dropIndexes names).keyColumns = t.keyColumns := by
    rw [keyColumns, dropIndexes_primary]
    rfl
  apply resolve.of_subset
  · intro name referred
    rcases (mem_references name).mp referred with ⟨index, member, inside⟩ | ofKey
    · exact (mem_references name).mpr (.inl ⟨index, fewer member, inside⟩)
    · exact (mem_references name).mpr (.inr (key ▸ ofKey))
  · rw [columnNames, columnNames, dropIndexes_columns]
    exact List.Subset.refl _

theorem renameIndex (resolve : t.ReferencesResolve) (source target : String) :
    (t.renameIndex source target).ReferencesResolve := by
  have named (index : Index) : { index with name := target }.columns = index.columns := rfl
  have columns : (t.renameIndex source target).indexes.map Index.columns =
      t.indexes.map Index.columns := by
    rw [renameIndex_indexes]
    exact Named.map_update t.indexLookup source t.indexes named
  have references : (t.renameIndex source target).references = t.references := by
    rw [Table.references, List.flatMap_def, columns, keyColumns, renameIndex_primary]
    rfl
  apply resolve.of_subset
  · rw [references]
    exact List.Subset.refl t.references
  · rw [columnNames, columnNames, renameIndex_columns]
    exact List.Subset.refl _

theorem dropPrimary (resolve : t.ReferencesResolve) : t.dropPrimary.ReferencesResolve := by
  have keyless : t.dropPrimary.keyColumns = [] := by
    unfold Table.dropPrimary keyColumns
    cases held : t.primary with
    | none => simp [record, held]
    | some key => rfl
  apply resolve.of_subset
  · rw [Table.references, keyless, List.append_nil, dropPrimary_indexes]
    exact List.subset_append_left _ _
  · rw [columnNames_of_places t.dropPrimary_places]
    exact List.Subset.refl t.columnNames

/-! ### Calls -/

/-- Of the calls that name columns which are there, only drops leave references behind. -/
theorem run_iff (call : TableCall) (indexed : t.Indexed) (resolve : t.ReferencesResolve) :
    (call.run t).ReferencesResolve ↔ call.KeepsReferences t := by
  cases call with
  | column call => exact iff_of_true (resolve.column indexed call) trivial
  | timestamps => exact iff_of_true (resolve.columnCalls indexed ColumnCall.timestamps) trivial
  | renameColumn source target =>
    exact iff_of_true (resolve.renameColumn indexed source target) trivial
  | dropColumns names => exact resolve.dropColumns_iff names
  | createIndex kind name columns =>
    obtain ⟨added, others⟩ := createIndex_references indexed kind name columns
    have names := columnNames_of_places (t.createIndex_places kind name columns)
    exact resolve_iff_of_added resolve names added others
  | dropIndexes names => exact iff_of_true (resolve.dropIndexes names) trivial
  | renameIndex source target => exact iff_of_true (resolve.renameIndex source target) trivial
  | createPrimary columns =>
    obtain ⟨added, others⟩ := t.createPrimary_references columns
    have names := columnNames_of_places (t.createPrimary_places columns)
    exact resolve_iff_of_added resolve names added others
  | dropPrimary => exact iff_of_true resolve.dropPrimary trivial
  | watch label => exact iff_of_true resolve trivial

end ReferencesResolve

end Table

/-- From a table whose references resolve, they do in every blueprint on the way of a run, and a
catalog may list it so, exactly when each call refers to columns that are there and drops none that
is referred to. -/
theorem references_resolve_iff {t : Table} (reachable : t.Reachable)
    (resolve : t.ReferencesResolve) (calls : List TableCall) :
    (∀ done, done <+: calls →
        (TableCall.runAll done t).ReferencesResolve ∧ (TableCall.runAll done t).Relistable) ↔
      ∀ done call, done ++ [call] <+: calls → call.KeepsReferences (TableCall.runAll done t) := by
  simp only [Table.relistable_iff, and_self]
  exact TableCall.always_iff (fun call _ indexed => indexed.run call)
    (fun call _ indexed resolve => resolve.run_iff call indexed) reachable.indexed resolve calls

/-- A table with a key and an index over two columns, as a catalog lists them. -/
def listedKeyAndIndex : List Index :=
  [{ name := "PRIMARY", tableName := "t", kind := .primary, columns := ["a"] },
   { name := "i", tableName := "t", kind := .unique, columns := ["b", "a"] }]

/-- On a listed table a column may be renamed and a column of no index dropped, and the table may be
listed again; the column that the index is on may not be dropped. -/
theorem references_resolve_listed :
    ∃ t, Table.ofCatalog "t" none listedColumns listedKeyAndIndex = .ok t ∧ t.Reachable ∧
      t.ReferencesResolve ∧
      (TableCall.runAll [.renameColumn "a" "c", .column (.id "d"), .dropColumns ["e"]]
        t).Relistable ∧
      ¬ ∀ done, done <+: [TableCall.dropColumns ["b"]] →
        (TableCall.runAll done t).ReferencesResolve ∧ (TableCall.runAll done t).Relistable := by
  obtain ⟨t, found⟩ :
      ∃ t, Table.ofCatalog "t" none listedColumns listedKeyAndIndex = .ok t := ⟨_, rfl⟩
  have reachable : t.Reachable := .listed found
  have references : t.references = ["b", "a", "a"] := by
    cases found
    rfl
  have columns : t.columnNames = ["a", "b"] := by
    cases found
    rfl
  have resolve : t.ReferencesResolve := by simp [Table.ReferencesResolve, references, columns]
  refine ⟨t, found, reachable, resolve, ?_, ?_⟩
  · have undropped : ∀ name ∈ ["e"], name ∉
        (TableCall.runAll [.renameColumn "a" "c", .column (.id "d")] t).references := by
      cases found
      decide
    have kept := (references_resolve_iff reachable resolve
      [.renameColumn "a" "c", .column (.id "d"), .dropColumns ["e"]]).mpr
      (TableCall.forall_call_cons.mpr ⟨trivial, TableCall.forall_call_cons.mpr
        ⟨trivial, TableCall.forall_call_cons.mpr ⟨undropped, TableCall.forall_call_nil⟩⟩⟩)
    exact (kept _ (List.prefix_refl _)).2
  · intro always
    have undropped : TableCall.KeepsReferences t (.dropColumns ["b"]) :=
      (references_resolve_iff reachable resolve _).mp always [] _ (List.prefix_refl _)
    simp [TableCall.KeepsReferences, references] at undropped

/-- An index on a column that is dropped. -/
theorem dropped_column_referred :
    let t := TableCall.runAll
      [.column (.typed .text "a"), .column (.typed .text "b"), .createIndex .plain "i" ["a"]]
      { name := "t" }
    t.ReferencesResolve ∧ t.hasColumns ["a"] ∧
      ¬ (TableCall.run (.dropColumns ["a"]) t).ReferencesResolve ∧
      ¬ (TableCall.run (.dropColumns ["a"]) t).Relistable := by
  intro t
  have before : t.ReferencesResolve := by
    intro name referred
    have here : name ∈ ["a"] := referred
    exact List.mem_append_left ["b"] here
  have lost : ¬ (TableCall.run (.dropColumns ["a"]) t).ReferencesResolve := by
    intro resolve
    have inside : "a" ∈ ["b"] := resolve (List.mem_singleton_self "a")
    exact absurd inside (by decide)
  exact ⟨before, rfl, lost, fun listed => lost ((Table.relistable_iff _).mp listed)⟩

end Sqlwright
