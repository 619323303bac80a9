import Mathlib.Data.List.Nodup
import Sqlwright.Proofs.CallRuns
import Sqlwright.Proofs.ColumnPlaces

/-!
Names that are told apart. A column or an index that is defined again takes the place of the one of
its name, so only renames can bring a name into a blueprint twice: one that goes to the name of
another entry does, and no other call.
-/

namespace Sqlwright

namespace Table

def indexNames (t : Table) : List String := t.indexes.map Index.name

/-- No two columns are of one name, and no two indexes. -/
structure DistinctNames (t : Table) : Prop where
  columns : t.columnNames.Nodup
  indexes : t.indexNames.Nodup

end Table

/-- A rename whose new name is not that of another column, or of another index. -/
def TableCall.RenamesApart (t : Table) : TableCall → Prop
  | .renameColumn source target =>
    source ∈ t.columnNames → target ∈ t.columnNames → source = target
  | .renameIndex source target => source ∈ t.indexNames → target ∈ t.indexNames → source = target
  | _ => True

/-- One of several names may be changed into another name exactly if that is not there. -/
theorem nodup_renamed_iff {names : List String} (distinct : names.Nodup)
    (source target : String) :
    (names.map fun name => if name = source then target else name).Nodup ↔
      (source ∈ names → target ∈ names → source = target) := by
  rw [List.nodup_map_iff_inj_on distinct]
  constructor
  · intro injective left right
    by_contra apart
    have same := injective source left target right (by simp)
    exact apart same
  · intro free one first other second alike
    by_cases here : one = source
    · by_cases there : other = source
      · rw [here, there]
      · simp only [here, there, if_true, if_false] at alike
        exact absurd (free (here ▸ first) (alike ▸ second) |>.trans alike).symm there
    · by_cases there : other = source
      · simp only [here, there, if_true, if_false] at alike
        exact absurd (free (there ▸ second) (alike ▸ first) |>.trans alike.symm).symm here
      · simpa [here, there] using alike

namespace Table

variable {t : Table}

/-! ### Columns -/

theorem column_columnNames_nodup (indexed : t.Indexed) (distinct : t.columnNames.Nodup)
    (call : ColumnCall) : (call.run t).columnNames.Nodup := by
  rw [column_columnNames indexed]
  split
  · exact distinct
  · next fresh =>
    rw [← List.concat_eq_append]
    exact distinct.concat fresh

theorem renameColumn_columnNames_nodup_iff (indexed : t.Indexed) (distinct : t.columnNames.Nodup)
    (source target : String) :
    (t.renameColumn source target).columnNames.Nodup ↔
      (source ∈ t.columnNames → target ∈ t.columnNames → source = target) := by
  rw [← nodup_renamed_iff distinct]
  have renamed : (t.renameColumn source target).columnNames =
      t.columnNames.map fun name => if name = source then target else name := by
    rw [columnNames, renameColumn_columns]
    have named (c : Column) : { c with name := target }.name = target := rfl
    exact indexed.columns.keys_update distinct named source
  rw [renamed]

theorem dropColumns_columnNames_nodup (distinct : t.columnNames.Nodup) (names : List String) :
    (t.dropColumns names).columnNames.Nodup := by
  unfold columnNames
  rw [dropColumns_columns]
  exact distinct.sublist (List.filter_sublist.map Column.name)

/-! ### Indexes -/

theorem renameIndex_indexes (t : Table) (source target : String) :
    (t.renameIndex source target).indexes =
      Named.update t.indexLookup source (fun index => { index with name := target }) t.indexes := by
  simp only [renameIndex]
  split
  · rfl
  · next absent =>
    have unknown : Keyed.find? source t.indexLookup = none := by
      simpa [hasIndexes, Named.contains, record] using absent
    rw [Named.update, unknown]
    rfl

theorem putIndex_indexNames_nodup (indexed : t.Indexed) (distinct : t.indexNames.Nodup)
    (index : Index) : (t.putIndex index).indexNames.Nodup := by
  unfold putIndex
  cases found : Keyed.find? index.name t.indexLookup with
  | some i =>
    rw [indexNames, indexed.indexes.keys_set found]
    exact distinct
  | none =>
    have fresh : index.name ∉ t.indexNames := (indexed.indexes.unled_iff index.name).mp found
    rw [indexNames, List.map_append, List.map_singleton, ← List.concat_eq_append]
    exact distinct.concat fresh

theorem renameIndex_indexNames_nodup_iff (indexed : t.Indexed) (distinct : t.indexNames.Nodup)
    (source target : String) :
    (t.renameIndex source target).indexNames.Nodup ↔
      (source ∈ t.indexNames → target ∈ t.indexNames → source = target) := by
  rw [← nodup_renamed_iff distinct]
  have renamed : (t.renameIndex source target).indexNames =
      t.indexNames.map fun name => if name = source then target else name := by
    rw [indexNames, renameIndex_indexes]
    have named (index : Index) : { index with name := target }.name = target := rfl
    exact indexed.indexes.keys_update distinct named source
  rw [renamed]

theorem dropIndexes_indexNames_nodup (distinct : t.indexNames.Nodup) (names : List String) :
    (t.dropIndexes names).indexNames.Nodup := by
  unfold dropIndexes
  refine List.foldlRecOn (motive := fun (after : Table) => after.indexNames.Nodup) names _
    distinct ?_
  intro after distinct name _
  exact distinct.sublist (List.filter_sublist.map Index.name)

theorem flagColumns_indexes (t : Table) (names : List String) (primary : Bool) :
    (t.flagColumns names primary).indexes = t.indexes := by
  obtain ⟨_, flagged⟩ := t.flagColumns_eq names primary
  rw [flagged]

theorem createPrimary_indexes (t : Table) (columns : List String) :
    (t.createPrimary columns).indexes = t.indexes :=
  t.flagColumns_indexes columns true

theorem dropPrimary_indexes (t : Table) : t.dropPrimary.indexes = t.indexes := by
  unfold dropPrimary
  cases t.primary with
  | none => rfl
  | some key => exact t.flagColumns_indexes key.columns false

theorem dropColumns_indexes (t : Table) (names : List String) :
    (t.dropColumns names).indexes = t.indexes := by
  unfold dropColumns
  exact List.foldlRecOn (motive := fun (after : Table) => after.indexes = t.indexes) names _ rfl
    fun _ kept _ _ => kept

theorem renameColumn_indexNames (t : Table) (source target : String) :
    (t.renameColumn source target).indexNames = t.indexNames := by
  simp only [renameColumn, indexNames]
  split
  · simp [reindex, record]
  · rfl

theorem extend_indexNames_nodup (indexed : t.Indexed) (distinct : t.indexNames.Nodup)
    (name : String) (modifier : Modifier) : (modifier.extend name t).indexNames.Nodup := by
  cases modifier with
  | primary =>
    rw [Modifier.extend, indexNames, createPrimary_indexes]
    exact distinct
  | unique => exact putIndex_indexNames_nodup indexed distinct _
  | index => exact putIndex_indexNames_nodup indexed distinct _
  | _ => exact distinct

/-- Modifiers of a column may create indexes, but none of a name that is there. -/
theorem column_indexNames_nodup (indexed : t.Indexed) (distinct : t.indexNames.Nodup)
    (call : ColumnCall) : (call.run t).indexNames.Nodup := by
  have defined : (call.define t).1.indexNames = t.indexNames := by
    obtain ⟨change, same⟩ := t.define_eq call
    obtain ⟨_, _, put⟩ := t.putColumn_eq call.column
    rw [same, put]
    rfl
  have kept : (call.run t).Indexed ∧ (call.run t).indexNames.Nodup := by
    refine List.foldlRecOn (motive := fun (after : Table) =>
      after.Indexed ∧ after.indexNames.Nodup) call.modifiers _ ?_ ?_
    · exact ⟨indexed.define call, defined ▸ distinct⟩
    · rintro after ⟨indexed, distinct⟩ modifier _
      exact ⟨indexed.modify _ modifier, extend_indexNames_nodup indexed distinct _ modifier⟩
  exact kept.2

/-! ### Calls -/

namespace DistinctNames

theorem of_eq {after : Table} (distinct : t.DistinctNames)
    (columns : after.columnNames = t.columnNames) (indexes : after.indexNames = t.indexNames) :
    after.DistinctNames where
  columns := columns ▸ distinct.columns
  indexes := indexes ▸ distinct.indexes

theorem column (indexed : t.Indexed) (distinct : t.DistinctNames) (call : ColumnCall) :
    (call.run t).DistinctNames where
  columns := column_columnNames_nodup indexed distinct.columns call
  indexes := column_indexNames_nodup indexed distinct.indexes call

theorem columnCalls (indexed : t.Indexed) (distinct : t.DistinctNames)
    (calls : List ColumnCall) : (calls.foldl (fun t call => call.run t) t).DistinctNames := by
  induction calls generalizing t with
  | nil => exact distinct
  | cons call rest ih => exact ih (indexed.column call) (distinct.column indexed call)

/-- Of all calls only a rename to the name of another entry brings a name in twice. -/
theorem run_iff (call : TableCall) (indexed : t.Indexed) (distinct : t.DistinctNames) :
    (call.run t).DistinctNames ↔ call.RenamesApart t := by
  cases call with
  | renameColumn source target =>
    have columns := renameColumn_columnNames_nodup_iff indexed distinct.columns source target
    have indexes : (t.renameColumn source target).indexNames.Nodup :=
      t.renameColumn_indexNames source target ▸ distinct.indexes
    exact ⟨fun after => columns.mp after.columns, fun apart => ⟨columns.mpr apart, indexes⟩⟩
  | renameIndex source target =>
    have indexes := renameIndex_indexNames_nodup_iff indexed distinct.indexes source target
    have columns : (t.renameIndex source target).columnNames.Nodup := by
      rw [columnNames, renameIndex_columns]
      exact distinct.columns
    exact ⟨fun after => indexes.mp after.indexes, fun apart => ⟨columns, indexes.mpr apart⟩⟩
  | column call => exact iff_of_true (distinct.column indexed call) trivial
  | timestamps =>
    exact iff_of_true (distinct.columnCalls indexed ColumnCall.timestamps) trivial
  | dropColumns names =>
    refine iff_of_true ⟨dropColumns_columnNames_nodup distinct.columns names, ?_⟩ trivial
    rw [TableCall.run, indexNames, dropColumns_indexes]
    exact distinct.indexes
  | createIndex kind name columns =>
    refine iff_of_true ⟨?_, putIndex_indexNames_nodup indexed distinct.indexes _⟩ trivial
    exact columnNames_of_places (t.createIndex_places kind name columns) ▸ distinct.columns
  | dropIndexes names =>
    refine iff_of_true ⟨?_, dropIndexes_indexNames_nodup distinct.indexes names⟩ trivial
    rw [TableCall.run, columnNames, dropIndexes_columns]
    exact distinct.columns
  | createPrimary columns =>
    exact iff_of_true (distinct.of_eq (columnNames_of_places (t.createPrimary_places columns))
      (congrArg (List.map Index.name) (t.createPrimary_indexes columns))) trivial
  | dropPrimary =>
    exact iff_of_true (distinct.of_eq (columnNames_of_places t.dropPrimary_places)
      (congrArg (List.map Index.name) t.dropPrimary_indexes)) trivial
  | watch label => exact iff_of_true (distinct.of_eq rfl rfl) trivial

end DistinctNames

/-! ### Runs -/

/-- Listings without a repeated name. -/
def ListedApart (columns : List Column) (indexes : List Index) : Prop :=
  (columns.map Column.name).Nodup ∧ (indexes.map Index.name).Nodup

theorem pushColumns_columnNames (columns : List Column) (t : Table) :
    (columns.foldl pushColumn t).columnNames = t.columnNames ++ columns.map Column.name := by
  induction columns generalizing t with
  | nil => simp
  | cons column rest ih =>
    have first : (t.pushColumn column).columnNames = t.columnNames ++ [column.name] := by
      simp [columnNames, pushColumn, appended]
    rw [List.foldl_cons, ih, first, List.append_assoc, List.map_cons, List.singleton_append]

theorem Started.distinctNames (started : t.Started ListedApart) : t.DistinctNames := by
  cases started with
  | empty name => exact ⟨List.nodup_nil, List.nodup_nil⟩
  | @catalog name schema columns indexes _ fit found =>
    constructor
    · rw [columnNames_eq, ofCatalog_places found, ← columnNames_eq, pushColumns_columnNames]
      exact fit.1
    · -- an index of a name that is there takes its place, so the names stay apart in any listing
      have kept : t.Indexed ∧ t.indexNames.Nodup := by
        have fresh : Indexed { name, schema } := ⟨fun _ => rfl, fun _ => rfl⟩
        refine ofCatalog_keeps (P := fun t => t.Indexed ∧ t.indexNames.Nodup)
          ⟨fresh, List.nodup_nil⟩ ?_ ?_ ?_ ?_ found
        · rintro t column ⟨indexed, distinct⟩
          exact ⟨indexed.pushColumn column, distinct⟩
        · rintro t index ⟨indexed, distinct⟩
          exact ⟨indexed.putIndex index, putIndex_indexNames_nodup indexed distinct index⟩
        · rintro t primary ⟨indexed, distinct⟩
          exact ⟨⟨indexed.columns, indexed.indexes⟩, distinct⟩
        · rintro t names ⟨indexed, distinct⟩
          refine ⟨indexed.flagColumns names true, ?_⟩
          rw [indexNames, flagColumns_indexes]
          exact distinct
      exact kept.2

end Table

/-- Names stay apart in every blueprint on the way of a run exactly when no rename in it goes to the
name of another entry. -/
theorem names_distinct_iff {t : Table} (started : t.Started Table.ListedApart)
    (calls : List TableCall) :
    (∀ done, done <+: calls → (TableCall.runAll done t).DistinctNames) ↔
      ∀ done call, done ++ [call] <+: calls → call.RenamesApart (TableCall.runAll done t) :=
  TableCall.always_iff (fun call _ indexed => indexed.run call)
    (fun call _ indexed distinct => distinct.run_iff call indexed) started.indexed
    started.distinctNames calls

/-- Two columns and an index as a catalog lists them. -/
def listedColumns : List Column := [{ name := "a", type := .text }, { name := "b", type := .text }]

def listedIndexes : List Index :=
  [{ name := "i", tableName := "t", kind := .unique, columns := ["a"] }]

/-- On a listed table a column may be given a new name, but not that of the other column. -/
theorem names_distinct_listed :
    ∃ t, Table.ofCatalog "t" none listedColumns listedIndexes = .ok t ∧
      (TableCall.runAll [.renameColumn "a" "c", .renameIndex "i" "j"] t).DistinctNames ∧
      ¬ ∀ done, done <+: [TableCall.renameColumn "a" "b"] →
        (TableCall.runAll done t).DistinctNames := by
  obtain ⟨t, found⟩ : ∃ t, Table.ofCatalog "t" none listedColumns listedIndexes = .ok t := ⟨_, rfl⟩
  have started : t.Started Table.ListedApart := .catalog ⟨by decide, by decide⟩ found
  have columns : t.columnNames = ["a", "b"] := by
    cases found
    rfl
  have indexes : t.indexNames = ["i"] := by
    cases found
    rfl
  refine ⟨t, found, ?_, ?_⟩
  · have apart : TableCall.RenamesApart t (.renameColumn "a" "c") := by
      simp [TableCall.RenamesApart, columns]
    have renamed : (t.renameColumn "a" "c").indexNames = ["i"] :=
      (t.renameColumn_indexNames "a" "c").trans indexes
    have apart' : TableCall.RenamesApart (t.renameColumn "a" "c") (.renameIndex "i" "j") := by
      simp [TableCall.RenamesApart, renamed]
    exact (names_distinct_iff started _).mpr
      (TableCall.forall_call_cons.mpr
        ⟨apart, TableCall.forall_call_cons.mpr ⟨apart', TableCall.forall_call_nil⟩⟩)
      _ (List.prefix_refl _)
  · intro always
    have apart : TableCall.RenamesApart t (.renameColumn "a" "b") :=
      (names_distinct_iff started _).mp always [] _ (List.prefix_refl _)
    simp [TableCall.RenamesApart, columns] at apart

/-- A column that takes the name of another one. -/
theorem rename_repeats_name :
    ¬ (TableCall.runAll
        [.column (.typed .text "a"), .column (.typed .text "b"), .renameColumn "b" "a"]
        { name := "t" }).DistinctNames := by
  intro distinct
  have repeated : ["a", "a"].Nodup := distinct.columns
  exact absurd repeated (by decide)

end Sqlwright
