import Sqlwright.Proofs.ColumnReferences
import Sqlwright.Table.Snapshot

/-!
Renamed columns. A column that gets a name that no column has keeps its place and all else that it
says, and no other column changes. Indexes and the key follow wherever they name it. It is found
under the new name and no longer under the old one, and all else is found as before. Renaming it
back restores the blueprint exactly where nothing referred to the new name before.
-/

namespace Sqlwright

/-- A name, once `source` is called `target`. -/
def renamed (source target name : String) : String := if name = source then target else name

def Column.renamed (source target : String) (c : Column) : Column :=
  { c with name := Sqlwright.renamed source target c.name }

def Index.renamed (source target : String) (index : Index) : Index :=
  { index with columns := index.columns.map (Sqlwright.renamed source target) }

def PrimaryKey.renamed (source target : String) (key : PrimaryKey) : PrimaryKey :=
  { key with columns := key.columns.map (Sqlwright.renamed source target) }

namespace Table

/-- A blueprint after a column of it was renamed: the name is another one wherever it stands, and
nothing else is. -/
structure Renames (source target : String) (t after : Table) : Prop where
  named : after.name = t.name
  inSchema : after.schema = t.schema
  columns : after.columns = t.columns.map (Column.renamed source target)
  indexes : after.indexes = t.indexes.map (Index.renamed source target)
  primary : after.primary = t.primary.map (PrimaryKey.renamed source target)
  logged : after.commands = t.commands ++ [⟨.renameColumn source target, none⟩]
  /-- The column lookup leads to the same place under the new name, and under others as before. -/
  places : ∀ name, Keyed.find? name after.columnLookup =
    if name = target then Keyed.find? source t.columnLookup
    else if name = source then none
    else Keyed.find? name t.columnLookup
  indexPlaces : ∀ name, Keyed.find? name after.indexLookup = Keyed.find? name t.indexLookup
  found : ∃ column, t.column? source = some column ∧
    after.column? target = some { column with name := target }
  gone : after.column? source = none
  others : ∀ name, name ≠ source → name ≠ target → after.column? name = t.column? name
  indexFound : ∀ name, after.index? name = (t.index? name).map (Index.renamed source target)

/-- What a snapshot shows of a blueprint. -/
def shown (t : Table) :
    String × Option String × List Column × List Index × Option PrimaryKey :=
  (t.name, t.schema, t.columns, t.indexes, t.primary)

theorem toJson_of_shown {t other : Table} (same : t.shown = other.shown) :
    t.toJson = other.toJson := by
  simp only [shown, Prod.mk.injEq] at same
  obtain ⟨name, schema, columns, indexes, primary⟩ := same
  rw [toJson, toJson, name, schema, columns, indexes, primary]

end Table

/-! ### Names -/

section Names

variable {source target name : String}

theorem renamed_source : renamed source target source = target := if_pos rfl

theorem renamed_other (other : name ≠ source) : renamed source target name = name := if_neg other

theorem renamed_eq_target_iff (fresh : name ≠ target) :
    renamed source target name = target ↔ name = source := by
  by_cases here : name = source
  · simp [here, renamed_source]
  · simp [renamed_other here, here, fresh]

theorem renamed_ne_source (apart : source ≠ target) : renamed source target name ≠ source := by
  by_cases here : name = source
  · rw [here, renamed_source]
    exact apart.symm
  · rwa [renamed_other here]

/-- Any third name is a renamed one exactly if it was there before. -/
theorem renamed_eq_iff {third : String} (notSource : third ≠ source) (notTarget : third ≠ target) :
    renamed source target name = third ↔ name = third := by
  by_cases here : name = source
  · simp [here, renamed_source, notSource.symm, notTarget.symm]
  · rw [renamed_other here]

/-- A name comes back unless it is the one that was given away. -/
theorem renamed_back_iff (apart : source ≠ target) :
    renamed target source (renamed source target name) = name ↔ name ≠ target := by
  by_cases here : name = source
  · rw [here, renamed_source, renamed_source]
    exact iff_of_true rfl apart
  · rw [renamed_other here]
    by_cases there : name = target
    · rw [there, renamed_source]
      exact iff_of_false apart (not_not_intro rfl)
    · exact iff_of_true (renamed_other there) there

theorem map_renamed_back_iff (apart : source ≠ target) (names : List String) :
    (names.map (renamed source target)).map (renamed target source) = names ↔
      target ∉ names := by
  have each : (names.map (renamed source target)).map (renamed target source) = names ↔
      ∀ name ∈ names, name ≠ target := by
    rw [List.map_map, ← List.map_id names, List.map_map, List.map_inj_left, List.map_id]
    exact forall₂_congr fun name _ => renamed_back_iff apart
  rw [each]
  exact ⟨fun all member => all target member rfl, fun absent name member same =>
    absent (same ▸ member)⟩

end Names

/-! ### Places -/

namespace Named

variable {α β : Type} {key : α → String}

theorem position?_map (key : β → String) (f : α → β) (name : String) (entries : List α) :
    position? key name (entries.map f) = position? (fun entry => key (f entry)) name entries := by
  induction entries with
  | nil => rfl
  | cons entry rest ih => simp only [List.map_cons, position?, ih]

/-- Where the same entries are called by a name, the last of them is the same. -/
theorem position?_congr {other : α → String} {name called : String} {entries : List α}
    (same : ∀ entry ∈ entries, key entry = name ↔ other entry = called) :
    position? key name entries = position? other called entries := by
  induction entries with
  | nil => rfl
  | cons entry rest ih =>
    obtain ⟨here, later⟩ := List.forall_mem_cons.mp same
    simp only [position?, ih later, here]

end Named

/-! ### Renaming -/

theorem Column.renamed_source {source target : String} {c : Column} (named : c.name = source) :
    c.renamed source target = { c with name := target } := by
  rw [Column.renamed, named, Sqlwright.renamed_source]

theorem Column.renamed_other {source target : String} {c : Column} (other : c.name ≠ source) :
    c.renamed source target = c := by
  rw [Column.renamed, Sqlwright.renamed_other other]

namespace Table

variable {t : Table} {source target : String}

theorem renameColumn_of_known (indexed : t.Indexed) (known : source ∈ t.columnNames)
    (target : String) : t.renameColumn source target = reindex
      { (t.record (.renameColumn source target)).editColumn source
          fun c => { c with name := target } with
        indexes := t.indexes.map (Index.renamed source target)
        primary := t.primary.map (PrimaryKey.renamed source target) } := by
  have there : (t.record (.renameColumn source target)).hasColumns [source] :=
    (indexed.hasColumns_singleton source).mpr known
  rw [renameColumn, if_pos there]
  rfl

/-- Where no name is repeated, the one column of a name is changed. -/
theorem renameColumn_columns_of_nodup (indexed : t.Indexed) (distinct : t.columnNames.Nodup)
    (source target : String) :
    (t.renameColumn source target).columns = t.columns.map (Column.renamed source target) := by
  rw [renameColumn_columns]
  refine List.ext_getElem? fun i => ?_
  rw [Named.getElem?_update, List.getElem?_map]
  cases held : t.columns[i]? with
  | none => rfl
  | some column =>
    simp only [Option.map_some, indexed.columns.leads_iff distinct held]
    by_cases here : column.name = source
    · rw [if_pos here, Column.renamed_source here]
    · rw [if_neg here, Column.renamed_other here]

theorem renameColumn_indexes (indexed : t.Indexed) (known : source ∈ t.columnNames)
    (target : String) :
    (t.renameColumn source target).indexes = t.indexes.map (Index.renamed source target) := by
  rw [renameColumn_of_known indexed known]
  rfl

theorem renameColumn_primary (indexed : t.Indexed) (known : source ∈ t.columnNames)
    (target : String) : (t.renameColumn source target).primary =
      t.primary.map (PrimaryKey.renamed source target) := by
  rw [renameColumn_of_known indexed known]
  rfl

/-- The lookup leads to the renamed column by its new name, and to the others as before. -/
theorem renameColumn_find? (indexed : t.Indexed) (distinct : t.columnNames.Nodup)
    (known : source ∈ t.columnNames) (fresh : target ∉ t.columnNames) (name : String) :
    Keyed.find? name (t.renameColumn source target).columnLookup =
      if name = target then Keyed.find? source t.columnLookup
      else if name = source then none
      else Keyed.find? name t.columnLookup := by
  have apart : source ≠ target := fun same => fresh (same ▸ known)
  rw [(indexed.renameColumn source target).columns name,
    renameColumn_columns_of_nodup indexed distinct, Named.position?_map]
  split_ifs with new old
  · rw [indexed.columns source, new]
    refine Named.position?_congr fun c member => renamed_eq_target_iff fun taken => ?_
    exact fresh (List.mem_map.mpr ⟨c, member, taken⟩)
  · rw [← Option.not_isSome_iff_eq_none, Named.position?_isSome, old]
    rintro ⟨c, -, same⟩
    exact renamed_ne_source apart same
  · rw [indexed.columns name]
    exact Named.position?_congr fun c _ => renamed_eq_iff old new

theorem renameColumn_index_find? (indexed : t.Indexed) (known : source ∈ t.columnNames)
    (target name : String) : Keyed.find? name (t.renameColumn source target).indexLookup =
      Keyed.find? name t.indexLookup := by
  rw [(indexed.renameColumn source target).indexes name, renameColumn_indexes indexed known,
    Named.position?_map, indexed.indexes name]
  rfl

namespace Indexed

/-- A column that is there gets a name that no column has. -/
theorem renames (indexed : t.Indexed) (distinct : t.columnNames.Nodup)
    (known : source ∈ t.columnNames) (fresh : target ∉ t.columnNames) :
    t.Renames source target (t.renameColumn source target) := by
  have whole := renameColumn_of_known indexed known target
  have apart : source ≠ target := fun same => fresh (same ▸ known)
  have places := renameColumn_find? indexed distinct known fresh
  have indexPlaces := renameColumn_index_find? indexed known target
  have held (i : Nat) : (t.renameColumn source target).columns[i]? =
      t.columns[i]?.map (Column.renamed source target) := by
    rw [renameColumn_columns_of_nodup indexed distinct, List.getElem?_map]
  refine
    { named := whole ▸ rfl
      inSchema := whole ▸ rfl
      columns := renameColumn_columns_of_nodup indexed distinct source target
      indexes := renameColumn_indexes indexed known target
      primary := renameColumn_primary indexed known target
      logged := whole ▸ rfl
      places, indexPlaces
      found := ?found, gone := ?gone, others := ?others, indexFound := ?indexFound }
  case found =>
    obtain ⟨i, column, led, there, named⟩ := indexed.columns.leads known
    refine ⟨column, ?_, ?_⟩
    · rw [column?, Named.find?, led, Option.bind_some, there]
    · rw [column?, Named.find?, places, if_pos rfl, led, Option.bind_some, held, there,
        Option.map_some, Column.renamed_source named]
  case gone =>
    rw [column?, Named.find?, places, if_neg apart, if_pos rfl]
    rfl
  case others =>
    intro name notSource notTarget
    rw [column?, column?, Named.find?, Named.find?, places, if_neg notTarget, if_neg notSource]
    cases led : Keyed.find? name t.columnLookup with
    | none => rfl
    | some i =>
      obtain ⟨column, there, same⟩ := indexed.columns.points led
      rw [Option.bind_some, Option.bind_some, held, there, Option.map_some,
        Column.renamed_other (same ▸ notSource)]
  case indexFound =>
    intro name
    rw [index?, index?, Named.find?, Named.find?, indexPlaces, renameColumn_indexes indexed known,
      Option.map_bind]
    refine congrArg _ (funext fun i => ?_)
    rw [Function.comp_apply, List.getElem?_map]

end Indexed

/-! ### Renaming back -/

theorem column_renamed_back (apart : source ≠ target) {c : Column} (other : c.name ≠ target) :
    (c.renamed source target).renamed target source = c := by
  have back : renamed target source (renamed source target c.name) = c.name :=
    (renamed_back_iff apart).mpr other
  simp only [Column.renamed, back]

theorem index_renamed_back_iff (apart : source ≠ target) (index : Index) :
    (index.renamed source target).renamed target source = index ↔ target ∉ index.columns := by
  rw [← map_renamed_back_iff apart]
  exact ⟨congrArg Index.columns, fun back => by simp only [Index.renamed, back]⟩

theorem primaryKey_renamed_back_iff (apart : source ≠ target) (key : PrimaryKey) :
    (key.renamed source target).renamed target source = key ↔ target ∉ key.columns := by
  rw [← map_renamed_back_iff apart]
  exact ⟨congrArg PrimaryKey.columns, fun back => by simp only [PrimaryKey.renamed, back]⟩

/-- A column that was renamed gets its name back; indexes and the key are what they were exactly if
none of them named it by the new name before. -/
theorem Renames.back_iff {middle after : Table} (there : t.Renames source target middle)
    (back : middle.Renames target source after) (known : source ∈ t.columnNames)
    (fresh : target ∉ t.columnNames) : after.shown = t.shown ↔ target ∉ t.references := by
  have apart : source ≠ target := fun same => fresh (same ▸ known)
  have columns : after.columns = t.columns := by
    rw [back.columns, there.columns, List.map_map]
    refine (List.map_congr_left fun c member => ?_).trans (List.map_id _)
    exact column_renamed_back apart fun taken => fresh (List.mem_map.mpr ⟨c, member, taken⟩)
  have indexes : after.indexes = t.indexes ↔ ∀ index ∈ t.indexes, target ∉ index.columns := by
    have each : after.indexes = t.indexes ↔
        ∀ index ∈ t.indexes, (index.renamed source target).renamed target source = index := by
      rw [back.indexes, there.indexes, List.map_map]
      nth_rewrite 2 [← List.map_id t.indexes]
      exact List.map_inj_left
    rw [each]
    exact forall₂_congr fun index _ => index_renamed_back_iff apart index
  have primary : after.primary = t.primary ↔ target ∉ t.keyColumns := by
    rw [back.primary, there.primary, keyColumns]
    cases t.primary with
    | none => simp
    | some key => simp [primaryKey_renamed_back_iff apart]
  have shown : after.shown = t.shown ↔ after.indexes = t.indexes ∧ after.primary = t.primary := by
    simp [Table.shown, back.named, there.named, back.inSchema, there.inSchema, columns]
  rw [shown, indexes, primary, references, List.mem_append, List.mem_flatMap]
  simp

end Table

/-- In every blueprint that can be built and names its columns apart, a column that is there gets a
name that no column has: nothing else changes, and what is found by name is found as before. Renamed
back, the blueprint shows what it showed exactly if no index and no key named that name before. -/
theorem renameColumn_changes_name {t : Table} (reachable : t.Reachable)
    (distinct : t.columnNames.Nodup) {source target : String} (known : source ∈ t.columnNames)
    (fresh : target ∉ t.columnNames) :
    let after := t.renameColumn source target
    let back := after.renameColumn target source
    t.Renames source target after ∧
      (back.shown = t.shown ↔ target ∉ t.references) ∧
      (target ∉ t.references → back.toJson = t.toJson) := by
  intro after back
  have indexed := reachable.indexed
  have apart : source ≠ target := fun same => fresh (same ▸ known)
  have there : t.Renames source target after := indexed.renames distinct known fresh
  have again : after.Renames target source back := by
    have names : after.columnNames = t.columnNames.map (renamed source target) := by
      rw [Table.columnNames, there.columns, List.map_map, Table.columnNames, List.map_map]
      rfl
    refine (indexed.renameColumn source target).renames ?_ ?_ ?_
    · refine (Table.renameColumn_columnNames_nodup_iff indexed distinct source target).mpr ?_
      exact fun _ taken => absurd taken fresh
    · exact names ▸ List.mem_map.mpr ⟨source, known, renamed_source⟩
    · intro given
      obtain ⟨name, -, same⟩ := List.mem_map.mp (names ▸ given)
      exact renamed_ne_source apart same
  have restores := there.back_iff again known fresh
  exact ⟨there, restores, fun absent => Table.toJson_of_shown (restores.mpr absent)⟩

/-- A blueprint with two indexes on the column `a`, one of them on `a` twice, and with a key. -/
def indexedTwice : Table :=
  TableCall.runAll
    [.column (.id "a"), .column (.typed .text "b"), .createIndex .plain "i" ["b", "a", "a"],
     .createIndex .unique "a" ["a"]]
    { name := "t" }

/-- The column `a` becomes `c`, in the key and wherever an index names it; the index that is called
`a` keeps its name. Renamed back, all is as it was. -/
theorem renameColumn_changes_name_indexed :
    indexedTwice.Reachable ∧ indexedTwice.columnNames = ["a", "b"] ∧
      (indexedTwice.renameColumn "a" "c").indexes.map (fun index => (index.name, index.columns)) =
        [("i", ["b", "c", "c"]), ("a", ["c"])] ∧
      (indexedTwice.renameColumn "a" "c").keyColumns = ["c"] ∧
      ((indexedTwice.renameColumn "a" "c").renameColumn "c" "a").toJson = indexedTwice.toJson := by
  have reachable : indexedTwice.Reachable := (Table.Reachable.fresh "t").runAll _
  have names : indexedTwice.columnNames = ["a", "b"] := rfl
  have referred : "c" ∉ indexedTwice.references := by decide +kernel
  have distinct : indexedTwice.columnNames.Nodup := by rw [names]; decide
  have known : "a" ∈ indexedTwice.columnNames := by rw [names]; decide
  have fresh : "c" ∉ indexedTwice.columnNames := by rw [names]; decide
  obtain ⟨renames, -, restores⟩ := renameColumn_changes_name reachable distinct known fresh
  refine ⟨reachable, names, ?_, ?_, restores referred⟩
  · rw [renames.indexes]
    rfl
  · rw [Table.keyColumns, renames.primary]
    rfl

end Sqlwright
