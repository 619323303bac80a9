import Sqlwright.Proofs.ColumnReferences
import Sqlwright.Proofs.CreationLog
import Sqlwright.Proofs.FirstAppearances

/-!
Tables as a catalog lists them. The columns stand as they are listed, with positions where none is
told. Of several secondary indexes of one name the last one is there, in the place of the first. The
last primary index makes the primary key, or else the columns that are flagged do, and the columns
of the key are flagged in any case.
-/

namespace Sqlwright

/-- The last entry of each name, in the order in which the names appear first. -/
def Named.latest {α : Type} (key : α → String) (entries : List α) : List α :=
  (entries.map key).eraseDups.filterMap fun name => last? key name entries

/-- The indexes of a listing that make the primary key. -/
def primaryIndexes (indexes : List Index) : List Index := indexes.filter (·.kind = .primary)

def secondaryIndexes (indexes : List Index) : List Index := indexes.filter (·.kind ≠ .primary)

/-- The columns that a listing flags as part of the primary key. -/
def flaggedNames (columns : List Column) : List String :=
  (columns.filter Column.primary).map Column.name

/-- The key that an index makes of its columns. -/
def Index.toKey (table : String) (index : Index) : PrimaryKey :=
  { name := index.name, tableName := table, columns := index.columns }

/-- A column that is listed at a place, as it stands in the table: at the position that it was
given, or else at the one of its place, and flagged if it was or if the key names it. -/
def Column.listedAt (table : String) (key : List String) (place : Nat) (c : Column) : Column :=
  { c with
    tableName := table
    position := if c.position = 0 then place + 1 else c.position
    primary := c.primary || key.contains c.name }

namespace Table

/-- A table is what listings tell of it. -/
structure Describes (name : String) (schema : Option String) (columns : List Column)
    (indexes : List Index) (t : Table) : Prop where
  named : t.name = name
  inSchema : t.schema = schema
  columnsListed : t.columns = columns.mapIdx (Column.listedAt name t.keyColumns)
  latest : t.indexes = Named.latest Index.name (secondaryIndexes indexes)
  /-- The last primary index is the key. -/
  keyOfIndex : ∀ index, (primaryIndexes indexes).getLast? = some index →
    t.primary = some (index.toKey name)
  /-- Without a primary index the flagged columns are the key, which has no name of its own. -/
  keyOfFlags : primaryIndexes indexes = [] → flaggedNames columns ≠ [] →
    t.primary = some { name := "PRIMARY", tableName := name, columns := flaggedNames columns }
  keyless : primaryIndexes indexes = [] → flaggedNames columns = [] → t.primary = none
  /-- Every column of the key is there, and is flagged. -/
  keyFlagged : ∀ column ∈ t.keyColumns, ∃ c ∈ t.columns, c.name = column ∧ c.primary
  unlogged : t.commands = []

end Table

/-! ### Columns -/

namespace Table

variable {t : Table}

theorem pushColumns_columns (columns : List Column) (t : Table) :
    (columns.foldl pushColumn t).columns =
      t.columns ++ columns.mapIdx fun i c =>
        { c with
          tableName := t.name
          position := if c.position = 0 then t.columns.length + i + 1 else c.position } := by
  induction columns generalizing t with
  | nil => simp
  | cons column rest ih =>
    have first : (t.pushColumn column).columns = t.columns ++ [t.appended column] := rfl
    have name : (t.pushColumn column).name = t.name := rfl
    rw [List.foldl_cons, ih, first, name, List.mapIdx_cons, List.append_assoc,
      List.length_append, List.length_singleton]
    simp only [appended, Nat.add_zero, List.singleton_append, Nat.add_assoc, Nat.add_comm 1]

/-! ### Indexes -/

/-- A listing is refused for the first column that an index names and that is not there. -/
theorem listIndexes_error_iff (indexes : List Index) (t : Table) (fault : Fault) :
    indexes.foldlM listIndex t = .error fault ↔
      ∃ missing, (indexes.flatMap Index.columns).find? (fun name =>
        !Named.contains t.columnLookup name) = some missing ∧ fault = .columnNotFound missing := by
  induction indexes generalizing t with
  | nil => simp [pure, Except.pure]
  | cons index rest ih =>
    rw [List.foldlM_cons, List.flatMap_cons, List.find?_append]
    cases found : index.columns.find? fun name => !Named.contains t.columnLookup name with
    | some missing =>
      have refused : t.listIndex index = .error (.columnNotFound missing) := by
        rw [listIndex, found]
      rw [refused, Option.some_or]
      constructor
      · rintro ⟨⟩
        exact ⟨missing, rfl, rfl⟩
      · rintro ⟨_, ⟨⟩, rfl⟩
        rfl
    | none =>
      obtain ⟨next, taken⟩ : ∃ next, t.listIndex index = .ok next := by
        rw [listIndex, found]
        cases index.kind <;> exact ⟨_, rfl⟩
      rw [taken, Option.none_or, ← listIndex_columnLookup taken]
      exact ih next

theorem putIndex_indexNames (indexed : t.Indexed) (index : Index) :
    (t.putIndex index).indexNames =
      if index.name ∈ t.indexNames then t.indexNames else t.indexNames ++ [index.name] := by
  unfold putIndex
  cases found : Keyed.find? index.name t.indexLookup with
  | some i =>
    obtain ⟨old, held, named⟩ := indexed.indexes.points found
    have known : index.name ∈ t.indexNames :=
      List.mem_map.mpr ⟨old, List.mem_of_getElem? held, named⟩
    rw [if_pos known]
    exact indexed.indexes.keys_set found
  | none =>
    have fresh : index.name ∉ t.indexNames := (indexed.indexes.unled_iff index.name).mp found
    rw [if_neg fresh]
    exact List.map_append

/-- A blueprint after some indexes of a listing were taken: they are put beside the columns or have
made the key, and nothing else was changed. -/
structure Listed (start : Table) (taken : List Index) (t : Table) : Prop where
  indexed : t.Indexed
  kept : ∃ indexes indexLookup primary, t = { start with indexes, indexLookup, primary }
  names : t.indexNames = ((secondaryIndexes taken).map Index.name).eraseDups
  lasts : Named.Lasts Index.name (secondaryIndexes taken) t.indexes
  key : t.primary = (primaryIndexes taken).getLast?.map (Index.toKey start.name)

namespace Listed

variable {start next : Table} {taken : List Index} {index : Index}

theorem name (listed : Listed start taken t) : t.name = start.name := by
  obtain ⟨_, _, _, rfl⟩ := listed.kept
  rfl

theorem columns (listed : Listed start taken t) : t.columns = start.columns := by
  obtain ⟨_, _, _, rfl⟩ := listed.kept
  rfl

/-- A secondary index takes the place of the one of its name, or stands behind the others. -/
theorem secondary (listed : Listed start taken t) (kind : index.kind ≠ .primary) :
    Listed start (taken ++ [index]) (t.putIndex index) := by
  have others : primaryIndexes (taken ++ [index]) = primaryIndexes taken := by
    simp [primaryIndexes, kind]
  have more : secondaryIndexes (taken ++ [index]) = secondaryIndexes taken ++ [index] := by
    simp [secondaryIndexes, kind]
  obtain ⟨indexes, lookup, put⟩ := t.putIndex_eq index
  constructor
  case indexed => exact listed.indexed.putIndex index
  case kept =>
    obtain ⟨_, _, primary, rfl⟩ := listed.kept
    exact ⟨indexes, lookup, primary, put⟩
  case names =>
    rw [putIndex_indexNames listed.indexed, more, List.map_append, List.map_singleton,
      eraseDups_concat, listed.names]
    simp only [List.mem_eraseDups]
  case lasts =>
    rw [more]
    exact putIndex_lasts listed.indexed listed.lasts index
  case key =>
    rw [others, put]
    exact listed.key

/-- A primary index makes the key, in the place of an earlier one. -/
theorem primary (listed : Listed start taken t) (kind : index.kind = .primary) :
    Listed start (taken ++ [index]) { t with primary := some (index.toKey t.name) } := by
  have others : secondaryIndexes (taken ++ [index]) = secondaryIndexes taken := by
    simp [secondaryIndexes, kind]
  constructor
  case indexed => exact ⟨listed.indexed.columns, listed.indexed.indexes⟩
  case kept =>
    obtain ⟨indexes, lookup, _, rfl⟩ := listed.kept
    exact ⟨indexes, lookup, _, rfl⟩
  case names =>
    rw [others]
    exact listed.names
  case lasts =>
    rw [others]
    exact listed.lasts
  case key => simp [primaryIndexes, kind, listed.name]

theorem add (listed : Listed start taken t) (found : t.listIndex index = .ok next) :
    Listed start (taken ++ [index]) next := by
  unfold listIndex at found
  split at found
  · cases found
  · split at found
    · next kind =>
      cases found
      exact listed.primary kind
    · next kind =>
      cases found
      exact listed.secondary kind

theorem addAll {more : List Index} (listed : Listed start taken t)
    (found : more.foldlM listIndex t = .ok next) : Listed start (taken ++ more) next := by
  induction more generalizing t taken with
  | nil =>
    cases found
    rwa [List.append_nil]
  | cons index rest ih =>
    rw [List.foldlM_cons] at found
    cases first : t.listIndex index with
    | error fault =>
      rw [first] at found
      cases found
    | ok middle =>
      rw [first] at found
      have all := ih (listed.add first) found
      rwa [List.append_assoc] at all

end Listed

end Table

/-- What keeps the last entry of each name, in order of first appearance, keeps the latest. -/
theorem Named.Lasts.eq_latest {α : Type} {key : α → String} {defined kept : List α}
    (lasts : Lasts key defined kept) (names : kept.map key = (defined.map key).eraseDups) :
    kept = latest key defined := by
  have each : ∀ e ∈ kept, last? key (key e) defined = some e := lasts.picked
  rw [latest, ← names, List.filterMap_map]
  exact (List.filterMap_some.symm.trans (List.filterMap_congr fun e member => (each e member).symm))

/-! ### Tables -/

namespace Table

variable {t : Table} {name : String} {schema : Option String} {columns : List Column}
  {indexes : List Index}

/-- The blueprint with the listed columns, before any index is taken. -/
theorem pushColumns_listed (name : String) (schema : Option String) (columns : List Column) :
    Listed (columns.foldl pushColumn { name, schema }) []
      (columns.foldl pushColumn { name, schema }) := by
  have pushed : (columns.foldl pushColumn { name, schema }).indexes = [] ∧
      (columns.foldl pushColumn { name, schema }).primary = none :=
    List.foldlRecOn (motive := fun (t : Table) => t.indexes = [] ∧ t.primary = none) columns
      pushColumn ⟨rfl, rfl⟩ fun _ kept _ _ => kept
  obtain ⟨indexes, key⟩ := pushed
  constructor
  case indexed => exact pushColumns_indexed name schema columns
  case kept => exact ⟨_, _, _, rfl⟩
  case names => rw [indexNames, indexes]; rfl
  case lasts =>
    rw [indexes]
    exact ⟨List.nodup_nil, List.forall_mem_nil _, List.forall_mem_nil _⟩
  case key => exact key

/-- A catalog is refused for the first column that an index names and that is not listed. -/
theorem ofCatalog_error_iff (name : String) (schema : Option String) (columns : List Column)
    (indexes : List Index) (fault : Fault) :
    ofCatalog name schema columns indexes = .error fault ↔
      ∃ missing, (indexes.flatMap Index.columns).find? (fun column =>
        column ∉ columns.map Column.name) = some missing ∧ fault = .columnNotFound missing := by
  have indexed := pushColumns_indexed name schema columns
  have named : (columns.foldl pushColumn { name, schema }).columnNames = columns.map Column.name :=
    pushColumns_columnNames columns _
  have unknown : (fun column => !Named.contains
      (columns.foldl pushColumn { name, schema }).columnLookup column) =
        fun column => decide (column ∉ columns.map Column.name) := by
    funext column
    have known := (indexed.columns.contains_iff column).trans (Indexed.mem_columnNames column).symm
    rw [named] at known
    rw [decide_not, Bool.eq_iff_iff.mpr (known.trans decide_eq_true_iff.symm)]
  rw [← unknown, ← listIndexes_error_iff, ofCatalog]
  cases indexes.foldlM listIndex (columns.foldl pushColumn { name, schema }) with
  | error other => exact Iff.rfl
  | ok listed => exact iff_of_false (by rintro ⟨⟩) (by rintro ⟨⟩)

/-- Which columns are flagged depends on names and flags alone. -/
theorem flaggedNames_of_marks {first second : List Column}
    (same : first.map Column.mark = second.map Column.mark) :
    flaggedNames first = flaggedNames second := by
  have told (columns : List Column) :
      flaggedNames columns = ((columns.map Column.mark).filter Prod.snd).map Prod.fst := by
    rw [List.filter_map, List.map_map]
    rfl
  rw [told, told, same]

theorem pushColumns_marks (name : String) (schema : Option String) (columns : List Column) :
    (columns.foldl pushColumn { name, schema }).columns.map Column.mark =
      columns.map Column.mark := by
  rw [pushColumns_columns, List.nil_append]
  refine List.ext_getElem? fun i => ?_
  rw [List.getElem?_map, List.getElem?_mapIdx, List.getElem?_map, Option.map_map]
  rfl

/-- The key of the table that listings describe: that of the last primary index, or else that of the
flagged columns. -/
def listedKey? (name : String) (columns : List Column) (indexes : List Index) : Option PrimaryKey :=
  ((primaryIndexes indexes).getLast?.map (Index.toKey name)).or
    (match flaggedNames columns with
    | [] => none
    | names => some { tableName := name, columns := names })

theorem pushColumns_name (name : String) (schema : Option String) (columns : List Column) :
    (columns.foldl pushColumn { name, schema }).name = name :=
  List.foldlRecOn (motive := fun (t : Table) => t.name = name) columns pushColumn rfl
    fun _ kept _ _ => kept

/-- The key is taken from the indexes, or else from the flags. -/
theorem Listed.key_eq {listed : Table}
    (all : Listed (columns.foldl pushColumn { name, schema }) indexes listed) :
    listed.primary.or listed.keyFromFlags = listedKey? name columns indexes := by
  have named := pushColumns_name name schema columns
  have flags := flaggedNames_of_marks (pushColumns_marks name schema columns)
  have fromFlags : listed.keyFromFlags = (match flaggedNames listed.columns with
      | [] => none
      | names => some { tableName := listed.name, columns := names }) := rfl
  rw [fromFlags, all.columns, all.name, flags, all.key, named]
  rfl

/-- The columns of the key are listed. -/
theorem listedKey?_columns {key : PrimaryKey}
    (accepted : ∀ index ∈ indexes, index.columns ⊆ columns.map Column.name)
    (held : listedKey? name columns indexes = some key) :
    key.columns ⊆ columns.map Column.name := by
  unfold listedKey? at held
  cases last : (primaryIndexes indexes).getLast? with
  | some index =>
    rw [last] at held
    obtain rfl := Option.some.inj held
    exact accepted index (List.mem_filter.mp (List.mem_of_getLast? last)).1
  | none =>
    have within : flaggedNames columns ⊆ columns.map Column.name :=
      (List.filter_sublist.map Column.name).subset
    rw [last, Option.map_none, Option.none_or] at held
    split at held
    · cases held
    · obtain rfl := Option.some.inj held
      exact within

/-- Flagging columns by name leaves them as they are listed, but for their flags. -/
theorem Listed.flagColumns_columns {listed : Table} (distinct : (columns.map Column.name).Nodup)
    (all : Listed (columns.foldl pushColumn { name, schema }) indexes listed)
    (names : List String) :
    (listed.flagColumns names true).columns = columns.mapIdx (Column.listedAt name names) := by
  have pushed : listed.columns = columns.mapIdx fun i c =>
      { c with
        tableName := name
        position := if c.position = 0 then 0 + i + 1 else c.position } := by
    rw [all.columns, pushColumns_columns]
    rfl
  have apart : (listed.columns.map Column.name).Nodup := by
    have same : listed.columnNames = columns.map Column.name := by
      rw [columnNames, all.columns]
      exact pushColumns_columnNames columns _
    rwa [← same] at distinct
  refine List.ext_getElem? fun i => ?_
  rw [flagColumns_getElem?, List.getElem?_mapIdx]
  cases held : listed.columns[i]? with
  | none =>
    rw [pushed, List.getElem?_mapIdx, Option.map_eq_none_iff] at held
    rw [held]
    rfl
  | some column =>
    have led := all.indexed.columns.leads_iff apart held
    rw [pushed, List.getElem?_mapIdx] at held
    obtain ⟨c, there, rfl⟩ := Option.map_eq_some_iff.mp held
    simp only [led, Option.map_some, there, Column.listedAt, Nat.zero_add]
    by_cases member : c.name ∈ names <;> simp [member]

/-- The blueprint after all indexes, with its key set and flagged, is what the listings tell. -/
theorem Listed.describes {listed : Table} (distinct : (columns.map Column.name).Nodup)
    (accepted : ∀ index ∈ indexes, index.columns ⊆ columns.map Column.name)
    (all : Listed (columns.foldl pushColumn { name, schema }) indexes listed) :
    Describes name schema columns indexes
      { listed.flagColumns (((listedKey? name columns indexes).map PrimaryKey.columns).getD []) true
        with primary := listedKey? name columns indexes } := by
  generalize key : ((listedKey? name columns indexes).map PrimaryKey.columns).getD [] = names
  have columnsOf := all.flagColumns_columns distinct names
  obtain ⟨_, flagged⟩ := listed.flagColumns_eq names true
  obtain ⟨_, _, _, kept⟩ := all.kept
  have start : (columns.foldl pushColumn { name, schema }).schema = schema ∧
      (columns.foldl pushColumn { name, schema }).commands = [] :=
    List.foldlRecOn (motive := fun (t : Table) => t.schema = schema ∧ t.commands = []) columns
      pushColumn ⟨rfl, rfl⟩ fun _ kept _ _ => kept
  constructor
  case named =>
    rw [flagged]
    exact all.name.trans (pushColumns_name name schema columns)
  case inSchema =>
    rw [flagged, kept]
    exact start.1
  case columnsListed =>
    rw [keyColumns, key]
    exact columnsOf
  case latest => exact (flagColumns_indexes ..).trans (all.lasts.eq_latest all.names)
  case keyOfIndex =>
    intro index last
    rw [listedKey?, last]
    rfl
  case keyOfFlags =>
    intro none flags
    rw [listedKey?, none]
    cases found : flaggedNames columns with
    | nil => exact absurd found flags
    | cons first rest => rfl
  case keyless =>
    intro none flags
    rw [listedKey?, none, flags]
    rfl
  case keyFlagged =>
    intro column member
    rw [keyColumns, key] at member
    obtain ⟨held, found, within⟩ : ∃ held, listedKey? name columns indexes = some held ∧
        column ∈ held.columns := by
      cases found : listedKey? name columns indexes with
      | none => simp [← key, found] at member
      | some held => exact ⟨held, rfl, by simpa [← key, found] using member⟩
    obtain ⟨c, there, rfl⟩ := List.mem_map.mp (listedKey?_columns accepted found within)
    obtain ⟨i, inside, rfl⟩ := List.mem_iff_getElem.mp there
    refine ⟨Column.listedAt name names i columns[i], ?_, rfl, ?_⟩
    · exact columnsOf ▸ List.mem_mapIdx.mpr ⟨i, inside, rfl⟩
    · simp [Column.listedAt, member]
  case unlogged =>
    rw [flagged, kept]
    exact start.2

/-- Listings of distinct columns are refused exactly where an index names a column that is not
listed, and are read as the table that they describe otherwise. -/
theorem catalog_read_as_listed (name : String) (schema : Option String) (columns : List Column)
    (indexes : List Index) (distinct : (columns.map Column.name).Nodup) :
    ((∃ missing, ofCatalog name schema columns indexes = .error (.columnNotFound missing)) ↔
      ∃ index ∈ indexes, ∃ column ∈ index.columns, column ∉ columns.map Column.name) ∧
    ((∀ index ∈ indexes, index.columns ⊆ columns.map Column.name) →
      ∃ t, ofCatalog name schema columns indexes = .ok t ∧
        t.Describes name schema columns indexes) := by
  constructor
  · simp only [ofCatalog_error_iff, Fault.columnNotFound.injEq, exists_eq_right']
    rw [← Option.isSome_iff_exists, List.find?_isSome]
    simp only [List.mem_flatMap, decide_eq_true_eq]
    constructor
    · rintro ⟨column, ⟨index, member, within⟩, missing⟩
      exact ⟨index, member, column, within, missing⟩
    · rintro ⟨index, member, column, within, missing⟩
      exact ⟨column, ⟨index, member, within⟩, missing⟩
  · intro accepted
    obtain ⟨t, found⟩ := (ofCatalog_accepts_iff name schema columns indexes).mpr accepted
    obtain ⟨listed, taken, -⟩ := ofCatalog_lists found
    have all := (pushColumns_listed name schema columns).addAll taken
    rw [List.nil_append] at all
    refine ⟨_, ?_, all.describes distinct accepted⟩
    rw [ofCatalog, taken, ← all.key_eq]
    rfl

/-- Three columns, of which one is flagged and one has its position. -/
def mixedColumns : List Column :=
  [{ name := "a", type := .text, primary := true }, { name := "b", type := .text, position := 7 },
    { name := "c", type := .text }]

/-- Two primary indexes between others, of which two have one name. -/
def mixedIndexes : List Index :=
  [{ name := "i", tableName := "t", kind := .unique, columns := ["a"] },
    { name := "p", tableName := "t", kind := .primary, columns := ["a"] },
    { name := "j", tableName := "t", kind := .plain, columns := ["a", "c"] },
    { name := "i", tableName := "t", kind := .plain, columns := ["b"] },
    { name := "q", tableName := "t", kind := .primary, columns := ["b", "c"] }]

/-- The mixed listing is read: the later index stands in the place of the earlier one, and the last
primary index is the key. Listed without its last column it is refused. -/
theorem catalog_read_as_listed_mixed :
    (∃ t, ofCatalog "t" none mixedColumns mixedIndexes = .ok t ∧
      t.Describes "t" none mixedColumns mixedIndexes ∧
      t.columns.map Column.position = [1, 7, 3] ∧
      t.columns.map Column.primary = [true, true, true] ∧
      t.indexes.map (fun index => (index.name, index.columns)) = [("i", ["b"]), ("j", ["a", "c"])] ∧
      t.keyColumns = ["b", "c"]) ∧
    ∃ missing, ofCatalog "t" none (mixedColumns.take 2) mixedIndexes =
      .error (.columnNotFound missing) := by
  constructor
  · obtain ⟨t, found, describes⟩ :=
      (catalog_read_as_listed "t" none mixedColumns mixedIndexes (by decide)).2 (by decide)
    refine ⟨t, found, describes, ?_⟩
    have key : t.keyColumns = ["b", "c"] := by
      rw [keyColumns, describes.keyOfIndex _ rfl]
      rfl
    rw [describes.columnsListed, describes.latest, key]
    exact ⟨rfl, rfl, rfl, rfl⟩
  · refine (catalog_read_as_listed "t" none (mixedColumns.take 2) mixedIndexes (by decide)).1.mpr ?_
    decide

end Table

end Sqlwright
