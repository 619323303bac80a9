import Sqlwright.Proofs.BlueprintLookups

/-!
Where columns stand. Names and positions of columns change in three ways only: a column that is new
is appended, a rename changes one name, and a drop leaves columns out. Modifiers, keys and indexes
leave them alone.
-/

namespace Sqlwright

theorem getElem?_concat {α : Type} (entries : List α) (last : α) (i : Nat) :
    (entries ++ [last])[i]? = if i = entries.length then some last else entries[i]? := by
  rcases Nat.lt_trichotomy i entries.length with before | rfl | behind
  · rw [if_neg (Nat.ne_of_lt before), List.getElem?_append_left before]
  · simp
  · have outside : (entries ++ [last]).length ≤ i := by
      rw [List.length_append]
      exact behind
    rw [if_neg (Nat.ne_of_gt behind), List.getElem?_eq_none outside,
      List.getElem?_eq_none (Nat.le_of_lt behind)]

/-- The name of a column and its position. -/
def Column.place (c : Column) : String × Nat := (c.name, c.position)

/-- The columns that a call defines, in order. -/
def TableCall.definitions : TableCall → List ColumnCall
  | .column call => [call]
  | .timestamps => ColumnCall.timestamps
  | _ => []

namespace Table

def columnNames (t : Table) : List String := t.columns.map Column.name

def positions (t : Table) : List Nat := t.columns.map Column.position

def places (t : Table) : List (String × Nat) := t.columns.map Column.place

theorem columnNames_eq (t : Table) : t.columnNames = t.places.map Prod.fst := by
  simp [columnNames, places, Column.place]

theorem positions_eq (t : Table) : t.positions = t.places.map Prod.snd := by
  simp [positions, places, Column.place]

theorem columnNames_of_places {t after : Table} (same : after.places = t.places) :
    after.columnNames = t.columnNames := by
  rw [columnNames_eq, same, ← columnNames_eq]

theorem positions_of_places {t after : Table} (same : after.places = t.places) :
    after.positions = t.positions := by
  rw [positions_eq, same, ← positions_eq]

namespace Indexed

variable {t : Table}

theorem mem_columnNames (name : String) :
    name ∈ t.columnNames ↔ ∃ column ∈ t.columns, column.name = name :=
  List.mem_map

theorem hasColumns_singleton (indexed : t.Indexed) (name : String) :
    t.hasColumns [name] ↔ name ∈ t.columnNames := by
  rw [mem_columnNames, ← indexed.columns.contains_iff name]
  simp [hasColumns]

theorem find?_eq_none_iff (indexed : t.Indexed) (name : String) :
    Keyed.find? name t.columnLookup = none ↔ name ∉ t.columnNames :=
  indexed.columns.unled_iff name

/-- A column that is found under its name. -/
theorem column?_eq_some (indexed : t.Indexed) {name : String} {i : Nat}
    (found : Keyed.find? name t.columnLookup = some i) :
    ∃ old, t.columns[i]? = some old ∧ old.name = name ∧ t.column? name = some old := by
  obtain ⟨old, held, named⟩ := indexed.columns.points found
  refine ⟨old, held, named, ?_⟩
  rw [column?, Named.find?, found, Option.bind_some, held]

end Indexed

/-! ### Operations -/

variable {t : Table}

/-- Flags are in the columns. -/
theorem flagColumns_eq (t : Table) (names : List String) (primary : Bool) :
    ∃ columns, t.flagColumns names primary = { t with columns } := by
  unfold flagColumns
  refine List.foldlRecOn (motive := fun (after : Table) => ∃ columns, after = { t with columns })
    names _ ⟨t.columns, rfl⟩ ?_
  rintro _ ⟨columns, rfl⟩ name _
  exact ⟨_, rfl⟩

/-- Indexes are put beside the columns. -/
theorem putIndex_eq (t : Table) (index : Index) :
    ∃ indexes indexLookup, t.putIndex index = { t with indexes, indexLookup } := by
  unfold putIndex
  cases Keyed.find? index.name t.indexLookup with
  | some i => exact ⟨_, t.indexLookup, rfl⟩
  | none => exact ⟨_, _, rfl⟩

/-- An index is put and recorded. -/
theorem createIndex_eq (t : Table) (kind : IndexKind) (name : String) (columns : List String) :
    ∃ indexes indexLookup, t.createIndex kind name columns =
      { t with indexes, indexLookup }.record
        (.createIndex { name, tableName := t.name, kind, columns }) := by
  obtain ⟨indexes, lookup, put⟩ := t.putIndex_eq { name, tableName := t.name, kind, columns }
  exact ⟨indexes, lookup, by rw [createIndex, put]⟩

/-- A column is put among the columns. -/
theorem putColumn_eq (t : Table) (column : Column) :
    ∃ columns columnLookup, t.putColumn column = { t with columns, columnLookup } := by
  unfold putColumn
  cases Keyed.find? column.name t.columnLookup with
  | some i => exact ⟨_, t.columnLookup, rfl⟩
  | none => exact ⟨_, _, rfl⟩

theorem editColumn_places (t : Table) (name : String) {edit : Column → Column}
    (kept : ∀ c, (edit c).place = c.place) : (t.editColumn name edit).places = t.places :=
  Named.map_update t.columnLookup name t.columns kept

/-- Flags change nothing else of columns. -/
theorem flagColumns_view {β : Type} {view : Column → β} {primary : Bool}
    (kept : ∀ c : Column, view { c with primary } = view c) (t : Table) (names : List String) :
    (t.flagColumns names primary).columns.map view = t.columns.map view := by
  unfold flagColumns
  refine List.foldlRecOn (motive := fun (after : Table) =>
    after.columns.map view = t.columns.map view) names _ rfl ?_
  intro after same name _
  exact (Named.map_update after.columnLookup name after.columns kept).trans same

/-- Just the columns that the names lead to are flagged. -/
theorem flagColumns_getElem? (t : Table) (names : List String) (primary : Bool) (i : Nat) :
    (t.flagColumns names primary).columns[i]? = t.columns[i]?.map fun c =>
      if ∃ name ∈ names, Keyed.find? name t.columnLookup = some i then { c with primary }
      else c := by
  induction names generalizing t with
  | nil => simp [flagColumns]
  | cons name rest ih =>
    have later := ih (t.editColumn name fun c => { c with primary })
    have first : (t.editColumn name fun c => { c with primary }).columns =
        Named.update t.columnLookup name (fun c => { c with primary }) t.columns := rfl
    have lookup : (t.editColumn name fun c => { c with primary }).columnLookup = t.columnLookup :=
      rfl
    rw [first, lookup, Named.getElem?_update, Option.map_map] at later
    refine later.trans (congrArg (fun f => t.columns[i]?.map f) (funext fun c => ?_))
    by_cases here : Keyed.find? name t.columnLookup = some i <;> simp [here]

theorem flagColumns_places (t : Table) (names : List String) (primary : Bool) :
    (t.flagColumns names primary).places = t.places := by
  have flag (c : Column) : { c with primary }.place = c.place := rfl
  exact flagColumns_view flag t names

theorem putColumn_places (indexed : t.Indexed) (column : Column) :
    (t.putColumn column).places =
      if column.name ∈ t.columnNames then t.places
      else t.places ++ [(column.name, (t.appended column).position)] := by
  unfold putColumn
  cases found : Keyed.find? column.name t.columnLookup with
  | none =>
    rw [if_neg ((indexed.find?_eq_none_iff column.name).mp found)]
    simp [pushColumn, places, Column.place, appended]
  | some i =>
    obtain ⟨old, held, named, known⟩ := indexed.column?_eq_some found
    have there : column.name ∈ t.columnNames :=
      List.mem_map.mpr ⟨old, List.mem_of_getElem? held, named⟩
    have same : (t.placed column).place = old.place := by
      simp [placed, known, Column.place, named]
    rw [if_pos there]
    refine Named.map_set_eq ?_
    rw [List.getElem?_map, held, Option.map_some, same]

/-- Where a column of a name is put: where there is one, or else at the end. -/
def placeOf (t : Table) (name : String) : Nat :=
  (Keyed.find? name t.columnLookup).getD t.columns.length

theorem eq_placeOf_iff {i : Nat} (inside : i < t.columns.length) (name : String) :
    i = t.placeOf name ↔ Keyed.find? name t.columnLookup = some i := by
  unfold placeOf
  cases Keyed.find? name t.columnLookup with
  | none => simp [Nat.ne_of_lt inside]
  | some j => simp [eq_comm]

theorem columnNames_placeOf (indexed : t.Indexed) {name : String} (known : name ∈ t.columnNames) :
    t.columnNames[t.placeOf name]? = some name := by
  obtain ⟨i, column, led, held, named⟩ := indexed.columns.leads known
  rw [placeOf, led, Option.getD_some, columnNames, List.getElem?_map, held, Option.map_some, named]

/-- The name of a column that is put leads to it. -/
theorem putColumn_find? (t : Table) (column : Column) (name : String) :
    Keyed.find? name (t.putColumn column).columnLookup =
      if name = column.name then some (t.placeOf column.name)
      else Keyed.find? name t.columnLookup := by
  unfold putColumn placeOf
  cases found : Keyed.find? column.name t.columnLookup with
  | some i =>
    by_cases here : name = column.name
    · rw [if_pos here, here, found]
      rfl
    · rw [if_neg here]
  | none => rw [pushColumn, Keyed.find?_insert]; rfl

/-- A column that is put changes nothing in other places. -/
theorem putColumn_getElem? (indexed : t.Indexed) (column : Column) (i : Nat) :
    (t.putColumn column).columns[i]? =
      if i = t.placeOf column.name then some (t.placed column) else t.columns[i]? := by
  unfold putColumn placeOf
  cases found : Keyed.find? column.name t.columnLookup with
  | some j =>
    obtain ⟨old, held, -⟩ := indexed.columns.points found
    have inside : j < t.columns.length := (List.getElem?_eq_some_iff.mp held).1
    simp only [List.getElem?_set, inside, if_true, Option.getD_some, eq_comm (a := i)]
  | none =>
    have placed : t.placed column = t.appended column := by
      unfold Table.placed column? Named.find?
      rw [found]
      rfl
    rw [pushColumn, placed, Option.getD_none, getElem?_concat]

theorem createPrimary_places (t : Table) (columns : List String) :
    (t.createPrimary columns).places = t.places :=
  t.flagColumns_places columns true

theorem putIndex_places (t : Table) (index : Index) : (t.putIndex index).places = t.places := by
  obtain ⟨_, _, put⟩ := t.putIndex_eq index
  rw [put]
  rfl

theorem createIndex_places (t : Table) (kind : IndexKind) (name : String)
    (columns : List String) : (t.createIndex kind name columns).places = t.places :=
  t.putIndex_places _

theorem extend_places (t : Table) (name : String) (modifier : Modifier) :
    (modifier.extend name t).places = t.places := by
  cases modifier with
  | primary => exact t.createPrimary_places [name]
  | unique => exact t.createIndex_places .unique name [name]
  | index => exact t.createIndex_places .plain name [name]
  | _ => rfl

theorem modify_places (t : Table) (handle : ColumnHandle) (modifier : Modifier) :
    (t.modify handle modifier).places = t.places := by
  have kept (c : Column) : (modifier.edit c).place = c.place := by cases modifier <;> rfl
  have edited := (modifier.extend handle.column t).editColumn_places handle.column kept
  exact edited.trans (t.extend_places handle.column modifier)

/-- A definition puts a column and records it, one way or the other. -/
theorem define_eq (t : Table) (call : ColumnCall) :
    ∃ change, (call.define t).1 = (t.putColumn call.column).record change := by
  unfold ColumnCall.define
  split <;> exact ⟨_, rfl⟩

/-- Whatever a column is defined as, it stays where it is, or is appended if it is new. -/
theorem column_places (indexed : t.Indexed) (call : ColumnCall) :
    (call.run t).places =
      if call.column.name ∈ t.columnNames then t.places
      else t.places ++ [(call.column.name, (t.appended call.column).position)] := by
  have modified : (call.run t).places = (call.define t).1.places := by
    refine List.foldlRecOn (motive := fun (after : Table) =>
      after.places = (call.define t).1.places) call.modifiers _ rfl ?_
    intro after kept modifier _
    exact (after.modify_places _ modifier).trans kept
  obtain ⟨change, defined⟩ := t.define_eq call
  have put : ((t.putColumn call.column).record change).places = (t.putColumn call.column).places :=
    rfl
  rw [modified, defined, put, putColumn_places indexed]

theorem column_columnNames (indexed : t.Indexed) (call : ColumnCall) :
    (call.run t).columnNames =
      if call.column.name ∈ t.columnNames then t.columnNames
      else t.columnNames ++ [call.column.name] := by
  rw [columnNames_eq, column_places indexed, columnNames_eq]
  split <;> simp

theorem renameColumn_columns (t : Table) (source target : String) :
    (t.renameColumn source target).columns =
      Named.update t.columnLookup source (fun c => { c with name := target }) t.columns := by
  simp only [renameColumn]
  split
  · rfl
  · next absent =>
    have unknown : Keyed.find? source t.columnLookup = none := by
      simpa [hasColumns, Named.contains, record] using absent
    rw [Named.update, unknown]
    rfl

theorem dropColumns_columns (t : Table) (names : List String) :
    (t.dropColumns names).columns = t.columns.filter fun c => c.name ∉ names := by
  have dropped : (names.foldl dropColumn t).columns = t.columns.filter fun c => c.name ∉ names := by
    induction names generalizing t with
    | nil => exact (List.filter_eq_self.mpr fun c _ => by simp).symm
    | cons name rest ih =>
      have first : (t.dropColumn name).columns = t.columns.filter fun c => c.name != name := rfl
      rw [List.foldl_cons, ih, first, List.filter_filter]
      refine List.filter_congr fun c _ => ?_
      by_cases here : c.name = name <;> simp [here]
  exact dropped

theorem dropIndexes_columns (t : Table) (names : List String) :
    (t.dropIndexes names).columns = t.columns := by
  have dropped : (names.foldl dropIndex t).columns = t.columns := by
    refine List.foldlRecOn (motive := fun (after : Table) => after.columns = t.columns) names _ rfl
      ?_
    intro after kept name _
    exact kept
  exact dropped

theorem renameIndex_columns (t : Table) (source target : String) :
    (t.renameIndex source target).columns = t.columns := by
  simp only [renameIndex]
  split <;> rfl

theorem dropPrimary_places (t : Table) : t.dropPrimary.places = t.places := by
  unfold dropPrimary
  cases t.primary with
  | none => rfl
  | some key => exact t.flagColumns_places key.columns false

/-- What a catalog says of indexes and keys leaves the columns where they are listed. -/
theorem ofCatalog_places {name : String} {schema : Option String} {columns : List Column}
    {indexes : List Index} (found : ofCatalog name schema columns indexes = .ok t) :
    t.places = (columns.foldl pushColumn { name, schema }).places := by
  refine ofCatalog_keeps_listed
    (P := fun t => t.places = (columns.foldl pushColumn { name, schema }).places) rfl ?_ ?_ ?_ found
  · intro t index kept
    exact (t.putIndex_places index).trans kept
  · intro t primary kept
    exact kept
  · intro t names kept
    exact (t.flagColumns_places names true).trans kept

end Table

end Sqlwright
