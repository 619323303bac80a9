import Sqlwright.Proofs.CreationParts
import Sqlwright.Proofs.DistinctNames
import Sqlwright.Proofs.LogOwnership
import Sqlwright.Proofs.Redefinition

/-!
Log and blueprint of a table that is to be created. The log adds a column when it is defined first,
and never again; the blueprint has what it was defined as last. Indexes are recorded every time they
are created, while the blueprint has the last one of each name. The key is the last one in both.
-/

namespace Sqlwright

/-! ### What calls define -/

/-- The index that a modifier adds to the table, given the names of the table and the column. -/
def Modifier.index? (table column : String) : Modifier → Option Index
  | .unique => some { name := column, tableName := table, kind := .unique, columns := [column] }
  | .index => some { name := column, tableName := table, kind := .plain, columns := [column] }
  | _ => none

/-- The change that a modifier records. -/
def Modifier.change? (table column : String) : Modifier → Option Change
  | .primary => some (.createPrimary { tableName := table, columns := [column] })
  | modifier => (modifier.index? table column).map .createIndex

/-- What is written of a column that is defined for a table, with all its modifiers. -/
def ColumnCall.finished (table : String) (call : ColumnCall) : Column :=
  (Modifier.editAll call.modifiers { call.column with tableName := table }).written

/-- The indexes that a call creates, in order. -/
def TableCall.creations (table : String) : TableCall → List Index
  | .column call => call.modifiers.filterMap (Modifier.index? table call.column.name)
  | .createIndex kind name columns => [{ name, tableName := table, kind, columns }]
  | _ => []

/-- Calls that build a table to be created: columns, indexes, a key, and watchers of them. -/
def TableCall.IsCreating : TableCall → Prop
  | .column call => call.redefine = false
  | .createIndex kind _ _ => kind ≠ .primary
  | .timestamps | .createPrimary _ | .watch _ => True
  | _ => False

/-! ### The log -/

namespace Change

def added? : Change → Option Column
  | .addColumn column => some column
  | _ => none

def created? : Change → Option Index
  | .createIndex index => some index
  | _ => none

def key? : Change → Option PrimaryKey
  | .createPrimary key => some key
  | _ => none

end Change

section Lists

variable {α : Type}

theorem eq_set_of_getElem? {entries after : List α} {place : Nat} {entry : α}
    (inside : place < entries.length)
    (each : ∀ i : Nat, after[i]? = if i = place then some entry else entries[i]?) :
    after = entries.set place entry := by
  refine List.ext_getElem? fun i => ?_
  rw [each, List.getElem?_set]
  by_cases here : i = place
  · rw [if_pos here, if_pos here.symm, if_pos inside]
  · rw [if_neg here, if_neg fun same => here same.symm]

theorem eq_concat_of_getElem? {entries after : List α} {entry : α}
    (each : ∀ i : Nat, after[i]? = if i = entries.length then some entry else entries[i]?) :
    after = entries ++ [entry] :=
  List.ext_getElem? fun i => (each i).trans (getElem?_concat entries entry i).symm

theorem toList_append_filterMap {β : Type} (f : α → Option β) (entry : α) (rest : List α) :
    (f entry).toList ++ rest.filterMap f = (entry :: rest).filterMap f := by
  rw [List.filterMap_cons]
  cases f entry <;> rfl

theorem modify_middle (past : List α) (a : α) (more : List α) (f : α → α) :
    (past ++ a :: more).modify past.length f = past ++ f a :: more := by
  induction past with
  | nil => rfl
  | cons first rest ih => simpa using ih

end Lists

namespace Table

def changes (t : Table) : List Change := t.commands.map Command.change

variable {t : Table}

theorem addedColumns_eq (t : Table) : t.addedColumns = t.changes.filterMap Change.added? := by
  rw [changes, List.filterMap_map]
  rfl

theorem createdIndexes_eq (t : Table) : t.createdIndexes = t.changes.filterMap Change.created? := by
  rw [changes, List.filterMap_map]
  rfl

theorem createdPrimary?_eq (t : Table) :
    t.createdPrimary? = (t.changes.filterMap Change.key?).getLast? := by
  rw [changes, List.filterMap_map]
  rfl

theorem createIndex_changes (t : Table) (kind : IndexKind) (name : String)
    (columns : List String) :
    (t.createIndex kind name columns).changes =
      t.changes ++ [.createIndex { name, tableName := t.name, kind, columns }] := by
  obtain ⟨_, _, created⟩ := t.createIndex_eq kind name columns
  rw [created, changes, changes]
  exact List.map_append

theorem createPrimary_changes (t : Table) (columns : List String) :
    (t.createPrimary columns).changes =
      t.changes ++ [.createPrimary { tableName := t.name, columns }] := by
  obtain ⟨_, flagged⟩ := t.flagColumns_eq columns true
  rw [createPrimary, flagged, changes, changes]
  exact List.map_append

theorem watch_changes (t : Table) (label : String) : (t.watch label).changes = t.changes := by
  refine List.ext_getElem? fun i => ?_
  rw [changes, changes, watch, List.getElem?_map, List.getElem?_map, List.getElem?_modify]
  cases t.commands[i]? with
  | none => rfl
  | some command => by_cases here : t.commands.length - 1 = i <;> simp [here]

theorem extend_changes (t : Table) (name : String) (modifier : Modifier) :
    (modifier.extend name t).changes =
      t.changes ++ (modifier.change? t.name name).toList := by
  cases modifier with
  | primary => exact t.createPrimary_changes [name]
  | unique => exact t.createIndex_changes .unique name [name]
  | index => exact t.createIndex_changes .plain name [name]
  | _ => exact (List.append_nil _).symm

theorem adjust_changes (t : Table) (handle : ColumnHandle) (edit : Column → Column) :
    (t.adjust handle edit).changes = t.changes.modify handle.command (Change.adjust edit) := by
  refine List.ext_getElem? fun i => ?_
  have log : (t.adjust handle edit).changes = (t.commands.modify handle.command fun c =>
      { c with change := c.change.adjust edit }).map Command.change := rfl
  rw [log, changes, List.getElem?_map, List.getElem?_modify, List.getElem?_modify,
    List.getElem?_map]
  cases t.commands[i]? with
  | none => rfl
  | some command => by_cases here : handle.command = i <;> simp [here]

/-- Modifiers change the definition that they follow, and record what they add. -/
theorem modifyAll_changes {past : List Change} {change : Change} {more : List Change}
    {handle : ColumnHandle} (log : t.changes = past ++ change :: more)
    (place : handle.command = past.length) (modifiers : List Modifier) :
    (modifiers.foldl (fun t modifier => t.modify handle modifier) t).changes =
      past ++ change.adjust (Modifier.editAll modifiers) ::
        (more ++ modifiers.filterMap (Modifier.change? t.name handle.column)) := by
  induction modifiers generalizing t change more with
  | nil =>
    have same : change.adjust (Modifier.editAll []) = change := change.adjust_id
    rw [same, List.filterMap_nil, List.append_nil]
    exact log
  | cons modifier rest ih =>
    have extended := t.extend_changes handle.column modifier
    have step : (t.modify handle modifier).changes = past ++ change.adjust modifier.edit ::
        (more ++ (modifier.change? t.name handle.column).toList) := by
      rw [modify, adjust_changes, extended, log, place, List.append_assoc, List.cons_append,
        modify_middle]
    have name : (t.modify handle modifier).name = t.name :=
      (Extended.extend t handle.column modifier).name
    rw [List.foldl_cons, ih step, Change.adjust_adjust, name, List.append_assoc,
      toList_append_filterMap]
    rfl

/-- The change that the definition of a column is recorded as, with the modifiers behind it: a
column that is new is added, and one that is there is modified. -/
def defining (t : Table) (call : ColumnCall) : Change :=
  let column := Modifier.editAll call.modifiers (t.placed call.column)
  if t.hasColumns [call.column.name] then .modifyColumn column else .addColumn column

/-- A definition adds the column and applies the modifiers to it. -/
theorem column_run {call : ColumnCall} (plain : call.redefine = false) (t : Table) :
    call.run t = call.modifiers.foldl
      (fun after modifier => after.modify ⟨call.column.name, t.commands.length⟩ modifier)
      ((t.putColumn call.column).record
        (if t.hasColumns [call.column.name] then .modifyColumn (t.placed call.column)
          else .addColumn (t.placed call.column))) := by
  rw [ColumnCall.run, ColumnCall.define, plain]
  rfl

theorem column_changes {call : ColumnCall} (plain : call.redefine = false) (t : Table) :
    (call.run t).changes = t.changes ++ t.defining call ::
      call.modifiers.filterMap (Modifier.change? t.name call.column.name) := by
  have log (change : Change) :
      ((t.putColumn call.column).record change).changes = t.changes ++ change :: [] := by
    rw [changes, putColumn_record_commands, List.map_append]
    rfl
  have place : t.commands.length = t.changes.length := (List.length_map _).symm
  rw [column_run plain, modifyAll_changes (log _) place, record,
    (Extended.putColumn t call.column).name,
    apply_ite (Change.adjust (Modifier.editAll call.modifiers))]
  rfl

/-- Just a column that is new is added, as it is with all its modifiers. -/
theorem column_addedColumns (indexed : t.Indexed) {call : ColumnCall}
    (plain : call.redefine = false) :
    (call.run t).addedColumns =
      if call.column.name ∈ t.columnNames then t.addedColumns
      else t.addedColumns ++ [Modifier.editAll call.modifiers (t.placed call.column)] := by
  have other : (call.modifiers.filterMap (Modifier.change? t.name call.column.name)).filterMap
      Change.added? = [] := by
    rw [List.filterMap_filterMap, List.filterMap_eq_nil_iff]
    intro modifier _
    cases modifier <;> rfl
  rw [addedColumns_eq, column_changes plain, List.filterMap_append, List.filterMap_cons, other,
    ← addedColumns_eq, defining]
  by_cases known : call.column.name ∈ t.columnNames
  · have there := (indexed.hasColumns_singleton call.column.name).mpr known
    rw [if_pos known, if_pos there]
    exact List.append_nil _
  · have absent : ¬ t.hasColumns [call.column.name] := fun there =>
      known ((indexed.hasColumns_singleton call.column.name).mp there)
    rw [if_neg known, if_neg absent]
    rfl

theorem column_createdIndexes {call : ColumnCall} (plain : call.redefine = false) (t : Table) :
    (call.run t).createdIndexes =
      t.createdIndexes ++ (TableCall.column call).creations t.name := by
  have created : (call.modifiers.filterMap (Modifier.change? t.name call.column.name)).filterMap
      Change.created? = (TableCall.column call).creations t.name := by
    rw [List.filterMap_filterMap, TableCall.creations]
    refine List.filterMap_congr fun modifier _ => ?_
    cases modifier <;> rfl
  have other : (t.defining call).created? = none := by
    unfold defining
    dsimp only
    split <;> rfl
  rw [createdIndexes_eq, column_changes plain, List.filterMap_append,
    List.filterMap_cons_none other, created, ← createdIndexes_eq]

theorem column_createdPrimary? {call : ColumnCall} (plain : call.redefine = false) (t : Table) :
    (call.run t).createdPrimary? =
      ((call.modifiers.filterMap (Modifier.change? t.name call.column.name)).filterMap
        Change.key?).getLast?.or t.createdPrimary? := by
  have other : (t.defining call).key? = none := by
    unfold defining
    dsimp only
    split <;> rfl
  rw [createdPrimary?_eq, column_changes plain, List.filterMap_append,
    List.filterMap_cons_none other, createdPrimary?_eq]
  exact List.getLast?_append

/-! ### The blueprint -/

theorem extend_primary (t : Table) (name : String) (modifier : Modifier) :
    (modifier.extend name t).primary =
      ((modifier.change? t.name name).bind Change.key?).or t.primary := by
  have created (kind : IndexKind) : (t.createIndex kind name [name]).primary = t.primary := by
    obtain ⟨_, _, created⟩ := t.createIndex_eq kind name [name]
    rw [created]
    rfl
  cases modifier with
  | unique => exact created .unique
  | index => exact created .plain
  | _ => rfl

/-- The key that modifiers leave is the last one that they make. -/
theorem modifyAll_primary (t : Table) (handle : ColumnHandle) (modifiers : List Modifier) :
    (modifiers.foldl (fun t modifier => t.modify handle modifier) t).primary =
      ((modifiers.filterMap (Modifier.change? t.name handle.column)).filterMap
        Change.key?).getLast?.or t.primary := by
  induction modifiers generalizing t with
  | nil => rfl
  | cons modifier rest ih =>
    have name : (t.modify handle modifier).name = t.name :=
      (Extended.extend t handle.column modifier).name
    have first : (t.modify handle modifier).primary =
        ((modifier.change? t.name handle.column).bind Change.key?).or t.primary :=
      t.extend_primary handle.column modifier
    rw [List.foldl_cons, ih, name, first, List.filterMap_filterMap, List.filterMap_filterMap,
      List.filterMap_cons]
    cases (modifier.change? t.name handle.column).bind Change.key? with
    | none => rfl
    | some key =>
      rw [List.getLast?_cons]
      cases (rest.filterMap fun modifier =>
        (modifier.change? t.name handle.column).bind Change.key?).getLast? <;> rfl

theorem column_primary {call : ColumnCall} (plain : call.redefine = false) (t : Table) :
    (call.run t).primary =
      ((call.modifiers.filterMap (Modifier.change? t.name call.column.name)).filterMap
        Change.key?).getLast?.or t.primary := by
  have put : (t.putColumn call.column).primary = t.primary := by
    obtain ⟨_, _, put⟩ := t.putColumn_eq call.column
    rw [put]
  rw [column_run plain, modifyAll_primary, record, (Extended.putColumn t call.column).name, put]

/-- What is written of the columns. -/
def written (t : Table) : List Column := t.columns.map Column.written

theorem flagColumns_written (t : Table) (names : List String) (primary : Bool) :
    (t.flagColumns names primary).written = t.written := by
  have flag (c : Column) : { c with primary }.written = c.written := rfl
  exact flagColumns_view flag t names

theorem edit_written (modifier : Modifier) (c : Column) :
    (modifier.edit c).written = (modifier.edit c.written).written := by
  cases modifier <;> rfl

theorem editAll_written (modifiers : List Modifier) (c : Column) :
    (Modifier.editAll modifiers c).written = (Modifier.editAll modifiers c.written).written := by
  induction modifiers generalizing c with
  | nil => rfl
  | cons modifier rest ih =>
    have first : (Modifier.editAll rest (modifier.edit c)).written =
        (Modifier.editAll rest (modifier.edit c.written)).written := by
      rw [ih, edit_written, ← ih]
    exact first

/-- What a modifier adds to the table changes nothing that is written of columns. -/
theorem extend_written (t : Table) (name : String) (modifier : Modifier) :
    (modifier.extend name t).written = t.written ∧
      (modifier.extend name t).columnLookup = t.columnLookup := by
  have created (kind : IndexKind) : (t.createIndex kind name [name]).written = t.written ∧
      (t.createIndex kind name [name]).columnLookup = t.columnLookup := by
    obtain ⟨_, _, created⟩ := t.createIndex_eq kind name [name]
    rw [created]
    exact ⟨rfl, rfl⟩
  cases modifier with
  | primary => exact ⟨t.flagColumns_written [name] true, rfl⟩
  | unique => exact created .unique
  | index => exact created .plain
  | _ => exact ⟨rfl, rfl⟩

theorem modify_written (t : Table) (handle : ColumnHandle) (modifier : Modifier) :
    (t.modify handle modifier).written =
        Named.update t.columnLookup handle.column (fun c => (modifier.edit c).written) t.written ∧
      (t.modify handle modifier).columnLookup = t.columnLookup := by
  obtain ⟨columns, lookup⟩ := t.extend_written handle.column modifier
  refine ⟨?_, lookup⟩
  rw [← columns, ← lookup]
  exact Named.map_update_eq _ handle.column _ (edit_written modifier)

theorem modifyAll_written (t : Table) (handle : ColumnHandle) (modifiers : List Modifier) :
    (modifiers.foldl (fun t modifier => t.modify handle modifier) t).written =
      Named.update t.columnLookup handle.column
        (fun c => (Modifier.editAll modifiers c).written) t.written := by
  induction modifiers generalizing t with
  | nil =>
    have same (c : Column) : (Modifier.editAll [] c).written = c.written := rfl
    rw [List.foldl_nil, written, ← Named.map_update_eq _ _ _ same]
    exact (Named.map_update t.columnLookup handle.column t.columns fun _ => rfl).symm
  | cons modifier rest ih =>
    obtain ⟨first, lookup⟩ := t.modify_written handle modifier
    rw [List.foldl_cons, ih, first, lookup, Named.update_update]
    congr 1
    funext c
    rw [← editAll_written]
    rfl

/-- Whatever place it gets, a column is written as its definition says. -/
theorem finished_placed (t : Table) (call : ColumnCall) :
    (Modifier.editAll call.modifiers (t.placed call.column)).written = call.finished t.name := by
  have placed : (t.placed call.column).written =
      { call.column with tableName := t.name }.written := by
    unfold Table.placed
    cases t.column? call.column.name <;> rfl
  rw [editAll_written, placed, ← editAll_written]
  rfl

theorem finished_name (table : String) (call : ColumnCall) :
    (call.finished table).name = call.column.name := by
  have kept : (Modifier.editAll call.modifiers { call.column with tableName := table }).name =
      call.column.name := by
    refine List.foldlRecOn (motive := fun (c : Column) => c.name = call.column.name) call.modifiers
      _ rfl ?_
    intro c named modifier _
    exact (Indexed.edit_name modifier c).trans named
  exact kept

theorem written_names (t : Table) : t.written.map Column.name = t.columnNames := by
  rw [written, List.map_map]
  rfl

theorem column_written_getElem? (indexed : t.Indexed) {call : ColumnCall}
    (plain : call.redefine = false) (i : Nat) :
    (call.run t).written[i]? =
      if i = t.placeOf call.column.name then some (call.finished t.name) else t.written[i]? := by
  have put (change : Change) : ((t.putColumn call.column).record change).written =
      (t.putColumn call.column).columns.map Column.written := rfl
  have lookup (change : Change) : ((t.putColumn call.column).record change).columnLookup =
      (t.putColumn call.column).columnLookup := rfl
  rw [column_run plain, modifyAll_written, Named.getElem?_update, lookup, put, putColumn_find?,
    if_pos rfl, List.getElem?_map, putColumn_getElem? indexed, written, List.getElem?_map]
  by_cases here : i = t.placeOf call.column.name
  · subst here
    simp only [if_true, Option.map_some, ← editAll_written, finished_placed]
  · have other : some (t.placeOf call.column.name) ≠ some i := fun same =>
      here (Option.some.inj same).symm
    cases t.columns[i]? <;> simp [here, other]

/-- What is defined of a column is written in its place, or behind all others if it is new. -/
theorem column_written (indexed : t.Indexed) {call : ColumnCall} (plain : call.redefine = false) :
    (call.run t).written =
      if call.column.name ∈ t.columnNames then
        t.written.set (t.placeOf call.column.name) (call.finished t.name)
      else t.written ++ [call.finished t.name] := by
  have each := column_written_getElem? indexed plain
  have length : t.written.length = t.columns.length := List.length_map _
  unfold placeOf at each ⊢
  cases found : Keyed.find? call.column.name t.columnLookup with
  | some i =>
    rw [found] at each
    obtain ⟨column, held, named⟩ := indexed.columns.points found
    have known : call.column.name ∈ t.columnNames :=
      List.mem_map.mpr ⟨column, List.mem_of_getElem? held, named⟩
    rw [if_pos known]
    exact eq_set_of_getElem? (length ▸ (List.getElem?_eq_some_iff.mp held).1) each
  | none =>
    rw [found, Option.getD_none, ← length] at each
    rw [if_neg ((indexed.find?_eq_none_iff _).mp found)]
    exact eq_concat_of_getElem? each

theorem putIndex_lasts (indexed : t.Indexed) {created : List Index}
    (lasts : Named.Lasts Index.name created t.indexes) (index : Index) :
    Named.Lasts Index.name (created ++ [index]) (t.putIndex index).indexes := by
  unfold putIndex
  cases found : Keyed.find? index.name t.indexLookup with
  | some i =>
    obtain ⟨old, held, named⟩ := indexed.indexes.points found
    refine lasts.concat_known ?_
    rw [List.getElem?_map, held, Option.map_some, named]
  | none =>
    exact lasts.concat_new ((indexed.indexes.unled_iff index.name).mp found)

theorem modifyAll_lasts (indexed : t.Indexed) {created : List Index}
    (lasts : Named.Lasts Index.name created t.indexes) (handle : ColumnHandle)
    (modifiers : List Modifier) :
    Named.Lasts Index.name
      (created ++ modifiers.filterMap (Modifier.index? t.name handle.column))
      (modifiers.foldl (fun t modifier => t.modify handle modifier) t).indexes := by
  induction modifiers generalizing t created with
  | nil =>
    rw [List.filterMap_nil, List.append_nil]
    exact lasts
  | cons modifier rest ih =>
    have name : (t.modify handle modifier).name = t.name :=
      (Extended.extend t handle.column modifier).name
    have first : Named.Lasts Index.name
        (created ++ (modifier.index? t.name handle.column).toList)
        (t.modify handle modifier).indexes := by
      have extended : (t.modify handle modifier).indexes =
          (modifier.extend handle.column t).indexes := rfl
      rw [extended]
      cases modifier with
      | unique => exact putIndex_lasts indexed lasts _
      | index => exact putIndex_lasts indexed lasts _
      | primary =>
        rw [Modifier.extend, createPrimary_indexes]
        exact (List.append_nil created).symm ▸ lasts
      | _ => exact (List.append_nil created).symm ▸ lasts
    have all := ih (indexed.modify handle modifier) first
    rwa [name, List.append_assoc, toList_append_filterMap] at all

theorem column_lasts (indexed : t.Indexed) {call : ColumnCall} (plain : call.redefine = false)
    {created : List Index} (lasts : Named.Lasts Index.name created t.indexes) :
    Named.Lasts Index.name (created ++ (TableCall.column call).creations t.name)
      (call.run t).indexes := by
  have same : (t.putColumn call.column).name = t.name ∧
      (t.putColumn call.column).indexes = t.indexes := by
    obtain ⟨_, _, put⟩ := t.putColumn_eq call.column
    rw [put]
    exact ⟨rfl, rfl⟩
  rw [column_run plain]
  generalize (if t.hasColumns [call.column.name] then Change.modifyColumn (t.placed call.column)
    else .addColumn (t.placed call.column)) = change
  have put := (indexed.putColumn call.column).record change
  have before : Named.Lasts Index.name created
      ((t.putColumn call.column).record change).indexes := same.2 ▸ lasts
  have all := modifyAll_lasts put before ⟨call.column.name, t.commands.length⟩ call.modifiers
  have name : ((t.putColumn call.column).record change).name = t.name := same.1
  rw [name] at all
  exact all

end Table

/-! ### Building a table to be created -/

/-- How log and blueprint fit what was defined, in order: columns as they are written, indexes as
they are created. -/
structure Table.Drafted (columns : List Column) (indexes : List Index) (t : Table) : Prop where
  indexed : t.Indexed
  /-- The log adds the columns of the blueprint. -/
  names : t.addedColumns.map Column.name = t.columnNames
  /-- The log adds them as they were defined first. -/
  firsts : Named.Firsts Column.name columns (t.addedColumns.map Column.written)
  /-- The blueprint has them as they were defined last. -/
  lasts : Named.Lasts Column.name columns t.written
  created : t.createdIndexes = indexes
  indexLasts : Named.Lasts Index.name indexes t.indexes
  key : t.createdPrimary? = t.primary

namespace Table.Drafted

variable {columns : List Column} {indexes : List Index} {t : Table}

theorem empty (name : String) : Drafted [] [] { name } where
  indexed := ⟨fun _ => rfl, fun _ => rfl⟩
  names := rfl
  firsts := ⟨List.nodup_nil, List.forall_mem_nil _, List.forall_mem_nil _⟩
  lasts := ⟨List.nodup_nil, List.forall_mem_nil _, List.forall_mem_nil _⟩
  created := rfl
  indexLasts := ⟨List.nodup_nil, List.forall_mem_nil _, List.forall_mem_nil _⟩
  key := rfl

theorem column (drafted : Drafted columns indexes t) {call : ColumnCall}
    (plain : call.redefine = false) :
    Drafted (columns ++ [call.finished t.name])
      (indexes ++ (TableCall.column call).creations t.name) (call.run t) := by
  have name := finished_name t.name call
  have added : (call.run t).addedColumns.map Column.written =
      if call.column.name ∈ t.columnNames then t.addedColumns.map Column.written
      else t.addedColumns.map Column.written ++ [call.finished t.name] := by
    rw [column_addedColumns drafted.indexed plain]
    split
    · rfl
    · rw [List.map_append, List.map_singleton, finished_placed]
  have addedNames : (t.addedColumns.map Column.written).map Column.name = t.columnNames := by
    rw [← drafted.names, List.map_map]
    rfl
  constructor
  case indexed => exact drafted.indexed.column call
  case names =>
    have same : (call.run t).addedColumns.map Column.name =
        ((call.run t).addedColumns.map Column.written).map Column.name := by
      rw [List.map_map]
      rfl
    rw [same, added, column_columnNames drafted.indexed]
    split
    · exact addedNames
    · rw [List.map_append, List.map_singleton, addedNames, name]
  case firsts =>
    rw [added]
    split
    · next known => exact drafted.firsts.concat_known (addedNames ▸ name ▸ known)
    · next fresh => exact drafted.firsts.concat_new (addedNames ▸ name ▸ fresh)
  case lasts =>
    rw [column_written drafted.indexed plain]
    split
    · next known =>
      refine drafted.lasts.concat_known ?_
      rw [written_names, name]
      exact columnNames_placeOf drafted.indexed known
    · next fresh =>
      refine drafted.lasts.concat_new ?_
      rwa [written_names, name]
  case created => rw [column_createdIndexes plain, drafted.created]
  case indexLasts => exact column_lasts drafted.indexed plain drafted.indexLasts
  case key => rw [column_createdPrimary? plain, column_primary plain, drafted.key]

/-- Calls that define no column record behind the log. -/
theorem recorded (drafted : Drafted columns indexes t) {after : Table} {more : List Change}
    (indexed : after.Indexed) (written : after.written = t.written)
    (log : after.changes = t.changes ++ more) (adds : more.filterMap Change.added? = [])
    (indexLasts :
      Named.Lasts Index.name (indexes ++ more.filterMap Change.created?) after.indexes)
    (key : after.primary = (more.filterMap Change.key?).getLast?.or t.primary) :
    Drafted columns (indexes ++ more.filterMap Change.created?) after := by
  have added : after.addedColumns = t.addedColumns := by
    rw [addedColumns_eq, log, List.filterMap_append, adds, List.append_nil, ← addedColumns_eq]
  constructor
  case indexed => exact indexed
  case names => rw [added, drafted.names, ← written_names, ← written_names, written]
  case firsts => exact added ▸ drafted.firsts
  case lasts => exact written ▸ drafted.lasts
  case created =>
    rw [createdIndexes_eq, log, List.filterMap_append, ← createdIndexes_eq, drafted.created]
  case indexLasts => exact indexLasts
  case key =>
    rw [createdPrimary?_eq, log, List.filterMap_append, List.getLast?_append, ← createdPrimary?_eq,
      drafted.key, key]

theorem createIndex (drafted : Drafted columns indexes t) (kind : IndexKind) (name : String)
    (names : List String) :
    Drafted columns (indexes ++ [{ name, tableName := t.name, kind, columns := names }])
      (t.createIndex kind name names) := by
  have lasts := putIndex_lasts drafted.indexed drafted.indexLasts
    { name, tableName := t.name, kind, columns := names }
  refine drafted.recorded (drafted.indexed.createIndex kind name names) ?_
    (t.createIndex_changes kind name names) rfl lasts ?_
  all_goals
    obtain ⟨_, _, created⟩ := t.createIndex_eq kind name names
    rw [created]
    rfl

theorem createPrimary (drafted : Drafted columns indexes t) (names : List String) :
    Drafted columns indexes (t.createPrimary names) := by
  have same : indexes ++ [Change.createPrimary { tableName := t.name, columns := names }].filterMap
      Change.created? = indexes := List.append_nil indexes
  have all := drafted.recorded (drafted.indexed.createPrimary names)
    (flagColumns_written t names true) (t.createPrimary_changes names) rfl
    (by rw [same, createPrimary_indexes]; exact drafted.indexLasts) rfl
  rwa [same] at all

theorem watch (drafted : Drafted columns indexes t) (label : String) :
    Drafted columns indexes (t.watch label) := by
  have log : (t.watch label).changes = t.changes ++ [] :=
    (t.watch_changes label).trans (List.append_nil _).symm
  have same : indexes ++ ([] : List Change).filterMap Change.created? = indexes :=
    List.append_nil indexes
  have indexed : (t.watch label).Indexed := ⟨drafted.indexed.columns, drafted.indexed.indexes⟩
  have all := drafted.recorded indexed rfl log rfl (same.symm ▸ drafted.indexLasts) rfl
  rwa [same] at all

theorem columnCalls {calls : List ColumnCall} (plain : ∀ call ∈ calls, call.redefine = false)
    (drafted : Drafted columns indexes t) :
    Drafted (columns ++ calls.map (ColumnCall.finished t.name))
      (indexes ++ calls.flatMap fun call => (TableCall.column call).creations t.name)
      (calls.foldl (fun t call => call.run t) t) := by
  induction calls generalizing columns indexes t with
  | nil =>
    rw [List.map_nil, List.flatMap_nil, List.append_nil, List.append_nil]
    exact drafted
  | cons call rest ih =>
    obtain ⟨here, plain⟩ := List.forall_mem_cons.mp plain
    have all := ih plain (drafted.column here)
    have name : (call.run t).name = t.name := runAll_name [.column call] t
    rw [name, List.append_assoc, List.append_assoc] at all
    exact all

/-- Every creating call keeps log and blueprint to what was defined. -/
theorem run (drafted : Drafted columns indexes t) {call : TableCall}
    (creating : call.IsCreating) :
    Drafted (columns ++ call.definitions.map (ColumnCall.finished t.name))
      (indexes ++ call.creations t.name) (call.run t) := by
  have undefining {after : Table} (drafted : Drafted columns indexes after) :
      Drafted (columns ++ []) (indexes ++ []) after := by
    rwa [List.append_nil, List.append_nil]
  cases call with
  | column call => exact drafted.column creating
  | timestamps =>
    have plain : ∀ call ∈ ColumnCall.timestamps, call.redefine = false := by
      simp [ColumnCall.timestamps, ColumnCall.typed, ColumnCall.withModifiers]
    exact drafted.columnCalls plain
  | createIndex kind name names =>
    have all := drafted.createIndex kind name names
    rwa [← List.append_nil columns] at all
  | createPrimary names => exact undefining (drafted.createPrimary names)
  | watch label => exact undefining (drafted.watch label)
  | _ => cases creating

theorem runAll {calls : List TableCall} (creating : ∀ call ∈ calls, call.IsCreating)
    (drafted : Drafted columns indexes t) :
    Drafted (columns ++ (calls.flatMap TableCall.definitions).map (ColumnCall.finished t.name))
      (indexes ++ calls.flatMap (TableCall.creations t.name)) (TableCall.runAll calls t) := by
  induction calls generalizing columns indexes t with
  | nil =>
    rw [List.flatMap_nil, List.map_nil, List.flatMap_nil, List.append_nil, List.append_nil]
    exact drafted
  | cons call rest ih =>
    obtain ⟨here, creating⟩ := List.forall_mem_cons.mp creating
    have all := ih creating (drafted.run here)
    have name : (call.run t).name = t.name := runAll_name [call] t
    rw [name, List.append_assoc, List.append_assoc, ← List.map_append] at all
    exact all

end Table.Drafted

end Sqlwright
