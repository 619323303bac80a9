import Sqlwright.Proofs.LogGrowth

/-!
Lookups of blueprints that can be built. Columns and indexes are found through positions that are
stored beside them; every operation either leaves all names in place, inserts the one it appends,
or makes the lookups anew, so they are up to date in every blueprint that calls lead to. The number
in the handle of a column leads to the command that defines the column, whatever modifiers record
behind it.
-/

namespace Sqlwright

namespace Table

/-- Both lookups of a blueprint are up to date. -/
structure Indexed (t : Table) : Prop where
  columns : Named.Current Column.name t.columnLookup t.columns
  indexes : Named.Current Index.name t.indexLookup t.indexes

/-- The blueprints that calls lead to, from an empty one or from the listings of a catalog. The log
may be taken away at any time. -/
inductive Reachable : Table → Prop where
  | fresh (name : String) : Reachable { name }
  | listed {name : String} {schema : Option String} {columns : List Column} {indexes : List Index}
      {t : Table} (found : ofCatalog name schema columns indexes = .ok t) : Reachable t
  | called {t : Table} (reachable : Reachable t) (call : TableCall) : Reachable (call.run t)
  | drained {t : Table} (reachable : Reachable t) : Reachable t.withoutCommands

/-! ### Operations -/

theorem reindex_indexed (t : Table) : t.reindex.Indexed :=
  ⟨Named.current_positions t.columns, Named.current_positions t.indexes⟩

namespace Indexed

variable {t : Table}

theorem record (indexed : t.Indexed) (change : Change) : (t.record change).Indexed :=
  ⟨indexed.columns, indexed.indexes⟩

theorem editColumn (indexed : t.Indexed) (name : String) {edit : Column → Column}
    (named : ∀ c, (edit c).name = c.name) : (t.editColumn name edit).Indexed :=
  ⟨indexed.columns.update named name, indexed.indexes⟩

theorem flagColumns (indexed : t.Indexed) (names : List String) (primary : Bool) :
    (t.flagColumns names primary).Indexed := by
  unfold Table.flagColumns
  refine List.foldlRecOn names _ indexed fun t indexed name _ => ?_
  exact indexed.editColumn name fun _ => rfl

theorem pushColumn (indexed : t.Indexed) (column : Column) : (t.pushColumn column).Indexed :=
  ⟨indexed.columns.concat (t.appended column), indexed.indexes⟩

theorem placed_name (t : Table) (column : Column) : (t.placed column).name = column.name := by
  unfold placed
  cases t.column? column.name <;> rfl

theorem putColumn (indexed : t.Indexed) (column : Column) : (t.putColumn column).Indexed := by
  unfold Table.putColumn
  cases found : Keyed.find? column.name t.columnLookup with
  | some i =>
    rw [← placed_name t column] at found
    exact ⟨indexed.columns.set found, indexed.indexes⟩
  | none => exact indexed.pushColumn column

theorem putIndex (indexed : t.Indexed) (index : Index) : (t.putIndex index).Indexed := by
  unfold Table.putIndex
  cases found : Keyed.find? index.name t.indexLookup with
  | some i => exact ⟨indexed.columns, indexed.indexes.set found⟩
  | none => exact ⟨indexed.columns, indexed.indexes.concat index⟩

theorem addColumn (indexed : t.Indexed) (column : Column) : (t.addColumn column).1.Indexed :=
  (indexed.putColumn column).record _

theorem changeColumn (indexed : t.Indexed) (column : Column) :
    (t.changeColumn column).1.Indexed :=
  (indexed.putColumn column).record _

theorem adjust (indexed : t.Indexed) (handle : ColumnHandle) {edit : Column → Column}
    (named : ∀ c, (edit c).name = c.name) : (t.adjust handle edit).Indexed :=
  have edited := indexed.editColumn handle.column named
  ⟨edited.columns, edited.indexes⟩

theorem renameColumn (indexed : t.Indexed) (source target : String) :
    (t.renameColumn source target).Indexed := by
  simp only [Table.renameColumn]
  split
  · exact reindex_indexed _
  · exact indexed.record _

theorem renameIndex (indexed : t.Indexed) (source target : String) :
    (t.renameIndex source target).Indexed := by
  simp only [Table.renameIndex]
  split
  · exact reindex_indexed _
  · exact indexed.record _

theorem createIndex (indexed : t.Indexed) (kind : IndexKind) (name : String)
    (columns : List String) : (t.createIndex kind name columns).Indexed :=
  (indexed.putIndex _).record _

theorem createPrimary (indexed : t.Indexed) (columns : List String) :
    (t.createPrimary columns).Indexed :=
  have flagged := indexed.flagColumns columns true
  ⟨flagged.columns, flagged.indexes⟩

theorem dropPrimary (indexed : t.Indexed) : t.dropPrimary.Indexed := by
  unfold Table.dropPrimary
  cases t.primary with
  | none => exact indexed.record _
  | some key =>
    have flagged := indexed.flagColumns key.columns false
    exact ⟨flagged.columns, flagged.indexes⟩

/-! ### Calls -/

/-- No modifier changes the name of a column. -/
theorem edit_name (modifier : Modifier) (c : Column) : (modifier.edit c).name = c.name := by
  cases modifier <;> rfl

theorem extend (indexed : t.Indexed) (name : String) (modifier : Modifier) :
    (modifier.extend name t).Indexed := by
  cases modifier with
  | primary => exact indexed.createPrimary [name]
  | unique => exact indexed.createIndex .unique name [name]
  | index => exact indexed.createIndex .plain name [name]
  | _ => exact indexed

theorem modify (indexed : t.Indexed) (handle : ColumnHandle) (modifier : Modifier) :
    (t.modify handle modifier).Indexed :=
  (indexed.extend handle.column modifier).adjust handle (edit_name modifier)

theorem define (indexed : t.Indexed) (call : ColumnCall) : (call.define t).1.Indexed := by
  unfold ColumnCall.define
  split
  · exact indexed.changeColumn call.column
  · exact indexed.addColumn call.column

theorem column (indexed : t.Indexed) (call : ColumnCall) : (call.run t).Indexed :=
  List.foldlRecOn call.modifiers _ (indexed.define call) fun _ indexed modifier _ =>
    indexed.modify _ modifier

/-- Every call leaves an up to date blueprint up to date. -/
theorem run (indexed : t.Indexed) (call : TableCall) : (call.run t).Indexed := by
  cases call with
  | column call => exact indexed.column call
  | timestamps => exact List.foldlRecOn _ _ indexed fun _ indexed call _ => indexed.column call
  | renameColumn source target => exact indexed.renameColumn source target
  | dropColumns names => exact reindex_indexed _
  | createIndex kind name columns => exact indexed.createIndex kind name columns
  | dropIndexes names => exact reindex_indexed _
  | renameIndex source target => exact indexed.renameIndex source target
  | createPrimary columns => exact indexed.createPrimary columns
  | dropPrimary => exact indexed.dropPrimary
  | watch label => exact ⟨indexed.columns, indexed.indexes⟩

end Indexed

/-- Whatever a catalog lists, also under one name, the blueprint of it is up to date. -/
theorem ofCatalog_indexed {name : String} {schema : Option String} {columns : List Column}
    {indexes : List Index} {t : Table} (found : ofCatalog name schema columns indexes = .ok t) :
    t.Indexed := by
  have fresh : Indexed { name, schema } := ⟨fun _ => rfl, fun _ => rfl⟩
  refine ofCatalog_keeps fresh ?_ ?_ ?_ ?_ found
  · intro t column indexed
    exact indexed.pushColumn column
  · intro t index indexed
    exact indexed.putIndex index
  · intro t primary indexed
    exact ⟨indexed.columns, indexed.indexes⟩
  · intro t names indexed
    exact indexed.flagColumns names true

theorem Reachable.runAll {t : Table} (reachable : t.Reachable) (calls : List TableCall) :
    (TableCall.runAll calls t).Reachable := by
  induction calls generalizing t with
  | nil => exact reachable
  | cons call rest ih => exact ih (reachable.called call)

/-- The lookups of every blueprint that can be built are up to date. -/
theorem Reachable.indexed {t : Table} (reachable : t.Reachable) : t.Indexed := by
  induction reachable with
  | fresh name => exact ⟨fun _ => rfl, fun _ => rfl⟩
  | listed found => exact ofCatalog_indexed found
  | called _ call ih => exact ih.run call
  | drained _ ih => exact ⟨ih.columns, ih.indexes⟩

end Table

/-! ### Handles -/

/-- A change that defines the column of a name. -/
def Change.Defines (name : String) (change : Change) : Prop :=
  ∃ column, column.name = name ∧ (change = .addColumn column ∨ change = .modifyColumn column)

/-- What modifiers change in the definition of a column, one after the other. -/
def Modifier.editAll (modifiers : List Modifier) (c : Column) : Column :=
  modifiers.foldl (fun c modifier => modifier.edit c) c

theorem Change.adjust_id (change : Change) : change.adjust (fun c => c) = change := by
  cases change <;> rfl

theorem Change.adjust_adjust (change : Change) (first second : Column → Column) :
    (change.adjust first).adjust second = change.adjust fun c => second (first c) := by
  cases change <;> rfl

namespace Table

theorem putColumn_record_commands (t : Table) (column : Column) (change : Change) :
    ((t.putColumn column).record change).commands = t.commands ++ [⟨change, none⟩] := by
  unfold putColumn
  cases Keyed.find? column.name t.columnLookup <;> rfl

variable {t : Table} {handle : ColumnHandle} {command : Command}

/-- A modifier changes the command of its handle, and no modifier moves it. -/
theorem modify_command (held : t.commands[handle.command]? = some command) (modifier : Modifier) :
    (t.modify handle modifier).commands[handle.command]? =
      some { command with change := command.change.adjust modifier.edit } := by
  obtain ⟨more, appended, -⟩ := (Extended.extend t handle.column modifier).commands
  have inside : handle.command < t.commands.length := (List.getElem?_eq_some_iff.mp held).1
  have kept : (modifier.extend handle.column t).commands[handle.command]? = some command := by
    rw [appended, List.getElem?_append_left inside, held]
  have adjusted : (t.modify handle modifier).commands =
      (modifier.extend handle.column t).commands.modify handle.command fun c =>
        { c with change := c.change.adjust modifier.edit } := rfl
  rw [adjusted, List.getElem?_modify_eq, kept]
  rfl

theorem modifyAll_command (held : t.commands[handle.command]? = some command)
    (modifiers : List Modifier) :
    (modifiers.foldl (fun t modifier => t.modify handle modifier) t).commands[handle.command]? =
      some { command with change := command.change.adjust (Modifier.editAll modifiers) } := by
  induction modifiers generalizing t command with
  | nil =>
    have same : command.change.adjust (Modifier.editAll []) = command.change :=
      command.change.adjust_id
    rw [same]
    exact held
  | cons modifier rest ih =>
    have later := ih (modify_command held modifier)
    rw [List.foldl_cons, later, Change.adjust_adjust]
    rfl

/-- A definition is recorded behind the log, and the handle has its number and its name. -/
theorem define_records (t : Table) (call : ColumnCall) :
    ∃ change : Change, change.Defines call.column.name ∧
      (call.define t).1.commands = t.commands ++ [⟨change, none⟩] ∧
      (call.define t).2 = ⟨call.column.name, t.commands.length⟩ := by
  have named := Indexed.placed_name t call.column
  unfold ColumnCall.define
  split
  · refine ⟨_, ⟨_, ?_, .inr rfl⟩, t.putColumn_record_commands call.column _, rfl⟩
    split
    · exact named
    · rfl
  · refine ⟨_, ⟨_, named, ?_⟩, t.putColumn_record_commands call.column _, rfl⟩
    split
    · exact .inr rfl
    · exact .inl rfl

end Table

/-! ### Blueprints that can be built -/

/-- What lookups of a blueprint say about its columns and indexes. -/
structure Table.FindsByName (t : Table) : Prop where
  /-- The column lookup leads to columns of the name it is asked for. -/
  columnAt : ∀ name i, Keyed.find? name t.columnLookup = some i →
    ∃ column, t.columns[i]? = some column ∧ column.name = name
  /-- The column lookup knows every column. -/
  columnKnown : ∀ column ∈ t.columns, (Keyed.find? column.name t.columnLookup).isSome
  indexAt : ∀ name i, Keyed.find? name t.indexLookup = some i →
    ∃ index, t.indexes[i]? = some index ∧ index.name = name
  indexKnown : ∀ index ∈ t.indexes, (Keyed.find? index.name t.indexLookup).isSome
  column_named : ∀ name column, t.column? name = some column →
    column ∈ t.columns ∧ column.name = name
  column_isSome : ∀ name, (t.column? name).isSome ↔ ∃ column ∈ t.columns, column.name = name
  index_named : ∀ name index, t.index? name = some index → index ∈ t.indexes ∧ index.name = name
  index_isSome : ∀ name, (t.index? name).isSome ↔ ∃ index ∈ t.indexes, index.name = name
  hasColumns_iff : ∀ names, t.hasColumns names ↔
    ∀ name ∈ names, ∃ column ∈ t.columns, column.name = name
  hasIndexes_iff : ∀ names, t.hasIndexes names ↔
    ∀ name ∈ names, ∃ index ∈ t.indexes, index.name = name

theorem Table.Indexed.findsByName {t : Table} (indexed : t.Indexed) : t.FindsByName where
  columnAt _ _ found := indexed.columns.points found
  columnKnown column member := (indexed.columns.contains_iff column.name).mpr ⟨column, member, rfl⟩
  indexAt _ _ found := indexed.indexes.points found
  indexKnown index member := (indexed.indexes.contains_iff index.name).mpr ⟨index, member, rfl⟩
  column_named _ _ found := indexed.columns.of_find? found
  column_isSome := indexed.columns.find?_isSome_iff
  index_named _ _ found := indexed.indexes.of_find? found
  index_isSome := indexed.indexes.find?_isSome_iff
  hasColumns_iff names := by simp [hasColumns, indexed.columns.contains_iff]
  hasIndexes_iff names := by simp [hasIndexes, indexed.indexes.contains_iff]

/-- In every blueprint that can be built the lookups lead to entries of the names they are asked
for, inside the lists, and miss none. A column that is defined in it is recorded behind the log,
and the number of its handle leads to that command after any modifiers, with just their changes. -/
theorem reachable_finds_by_name {t : Table} (reachable : t.Reachable) :
    t.FindsByName ∧
      ∀ (call : ColumnCall) (modifiers : List Modifier),
        let defined := (call.define t).1
        let handle := (call.define t).2
        let later := modifiers.foldl (fun t modifier => t.modify handle modifier) defined
        ∃ change : Change, change.Defines handle.column ∧
          defined.commands = t.commands ++ [⟨change, none⟩] ∧
          handle.command = t.commands.length ∧
          later.commands[handle.command]? =
            some ⟨change.adjust (Modifier.editAll modifiers), none⟩ := by
  refine ⟨reachable.indexed.findsByName, fun call modifiers => ?_⟩
  obtain ⟨change, defines, recorded, handled⟩ := t.define_records call
  have named : (call.define t).2.column = call.column.name := congrArg ColumnHandle.column handled
  have number : (call.define t).2.command = t.commands.length :=
    congrArg ColumnHandle.command handled
  have held : (call.define t).1.commands[(call.define t).2.command]? = some ⟨change, none⟩ := by
    rw [number, recorded, List.getElem?_concat_length]
  exact ⟨change, named ▸ defines, recorded, number, Table.modifyAll_command held modifiers⟩

/-- A column and an index are renamed to names that are there already. -/
def repeatedNames : Table :=
  TableCall.runAll
    [.column (.typed .text "a"), .column (.typed .integer "b"), .renameColumn "b" "a",
     .createIndex .plain "i" ["a"], .createIndex .unique "j" ["a"], .renameIndex "i" "j"]
    { name := "t" }

/-- Of columns of one name the later one is found. Defining it again puts a command at number six,
and its modifiers, which record a key behind it, change it there. -/
theorem reachable_finds_by_name_repeated :
    repeatedNames.Reachable ∧ repeatedNames.FindsByName ∧
      (repeatedNames.column? "a").map Column.type = some .integer ∧
      ∃ change : Change, change.Defines "a" ∧
        (TableCall.run (.column (.id "a")) repeatedNames).commands[6]? =
          some ⟨change.adjust (Modifier.editAll [.unsigned, .autoIncrement, .primary]), none⟩ := by
  have reachable : repeatedNames.Reachable := (Table.Reachable.fresh "t").runAll _
  obtain ⟨finds, handles⟩ := reachable_finds_by_name reachable
  obtain ⟨change, defines, -, -, held⟩ :=
    handles (.id "a") [.unsigned, .autoIncrement, .primary]
  exact ⟨reachable, finds, rfl, change, defines, held⟩

end Sqlwright
