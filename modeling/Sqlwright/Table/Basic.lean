import Sqlwright.Table.Command
import Sqlwright.Table.Named

/-!
Table blueprints. A blueprint is the table as it will be, with its columns, indexes and primary key,
together with the log of the changes that lead there: every structural operation changes the one
and appends to the other. Columns and indexes are found by name through lookups, which operations
that move or rename entries make anew.
-/

namespace Sqlwright

structure Table where
  name : String
  /-- The schema it was found in. -/
  schema : Option String := none
  columns : List Column := []
  indexes : List Index := []
  primary : Option PrimaryKey := none
  commands : List Command := []
  /-- Where each column stands, by name. -/
  columnLookup : Lookup := Named.positions Column.name columns
  /-- Where each index stands, by name. -/
  indexLookup : Lookup := Named.positions Index.name indexes
  deriving Inhabited

/-- A column just defined: its name, and the number of the command that defines it. -/
structure ColumnHandle where
  column : String
  command : Nat
  deriving DecidableEq, Repr

namespace Table

/-! ### Lookup -/

def column? (t : Table) (name : String) : Option Column :=
  Named.find? t.columnLookup name t.columns

def index? (t : Table) (name : String) : Option Index := Named.find? t.indexLookup name t.indexes

/-- Whether every named column exists. -/
def hasColumns (t : Table) (names : List String) : Bool :=
  names.all (Named.contains t.columnLookup)

/-- Whether every named index exists. -/
def hasIndexes (t : Table) (names : List String) : Bool :=
  names.all (Named.contains t.indexLookup)

/-- Makes both lookups anew. -/
def reindex (t : Table) : Table :=
  { t with
    columnLookup := Named.positions Column.name t.columns
    indexLookup := Named.positions Index.name t.indexes }

/-! ### The log -/

/-- Appends a change to the log. -/
def record (t : Table) (change : Change) : Table :=
  { t with commands := t.commands ++ [⟨change, none⟩] }

/-- The blueprint with an empty log. -/
def withoutCommands (t : Table) : Table := { t with commands := [] }

/-- Tells a watcher about the latest command, in place of an earlier watcher of it. -/
def watch (t : Table) (label : String) : Table :=
  { t with
    commands :=
      t.commands.modify (t.commands.length - 1) fun c => { c with watcher := some label } }

/-! ### Columns -/

/-- Changes the column of a name. -/
def editColumn (t : Table) (name : String) (edit : Column → Column) : Table :=
  { t with columns := Named.update t.columnLookup name edit t.columns }

/-- Marks columns as part of the primary key or not. -/
def flagColumns (t : Table) (names : List String) (primary : Bool) : Table :=
  names.foldl (fun t name => t.editColumn name fun c => { c with primary }) t

/-- A column as it will stand at the end of the list: at its own position, or else at the next. -/
def appended (t : Table) (column : Column) : Column :=
  { column with
    tableName := t.name
    position := if column.position = 0 then t.columns.length + 1 else column.position }

/-- A column as it will stand in the table: where there is one of its name, at the position of
that one. -/
def placed (t : Table) (column : Column) : Column :=
  match t.column? column.name with
  | some old => { column with tableName := t.name, position := old.position }
  | none => t.appended column

/-- Appends a column, also where there is one of its name. -/
def pushColumn (t : Table) (column : Column) : Table :=
  { t with
    columns := t.columns ++ [t.appended column]
    columnLookup := Keyed.insert column.name t.columns.length t.columnLookup }

/-- A column in the place of the one of its name, or at the end. -/
def putColumn (t : Table) (column : Column) : Table :=
  match Keyed.find? column.name t.columnLookup with
  | some i => { t with columns := t.columns.set i (t.placed column) }
  | none => t.pushColumn column

/-- Defines a column; one of that name that is already there is modified. -/
def addColumn (t : Table) (column : Column) : Table × ColumnHandle :=
  let change :=
    if t.hasColumns [column.name] then Change.modifyColumn (t.placed column)
    else .addColumn (t.placed column)
  ((t.putColumn column).record change, ⟨column.name, t.commands.length⟩)

/-- Modifies a column. One that is not there yet is appended, and its command keeps the position
that was given. -/
def changeColumn (t : Table) (column : Column) : Table × ColumnHandle :=
  let told :=
    if t.hasColumns [column.name] then t.placed column else { column with tableName := t.name }
  ((t.putColumn column).record (.modifyColumn told), ⟨column.name, t.commands.length⟩)

/-- Changes a column just defined, in the blueprint and in its command. -/
def adjust (t : Table) (handle : ColumnHandle) (edit : Column → Column) : Table :=
  let t := t.editColumn handle.column edit
  { t with
    commands :=
      t.commands.modify handle.command fun c => { c with change := c.change.adjust edit } }

/-- Renames a column; indexes and the primary key follow. -/
def renameColumn (t : Table) (source target : String) : Table :=
  let follow (names : List String) := names.map fun n => if n = source then target else n
  let t := t.record (.renameColumn source target)
  if t.hasColumns [source] then
    reindex
      { t.editColumn source fun c => { c with name := target } with
        indexes := t.indexes.map fun index => { index with columns := follow index.columns }
        primary := t.primary.map fun key => { key with columns := follow key.columns } }
  else t

/-- Drops the columns of a name, without bringing the lookups up to date. -/
def dropColumn (t : Table) (name : String) : Table :=
  { t.record (.dropColumn name) with columns := Named.erase Column.name name t.columns }

def dropColumns (t : Table) (names : List String) : Table := (names.foldl dropColumn t).reindex

/-! ### Indexes and primary key -/

/-- An index in the place of the one of its name, or at the end. -/
def putIndex (t : Table) (index : Index) : Table :=
  match Keyed.find? index.name t.indexLookup with
  | some i => { t with indexes := t.indexes.set i index }
  | none =>
    { t with
      indexes := t.indexes ++ [index]
      indexLookup := Keyed.insert index.name t.indexes.length t.indexLookup }

def createIndex (t : Table) (kind : IndexKind) (name : String) (columns : List String) : Table :=
  let index : Index := { name, tableName := t.name, kind, columns }
  (t.putIndex index).record (.createIndex index)

/-- Drops the indexes of a name, without bringing the lookups up to date. -/
def dropIndex (t : Table) (name : String) : Table :=
  { t.record (.dropIndex name) with indexes := Named.erase Index.name name t.indexes }

def dropIndexes (t : Table) (names : List String) : Table := (names.foldl dropIndex t).reindex

def renameIndex (t : Table) (source target : String) : Table :=
  let t := t.record (.renameIndex source target)
  if t.hasIndexes [source] then
    reindex
      { t with
        indexes :=
          Named.update t.indexLookup source (fun index => { index with name := target }) t.indexes }
  else t

/-- Makes columns the primary key. -/
def createPrimary (t : Table) (columns : List String) : Table :=
  let key : PrimaryKey := { tableName := t.name, columns }
  { (t.flagColumns columns true).record (.createPrimary key) with primary := some key }

/-- Drops the primary key; without one the constraint is called `<table>_primary`. -/
def dropPrimary (t : Table) : Table :=
  match t.primary with
  | some key =>
    { (t.flagColumns key.columns false).record (.dropPrimary key.name) with primary := none }
  | none => t.record (.dropPrimary (t.name ++ "_primary"))

/-! ### From the catalog -/

/-- Adds an index as the catalog lists it: every column has to be listed, and the primary index
becomes the primary key. -/
def listIndex (t : Table) (index : Index) : Except Fault Table :=
  match index.columns.find? fun name => !Named.contains t.columnLookup name with
  | some missing => .error (.columnNotFound missing)
  | none =>
    match index.kind with
    | .primary =>
      .ok { t with
        primary := some { name := index.name, tableName := t.name, columns := index.columns } }
    | _ => .ok (t.putIndex index)

/-- The columns flagged as primary make the primary key where no index does. -/
def keyFromFlags (t : Table) : Option PrimaryKey :=
  match (t.columns.filter Column.primary).map Column.name with
  | [] => none
  | columns => some { tableName := t.name, columns }

/-- The table that the listings of a catalog describe. -/
def ofCatalog (name : String) (schema : Option String) (columns : List Column)
    (indexes : List Index) : Except Fault Table := do
  let listed ← indexes.foldlM listIndex (columns.foldl pushColumn { name, schema })
  let primary := listed.primary.or listed.keyFromFlags
  return { listed.flagColumns ((primary.map PrimaryKey.columns).getD []) true with primary }

end Table

end Sqlwright
