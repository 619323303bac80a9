import Sqlwright.Catalog.Listing
import Sqlwright.Catalog.Reading
import Sqlwright.Ddl.Alter
import Sqlwright.Table.Build
import Sqlwright.Version

/-!
The schema of a connected database: tables are found, created, altered, renamed and dropped by name.
A table is altered by finding it first, so that the changes are made to the table as it is.
-/

namespace Sqlwright

/-- The version in what a server of the dialect says about itself. -/
def Dialect.readVersion (d : Dialect) (text : String) : Except Fault Version :=
  match d with
  | .hana => Version.parseHana d.name text
  | _ => Version.parse d.name text

structure Schema where
  grammar : Grammar
  connection : Connection
  /-- The schema in which unqualified tables are looked for. -/
  name : String

namespace Schema

/-- The schema that a configuration names, or else the default one of the dialect. -/
def ofConfig (grammar : Grammar) (connection : Connection) (config : Config) : Schema :=
  ⟨grammar, connection, grammar.dialect.defaultSchema config⟩

def query (s : Schema) (statement : Statement) : Session (List Row) :=
  s.connection.runQuery (statement.sql s.grammar.dialect) statement.values

/-! ### Finding -/

/-- Whether the catalog lists the table under its stored name. -/
def hasTable (s : Schema) (name : String) : Session Bool := do
  let rows ← s.query (s.grammar.tableExists s.name name)
  let stored := (s.grammar.splitName s.name name).2
  return rows.any fun row => (row.get? 0).bind Value.toText = some stored

/-- The stored names of all tables. -/
def tables (s : Schema) : Session (List String) := do
  return (← s.query (s.grammar.listTables s.name)).filterMap fun row =>
    (row.get? 0).bind Value.toText

/-- The version of the server. -/
def version (s : Schema) : Session Version := do
  let rows ← s.query s.grammar.versionQuery
  match (Row.firstCell? rows).bind Value.toText with
  | none => throw .noVersion
  | some text => s.grammar.dialect.readVersion text

/-- Asks Postgres for the labels of an enum type. -/
def labelQuery (schema typeName : String) : Statement :=
  ⟨[.text "SELECT enum_range(NULL::", Grammar.segment schema, .text ".", Grammar.segment typeName,
    .text ")::text AS options"], []⟩

/-- A listed column with the labels of its enum type, where Postgres made a type for it. -/
def withLabels (s : Schema) (schema : String) (c : Column) : Session Column := do
  let typeName := (c.nativeType.getD "").toLower
  if s.grammar.dialect = .postgres ∧ "enum__".toList.isPrefixOf typeName.toList then
    let rows ← s.query (labelQuery schema typeName)
    let text := ((Row.firstCell? rows).bind Value.toText).getD ""
    return { c with type := .enum, options := readEnumLabels text, length := none }
  else return c

/-- The columns of a table in order. -/
def columns (s : Schema) (name : String) : Session (List Column) := do
  let rows ← s.query (s.grammar.listColumns s.name name)
  let listed := rows.map fun row => s.grammar.dialect.readColumn row (unqualified name)
  listed.mapM (s.withLabels (s.grammar.splitName s.name name).1)

/-- The indexes of a table. -/
def indexes (s : Schema) (name : String) : Session (List Index) := do
  let rows ← s.query (s.grammar.listIndexes s.name name)
  let table := unqualified name
  return readIndexes table (s.grammar.indexName table "") rows

/-- The blueprint of a table in the catalog. -/
def table (s : Schema) (name : String) : Session Table := do
  if ← s.hasTable name then
    let columns ← s.columns name
    let indexes ← s.indexes name
    Table.ofCatalog (unqualified name) (some (s.grammar.splitName s.name name).1) columns indexes
  else throw (.tableNotFound name)

/-! ### Changing -/

/-- Creates the table that calls build. -/
def createTable (s : Schema) (name : String) (options : CreateOptions) (calls : List TableCall) :
    StateM (List Request) Applied :=
  s.grammar.create s.connection (TableCall.runAll calls { name }) options

/-- Alters a table by calls, which may depend on the table as it is found. -/
def alterTable (s : Schema) (name : String) (calls : Table → List TableCall) :
    Session Applied := do
  let found ← s.table name
  s.grammar.alter s.connection (TableCall.runAll (calls found) found)

end Schema

namespace Grammar

def dropTable (g : Grammar) (name : String) : List Piece :=
  let drop := .text "DROP TABLE " :: g.table name
  match g.dialect with
  | .hana => drop ++ [.text " CASCADE"]
  | _ => drop

def dropTableIfExists (g : Grammar) (name : String) : List Piece :=
  .text "DROP TABLE IF EXISTS " :: g.table name

def renameTable (g : Grammar) (source target : String) : List Piece :=
  match g.dialect with
  | .mysql | .hana => .text "RENAME TABLE " :: g.table source ++ .text " TO " :: g.table target
  | _ => .text "ALTER TABLE " :: g.table source ++ .text " RENAME TO " :: g.table target

end Grammar

namespace Schema

def dropTable (s : Schema) (name : String) : Session Unit :=
  s.grammar.send s.connection [s.grammar.dropTable name]

/-- Drops a table that may be missing. HANA has no such statement, so there the catalog is asked
first. -/
def dropTableIfExists (s : Schema) (name : String) : Session Unit := do
  match s.grammar.dialect with
  | .hana => if ← s.hasTable name then s.dropTable name
  | _ => s.grammar.send s.connection [s.grammar.dropTableIfExists name]

def renameTable (s : Schema) (source target : String) : Session Unit :=
  s.grammar.send s.connection [s.grammar.renameTable source target]

end Schema

end Sqlwright
