import Sqlwright.Connection
import Sqlwright.Ddl.Definition

/-!
Creating a table from its blueprint. The log of the blueprint is what is created: types first, then
the table with its columns and keys, then the indexes that stand apart, then the comments.
-/

namespace Sqlwright

structure CreateOptions where
  temporary : Bool := false
  engine : Option String := none
  charset : Option String := none
  collation : Option String := none

/-- What became of a blueprint whose log was carried out. -/
structure Applied where
  /-- The blueprint with an empty log. -/
  table : Table
  /-- What the watchers heard, in order. -/
  reports : List Report
  outcome : Except Fault Unit

/-- The fault of a failure. -/
def faultOf? {α : Type} : Except Fault α → Option Fault
  | .error fault => some fault
  | .ok _ => none

namespace Table

/-- The columns that the log adds. -/
def addedColumns (t : Table) : List Column :=
  t.commands.filterMap fun c => match c.change with
    | .addColumn column => some column
    | _ => none

/-- The indexes that the log creates. -/
def createdIndexes (t : Table) : List Index :=
  t.commands.filterMap fun c => match c.change with
    | .createIndex index => some index
    | _ => none

/-- The primary key that the log creates; of several the last. -/
def createdPrimary? (t : Table) : Option PrimaryKey :=
  (t.commands.filterMap fun c => match c.change with
    | .createPrimary key => some key
    | _ => none).getLast?

end Table

namespace Dialect

def temporaryKeyword : Dialect → String
  | .hana => "CREATE GLOBAL TEMPORARY TABLE"
  | _ => "CREATE TEMPORARY TABLE"

/-- The options behind a table; only MySQL has any. -/
def tableOptions (d : Dialect) (options : CreateOptions) : List Piece :=
  match d with
  | .mysql =>
    sentence
      [option "ENGINE " options.engine, option "DEFAULT CHARSET " options.charset,
       option "COLLATE=" options.collation]
  | _ => []

end Dialect

namespace Grammar

/-- The primary key inside CREATE TABLE. On SQLite a single column that counts up is already
declared as the key. -/
def tablePrimary? (g : Grammar) (t : Table) (key : PrimaryKey) : Option (List Piece) :=
  match g.dialect, key.columns with
  | .sqlite, [only] =>
    if ((t.column? only).map Column.autoIncrement).getD false then none else some key.clause
  | _, _ => some key.clause

/-- The statement that creates the table itself. -/
def createTable (g : Grammar) (t : Table) (options : CreateOptions) : List Piece :=
  let body :=
    t.addedColumns.map g.dialect.columnDefinition ++
      t.createdIndexes.filterMap g.inlineIndex? ++
      (t.createdPrimary?.bind (g.tablePrimary? t)).toList
  let keyword := if options.temporary then g.dialect.temporaryKeyword else "CREATE TABLE"
  sentence
    [.text (keyword ++ " ") :: g.table t.name ++ .text " (\n  " :: joinPieces ",\n  " body ++
       [.text "\n)"],
     g.dialect.tableOptions options]

/-- Every statement that creates the table of a blueprint, in order. -/
def createStatements (g : Grammar) (t : Table) (options : CreateOptions) : List (List Piece) :=
  let apart := t.createdIndexes.filter fun index => (g.inlineIndex? index).isNone
  g.dialect.createTypes t.addedColumns ++ [g.createTable t options] ++
    apart.filterMap (g.createIndex? t) ++ t.addedColumns.filterMap g.commentStatement?

/-- Sends statements in order until one is refused. -/
def send (g : Grammar) (c : Connection) : List (List Piece) → Session Unit
  | [] => return ()
  | statement :: rest => do
    let _ ← c.runExecute (render g.dialect statement) []
    g.send c rest

/-- Creates the table of a blueprint. The watchers of commands that are part of the creation hear
its outcome; the other commands are dropped. -/
def create (g : Grammar) (c : Connection) (t : Table) (options : CreateOptions) :
    StateM (List Request) Applied := do
  let outcome ← ExceptT.run (g.send c (g.createStatements t options))
  let reports := (t.commands.filter fun c => c.change.isCreate).flatMap fun command =>
    (command.complete (faultOf? outcome)).2
  return { table := t.withoutCommands, reports, outcome }

end Grammar

end Sqlwright
