import Sqlwright.Ddl.Create

/-!
Altering a table by carrying out the log of its blueprint. The statements of every command are
written against the blueprint as it is in the end and sent at once; a failure is reported and
collected, and the next command follows.
-/

namespace Sqlwright

namespace Grammar

def alterTable (g : Grammar) (t : Table) : List Piece := .text "ALTER TABLE " :: g.table t.name

/-- `ALTER TABLE t` with more behind it. -/
def altering (g : Grammar) (t : Table) (action : String) (rest : List Piece) : List Piece :=
  g.alterTable t ++ .text (" " ++ action) :: rest

/-- The comment of a column, as the last statement of its command. -/
def commenting (g : Grammar) (c : Column) : List (List Piece) := (g.commentStatement? c).toList

/-- Two names with a word between them. -/
def pair (first word second : String) : List Piece := [segment first, .text word, segment second]

def alterAddColumn (g : Grammar) (t : Table) (c : Column) : List (List Piece) :=
  match g.dialect with
  | .hana =>
    g.altering t "ADD " (parenthesised (g.dialect.columnDefinition c)) :: g.commenting c
  | _ =>
    g.dialect.createTypes [c] ++ [g.altering t "ADD COLUMN " (g.dialect.columnDefinition c)] ++
      g.commenting c

/-- On Postgres every attribute of a column has a statement of its own. -/
def postgresModifyColumn (g : Grammar) (t : Table) (c : Column) : List (List Piece) :=
  let name := segment c.name
  let alter (rest : List Piece) := g.altering t "ALTER COLUMN " (name :: rest)
  let type := g.dialect.columnType c
  let default := g.dialect.defaultClause c
  g.dialect.createTypes [c] ++
    [alter
       (.text " TYPE " :: type ++ .text " USING (" :: name :: .text "::" :: type ++ [.text ")"]),
     alter [.text (if c.nullable then " DROP NOT NULL" else " SET NOT NULL")],
     alter (if default.isEmpty then [.text " DROP DEFAULT"] else .text " SET " :: default)] ++
    g.commenting c

def alterModifyColumn (g : Grammar) (t : Table) (c : Column) : Except Fault (List (List Piece)) :=
  match g.dialect with
  | .sqlite => .error (.unsupported g.dialect "modifying columns")
  | .mysql => .ok [g.altering t "MODIFY COLUMN " (g.dialect.columnDefinition c)]
  | .postgres => .ok (g.postgresModifyColumn t c)
  | .hana =>
    .ok (g.altering t "ALTER " (parenthesised (g.dialect.columnDefinition c)) :: g.commenting c)
  | .generic =>
    .ok (g.altering t "ALTER COLUMN "
      (segment c.name :: .text " SET DATA TYPE " :: g.dialect.columnType c) :: g.commenting c)

/-- A rename is carried out only if the blueprint has the column under its new name. -/
def alterRenameColumn (g : Grammar) (t : Table) (source target : String) :
    Except Fault (List (List Piece)) :=
  if t.hasColumns [target] then
    match g.dialect with
    | .hana =>
      .ok [.text "RENAME COLUMN " :: g.table t.name ++ .text "." :: pair source " TO " target]
    | _ => .ok [g.altering t "RENAME COLUMN " (pair source " TO " target)]
  else .error (.columnNotRenamed source)

def alterDropColumn (g : Grammar) (t : Table) (name : String) : List Piece :=
  match g.dialect with
  | .hana => g.altering t "DROP " (parenthesised [segment name])
  | _ => g.altering t "DROP COLUMN " [segment name]

def alterDropIndex (g : Grammar) (t : Table) (name : String) : List Piece :=
  let drop : List Piece := [.text "DROP INDEX ", segment (g.indexName t.name name)]
  match g.dialect with
  | .mysql => drop ++ .text " ON " :: g.table t.name
  | _ => drop

def alterRenameIndex (g : Grammar) (t : Table) (source target : String) :
    Except Fault (List (List Piece)) :=
  let stored := g.indexName t.name
  match g.dialect with
  | .sqlite => .error (.unsupported g.dialect "renaming indexes")
  | .mysql => .ok [g.altering t "RENAME INDEX " (pair (stored source) " TO " (stored target))]
  | .hana => .ok [.text "RENAME INDEX " :: pair (stored source) " TO " (stored target)]
  | .generic | .postgres =>
    .ok [.text "ALTER INDEX " :: pair (stored source) " RENAME TO " (stored target)]

def alterCreatePrimary (g : Grammar) (t : Table) (key : PrimaryKey) :
    Except Fault (List (List Piece)) :=
  match g.dialect with
  | .sqlite => .error (.unsupported g.dialect "adding a primary key")
  | _ => .ok [g.altering t "ADD " key.clause]

/-- The unnamed primary key of a table is called `<table>_pkey` on Postgres. -/
def alterDropPrimary (g : Grammar) (t : Table) (constraint : String) :
    Except Fault (List (List Piece)) :=
  let dropping (name : String) := [g.altering t "DROP CONSTRAINT " [segment name]]
  match g.dialect with
  | .sqlite => .error (.unsupported g.dialect "dropping the primary key")
  | .mysql | .hana => .ok [g.altering t "DROP PRIMARY KEY" []]
  | .postgres =>
    .ok (dropping
      (if constraint = "PRIMARY" then g.tablePrefix ++ t.name ++ "_pkey" else constraint))
  | .generic => .ok (dropping constraint)

/-- The statements of one change, or why there are none. -/
def alterStatements (g : Grammar) (t : Table) : Change → Except Fault (List (List Piece))
  | .addColumn column => .ok (g.alterAddColumn t column)
  | .modifyColumn column => g.alterModifyColumn t column
  | .renameColumn source target => g.alterRenameColumn t source target
  | .dropColumn name => .ok [g.alterDropColumn t name]
  | .createIndex index => .ok (g.createIndex? t index).toList
  | .dropIndex name => .ok [g.alterDropIndex t name]
  | .renameIndex source target => g.alterRenameIndex t source target
  | .createPrimary key => g.alterCreatePrimary t key
  | .dropPrimary constraint => g.alterDropPrimary t constraint

/-- Carries out one change: its statements are sent until one is refused. -/
def carryOut (g : Grammar) (c : Connection) (t : Table) (change : Change) : Session Unit := do
  g.send c (← g.alterStatements t change)

/-- Carries out commands in order. Every watcher hears the outcome of its command; the failures are
collected with the names of their commands. -/
def replay (g : Grammar) (c : Connection) (t : Table) :
    List Command → StateM (List Request) (List Report × List (String × Fault))
  | [] => return ([], [])
  | command :: rest => do
    let fault := faultOf? (← ExceptT.run (g.carryOut c t command.change))
    let (reports, failures) ← g.replay c t rest
    let failed := fault.toList.map fun fault => (command.change.name, fault)
    return ((command.complete fault).2 ++ reports, failed ++ failures)

/-- Carries out the log of a blueprint. The outcome is a failure exactly if some command failed. -/
def alter (g : Grammar) (c : Connection) (t : Table) : StateM (List Request) Applied := do
  let done := t.withoutCommands
  let (reports, failures) ← g.replay c done t.commands
  let outcome := if failures.isEmpty then .ok () else .error (.composite failures)
  return { table := done, reports, outcome }

end Grammar

end Sqlwright
