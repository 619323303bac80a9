import Sqlwright.Query.Compile

/-!
Running queries. Before anything is sent a query is checked, a write needs a table, and the builder
needs a connection, in this order.
-/

namespace Sqlwright.Builder

def connected (b : Builder) : Session Connection :=
  match b.connection with
  | some c => return c
  | none => throw .notConnected

/-- Writes need a plain table. -/
def target (b : Builder) : Except Fault String :=
  match b.query.tableName? with
  | some name => .ok name
  | none => .error .noTarget

def runQuery (b : Builder) (s : Statement) : Session (List Row) := do
  (← b.connected).runQuery (b.text s) s.values

def runStatement (b : Builder) (s : Statement) : Session Nat := do
  (← b.connected).runExecute (b.text s) s.values

/-- All rows. -/
def getRows (b : Builder) : Session (List Row) := do
  b.runQuery (← b.trySelect)

/-- The first row. -/
def first (b : Builder) : Session (Option Row) := do
  return (← (b.limit 1).getRows).head?

/-- Whether there are rows; an answer that is no truth value counts as no. -/
def hasRows (b : Builder) : Session Bool := do
  b.check
  let rows ← b.runQuery b.existsStatement
  return ((Row.firstCell? rows).bind Value.asBool).getD false

/-- One value computed over all rows, NULL where there is none. -/
def aggregate (b : Builder) (function column : String) : Session Value := do
  b.check
  let rows ← b.runQuery (b.aggregateStatement function column)
  return (Row.firstCell? rows).getD .null

/-- The number of rows; an answer that is no number counts as zero. -/
def count (b : Builder) : Session Int64 := do
  return ((← b.aggregate "count" "*").asInt64).getD 0

/-- Inserts records by one statement; answers how many rows were touched. -/
def insert (b : Builder) (records : List Record) : Session Nat := do
  let _ ← b.target
  b.runStatement (b.insertStatement records)

def insertOrIgnore (b : Builder) (records : List Record) : Session Nat := do
  let _ ← b.target
  b.runStatement (b.insertOrIgnoreStatement records)

/-- The integer in the first cell of the only row of a query, or the fault that says what is
missing. -/
def fetchId (c : Connection) (sql : String) (values : List Value) (missing notInteger : Fault) :
    Session Int64 := do
  match ← c.queryOne sql values with
  | none => throw missing
  | some row =>
    match (row.get? 0).bind Value.asInt64 with
    | some id => return id
    | none => throw notInteger

/-- The query for the last identity value of a HANA session. -/
def identityQuery : String := "select current_identity_value() FROM DUMMY"

/-- Inserts a record and answers its id. Postgres returns it from the insert, HANA keeps it in the
session, other servers report it with the insert. -/
def insertGetId (b : Builder) (record : Record) (sequence : Option String) : Session Int64 := do
  let _ ← b.target
  let statement := b.insertGetIdStatement record sequence
  let sql := b.text statement
  let c ← b.connected
  match b.grammar.dialect with
  | .postgres => fetchId c sql statement.values (.noReturnedId sql) (.returnedIdNotInteger sql)
  | .hana => do
    let _ ← c.runExecute sql statement.values
    fetchId c identityQuery [] (.noIdentity identityQuery) (.identityNotInteger identityQuery)
  | _ => c.runInsert sql statement.values

/-- Inserts the rows of a query. -/
def insertUsing (b : Builder) (columns : List String) (source : Query) : Session Nat := do
  let _ ← b.target
  b.runStatement (b.insertUsingStatement columns source)

def update (b : Builder) (record : Record) : Session Nat := do
  b.checkWrite
  let _ ← b.target
  b.runStatement (b.updateStatement record)

def delete (b : Builder) : Session Nat := do
  b.checkWrite
  let _ ← b.target
  b.runStatement b.deleteStatement

/-- Inserts records or overwrites the rows they collide with. -/
def upsert (b : Builder) (records : List Record) (key : List String) (update : Overwrite) :
    Session Nat := do
  let _ ← b.target
  b.runStatement (b.upsertStatement records key update)

/-- Asks whether SQLite keeps counters; the table for them comes with the first one. -/
def counterQuery : String :=
  "select 1 from sqlite_master where type = 'table' and name = 'sqlite_sequence'"

/-- Sends statements in order until one is refused. -/
def runAll (c : Connection) (dialect : Dialect) : List Statement → Session Unit
  | [] => return ()
  | s :: rest => do
    let _ ← c.runExecute (s.sql dialect) s.values
    runAll c dialect rest

/-- Empties the table. On SQLite the counter is only reset where counters are kept. -/
def truncate (b : Builder) : Session Unit := do
  let _ ← b.target
  let c ← b.connected
  let dialect := b.grammar.dialect
  match dialect, b.truncateStatements with
  | .sqlite, emptying :: resets => do
    let _ ← c.runExecute (emptying.sql dialect) emptying.values
    if (← c.queryOne counterQuery []).isSome then runAll c dialect resets
  | _, statements => runAll c dialect statements

end Sqlwright.Builder
