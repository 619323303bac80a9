import Sqlwright.Query.Select
import Sqlwright.Query.Record

/-!
The statements that write: INSERT and its variants, UPDATE, DELETE, upsert and TRUNCATE. Values are
listed in the order of their places. Dialects that can neither join nor limit a write but have a row
id choose the rows by their ids instead; MySQL joins, orders and limits writes by itself; the
generic dialect drops what it cannot write, and `writeLimit?` says so.
-/

namespace Sqlwright

namespace Statement

/-- A statement with more text and values behind it. -/
def append (s : Statement) (pieces : List Piece) (values : List Value) : Statement :=
  ⟨s.pieces ++ pieces, s.values ++ values⟩

end Statement

namespace Dialect

/-- The column by which a dialect identifies rows, where writes choose rows by it. -/
def rowId? : Dialect → Option String
  | .postgres => some "ctid"
  | .sqlite => some "rowid"
  | .hana => some "$rowid$"
  | .generic | .mysql => none

end Dialect

namespace Grammar

/-- The table that a write addresses. -/
def writeTable (g : Grammar) (q : Query) : List Piece := g.table (q.tableName?.getD "")

/-! ### Insert -/

def operandList (g : Grammar) (row : List Operand) : List Piece :=
  joinPieces "," (Operand.parts g row)

/-- The rows of an insert: a tuple each, or on HANA a SELECT each where there are several. -/
def rowPieces (g : Grammar) (rows : List (List Operand)) : List Piece :=
  let tuples :=
    .text "values " :: joinPieces ", " (rows.map fun row => parenthesised (g.operandList row))
  match g.dialect, rows with
  | .hana, [_] => tuples
  | .hana, _ => joinPieces " union all "
      (rows.map fun row => .text "select " :: g.operandList row ++ [.text " from dummy"])
  | _, _ => tuples

/-- What follows the table where there is nothing to write but defaults. -/
def defaultRow (g : Grammar) : String :=
  match g.dialect with
  | .mysql => " () values ()"
  | _ => " default values"

/-- Writes rows under a verb. -/
def writeRows (g : Grammar) (verb : String) (q : Query) (data : RowSet) : Statement :=
  let target := .text (verb ++ " ") :: g.writeTable q
  if data.isEmpty then ⟨target ++ [.text g.defaultRow], []⟩
  else
    ⟨target ++ .text " " :: parenthesised (g.columnList data.columns) ++
      .text " " :: g.rowPieces data.rows, data.values⟩

def insert (g : Grammar) (q : Query) (data : RowSet) : Statement := g.writeRows "insert into" q data

/-- An insert that leaves rows alone that are already there, where the dialect has one. -/
def insertOrIgnore (g : Grammar) (q : Query) (data : RowSet) : Statement :=
  match g.dialect with
  | .mysql => g.writeRows "insert ignore into" q data
  | .sqlite => g.writeRows "insert or ignore into" q data
  | .postgres => (g.insert q data).append [.text " on conflict do nothing"] []
  | .generic | .hana => g.insert q data

/-- An insert of one record whose id is wanted; `sequence` names the id column. -/
def insertGetId (g : Grammar) (q : Query) (record : Record) (sequence : Option String) :
    Statement :=
  let insert := g.insert q ⟨record.columns, [record.row record.columns]⟩
  match g.dialect with
  | .postgres => insert.append (.text " returning " :: g.column (sequence.getD "id")) []
  | _ => insert

/-- Inserts the rows of a query. -/
def insertUsing (g : Grammar) (q : Query) (columns : List String) (source : Query) : Statement :=
  ⟨.text "insert into " :: g.writeTable q ++ .text " " :: parenthesised (g.columnList columns) ++
    .text " " :: source.pieces g, source.values⟩

/-! ### Update and delete -/

def assignment (g : Grammar) (field : String × Operand) : List Piece :=
  g.column field.1 ++ .text " = " :: field.2.pieces g

def assignments (g : Grammar) (record : Record) : List Piece :=
  joinPieces ", " (record.fields.map g.assignment)

/-- The clauses of a query that the dialect would drop from an UPDATE or DELETE. -/
def writeLimit? (g : Grammar) (q : Query) : Option WriteLimit :=
  let joined := !q.joins.isEmpty
  let limited := q.limit.isSome || q.offset.isSome
  match g.dialect with
  | .generic => if joined || limited then some (.plainOnly g.dialect) else none
  | .mysql =>
    if joined && (limited || !q.orders.isEmpty) then some (.unorderedJoins g.dialect) else none
  | .postgres | .sqlite | .hana => none

/-- The source of a write, nothing where there is none. -/
def writeSource (g : Grammar) (q : Query) : List Piece :=
  match q.source with
  | some source => source.pieces g
  | none => []

/-- The table that a write addresses, with its alias. -/
def writeTarget (g : Grammar) (q : Query) : List Piece :=
  match q.source with
  | some (.table name label) => (Source.table name label).pieces g
  | _ => g.writeTable q

def whereClause (g : Grammar) (q : Query) : List Piece := Linked.clause g "where " q.wheres

/-- `update source set ... where ...`, without joins, ordering and paging. -/
def plainUpdate (g : Grammar) (q : Query) (record : Record) : Statement where
  pieces := sentence
    [.text "update " :: g.writeSource q ++ .text " set " :: g.assignments record, g.whereClause q]
  values := q.bound.source ++ record.values ++ q.bound.condition

/-- `delete from source where ...`; an ordered one is sorted and limited as well. -/
def plainDelete (g : Grammar) (q : Query) (ordered : Bool) : Statement where
  pieces := sentence
    ([.text "delete from " :: g.writeSource q, g.whereClause q] ++
      if ordered then [g.orderClause q.orders, g.dialect.limitClause q.limit q.offset] else [])
  values := q.bound.source ++ q.bound.condition ++ if ordered then q.bound.order else []

/-- The query that selects the row ids of the rows a write means. The row id is qualified where an
alias or a join would make it ambiguous. -/
def rowIdQuery (q : Query) (rowId : String) : Query :=
  let qualified := match q.source with
    | some source =>
      if source.label?.isSome || !q.joins.isEmpty then source.reference ++ "." ++ rowId else rowId
    | none => rowId
  { q with
    columns := [.column qualified], distinct := false, bound := { q.bound with select := [] } }

/-- `where rowid in (select rowid ...)`. -/
def rowIdChoice (g : Grammar) (q : Query) (rowId : String) : List Piece :=
  .text " where " :: segment rowId :: .text " in " ::
    parenthesised ((rowIdQuery q rowId).pieces g)

def updateByRowId (g : Grammar) (q : Query) (record : Record) (rowId : String) : Statement where
  pieces := .text "update " :: g.writeTarget q ++ .text " set " :: g.assignments record ++
    g.rowIdChoice q rowId
  values := record.values ++ (rowIdQuery q rowId).values

def deleteByRowId (g : Grammar) (q : Query) (rowId : String) : Statement where
  pieces := .text "delete from " :: g.writeTarget q ++ g.rowIdChoice q rowId
  values := (rowIdQuery q rowId).values

/-- `update source joins set ... where ...`, sorted and limited where nothing is joined. -/
def joinedUpdate (g : Grammar) (q : Query) (record : Record) : Statement where
  pieces := sentence
    ([.text "update " :: g.writeSource q, g.joinClause q.joins,
      .text "set " :: g.assignments record, g.whereClause q] ++
      if q.joins.isEmpty then [g.orderClause q.orders, g.dialect.limitClause q.limit q.offset]
      else [])
  values := q.bound.source ++ q.bound.join ++ record.values ++ q.bound.condition ++
    if q.joins.isEmpty then q.bound.order else []

/-- The name by which a joined DELETE says from which source rows go. -/
def deleteTarget (g : Grammar) (q : Query) (source : Source) : List Piece :=
  match source.label? with
  | some label => [g.tableSegment label]
  | none => g.writeTable q

/-- `delete target from source joins where ...`. -/
def joinedDelete (g : Grammar) (q : Query) (source : Source) : Statement where
  pieces := sentence
    [.text "delete " :: g.deleteTarget q source ++ .text " from " :: source.pieces g,
     g.joinClause q.joins, g.whereClause q]
  values := q.bound.source ++ q.bound.join ++ q.bound.condition

/-- A write has joins or paging, which plain writes lack. -/
def needsRowId (q : Query) : Bool := !q.joins.isEmpty || q.limit.isSome || q.offset.isSome

def update (g : Grammar) (q : Query) (record : Record) : Statement :=
  match g.dialect, g.dialect.rowId? with
  | .mysql, _ => g.joinedUpdate q record
  | _, some rowId => if needsRowId q then g.updateByRowId q record rowId else g.plainUpdate q record
  | _, none => g.plainUpdate q record

def delete (g : Grammar) (q : Query) : Statement :=
  match g.dialect, g.dialect.rowId? with
  | .mysql, _ =>
    match q.source with
    | some source => if q.joins.isEmpty then g.plainDelete q true else g.joinedDelete q source
    | none => g.plainDelete q true
  | _, some rowId => if needsRowId q then g.deleteByRowId q rowId else g.plainDelete q false
  | _, none => g.plainDelete q false

/-! ### Upsert and truncate -/

/-- `column = excluded.column`. -/
def fromExcluded (g : Grammar) (name : String) : List Piece :=
  g.column name ++ [.text " = ", segment "excluded", .text ".", segment name]

/-- `column = values(column)`. -/
def fromValues (g : Grammar) (name : String) : List Piece :=
  g.column name ++ .text " = values(" :: g.column name ++ [.text ")"]

/-- What is set in a row that is already there; operands are numbered behind the inserted values. -/
def overwritePieces (g : Grammar) (inserted : Nat) (incoming : String → List Piece) :
    Overwrite → List Piece
  | .columns names => joinPieces ", " (names.map incoming)
  | .values record => .renumber inserted :: g.assignments record

def overwriteValues : Overwrite → List Value
  | .columns _ => []
  | .values record => record.values

/-- An insert that settles collisions on the key columns by overwriting. -/
def onConflict (g : Grammar) (insert : Statement) (key : List String) (update : Overwrite) :
    Statement :=
  let target := .text " on conflict " :: parenthesised (g.columnList key)
  if update.isEmpty then insert.append (target ++ [.text " do nothing"]) []
  else
    insert.append
      (target ++ .text " do update set " ::
        g.overwritePieces insert.values.length g.fromExcluded update)
      (overwriteValues update)

/-- An insert that settles collisions on any key by overwriting. -/
def onDuplicate (g : Grammar) (insert : Statement) (update : Overwrite) : Statement :=
  if update.isEmpty then insert
  else
    insert.append
      (.text " on duplicate key update " ::
        g.overwritePieces insert.values.length g.fromValues update)
      (overwriteValues update)

/-- Inserts rows or overwrites those that are already there. Where the dialect has no such
statement it is a plain insert. -/
def upsert (g : Grammar) (q : Query) (data : RowSet) (key : List String) (update : Overwrite) :
    Statement :=
  match g.dialect with
  | .mysql => g.onDuplicate (g.insert q data) update
  | .postgres | .sqlite => g.onConflict (g.insert q data) key update
  | .hana => g.writeRows "upsert" q data
  | .generic => g.insert q data

/-- The statements that empty a table, in order. SQLite also resets the table's counter. -/
def truncate (g : Grammar) (q : Query) : List Statement :=
  match g.dialect with
  | .postgres =>
    [⟨.text "truncate " :: g.writeTable q ++ [.text " restart identity cascade"], []⟩]
  | .sqlite =>
    let stored := Value.text (g.tablePrefix ++ q.tableName?.getD "")
    [⟨.text "delete from " :: g.writeTable q, []⟩,
     ⟨[.text "delete from sqlite_sequence where name = ", .place stored], [stored]⟩]
  | .generic | .mysql | .hana => [⟨.text "truncate table " :: g.writeTable q, []⟩]

end Grammar

end Sqlwright
