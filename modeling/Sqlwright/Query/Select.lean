import Sqlwright.Query.Basic

/-!
The pieces of a SELECT. Every clause is written by one function over its data, so the places of a
statement come in the order of its clauses at every depth. What a dialect decides for itself stands
in small functions in front: paging, locks, parts of dates and the missing source.
-/

namespace Sqlwright

def Connective.word : Connective → String
  | .and => "and"
  | .or => "or"

def DatePart.word : DatePart → String
  | .date => "date"
  | .time => "time"
  | .year => "year"
  | .month => "month"
  | .day => "day"

def Direction.word : Direction → String
  | .asc => "asc"
  | .desc => "desc"

def JoinKind.words : JoinKind → String
  | .inner => "inner join"
  | .left => "left join"
  | .right => "right join"
  | .cross => "cross join"

namespace Dialect

/-- Of the dialects that have one, the row count that stands for no limit where only an offset is
given. -/
def unlimited? : Dialect → Option String
  | .mysql => some "18446744073709551615"
  | .sqlite => some "-1"
  | _ => none

/-- The clause that limits the number of rows. The generic dialect writes the offset into it. -/
def limitClause (d : Dialect) (limit offset : Option Nat) : List Piece :=
  match d with
  | .generic => sentence
      [(offset.map fun n => [Piece.text ("offset " ++ toString n ++ " rows")]).getD [],
       (limit.map fun n => [Piece.text ("fetch next " ++ toString n ++ " rows only")]).getD []]
  | _ =>
    match limit, offset, d.unlimited? with
    | some n, _, _ => [.text ("limit " ++ toString n)]
    | none, some _, some count => [.text ("limit " ++ count)]
    | none, _, _ => []

/-- The clause that skips rows, where it is not part of the limit. -/
def offsetClause (d : Dialect) (offset : Option Nat) : List Piece :=
  match d, offset with
  | .generic, _ => []
  | _, some n => [.text ("offset " ++ toString n)]
  | _, none => []

/-- The clause that locks the rows; SQLite locks whole databases and writes none. -/
def lockClause : Dialect → Option Lock → List Piece
  | _, none => []
  | .sqlite, _ => []
  | _, some .forUpdate => [.text "for update"]
  | .mysql, some .shared => [.text "lock in share mode"]
  | .hana, some .shared => [.text "for share lock"]
  | _, some .shared => [.text "for share"]

/-- The format by which SQLite takes a part out of a date. -/
def sqliteFormat : DatePart → String
  | .date => "%Y-%m-%d"
  | .time => "%H:%M:%S"
  | .year => "%Y"
  | .month => "%m"
  | .day => "%d"

/-- The function by which HANA takes a part out of a date. -/
def hanaFunction : DatePart → String
  | .date => "to_date"
  | .time => "to_time"
  | .year => "year"
  | .month => "month"
  | .day => "dayofmonth"

/-- `extract(part from column)`, for the parts that are numbers. -/
def extracted (part : DatePart) (column : List Piece) : List Piece :=
  .text ("extract(" ++ part.word ++ " from ") :: column ++ [.text ")"]

/-- Compares a part of a date or time column with an operand. -/
def datePart (d : Dialect) (part : DatePart) (column : List Piece) (operator : String)
    (value : List Piece) : List Piece :=
  match d with
  | .mysql => .text (part.word ++ "(") :: column ++ .text (")" ++ operator) :: value
  | .sqlite =>
    .text "strftime(" :: .literal (sqliteFormat part) :: .text "," :: column ++
      .text (") " ++ operator ++ " cast(") :: value ++ [.text " as text)"]
  | .hana =>
    .text (hanaFunction part ++ "(") :: column ++ .text (") " ++ operator ++ " ") :: value
  | .postgres =>
    match part with
    | .date | .time => column ++ .text ("::" ++ part.word ++ " " ++ operator) :: value
    | .year | .month | .day => extracted part column ++ .text operator :: value
  | .generic =>
    match part with
    | .date | .time =>
      .text "cast(" :: column ++ .text (" as " ++ part.word ++ ") " ++ operator ++ " ") :: value
    | .year | .month | .day => extracted part column ++ .text (" " ++ operator ++ " ") :: value

/-- What a query without a source selects from. -/
def emptySource : Dialect → List Piece
  | .hana => [.text "from dummy"]
  | _ => []

end Dialect

namespace Grammar

/-- `first operator second`, both columns. -/
def comparison (g : Grammar) (first operator second : String) : List Piece :=
  g.column first ++ .text (" " ++ operator ++ " ") :: g.column second

/-- The comparisons of a join; the connective of the first is not written. -/
def joinConditions (g : Grammar) : List JoinCondition → List Piece
  | [] => []
  | c :: rest =>
    g.comparison c.first c.operator c.second ++
      rest.flatMap fun c =>
        .text (" " ++ c.connective.word ++ " ") :: g.comparison c.first c.operator c.second

def joinPiece (g : Grammar) (join : Join) : List Piece :=
  .text (join.kind.words ++ " ") :: g.table join.table ++
    if join.kind = .cross || join.conditions.isEmpty then []
    else .text " on " :: g.joinConditions join.conditions

def joinClause (g : Grammar) (joins : List Join) : List Piece :=
  joinPieces " " (joins.map g.joinPiece)

def groupClause (g : Grammar) (groups : List String) : List Piece :=
  if groups.isEmpty then [] else .text "group by " :: g.columnList groups

def orderingPieces (g : Grammar) : Ordering → List Piece
  | .column name direction => g.column name ++ [.text (" " ++ direction.word)]
  | .raw sql places => [.fragment sql places]

def orderClause (g : Grammar) (orders : List Ordering) : List Piece :=
  if orders.isEmpty then []
  else .text "order by " :: joinPieces ", " (orders.map g.orderingPieces)

end Grammar

/-- A SELECT taken apart: the select list with its keyword, and the clauses that follow. -/
structure Outline where
  head : List Piece
  clauses : List (List Piece)

/-- The whole SELECT; clauses that are empty leave no trace. -/
def Outline.pieces (o : Outline) : List Piece := sentence (o.head :: o.clauses)

/-- The word between a column and a test, with its negation. -/
def negatable (word : String) (negated : Bool) : String :=
  if negated then "not " ++ word else word

mutual

/-- An operand; a query stands in parentheses. -/
def Operand.pieces (g : Grammar) : Operand → List Piece
  | .value v => [.place v]
  | .raw sql => [.text sql]
  | .column name => g.column name
  | .sub query => parenthesised (query.outline g).pieces

def Operand.parts (g : Grammar) : List Operand → List (List Piece)
  | [] => []
  | operand :: rest => operand.pieces g :: Operand.parts g rest

/-- An entry of the select list. -/
def Selection.pieces (g : Grammar) : Selection → List Piece
  | .column reference => g.column reference
  | .raw sql places => [.fragment sql places]
  | .sub query label =>
    parenthesised (query.outline g).pieces ++ [.text " as ", Grammar.segment label]

def Selection.parts (g : Grammar) : List Selection → List (List Piece)
  | [] => []
  | entry :: rest => entry.pieces g :: Selection.parts g rest

/-- A source without the keyword in front. The alias of a table carries the table prefix, that of a
query does not. -/
def Source.pieces (g : Grammar) : Source → List Piece
  | .table name none => g.table name
  | .table name (some label) => g.table name ++ [.text " as ", g.tableSegment label]
  | .sub query label =>
    parenthesised (query.outline g).pieces ++ [.text " as ", Grammar.segment label]

def Source.clause (g : Grammar) : Option Source → List Piece
  | none => g.dialect.emptySource
  | some source => .text "from " :: source.pieces g

/-- One condition. No value at all is among none: the test is then constant. -/
def Condition.pieces (g : Grammar) : Condition → List Piece
  | .compare column operator value =>
    g.column column ++ .text (" " ++ operator ++ " ") :: value.pieces g
  | .compareSub query operator value =>
    parenthesised (query.outline g).pieces ++ .text (" " ++ operator ++ " ") :: value.pieces g
  | .columns first operator second => g.comparison first operator second
  | .null column negated =>
    g.column column ++ [.text (if negated then " is not null" else " is null")]
  | .between column low high negated =>
    g.column column ++ .text (" " ++ negatable "between" negated ++ " ") :: low.pieces g ++
      .text " and " :: high.pieces g
  | .among _ [] negated => [.text (if negated then "1 = 1" else "0 = 1")]
  | .among column (value :: values) negated =>
    g.column column ++ .text (" " ++ negatable "in" negated ++ " ") ::
      parenthesised (joinPieces "," (value.pieces g :: Operand.parts g values))
  | .amongSub column query negated =>
    g.column column ++ .text (" " ++ negatable "in" negated ++ " ") ::
      parenthesised (query.outline g).pieces
  | .exists query negated =>
    .text (negatable "exists" negated ++ " ") :: parenthesised (query.outline g).pieces
  | .raw sql places => [.fragment sql places]
  | .group conditions => parenthesised (Linked.first g conditions)
  | .datePart part column operator value =>
    g.dialect.datePart part (g.column column) operator (value.pieces g)

/-- Conditions joined by their connectives; that of the first is not written. -/
def Linked.first (g : Grammar) : List Linked → List Piece
  | [] => []
  | .mk _ condition :: rest => condition.pieces g ++ Linked.others g rest

def Linked.others (g : Grammar) : List Linked → List Piece
  | [] => []
  | .mk link condition :: rest =>
    .text (" " ++ link.word ++ " ") :: condition.pieces g ++ Linked.others g rest

/-- Conditions behind a keyword, nothing where there is no condition. -/
def Linked.clause (g : Grammar) (keyword : String) : List Linked → List Piece
  | [] => []
  | .mk _ condition :: rest => .text keyword :: condition.pieces g ++ Linked.others g rest

/-- The select list and the clauses of a query, in the order in which they are written. -/
def Query.outline (g : Grammar) : Query → Outline
  | ⟨source, columns, distinct, joins, wheres, groups, havings, orders, limit, offset, lock,
      _, _⟩ =>
    { head :=
        .text (if distinct then "select distinct " else "select ") ::
          if columns.isEmpty then [.text "*"] else joinPieces ", " (Selection.parts g columns)
      clauses :=
        [Source.clause g source, g.joinClause joins, Linked.clause g "where " wheres,
         g.groupClause groups, Linked.clause g "having " havings, g.orderClause orders,
         g.dialect.limitClause limit offset, g.dialect.offsetClause offset,
         g.dialect.lockClause lock] }

end

theorem Linked.clause_eq (g : Grammar) (keyword : String) (conditions : List Linked) :
    Linked.clause g keyword conditions =
      if conditions.isEmpty then [] else .text keyword :: Linked.first g conditions := by
  match conditions with
  | [] => rfl
  | .mk link condition :: rest =>
    rw [Linked.clause, Linked.first]
    rfl

namespace Query

/-- The pieces of the SELECT. -/
def pieces (q : Query) (g : Grammar) : List Piece := (q.outline g).pieces

/-- The SELECT of a query with the values it binds. -/
def select (q : Query) (g : Grammar) : Statement := ⟨q.pieces g, q.values⟩

/-- Asks whether a query has rows. -/
def exists? (q : Query) (g : Grammar) : Statement :=
  let inner := q.pieces g
  let label := Grammar.segment "exists"
  match g.dialect with
  | .hana =>
    ⟨.text "select case when exists" :: parenthesised inner ++
      [.text " then 1 else 0 end as ", label, .text " from dummy"], q.values⟩
  | _ => ⟨.text "select exists" :: parenthesised inner ++ [.text " as ", label], q.values⟩

/-- The query without its select list, its ordering, its paging and the values bound there. -/
def forAggregate (q : Query) : Query :=
  { q with
    columns := [], distinct := false, orders := [], limit := none, offset := none
    bound := { q.bound with select := [], order := [] } }

/-- One number or value computed over all rows of a query. Distinct queries count distinct values,
unless all columns are meant. -/
def aggregate (q : Query) (g : Grammar) (function column : String) : Statement :=
  let argument := if column = "*" then [.text "*"] else g.column column
  let everything := match argument with
    | [.text "*"] => true
    | _ => false
  let distinct := if q.distinct && !everything then [.text "distinct "] else []
  let plain := q.forAggregate
  let head :=
    .text "select " :: .text (function ++ "(") :: distinct ++ argument ++ [.text ") as aggregate"]
  ⟨Outline.pieces ⟨head, (plain.outline g).clauses⟩, plain.values⟩

end Query

end Sqlwright
