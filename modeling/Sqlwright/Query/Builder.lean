import Sqlwright.Query.Basic
import Sqlwright.Connection

/-!
Building queries. Every step changes the clauses of a query and the values bound in their sections
together. Input that makes no sense is repaired or skipped and reported as an issue of the query;
strict builders refuse to compile a query with issues.
-/

namespace Sqlwright

/-- A query under construction, with the grammar it is written in and the connection it runs on. -/
structure Builder where
  grammar : Grammar
  connection : Option Connection := none
  query : Query := {}
  isStrict : Bool := false

namespace Builder

/-- A builder with no clauses that shares everything else. -/
def fresh (b : Builder) : Builder := { b with query := {} }

/-- A fresh builder on the same source, for the conditions of a group. -/
def freshGroup (b : Builder) : Builder := { b with query := { source := b.query.source } }

/-- Discards all clauses, values and issues. -/
def reset (b : Builder) : Builder := b.fresh

/-- Sets whether issues keep the query from being compiled. -/
def strict (b : Builder) (flag : Bool) : Builder := { b with isStrict := flag }

/-- Changes the query. -/
def edit (b : Builder) (change : Query → Query) : Builder := { b with query := change b.query }

/-- Reports an issue. -/
def report (b : Builder) (issue : Issue) : Builder :=
  b.edit fun q => { q with issues := q.issues ++ [issue] }

/-! ### Source and select list -/

/-- Selects from a table; `name as alias` declares an alias. -/
def table (b : Builder) (name : String) : Builder :=
  b.edit fun q => { q with source := some (.ofTable name) }

/-- Selects from a query. -/
def fromQuery (b : Builder) (sub : Query) (label : String) : Builder :=
  b.edit fun q =>
    { q with source := some (.sub sub label), bound := { q.bound with source := sub.values } }

/-- Empties the select list. -/
def clearSelect (b : Builder) : Builder :=
  b.edit fun q => { q with columns := [], bound := { q.bound with select := [] } }

/-- Adds an entry to the select list with the values it takes. -/
def addSelection (b : Builder) (entry : Selection) (values : List Value) : Builder :=
  b.edit fun q => ({ q with columns := q.columns ++ [entry] } : Query).bind values .select

/-- Adds the columns of a comma separated list. -/
def selectColumns (b : Builder) (list : String) : Builder :=
  b.edit fun q => { q with columns := q.columns ++ (Text.commaList list).map .column }

/-- Adds an expression with values for its marks. -/
def selectRaw (b : Builder) (sql : String) (values : List Value) : Builder :=
  b.addSelection (.raw sql values.length) values

/-- Adds a query under an alias. -/
def selectQuery (b : Builder) (sub : Query) (label : String) : Builder :=
  b.addSelection (.sub sub label) sub.values

def distinct (b : Builder) : Builder := b.edit fun q => { q with distinct := true }

/-! ### Conditions -/

/-- Adds a condition with the values it takes. -/
def addCondition (b : Builder) (link : Connective) (condition : Condition) (values : List Value) :
    Builder :=
  b.edit fun q =>
    ({ q with wheres := q.wheres ++ [.mk link condition] } : Query).bind values .condition

/-- The operator as it is written, or equality and an issue when the dialect does not know it. -/
def operator (b : Builder) (symbol : String) : String × Builder :=
  let trimmed := Text.trim symbol
  if b.grammar.isOperator trimmed then (trimmed, b) else ("=", b.report (.unknownOperator trimmed))

def whereNull (b : Builder) (link : Connective) (column : String) (negated : Bool) : Builder :=
  b.addCondition link (.null column negated) []

/-- The operators that turn into a test for NULL when they compare with NULL. -/
def equalities : List String := ["=", "!=", "<>"]

/-- `column operator value`; comparing with NULL for equality tests for NULL. -/
def whereCompare (b : Builder) (link : Connective) (column symbol : String) (value : Operand) :
    Builder :=
  let (written, b) := b.operator symbol
  if value.isNull && equalities.contains written then b.whereNull link column (written != "=")
  else b.addCondition link (.compare column written value) value.values

/-- Adds the conditions of a child query as a group; its issues are handed over. A child without
conditions adds nothing. -/
def addGroup (b : Builder) (link : Connective) (child : Query) : Builder :=
  let b := b.edit fun q => { q with issues := q.issues ++ child.issues }
  if child.wheres.isEmpty then b
  else b.addCondition link (.group child.wheres) child.bound.condition

/-- One row `[column, value]` or `[column, operator, value]`; other rows are reported. -/
def whereRow (b : Builder) (row : List Operand) : Builder :=
  let malformed := b.report (.malformedRow (bracketed (row.map Operand.diagnostic)))
  match row with
  | [column, value] =>
    match column.text? with
    | some c => b.whereCompare .and c "=" value
    | none => malformed
  | [column, operator, value] =>
    match column.text?, operator.text? with
    | some c, some o => b.whereCompare .and c o value
    | _, _ => malformed
  | _ => malformed

/-- A group of condition rows. -/
def whereRows (b : Builder) (link : Connective) (rows : List (List Operand)) : Builder :=
  b.addGroup link (rows.foldl whereRow b.freshGroup).query

/-- `(query) operator value`. -/
def whereQueryCompare (b : Builder) (sub : Query) (symbol : String) (value : Operand) : Builder :=
  let (written, b) := b.operator symbol
  b.addCondition .and (.compareSub sub written value) (sub.values ++ value.values)

/-- `first operator second`, both columns. -/
def whereColumns (b : Builder) (link : Connective) (first symbol second : String) : Builder :=
  let (written, b) := b.operator symbol
  b.addCondition link (.columns first written second) []

/-- One row `[first, second]` or `[first, operator, second]`; other rows are reported. -/
def whereColumnRow (b : Builder) (row : List String) : Builder :=
  match row with
  | [first, second] => b.whereColumns .and first "=" second
  | [first, operator, second] => b.whereColumns .and first operator second
  | _ => b.report (.malformedColumns row)

/-- A group of column comparisons. -/
def whereColumnRows (b : Builder) (rows : List (List String)) : Builder :=
  b.addGroup .and (rows.foldl whereColumnRow b.freshGroup).query

def whereRaw (b : Builder) (link : Connective) (sql : String) (values : List Value) : Builder :=
  b.addCondition link (.raw sql values.length) values

/-- `column between low and high`; ends past the second are ignored. -/
def whereBetween (b : Builder) (link : Connective) (column : String) (ends : List Operand)
    (negated : Bool) : Builder :=
  match ends with
  | low :: high :: _ =>
    b.addCondition link (.between column low high negated) (low.values ++ high.values)
  | _ => b.report (.openRange column)

/-- `column in (values)`. -/
def whereAmong (b : Builder) (link : Connective) (column : String) (values : List Operand)
    (negated : Bool) : Builder :=
  b.addCondition link (.among column values negated) (values.flatMap Operand.values)

/-- `column in (query)`. -/
def whereAmongQuery (b : Builder) (column : String) (sub : Query) (negated : Bool) : Builder :=
  b.addCondition .and (.amongSub column sub negated) sub.values

def whereExists (b : Builder) (link : Connective) (sub : Query) (negated : Bool) : Builder :=
  b.addCondition link (.exists sub negated) sub.values

/-- Compares a part of a date or time. -/
def whereDatePart (b : Builder) (link : Connective) (part : DatePart) (column symbol : String)
    (value : Operand) : Builder :=
  let (written, b) := b.operator symbol
  b.addCondition link (.datePart part column written value) value.values

/-! ### Joins, groups, ordering and paging -/

def addJoin (b : Builder) (join : Join) : Builder :=
  b.edit fun q => { q with joins := q.joins ++ [join] }

/-- A join on one comparison. -/
def join (b : Builder) (kind : JoinKind) (table first symbol second : String) : Builder :=
  let (written, b) := b.operator symbol
  b.addJoin ⟨kind, table, [⟨.and, first, written, second⟩]⟩

def crossJoin (b : Builder) (table : String) : Builder := b.addJoin ⟨.cross, table, []⟩

/-- Groups by the columns of comma separated lists. -/
def groupBy (b : Builder) (lists : List String) : Builder :=
  b.edit fun q => { q with groups := q.groups ++ lists.flatMap Text.commaList }

def addHaving (b : Builder) (link : Connective) (condition : Condition) (values : List Value) :
    Builder :=
  b.edit fun q =>
    ({ q with havings := q.havings ++ [.mk link condition] } : Query).bind values .having

def having (b : Builder) (link : Connective) (column symbol : String) (value : Operand) : Builder :=
  let (written, b) := b.operator symbol
  b.addHaving link (.compare column written value) value.values

def havingRaw (b : Builder) (sql : String) (values : List Value) : Builder :=
  b.addHaving .and (.raw sql values.length) values

def addOrdering (b : Builder) (entry : Ordering) (values : List Value) : Builder :=
  b.edit fun q => ({ q with orders := q.orders ++ [entry] } : Query).bind values .order

/-- Sorts by a column; an unknown direction sorts ascending and is reported. -/
def orderBy (b : Builder) (column direction : String) : Builder :=
  match Direction.parse? direction with
  | some known => b.addOrdering (.column column known) []
  | none => (b.report (.unknownDirection direction)).addOrdering (.column column .asc) []

def orderByRaw (b : Builder) (sql : String) (values : List Value) : Builder :=
  b.addOrdering (.raw sql values.length) values

def limit (b : Builder) (rows : Nat) : Builder := b.edit fun q => { q with limit := some rows }

def offset (b : Builder) (rows : Nat) : Builder := b.edit fun q => { q with offset := some rows }

/-- Page number `page`, counted from one; the offset stays within 64 bits. -/
def forPage (b : Builder) (page perPage : Nat) : Builder :=
  (b.offset (min ((page - 1) * perPage) Number.maxWide)).limit perPage

def lock (b : Builder) (mode : Lock) : Builder := b.edit fun q => { q with lock := some mode }

end Builder

end Sqlwright
