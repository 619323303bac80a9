import Sqlwright.Query.Builder

/-!
Builder calls as data. A `Call` is one step of building a query, with the calls of its nested
builders inside it, and `Call.runAll` performs a list of calls. Statements about everything that can
be built are statements about lists of calls.
-/

namespace Sqlwright

mutual

/-- An operand of a call; a query is given by the calls that build it. -/
inductive Arg where
  | value (v : Value)
  | raw (sql : String)
  | column (name : String)
  | sub (calls : List Call)

/-- An entry of a select call. -/
inductive Item where
  /-- A comma separated list of columns. -/
  | columns (list : String)
  /-- SQL that declares its number of places; no values come with it. -/
  | raw (sql : String) (places : Nat := 0)
  | sub (calls : List Call) (label : String)

/-- One step of building a query. -/
inductive Call where
  | table (name : String)
  | fromSub (calls : List Call) (label : String)
  | select (items : List Item)
  | addSelect (items : List Item)
  | selectRaw (sql : String) (values : List Value)
  | selectSub (calls : List Call) (label : String)
  | distinct
  | compare (link : Connective) (column operator : String) (value : Arg)
  | compareSub (column operator : String) (calls : List Call)
  | subCompare (calls : List Call) (operator : String) (value : Arg)
  | group (link : Connective) (calls : List Call)
  | rows (link : Connective) (rows : List (List Arg))
  | columns (link : Connective) (first operator second : String)
  | columnRows (rows : List (List String))
  | nulls (link : Connective) (columns : List String) (negated : Bool)
  | raw (link : Connective) (sql : String) (values : List Value)
  | between (link : Connective) (column : String) (ends : List Arg) (negated : Bool)
  | among (link : Connective) (column : String) (values : List Arg) (negated : Bool)
  | amongSub (column : String) (calls : List Call) (negated : Bool)
  | exists (link : Connective) (calls : List Call) (negated : Bool)
  | datePart (link : Connective) (part : DatePart) (column operator : String) (value : Arg)
  /-- Performs the first calls when the condition holds and the second ones otherwise. -/
  | branch (condition : Bool) (yes no : List Call)
  | join (kind : JoinKind) (table first operator second : String)
  | crossJoin (table : String)
  | joinWith (join : Join)
  | groupBy (lists : List String)
  | having (link : Connective) (column operator : String) (value : Arg)
  | havingRaw (sql : String) (values : List Value)
  | orderBy (column direction : String)
  | orderByRaw (sql : String) (values : List Value)
  | limit (rows : Nat)
  | offset (rows : Nat)
  | forPage (page perPage : Nat)
  | lock (mode : Lock)
  | strict (flag : Bool)
  | reset

end

mutual

/-- Performs one call. -/
def Call.run : Call → Builder → Builder
  | .table name, b => b.table name
  | .fromSub calls label, b => b.fromQuery (Call.runAll calls b.fresh).query label
  | .select items, b => Item.addAll items b.clearSelect
  | .addSelect items, b => Item.addAll items b
  | .selectRaw sql values, b => b.selectRaw sql values
  | .selectSub calls label, b => b.selectQuery (Call.runAll calls b.fresh).query label
  | .distinct, b => b.distinct
  | .compare link column operator value, b => b.whereCompare link column operator (value.operand b)
  | .compareSub column operator calls, b =>
    b.whereCompare .and column operator (.sub (Call.runAll calls b.fresh).query)
  | .subCompare calls operator value, b =>
    b.whereQueryCompare (Call.runAll calls b.fresh).query operator (value.operand b)
  | .group link calls, b => b.addGroup link (Call.runAll calls b.freshGroup).query
  | .rows link rows, b => b.whereRows link (Arg.operandRows rows b)
  | .columns link first operator second, b => b.whereColumns link first operator second
  | .columnRows rows, b => b.whereColumnRows rows
  | .nulls link columns negated, b =>
    columns.foldl (fun b column => b.whereNull link column negated) b
  | .raw link sql values, b => b.whereRaw link sql values
  | .between link column ends negated, b =>
    b.whereBetween link column (Arg.operands ends b) negated
  | .among link column values negated, b =>
    b.whereAmong link column (Arg.operands values b) negated
  | .amongSub column calls negated, b =>
    b.whereAmongQuery column (Call.runAll calls b.fresh).query negated
  | .exists link calls negated, b => b.whereExists link (Call.runAll calls b.fresh).query negated
  | .datePart link part column operator value, b =>
    b.whereDatePart link part column operator (value.operand b)
  | .branch condition yes no, b => if condition then Call.runAll yes b else Call.runAll no b
  | .join kind table first operator second, b => b.join kind table first operator second
  | .crossJoin table, b => b.crossJoin table
  | .joinWith join, b => b.addJoin join
  | .groupBy lists, b => b.groupBy lists
  | .having link column operator value, b => b.having link column operator (value.operand b)
  | .havingRaw sql values, b => b.havingRaw sql values
  | .orderBy column direction, b => b.orderBy column direction
  | .orderByRaw sql values, b => b.orderByRaw sql values
  | .limit rows, b => b.limit rows
  | .offset rows, b => b.offset rows
  | .forPage page perPage, b => b.forPage page perPage
  | .lock mode, b => b.lock mode
  | .strict flag, b => b.strict flag
  | .reset, b => b.reset

/-- Performs calls in order. -/
def Call.runAll : List Call → Builder → Builder
  | [], b => b
  | call :: rest, b => Call.runAll rest (call.run b)

/-- The operand of a call; a query is built on a fresh builder and keeps its issues. -/
def Arg.operand : Arg → Builder → Operand
  | .value v, _ => .value v
  | .raw sql, _ => .raw sql
  | .column name, _ => .column name
  | .sub calls, b => .sub (Call.runAll calls b.fresh).query

def Arg.operands : List Arg → Builder → List Operand
  | [], _ => []
  | arg :: rest, b => arg.operand b :: Arg.operands rest b

def Arg.operandRows : List (List Arg) → Builder → List (List Operand)
  | [], _ => []
  | row :: rest, b => Arg.operands row b :: Arg.operandRows rest b

/-- Adds one entry to the select list. -/
def Item.add : Item → Builder → Builder
  | .columns list, b => b.selectColumns list
  | .raw sql places, b => b.addSelection (.raw sql places) []
  | .sub calls label, b => b.selectQuery (Call.runAll calls b.fresh).query label

def Item.addAll : List Item → Builder → Builder
  | [], b => b
  | item :: rest, b => Item.addAll rest (item.add b)

end

/-- The query that calls build from nothing. -/
def Call.build (g : Grammar) (calls : List Call) : Query :=
  (Call.runAll calls ({ grammar := g } : Builder)).query

end Sqlwright
