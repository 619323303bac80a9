import Sqlwright.Grammar
import Sqlwright.Issue

/-!
Queries as data. A query holds its clauses and, apart from them, the values bound in each section;
sections flatten in the order in which their clauses are written. Operands, conditions, select
entries and sources may hold whole queries.
-/

namespace Sqlwright

/-- How a condition attaches to the one before it. -/
inductive Connective where
  | and
  | or
  deriving DecidableEq, Repr

/-- The part of a date or time that is compared. -/
inductive DatePart where
  | date
  | time
  | year
  | month
  | day
  deriving DecidableEq, Repr

inductive Direction where
  | asc
  | desc
  deriving DecidableEq, Repr

/-- A sort direction in either case of letters. -/
def Direction.parse? (s : String) : Option Direction :=
  if s.toLower = "asc" then some .asc else if s.toLower = "desc" then some .desc else none

/-- Row locks. -/
inductive Lock where
  | forUpdate
  | shared
  deriving DecidableEq, Repr

inductive JoinKind where
  | inner
  | left
  | right
  | cross
  deriving DecidableEq, Repr

/-- One comparison of two columns in a join. -/
structure JoinCondition where
  connective : Connective
  first : String
  operator : String
  second : String
  deriving Repr

structure Join where
  kind : JoinKind
  table : String
  conditions : List JoinCondition
  deriving Repr

/-- An entry of ORDER BY. -/
inductive Ordering where
  | column (name : String) (direction : Direction)
  | raw (sql : String) (places : Nat)
  deriving Repr

/-- The values bound in each section of a query. -/
structure Bindings where
  select : List Value := []
  source : List Value := []
  join : List Value := []
  condition : List Value := []
  group : List Value := []
  having : List Value := []
  order : List Value := []
  deriving Inhabited

/-- The sections in the order in which their clauses are written. -/
inductive Section where
  | select
  | source
  | join
  | condition
  | group
  | having
  | order
  deriving DecidableEq, Repr

namespace Bindings

/-- All values in the order of the sections. -/
def all (b : Bindings) : List Value :=
  b.select ++ b.source ++ b.join ++ b.condition ++ b.group ++ b.having ++ b.order

def isEmpty (b : Bindings) : Bool := b.all.isEmpty

/-- Appends values to one section. -/
def add (b : Bindings) (values : List Value) : Section → Bindings
  | .select => { b with select := b.select ++ values }
  | .source => { b with source := b.source ++ values }
  | .join => { b with join := b.join ++ values }
  | .condition => { b with condition := b.condition ++ values }
  | .group => { b with group := b.group ++ values }
  | .having => { b with having := b.having ++ values }
  | .order => { b with order := b.order ++ values }

end Bindings

mutual

/-- What a column is compared with or set to. -/
inductive Operand where
  /-- A bound value. -/
  | value (v : Value)
  /-- SQL that is written as it is. -/
  | raw (sql : String)
  /-- Another column. -/
  | column (name : String)
  /-- A query in parentheses. -/
  | sub (query : Query)

/-- An entry of the select list. -/
inductive Selection where
  | column (reference : String)
  | raw (sql : String) (places : Nat)
  | sub (query : Query) (label : String)

/-- What a query selects from. -/
inductive Source where
  | table (name : String) (label : Option String)
  | sub (query : Query) (label : String)

/-- A condition of WHERE or HAVING. -/
inductive Condition where
  /-- `column operator value`. -/
  | compare (column operator : String) (value : Operand)
  /-- `(query) operator value`. -/
  | compareSub (query : Query) (operator : String) (value : Operand)
  /-- `first operator second`, both columns. -/
  | columns (first operator second : String)
  | null (column : String) (negated : Bool)
  | between (column : String) (low high : Operand) (negated : Bool)
  | among (column : String) (values : List Operand) (negated : Bool)
  | amongSub (column : String) (query : Query) (negated : Bool)
  | exists (query : Query) (negated : Bool)
  | raw (sql : String) (places : Nat)
  /-- Conditions in parentheses. -/
  | group (conditions : List Linked)
  | datePart (part : DatePart) (column operator : String) (value : Operand)

/-- A condition with the connective in front of it. -/
inductive Linked where
  | mk (connective : Connective) (condition : Condition)

structure Query where
  source : Option Source := none
  columns : List Selection := []
  distinct : Bool := false
  joins : List Join := []
  wheres : List Linked := []
  groups : List String := []
  havings : List Linked := []
  orders : List Ordering := []
  limit : Option Nat := none
  offset : Option Nat := none
  lock : Option Lock := none
  bound : Bindings := {}
  /-- What had to be repaired or skipped while the query was built. -/
  issues : List Issue := []

end

instance : Inhabited Operand := ⟨.value .null⟩

instance : Inhabited Query := ⟨{}⟩

namespace Linked

def connective : Linked → Connective
  | .mk connective _ => connective

def condition : Linked → Condition
  | .mk _ condition => condition

end Linked

namespace Source

/-- A table, with the alias that its text ends in. -/
def ofTable (text : String) : Source :=
  match Text.splitAlias text with
  | some (name, label) => .table name (some label)
  | none => .table (Text.trim text) none

/-- The name under which columns refer to a source. -/
def reference : Source → String
  | .table name label => label.getD name
  | .sub _ label => label

/-- The table of a source that is one. -/
def tableName? : Source → Option String
  | .table name _ => some name
  | .sub _ _ => none

def label? : Source → Option String
  | .table _ label => label
  | .sub _ label => some label

end Source

namespace Query

/-- The values of a query in the order in which its clauses are written. -/
def values (q : Query) : List Value := q.bound.all

/-- Appends values to one section. -/
def bind (q : Query) (values : List Value) (target : Section) : Query :=
  { q with bound := q.bound.add values target }

/-- The table of a query on a plain table. -/
def tableName? (q : Query) : Option String := q.source.bind Source.tableName?

end Query

namespace Operand

/-- The values an operand brings along, in order. -/
def values : Operand → List Value
  | .value v => [v]
  | .sub query => query.values
  | .raw _ => []
  | .column _ => []

/-- A bound NULL. -/
def isNull : Operand → Bool
  | .value .null => true
  | _ => false

/-- The text of a bound text. -/
def text? : Operand → Option String
  | .value (.text s) => some s
  | _ => none

/-- The form shown in diagnostics, which names the kind of operand. -/
def diagnostic : Operand → String
  | .value v => "Value(" ++ v.diagnostic ++ ")"
  | .raw sql => "Raw(Raw(" ++ Text.diagnosticString sql ++ "))"
  | .column name => "Column(" ++ Text.diagnosticString name ++ ")"
  | .sub _ => "Sub(Query)"

end Operand

end Sqlwright
