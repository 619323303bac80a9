import Sqlwright.Row

/-!
Talking to a server. A connection answers each request from the requests sent before it, so every
behaviour of a server that depends on its past is a connection. A `Session` is a computation over
that record of requests; what it has sent remains known even where it ends in a fault.
-/

namespace Sqlwright

/-- How a configured server is reached and how its tables are named. -/
structure Config where
  name : String := "primary"
  driver : String
  dsn : String
  database : Option String := none
  schema : Option String := none
  tablePrefix : String := ""
  readOnly : Bool := false
  deriving Repr, DecidableEq

inductive Verb where
  | query
  | execute
  | insert
  deriving DecidableEq, Repr

/-- One statement as it was sent. -/
structure Request where
  verb : Verb
  sql : String
  values : List Value

/-- A server's answers, each a function of the earlier requests. -/
structure Connection where
  dialect : Dialect
  /-- The rows of a query. -/
  query : List Request → String → List Value → Except Fault (List Row)
  /-- The number of rows a statement touched. -/
  execute : List Request → String → List Value → Except Fault Nat
  /-- The id of an inserted row. -/
  insert : List Request → String → List Value → Except Fault Int64

/-- A computation that sends requests and may end in a fault. -/
abbrev Session := ExceptT Fault (StateM (List Request))

namespace Connection

/-- Records a request, then gives the server's answer to it. -/
def send {α : Type} (verb : Verb)
    (answer : List Request → String → List Value → Except Fault α)
    (sql : String) (values : List Value) : Session α := do
  let sent ← get
  set (sent ++ [⟨verb, sql, values⟩])
  match answer sent sql values with
  | .ok result => return result
  | .error fault => throw fault

def runQuery (c : Connection) (sql : String) (values : List Value) : Session (List Row) :=
  send .query c.query sql values

def runExecute (c : Connection) (sql : String) (values : List Value) : Session Nat :=
  send .execute c.execute sql values

def runInsert (c : Connection) (sql : String) (values : List Value) : Session Int64 :=
  send .insert c.insert sql values

/-- The first row of a query. -/
def queryOne (c : Connection) (sql : String) (values : List Value) : Session (Option Row) := do
  return (← c.runQuery sql values).head?

end Connection

/-- A statement prepared by a server, with the number of values it takes. -/
structure PreparedStatement where
  id : Nat
  sql : String
  parameterCount : Nat

namespace PreparedStatement

def accepts (s : PreparedStatement) (values : List Value) : Bool :=
  values.length == s.parameterCount

/-- Executes the statement if it gets as many values as it takes. -/
def execute (s : PreparedStatement) (c : Connection) (values : List Value) : Session Nat :=
  if s.accepts values then c.runExecute s.sql values
  else throw (.parameterCount s.parameterCount values.length s.sql)

end PreparedStatement

/-- Runs a session from an empty record. -/
def Session.run {α : Type} (s : Session α) : Except Fault α × List Request :=
  StateT.run (ExceptT.run s) []

end Sqlwright
