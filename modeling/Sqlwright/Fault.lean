import Sqlwright.Issue

/-!
What can go wrong, by cause. `Fault.message` holds every wording and `Fault.kind` sorts the causes
into the kinds a caller tells apart.
-/

namespace Sqlwright

/-- What was found where a cell of a certain type was wanted. -/
inductive CellProblem where
  /-- The value is of another kind, here by the kind's name. -/
  | wrongKind (typeName : String)
  | noColumnAt (position count : Nat)
  | noColumnNamed (name : String)

def CellProblem.message : CellProblem → String
  | .wrongKind typeName => typeName
  | .noColumnAt position count => "no column at " ++ toString position ++ " of " ++ toString count
  | .noColumnNamed name => "missing column " ++ name

inductive Fault where
  /-- The server cannot be reached; `source` is the cause below it. -/
  | connection (message : String) (source : Option String)
  /-- Configuration refused by a connection. -/
  | configuration (message : String)
  | unknownDriver (driver : String)
  /-- Something is to be run and nothing is connected. -/
  | notConnected
  /-- Strict building met input that had to be repaired or skipped. -/
  | repairedInput (issues : List Issue)
  /-- Strict writing met clauses that the dialect drops. -/
  | droppedClauses (limit : WriteLimit)
  /-- A write without a table to write to. -/
  | noTarget
  /-- The server refused a statement. -/
  | rejected (message sql : String)
  | parameterCount (expected got : Nat) (sql : String)
  /-- An insert that should hand back an id handed back no row. -/
  | noReturnedId (sql : String)
  | returnedIdNotInteger (sql : String)
  /-- The session has no identity value after an insert. -/
  | noIdentity (sql : String)
  | identityNotInteger (sql : String)
  | cell (expected : String) (found : CellProblem) (column : Option String)
  | tableNotFound (table : String)
  /-- An index names a column that the table does not list. -/
  | columnNotFound (column : String)
  /-- A rename whose new name is not in the table. -/
  | columnNotRenamed (column : String)
  | unsupported (dialect : Dialect) (operation : String)
  | unreadableVersion (text : String)
  | noVersion
  /-- The commands of one change that failed, by name, in order. -/
  | composite (failures : List (String × Fault))

/-- The kinds of fault a caller tells apart. -/
inductive FaultKind where
  | connection
  | invalidInput
  | database
  | type
  | tableNotFound
  | columnNotFound
  | unsupported
  | invalidSchema
  | composite
  | configuration
  deriving DecidableEq, Repr

namespace Fault

def kind : Fault → FaultKind
  | .connection .. => .connection
  | .configuration .. | .unknownDriver .. | .notConnected => .configuration
  | .repairedInput .. | .droppedClauses .. | .noTarget => .invalidInput
  | .rejected .. | .parameterCount .. | .noReturnedId .. | .returnedIdNotInteger ..
  | .noIdentity .. | .identityNotInteger .. => .database
  | .cell .. => .type
  | .tableNotFound .. => .tableNotFound
  | .columnNotFound .. | .columnNotRenamed .. => .columnNotFound
  | .unsupported .. => .unsupported
  | .unreadableVersion .. | .noVersion => .invalidSchema
  | .composite .. => .composite

/-- The statement a fault is about. -/
def sql? : Fault → Option String
  | .rejected _ sql | .parameterCount _ _ sql | .noReturnedId sql | .returnedIdNotInteger sql
  | .noIdentity sql | .identityNotInteger sql => some sql
  | _ => none

/-- The cause below a fault, where there is one. -/
def source? : Fault → Option String
  | .connection _ source => source
  | _ => none

private def configurationError (text : String) : String := "Configuration error: " ++ text

private def queryError (text : String) : String := "Query error: " ++ text

private def schemaError (text : String) : String := "Schema error: " ++ text

mutual

/-- The wording of a fault. A composite fault is the messages of its failures, one a line. -/
def message : Fault → String
  | .connection text _ => "Connection error: " ++ text
  | .configuration text => configurationError text
  | .unknownDriver driver =>
    configurationError ("grammar driver " ++ driver ++ " is not registered")
  | .notConnected => configurationError "query builder has no connection"
  | .repairedInput issues => queryError (Text.join "; " (issues.map Issue.message))
  | .droppedClauses limit => queryError limit.message
  | .noTarget => queryError "no table selected for write statement"
  | .rejected text _ => queryError text
  | .parameterCount expected got _ =>
    queryError ("expected " ++ toString expected ++ " parameters, got " ++ toString got)
  | .noReturnedId _ => queryError "insert returned no id"
  | .returnedIdNotInteger _ => queryError "returned id is not an integer"
  | .noIdentity _ => queryError "no identity value"
  | .identityNotInteger _ => queryError "identity value is not an integer"
  | .cell expected found none =>
    "Type error: expected " ++ expected ++ ", found " ++ found.message
  | .cell expected found (some column) =>
    "Type error in column '" ++ column ++ "': expected " ++ expected ++ ", found " ++ found.message
  | .tableNotFound table => schemaError ("the table " ++ table ++ " does not exists")
  | .columnNotFound column => schemaError ("the column " ++ column ++ " does not exists")
  | .columnNotRenamed column => schemaError ("the column " ++ column ++ " not exists")
  | .unsupported dialect operation =>
    schemaError (dialect.name ++ " does not support " ++ operation)
  | .unreadableVersion text => schemaError ("Can't parse the version: " ++ text)
  | .noVersion => schemaError "Can't get the version"
  | .composite failures => Text.join "\n" (messages failures)

/-- The messages of several failures, in order. -/
def messages : List (String × Fault) → List String
  | [] => []
  | (_, fault) :: rest => fault.message :: messages rest

end

end Fault

end Sqlwright
