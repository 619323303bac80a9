/-! Indexes and primary keys. -/

namespace Sqlwright

inductive IndexKind where
  | plain
  | unique
  | primary
  deriving DecidableEq, Repr, Inhabited

/-- The name of a kind of index. -/
def IndexKind.name : IndexKind → String
  | .plain => "index"
  | .unique => "unique"
  | .primary => "primary"

structure Index where
  /-- The name within the table; what is stored may carry the table's name too. -/
  name : String
  tableName : String
  kind : IndexKind
  /-- The columns in key order. -/
  columns : List String
  comment : Option String := none
  deriving DecidableEq, Repr, Inhabited

structure PrimaryKey where
  /-- The name of the constraint. -/
  name : String := "PRIMARY"
  tableName : String
  columns : List String
  deriving DecidableEq, Repr, Inhabited

end Sqlwright
