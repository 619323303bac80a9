import Sqlwright.Query.Basic

/-!
Records: what an INSERT or UPDATE writes. A record keeps its columns in the order in which they were
first set, each once, with the operand that was set last.
-/

namespace Sqlwright

structure Record where
  fields : List (String × Operand) := []
  deriving Inhabited

namespace Record

/-- Fields with one column set: in place where it is there, at the end otherwise. -/
def setField (column : String) (value : Operand) :
    List (String × Operand) → List (String × Operand)
  | [] => [(column, value)]
  | field :: rest =>
    if field.1 = column then (column, value) :: rest
    else field :: setField column value rest

def set (r : Record) (column : String) (value : Operand) : Record :=
  ⟨setField column value r.fields⟩

def ofList (fields : List (String × Operand)) : Record :=
  fields.foldl (fun r field => r.set field.1 field.2) {}

def get? (r : Record) (column : String) : Option Operand :=
  (r.fields.find? (·.1 = column)).map (·.2)

def columns (r : Record) : List String := r.fields.map (·.1)

/-- The values the operands bring along, in order. -/
def values (r : Record) : List Value := r.fields.flatMap fun field => field.2.values

/-- The operands for the given columns; a column that is not set binds NULL. -/
def row (r : Record) (columns : List String) : List Operand :=
  columns.map fun column => (r.get? column).getD (.value .null)

end Record

/-- Columns and the rows to be written under them. -/
structure RowSet where
  columns : List String
  rows : List (List Operand)

namespace RowSet

/-- The rows of several records under the columns of the first one. -/
def ofRecords : List Record → RowSet
  | [] => ⟨[], []⟩
  | first :: rest => ⟨first.columns, (first :: rest).map fun r => r.row first.columns⟩

/-- Nothing to write but defaults. -/
def isEmpty (s : RowSet) : Bool := s.columns.isEmpty || s.rows.isEmpty

/-- The values the rows bring along, row by row. -/
def values (s : RowSet) : List Value := s.rows.flatten.flatMap Operand.values

end RowSet

/-- What an upsert does to a row that is already there. -/
inductive Overwrite where
  /-- Takes these columns from the new row. -/
  | columns (names : List String)
  /-- Sets columns to operands. -/
  | values (record : Record)

namespace Overwrite

def isEmpty : Overwrite → Bool
  | .columns names => names.isEmpty
  | .values record => record.fields.isEmpty

/-- An empty overwrite stands for all inserted columns outside the key. -/
def orInserted (update : Overwrite) (inserted key : List String) : Overwrite :=
  if update.isEmpty then .columns (inserted.filter fun c => !key.contains c) else update

end Overwrite

end Sqlwright
