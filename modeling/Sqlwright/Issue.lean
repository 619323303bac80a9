import Sqlwright.Dialect
import Sqlwright.Text.Escape
import Sqlwright.Text.Fields

/-!
Input that a query builder had to repair or skip, and clauses that a dialect cannot write. Both are
harmless by default and fatal in strict mode.
-/

namespace Sqlwright

/-- One repaired or skipped input. -/
inductive Issue where
  /-- An operator outside the dialect's list was replaced by equality. -/
  | unknownOperator (operator : String)
  /-- A range with fewer than two ends was skipped. -/
  | openRange (column : String)
  /-- A condition row of the wrong shape was skipped; `shown` is its diagnostic form. -/
  | malformedRow (shown : String)
  /-- A row of column names of the wrong length was skipped. -/
  | malformedColumns (row : List String)
  /-- A sort direction other than the two known ones was read as ascending. -/
  | unknownDirection (direction : String)

/-- Elements in brackets, as diagnostics show lists. -/
def bracketed (elements : List String) : String := "[" ++ Text.join ", " elements ++ "]"

def Issue.message : Issue → String
  | .unknownOperator operator => "unknown operator `" ++ operator ++ "` replaced by `=`"
  | .openRange column => "between on `" ++ column ++ "` needs two values; condition skipped"
  | .malformedRow shown => "malformed condition row skipped: " ++ shown
  | .malformedColumns row =>
    "malformed column condition skipped: " ++ bracketed (row.map Text.diagnosticString)
  | .unknownDirection direction =>
    "unknown sort direction `" ++ direction ++ "` replaced by `asc`"

/-- Clauses that an UPDATE or DELETE of a dialect drops. -/
inductive WriteLimit where
  /-- The dialect writes neither joins nor ordering nor paging. -/
  | plainOnly (dialect : Dialect)
  /-- The dialect does not order or limit a write that joins. -/
  | unorderedJoins (dialect : Dialect)
  deriving DecidableEq

def WriteLimit.message : WriteLimit → String
  | .plainOnly dialect => dialect.name ++
      " cannot join or limit UPDATE/DELETE; joins, ordering and paging were dropped"
  | .unorderedJoins dialect => dialect.name ++
      " cannot order or limit a joined UPDATE/DELETE; ordering and limit were dropped"

end Sqlwright
