import Sqlwright.Table.ColumnType
import Sqlwright.Text.Fields
import Sqlwright.Value

/-!
Column definitions, and the marker by which a comment keeps the type of a column that is stored as
another type: `T:<type>|<comment>`.
-/

namespace Sqlwright

/-- The default of a column. -/
inductive DefaultValue where
  /-- A value, written as a literal. -/
  | value (v : Value)
  /-- SQL that is written as it is. -/
  | raw (sql : String)
  deriving Inhabited

structure Column where
  name : String
  /-- The table it belongs to, without the table prefix. -/
  tableName : String := ""
  type : ColumnType
  /-- The type as the catalog tells it. -/
  nativeType : Option String := none
  nullable : Bool := false
  default : Option DefaultValue := none
  /-- Characters of a text, dimensions of a vector. -/
  length : Option Nat := none
  precision : Option Nat := none
  scale : Option Nat := none
  /-- Digits of a fraction of a second. -/
  fractionDigits : Option Nat := none
  unsigned : Bool := false
  autoIncrement : Bool := false
  primary : Bool := false
  comment : Option String := none
  charset : Option String := none
  collation : Option String := none
  /-- The labels of an enum. -/
  options : List String := []
  /-- Counted from one; zero where it is not known yet. -/
  position : Nat := 0
  deriving Inhabited

/-- The type and the comment in a marked comment. -/
def markedComment (comment : String) : Option (ColumnType × Option String) :=
  match comment.toList with
  | 'T' :: ':' :: marked =>
    let (name, rest) := (Text.cut '|' marked).getD (marked, [])
    if name.isEmpty then none
    else some (.ofName (.ofList name), if rest.isEmpty then none else some (.ofList rest))
  | _ => none

/-- A comment with the type in front. -/
def markComment (type : ColumnType) (comment : String) : String :=
  "T:" ++ type.name ++ "|" ++ comment

end Sqlwright
