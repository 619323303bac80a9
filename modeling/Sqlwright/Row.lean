import Sqlwright.Fault
import Sqlwright.Value

/-!
Rows of a result. Cells are found by position or by column name; a name is first looked up as it is
written and then without regard to the case of ASCII letters, and of several matches the first
counts. A `Reading` says how a cell becomes a value of a Lean type.
-/

namespace Sqlwright

structure Row where
  names : List String
  values : List Value
  deriving Inhabited

/-- How cells are read as an `α`. -/
structure Reading (α : Type) where
  /-- The name of the wanted type where there is no cell at all. -/
  wanted : String
  /-- The name of the wanted type where the cell is of another kind. -/
  target : String
  read : Value → Option α

namespace Reading

def value : Reading Value := ⟨"Value", "Value", some⟩

def bool : Reading Bool := ⟨"bool", "bool", Value.asBool⟩

def int64 : Reading Int64 := ⟨"i64", "i64", Value.asInt64⟩

def int32 : Reading Int32 :=
  ⟨"i32", "i32", fun v => v.asInt64.bind fun n =>
    if -2147483648 ≤ n.toInt ∧ n.toInt ≤ 2147483647 then some (Int32.ofInt n.toInt) else none⟩

/-- An unsigned 32-bit count. -/
def count : Reading Nat :=
  ⟨"u32", "u32", fun v => v.asInt64.bind fun n =>
    if 0 ≤ n.toInt ∧ n.toInt ≤ Number.maxCount then some n.toInt.toNat else none⟩

def double : Reading Float := ⟨"f64", "f64", Value.asDouble⟩

def text : Reading String := ⟨"String", "String", Value.toText⟩

/-- NULL as none, every other value by the given reading. -/
def optional {α : Type} (inner : Reading α) : Reading (Option α) where
  wanted := "Option<" ++ inner.wanted ++ ">"
  target := inner.target
  read v := if v.isNull then some none else (inner.read v).map some

end Reading

namespace Row

/-- The position of a column: exact spelling first, then the first match in lower case. -/
def position? (row : Row) (name : String) : Option Nat :=
  match row.names.findIdx? (· == name) with
  | some i => some i
  | none => row.names.findIdx? (·.toLower == name.toLower)

def get? (row : Row) (i : Nat) : Option Value := row.values[i]?

def getNamed? (row : Row) (name : String) : Option Value := (row.position? name).bind row.get?

private def readCell {α : Type} (reading : Reading α) (column : Option String) (v : Value) :
    Except Fault α :=
  match reading.read v with
  | some a => .ok a
  | none => .error (.cell reading.target (.wrongKind v.typeName) column)

/-- The cell at a position, read as an `α`. -/
def readAt {α : Type} (row : Row) (reading : Reading α) (i : Nat) : Except Fault α :=
  match row.get? i with
  | some v => readCell reading none v
  | none => .error (.cell reading.wanted (.noColumnAt i row.values.length) none)

/-- The cell of a named column, read as an `α`. -/
def readNamed {α : Type} (row : Row) (reading : Reading α) (name : String) : Except Fault α :=
  match row.getNamed? name with
  | some v => readCell reading (some name) v
  | none => .error (.cell reading.wanted (.noColumnNamed name) (some name))

/-- The first cell of the first row. -/
def firstCell? (rows : List Row) : Option Value := rows.head?.bind (·.get? 0)

end Row

end Sqlwright
