import Sqlwright.Json
import Sqlwright.Text.Utf8

/-!
The values that are bound to a statement and that come back in a row, with the conversions between
them. A conversion answers `none` when a value has no reading of the wanted kind.
-/

namespace Sqlwright

inductive Value where
  | null
  | bool (flag : Bool)
  | tinyInt (n : Int8)
  | smallInt (n : Int16)
  | int (n : Int32)
  | bigInt (n : Int64)
  | float (x : Float32)
  | double (x : Float)
  /-- An exact number kept as its text. -/
  | decimal (digits : String)
  | text (s : String)
  | bytes (data : List UInt8)
  | json (value : Json)
  /-- Stands for the default of the column it is written to. -/
  | default
  deriving Inhabited

namespace Value

def isNull : Value → Bool
  | .null => true
  | _ => false

/-- The name of the kind of a value. -/
def typeName : Value → String
  | .null => "NULL"
  | .bool _ => "BOOLEAN"
  | .tinyInt _ => "TINYINT"
  | .smallInt _ => "SMALLINT"
  | .int _ => "INTEGER"
  | .bigInt _ => "BIGINT"
  | .float _ => "REAL"
  | .double _ => "DOUBLE"
  | .decimal _ => "DECIMAL"
  | .text _ => "TEXT"
  | .bytes _ => "BLOB"
  | .json _ => "JSON"
  | .default => "DEFAULT"

/-- The value of an integer of any width. -/
def integer? : Value → Option Int64
  | .tinyInt n => some (Int64.ofInt n.toInt)
  | .smallInt n => some (Int64.ofInt n.toInt)
  | .int n => some (Int64.ofInt n.toInt)
  | .bigInt n => some n
  | _ => none

/-- Texts that say yes and no; letters of either case are accepted, blanks are not. -/
def truthOf (s : String) : Option Bool :=
  let word := s.toLower
  if word ∈ ["true", "yes", "y", "1", "t"] then some true
  else if word ∈ ["false", "no", "n", "0", "f", ""] then some false
  else none

/-- A truth value: a flag, a text that says yes or no, or an integer that is not zero. -/
def asBool : Value → Option Bool
  | .bool flag => some flag
  | .text s => truthOf s
  | value => value.integer?.map (· != 0)

/-- A 64-bit integer: an integer, a flag as 0 or 1, or a text that holds one between blanks. -/
def asInt64 : Value → Option Int64
  | .bool flag => some (if flag then 1 else 0)
  | .text s => Number.readInt64? (Text.trimChars s.toList)
  | .decimal s => Number.readInt64? (Text.trimChars s.toList)
  | value => value.integer?

private def readDouble (s : String) : Option Float :=
  (Number.readFloat? (Text.trimChars s.toList)).map (·.toDouble)

/-- A 64-bit float: a float, an integer rounded to nearest, or a text that holds a number between
blanks. -/
def asDouble : Value → Option Float
  | .float x => some x.toFloat
  | .double x => some x
  | .decimal s => readDouble s
  | .text s => readDouble s
  | value => value.integer?.map fun n => Float.ofInt n.toInt

/-- The text of a value that is stored as text. -/
def asText? : Value → Option String
  | .text s => some s
  | .decimal s => some s
  | _ => none

/-- A readable text for every value but NULL and the default marker. -/
def toText : Value → Option String
  | .null => none
  | .default => none
  | .decimal s => some s
  | .text s => some s
  | .bytes data => some (Text.ofUtf8 data)
  | .json value => some value.render
  | .bool flag => some (if flag then "true" else "false")
  | .float x => some (Number.FloatStyle.plain.single x)
  | .double x => some (Number.FloatStyle.plain.double x)
  | value => value.integer?.map fun n => toString n.toInt

/-- An unsigned 64-bit count as a value; counts beyond the signed range are clamped to its end. -/
def ofWide (n : Nat) : Value :=
  .bigInt (Int64.ofInt (min n 9223372036854775807 : Nat))

/-- The form shown in diagnostics, which names the kind of value. -/
def diagnostic : Value → String
  | .null => "Null"
  | .default => "Default"
  | .bool flag => "Bool(" ++ (if flag then "true" else "false") ++ ")"
  | .tinyInt n => "TinyInt(" ++ toString n.toInt ++ ")"
  | .smallInt n => "SmallInt(" ++ toString n.toInt ++ ")"
  | .int n => "Int(" ++ toString n.toInt ++ ")"
  | .bigInt n => "BigInt(" ++ toString n.toInt ++ ")"
  | .float x => "Float(" ++ Number.FloatStyle.diagnostic.single x ++ ")"
  | .double x => "Double(" ++ Number.FloatStyle.diagnostic.double x ++ ")"
  | .decimal s => "Decimal(" ++ Text.diagnosticString s ++ ")"
  | .text s => "Text(" ++ Text.diagnosticString s ++ ")"
  | .bytes data => "Bytes([" ++ Text.join ", " (data.map fun b => toString b.toNat) ++ "])"
  | .json value => "Json(" ++ value.diagnostic ++ ")"

end Value

end Sqlwright
