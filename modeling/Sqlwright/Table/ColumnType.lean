/-!
Column types as every dialect understands them. A type has one name, and `ofName_name` says that
reading the name of a named type gives the type back.
-/

namespace Sqlwright

inductive ColumnType where
  | string
  | char
  | text
  | mediumText
  | longText
  | tinyInteger
  | smallInteger
  | integer
  | bigInteger
  | decimal
  | float
  | double
  | boolean
  | date
  | dateTime
  | dateTimeTz
  | time
  | timeTz
  | timestamp
  | timestampTz
  | year
  | binary
  | json
  | jsonb
  | uuid
  | ipAddress
  | macAddress
  | enum
  | vector
  | vectorF16
  | halfVector
  /-- A type known by its native name only. -/
  | other (native : String)
  deriving DecidableEq, Repr, Inhabited

namespace ColumnType

/-- Every named type. -/
def all : List ColumnType :=
  [.string, .char, .text, .mediumText, .longText, .tinyInteger, .smallInteger, .integer,
   .bigInteger, .decimal, .float, .double, .boolean, .date, .dateTime, .dateTimeTz, .time, .timeTz,
   .timestamp, .timestampTz, .year, .binary, .json, .jsonb, .uuid, .ipAddress, .macAddress, .enum,
   .vector, .vectorF16, .halfVector]

/-- The name of a type. -/
def name : ColumnType → String
  | .string => "string"
  | .char => "char"
  | .text => "text"
  | .mediumText => "mediumText"
  | .longText => "longText"
  | .tinyInteger => "tinyInteger"
  | .smallInteger => "smallInteger"
  | .integer => "integer"
  | .bigInteger => "bigInteger"
  | .decimal => "decimal"
  | .float => "float"
  | .double => "double"
  | .boolean => "boolean"
  | .date => "date"
  | .dateTime => "dateTime"
  | .dateTimeTz => "dateTimeTz"
  | .time => "time"
  | .timeTz => "timeTz"
  | .timestamp => "timestamp"
  | .timestampTz => "timestampTz"
  | .year => "year"
  | .binary => "binary"
  | .json => "json"
  | .jsonb => "jsonb"
  | .uuid => "uuid"
  | .ipAddress => "ipAddress"
  | .macAddress => "macAddress"
  | .enum => "enum"
  | .vector => "vector"
  | .vectorF16 => "vecf16"
  | .halfVector => "halfvec"
  | .other native => native

/-- The type of a name; a name that is none of the named types is kept. -/
def ofName (name : String) : ColumnType := (all.find? (·.name = name)).getD (.other name)

/-- One of the named types. -/
def isKnown : ColumnType → Bool
  | .other _ => false
  | _ => true

/-- Types with a precision and a scale. -/
def isDecimal : ColumnType → Bool
  | .decimal | .float | .double => true
  | _ => false

def isInteger : ColumnType → Bool
  | .tinyInteger | .smallInteger | .integer | .bigInteger => true
  | _ => false

/-- Types that may carry fractions of a second. -/
def isTemporal : ColumnType → Bool
  | .dateTime | .dateTimeTz | .time | .timeTz | .timestamp | .timestampTz => true
  | _ => false

def isJson : ColumnType → Bool
  | .json | .jsonb => true
  | _ => false

/-- Embeddings, which are searched by nearness. -/
def isVector : ColumnType → Bool
  | .vector | .vectorF16 | .halfVector => true
  | _ => false

theorem ofName_name (t : ColumnType) (known : t.isKnown) : ofName t.name = t := by
  cases t with
  | other native => simp [isKnown] at known
  | _ => rfl

end ColumnType

end Sqlwright
