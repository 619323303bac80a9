import Sqlwright.Dialect
import Sqlwright.Table.ColumnType
import Sqlwright.Text.Blank

/-!
The native names of column types in each dialect, and the way back: names that only a catalog uses
come first, then the first type with this native name.
-/

namespace Sqlwright.Dialect

def genericName? : ColumnType → Option String
  | .string => some "VARCHAR"
  | .char => some "CHAR"
  | .text | .mediumText | .longText => some "TEXT"
  | .tinyInteger | .smallInteger | .year => some "SMALLINT"
  | .integer => some "INTEGER"
  | .bigInteger => some "BIGINT"
  | .decimal => some "DECIMAL"
  | .float => some "FLOAT"
  | .double => some "DOUBLE PRECISION"
  | .boolean => some "BOOLEAN"
  | .date => some "DATE"
  | .dateTime | .timestamp => some "TIMESTAMP"
  | .dateTimeTz | .timestampTz => some "TIMESTAMP WITH TIME ZONE"
  | .time => some "TIME"
  | .timeTz => some "TIME WITH TIME ZONE"
  | .binary => some "BLOB"
  | .json | .jsonb => some "JSON"
  | .uuid => some "CHAR(36)"
  | .ipAddress => some "VARCHAR(45)"
  | .macAddress => some "VARCHAR(17)"
  | .enum | .vector | .vectorF16 | .halfVector | .other _ => none

def mysqlName? : ColumnType → Option String
  | .string => some "VARCHAR"
  | .char => some "CHAR"
  | .text => some "TEXT"
  | .mediumText => some "MEDIUMTEXT"
  | .longText => some "LONGTEXT"
  | .tinyInteger => some "TINYINT"
  | .smallInteger => some "SMALLINT"
  | .integer => some "INT"
  | .bigInteger => some "BIGINT"
  | .decimal => some "DECIMAL"
  | .float => some "FLOAT"
  | .double => some "DOUBLE"
  | .boolean => some "TINYINT(1)"
  | .date => some "DATE"
  | .dateTime | .dateTimeTz => some "DATETIME"
  | .time | .timeTz => some "TIME"
  | .timestamp | .timestampTz => some "TIMESTAMP"
  | .year => some "YEAR"
  | .binary => some "BLOB"
  | .json | .jsonb => some "JSON"
  | .uuid => some "CHAR(36)"
  | .ipAddress => some "VARCHAR(45)"
  | .macAddress => some "VARCHAR(17)"
  | .enum => some "ENUM"
  | .vector | .vectorF16 | .halfVector | .other _ => none

def postgresName? : ColumnType → Option String
  | .string => some "VARCHAR"
  | .char => some "CHAR"
  | .text | .mediumText | .longText => some "TEXT"
  | .tinyInteger | .smallInteger | .year => some "SMALLINT"
  | .integer | .ipAddress => some "INTEGER"
  | .bigInteger => some "BIGINT"
  | .decimal => some "DECIMAL"
  | .float => some "REAL"
  | .double => some "DOUBLE PRECISION"
  | .boolean => some "BOOLEAN"
  | .date => some "DATE"
  | .dateTime | .timestamp => some "TIMESTAMP"
  | .dateTimeTz | .timestampTz => some "TIMESTAMPTZ"
  | .time => some "TIME"
  | .timeTz => some "TIMETZ"
  | .binary => some "BYTEA"
  | .json => some "JSON"
  | .jsonb => some "JSONB"
  | .uuid => some "UUID"
  | .macAddress => some "MACADDR"
  | .vector => some "VECTOR"
  | .vectorF16 => some "VECF16"
  | .halfVector => some "HALFVEC"
  | .enum | .other _ => none

def sqliteName? : ColumnType → Option String
  | .string => some "VARCHAR"
  | .char => some "CHAR"
  | .text | .mediumText | .longText | .json | .jsonb | .enum => some "TEXT"
  | .tinyInteger => some "TINYINT"
  | .smallInteger => some "SMALLINT"
  | .integer | .year => some "INTEGER"
  | .bigInteger => some "BIGINT"
  | .decimal => some "DECIMAL"
  | .float => some "FLOAT"
  | .double => some "DOUBLE"
  | .boolean => some "BOOLEAN"
  | .date => some "DATE"
  | .dateTime | .dateTimeTz => some "DATETIME"
  | .time | .timeTz => some "TIME"
  | .timestamp | .timestampTz => some "TIMESTAMP"
  | .binary => some "BLOB"
  | .uuid => some "CHAR(36)"
  | .ipAddress => some "VARCHAR(45)"
  | .macAddress => some "VARCHAR(17)"
  | .vector | .vectorF16 | .halfVector | .other _ => none

def hanaName? : ColumnType → Option String
  | .string => some "NVARCHAR"
  | .char => some "VARCHAR"
  | .text => some "TEXT"
  | .mediumText | .longText => some "NVARCHAR(5000)"
  | .tinyInteger | .smallInteger | .year => some "SMALLINT"
  | .integer => some "INTEGER"
  | .bigInteger => some "BIGINT"
  | .decimal => some "DECIMAL"
  | .float => some "FLOAT"
  | .double => some "DOUBLE"
  | .boolean => some "BOOLEAN"
  | .date => some "DATE"
  | .dateTime | .timestamp => some "SECONDDATE"
  | .dateTimeTz | .timeTz | .timestampTz => some "TIMESTAMP"
  | .time => some "TIME"
  | .binary => some "VARBINARY"
  | .json | .jsonb => some "NCLOB"
  | .uuid => some "NVARCHAR(36)"
  | .ipAddress => some "NVARCHAR(45)"
  | .macAddress => some "NVARCHAR(100)"
  | .enum => some "ENUM"
  | .vector | .vectorF16 | .halfVector | .other _ => none

/-- The native name of a type, none where the dialect has no such type. -/
def nativeName? : Dialect → ColumnType → Option String
  | .generic => genericName?
  | .mysql => mysqlName?
  | .postgres => postgresName?
  | .sqlite => sqliteName?
  | .hana => hanaName?

/-- The native name of a type; a type the dialect does not have is stored as text. -/
def nativeName (d : Dialect) (type : ColumnType) : String := (d.nativeName? type).getD "VARCHAR"

/-- Names in catalogs that the native names do not lead back to, in upper case. -/
def catalogNames : Dialect → List (String × ColumnType)
  | .generic =>
    [("CHARACTER VARYING", .string), ("CHARACTER", .char), ("INT", .integer),
     ("SMALLINT", .smallInteger), ("TIMESTAMP", .timestamp),
     ("TIMESTAMP WITH TIME ZONE", .timestampTz)]
  | .postgres =>
    [("SMALLINT", .smallInteger), ("INT2", .smallInteger), ("INT4", .integer),
     ("INT8", .bigInteger), ("FLOAT4", .float), ("FLOAT8", .double), ("NUMERIC", .decimal),
     ("BOOL", .boolean), ("TIMESTAMP", .timestamp), ("TIMESTAMPTZ", .timestampTz),
     ("TIMETZ", .timeTz), ("BPCHAR", .char), ("CHARACTER VARYING", .string)]
  | .hana =>
    [("TEXT", .text), ("TIMESTAMP", .timestamp), ("TIME", .time), ("SMALLINT", .smallInteger),
     ("NCLOB", .longText)]
  | .mysql | .sqlite => []

/-- The type of a native name; blanks around it and the case of ASCII letters do not matter. -/
def typeOfNative? (d : Dialect) (native : String) : Option ColumnType :=
  let wanted := (Text.trim native).toUpper
  ((d.catalogNames.find? (·.1 = wanted)).map (·.2)).or
    (ColumnType.all.find? fun type => d.nativeName? type = some wanted)

/-- Of a type, the precision and the scale are written. -/
def takesScale (d : Dialect) (type : ColumnType) : Bool :=
  match d with
  | .mysql => type.isDecimal
  | _ => type = .decimal

/-- Temporal types may say how many digits of a second they keep. -/
def fractionalSeconds : Dialect → Bool
  | .hana => false
  | _ => true

end Sqlwright.Dialect
