import Sqlwright.Table.Basic

/-!
JSON snapshots of tables and their parts. A column is an object with all its fields, and is read
back from one: a missing optional field is none, any other missing field is refused, fields of other
names are ignored. A column may also be given as the list of its fields in order.
-/

namespace Sqlwright

namespace Json

def ofOption {α : Type} (write : α → Json) : Option α → Json
  | some a => write a
  | none => .null

def ofNat (n : Nat) : Json := .integer n

def ofStrings (texts : List String) : Json := .array (texts.map .string)

/-- Reads null as none. -/
def optional? {α : Type} (read : Json → Option α) : Json → Option (Option α)
  | .null => some none
  | json => (read json).map some

def bool? : Json → Option Bool
  | .bool flag => some flag
  | _ => none

def string? : Json → Option String
  | .string s => some s
  | _ => none

/-- An integer between two bounds. -/
def integer? (least most : Int) : Json → Option Int
  | .integer n => if least ≤ n ∧ n ≤ most then some n else none
  | _ => none

/-- A natural number up to a bound. -/
def natUpTo? (most : Nat) (json : Json) : Option Nat := (json.integer? 0 most).map Int.toNat

/-- Any number as a float. -/
def float? : Json → Option Float
  | .integer n => some (Float.ofInt n)
  | .float x => some x
  | _ => none

def list? {α : Type} (read : Json → Option α) : Json → Option (List α)
  | .array items => items.mapM read
  | _ => none

end Json

namespace Value

/-- An object of one field, which names the kind of value. -/
def tagged (kind : String) (content : Json) : Json := .object [(kind, content)]

def toJson : Value → Json
  | .null => .string "Null"
  | .default => .string "Default"
  | .bool flag => tagged "Bool" (.bool flag)
  | .tinyInt n => tagged "TinyInt" (.integer n.toInt)
  | .smallInt n => tagged "SmallInt" (.integer n.toInt)
  | .int n => tagged "Int" (.integer n.toInt)
  | .bigInt n => tagged "BigInt" (.integer n.toInt)
  | .float x => tagged "Float" (.ofFloat x.toFloat)
  | .double x => tagged "Double" (.ofFloat x)
  | .decimal digits => tagged "Decimal" (.string digits)
  | .text s => tagged "Text" (.string s)
  | .bytes data => tagged "Bytes" (.array (data.map fun b => .ofNat b.toNat))
  | .json value => tagged "Json" value

/-- A single-precision float: integers are rounded once, from their full precision. -/
def single? : Json → Option Float32
  | .integer n => some (Float32.ofInt n)
  | .float x => some x.toFloat32
  | _ => none

/-- A value of a kind from its content. -/
def ofContent? (content : Json) : String → Option Value
  | "Null" => if content matches .null then some .null else none
  | "Default" => if content matches .null then some .default else none
  | "Bool" => content.bool?.map .bool
  | "TinyInt" => (content.integer? (-128) 127).map fun n => .tinyInt (Int8.ofInt n)
  | "SmallInt" => (content.integer? (-32768) 32767).map fun n => .smallInt (Int16.ofInt n)
  | "Int" => (content.integer? (-2147483648) 2147483647).map fun n => .int (Int32.ofInt n)
  | "BigInt" =>
    (content.integer? (-9223372036854775808) 9223372036854775807).map fun n =>
      .bigInt (Int64.ofInt n)
  | "Float" => (single? content).map .float
  | "Double" => content.float?.map .double
  | "Decimal" => content.string?.map .decimal
  | "Text" => content.string?.map .text
  | "Bytes" => (content.list? (Json.natUpTo? 255)).map fun data => .bytes (data.map UInt8.ofNat)
  | "Json" => some (.json content)
  | _ => none

/-- Reads a value: the name of a kind without content, or an object of one field. -/
def ofJson? : Json → Option Value
  | .string "Null" => some .null
  | .string "Default" => some .default
  | .object [(kind, content)] => ofContent? content kind
  | _ => none

end Value

namespace DefaultValue

def toJson : DefaultValue → Json
  | .value v => .object [("value", v.toJson)]
  | .raw sql => .object [("raw", .string sql)]

def ofJson? : Json → Option DefaultValue
  | .object [("value", v)] => (Value.ofJson? v).map .value
  | .object [("raw", sql)] => sql.string?.map .raw
  | _ => none

end DefaultValue

namespace Column

/-- The fields of a column in order. -/
def fields (c : Column) : List (String × Json) :=
  [("name", .string c.name), ("table_name", .string c.tableName), ("type", .string c.type.name),
   ("type_name", .ofOption .string c.nativeType), ("nullable", .bool c.nullable),
   ("default", .ofOption DefaultValue.toJson c.default), ("length", .ofOption .ofNat c.length),
   ("precision", .ofOption .ofNat c.precision), ("scale", .ofOption .ofNat c.scale),
   ("datetime_precision", .ofOption .ofNat c.fractionDigits), ("unsigned", .bool c.unsigned),
   ("auto_increment", .bool c.autoIncrement), ("primary", .bool c.primary),
   ("comment", .ofOption .string c.comment), ("charset", .ofOption .string c.charset),
   ("collation", .ofOption .string c.collation), ("options", .ofStrings c.options),
   ("position", .ofNat c.position)]

def toJson (c : Column) : Json := .ofFields c.fields

/-- The names of the fields of a column. -/
def fieldNames : List String := (fields { name := "", type := .string }).map (·.1)

/-- Reads a column from its fields; `field?` finds one by name. -/
def ofFields? (field? : String → Option Json) : Option Column := do
  let optional {α : Type} (read : Json → Option α) (name : String) : Option (Option α) :=
    match field? name with
    | some json => json.optional? read
    | none => some none
  let count := optional (Json.natUpTo? Number.maxCount)
  let text := optional Json.string?
  return {
    name := ← (← field? "name").string?
    tableName := ← (← field? "table_name").string?
    type := .ofName (← (← field? "type").string?)
    nativeType := ← text "type_name"
    nullable := ← (← field? "nullable").bool?
    default := ← optional DefaultValue.ofJson? "default"
    length := ← count "length"
    precision := ← count "precision"
    scale := ← count "scale"
    fractionDigits := ← count "datetime_precision"
    unsigned := ← (← field? "unsigned").bool?
    autoIncrement := ← (← field? "auto_increment").bool?
    primary := ← (← field? "primary").bool?
    comment := ← text "comment"
    charset := ← text "charset"
    collation := ← text "collation"
    options := ← (← field? "options").list? Json.string?
    position := ← (← field? "position").natUpTo? Number.maxWide }

/-- Reads a column from an object, or from the list of all its fields. -/
def ofJson? : Json → Option Column
  | .object fields => ofFields? fun name => Keyed.find? name fields
  | .array items =>
    if items.length = fieldNames.length then
      ofFields? fun name => Keyed.find? name (fieldNames.zip items)
    else none
  | _ => none

end Column

def Index.toJson (i : Index) : Json :=
  .ofFields
    [("name", .string i.name), ("table_name", .string i.tableName), ("type", .string i.kind.name),
     ("columns", .ofStrings i.columns), ("comment", .ofOption .string i.comment)]

def PrimaryKey.toJson (k : PrimaryKey) : Json :=
  .ofFields
    [("name", .string k.name), ("table_name", .string k.tableName),
     ("columns", .ofStrings k.columns)]

/-- The structure of a table; its log is left out. -/
def Table.toJson (t : Table) : Json :=
  .ofFields
    [("name", .string t.name), ("schema", .ofOption .string t.schema),
     ("columns", .array (t.columns.map Column.toJson)),
     ("indexes", .array (t.indexes.map Index.toJson)),
     ("primary", .ofOption PrimaryKey.toJson t.primary)]

end Sqlwright
