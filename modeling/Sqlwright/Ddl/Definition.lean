import Sqlwright.Ddl.NativeName
import Sqlwright.Grammar
import Sqlwright.Table.Basic

/-!
How columns, indexes and keys are declared. Names and texts of the caller are pieces of their own,
which the dialect quotes; what a caller gives as SQL (raw defaults, character sets, collations) and
the names of enum types on Postgres are written as they are.
-/

namespace Sqlwright

/-- Names with commas between them. -/
def Grammar.names (names : List String) : List Piece :=
  joinPieces "," (names.map fun name => [segment name])

/-- String literals with commas between them. -/
def literalList (texts : List String) : List Piece :=
  joinPieces "," (texts.map fun text => [.literal text])

namespace Column

/-- The length of the longest label of an enum, in bytes of UTF-8; one where there is no label. -/
def longestOption (c : Column) : Nat :=
  match c.options with
  | [] => 1
  | labels => (labels.map String.utf8ByteSize).foldl max 0

/-- The name of the Postgres type that holds the labels of an enum. -/
def enumTypeName (c : Column) : String := "enum__" ++ Text.join "_eopt_" c.options

end Column

namespace Dialect

/-- A number in parentheses, nothing where there is none. -/
def sizeText : Option Nat → String
  | some n => "(" ++ toString n ++ ")"
  | none => ""

/-- What stands behind the native name of a column's type. A name that brings its own length takes
no other. -/
def sizeOf (d : Dialect) (native : String) (c : Column) : String :=
  match c.precision, c.scale, d.takesScale c.type with
  | some digits, some scale, true => "(" ++ toString digits ++ "," ++ toString scale ++ ")"
  | _, _, _ =>
    if native.toList.contains '(' then ""
    else if c.type.isTemporal && d.fractionalSeconds then sizeText c.fractionDigits
    else sizeText c.length

/-- The type of an enum column. Dialects without enums store text as long as the longest label. -/
def enumType (d : Dialect) (c : Column) : List Piece :=
  match d with
  | .mysql => .text "ENUM(" :: literalList c.options ++ [.text ")"]
  | .postgres => [.text c.enumTypeName]
  | .sqlite => [.text "TEXT"]
  | .generic | .hana =>
    let length := c.length.getD (min c.longestOption Number.maxCount)
    [.text (d.nativeName .string ++ sizeText (some length))]

/-- The native type of a column, with its length or precision. -/
def columnType (d : Dialect) (c : Column) : List Piece :=
  if c.type = .enum then d.enumType c
  else
    let native := d.nativeName c.type
    [.text (native ++ d.sizeOf native c)]

def boolLiteral (d : Dialect) (flag : Bool) : String :=
  match d with
  | .mysql | .sqlite => if flag then "1" else "0"
  | _ => if flag then "true" else "false"

/-- The two upper-case hexadecimal digits of a byte. -/
def byteDigits (b : UInt8) : String :=
  let digits := (String.ofList (Nat.toDigits 16 b.toNat)).toUpper
  if b.toNat < 16 then "0" ++ digits else digits

/-- A value written into a statement. -/
def literal (d : Dialect) : Value → Piece
  | .null | .default => .text "NULL"
  | .bool flag => .text (d.boolLiteral flag)
  | .text s => .literal s
  | .json value => .literal value.render
  | .bytes data => .text ("X'" ++ String.join (data.map byteDigits) ++ "'")
  | value => .text (value.toText.getD "NULL")

def defaultClause (d : Dialect) (c : Column) : List Piece :=
  match c.default with
  | none => []
  | some (.raw sql) => [.text ("DEFAULT " ++ sql)]
  | some (.value v) => [.text "DEFAULT ", d.literal v]

def nullClause (c : Column) : List Piece := [.text (if c.nullable then "NULL" else "NOT NULL")]

/-- The check that keeps an enum column to its labels, where the dialect has no enums. -/
def enumCheck (d : Dialect) (c : Column) : List Piece :=
  match d with
  | .postgres => []
  | _ =>
    if c.type ≠ .enum || c.options.isEmpty then []
    else
      .text "CHECK (" :: Grammar.segment c.name :: .text " IN (" :: literalList c.options ++
        [.text "))"]

/-- A word in front of what the caller gives, nothing where nothing is given. -/
def option (word : String) : Option String → List Piece
  | some given => [.text (word ++ given)]
  | none => []

/-- The type of a column that counts up by itself on Postgres. -/
def serialType : ColumnType → String
  | .bigInteger => "BIGSERIAL"
  | .tinyInteger | .smallInteger => "SMALLSERIAL"
  | _ => "SERIAL"

/-- The definition of a column, as it stands in CREATE TABLE and behind ADD COLUMN. -/
def columnDefinition (d : Dialect) (c : Column) : List Piece :=
  let name := [Grammar.segment c.name]
  match d, c.autoIncrement with
  | .postgres, true => sentence [name, [.text (serialType c.type)]]
  | .postgres, false =>
    sentence
      [name, d.columnType c, nullClause c, d.defaultClause c,
       match c.collation with
       | some collation => [.text "COLLATE ", Grammar.segment collation]
       | none => []]
  | .sqlite, true => name ++ [.text " INTEGER PRIMARY KEY AUTOINCREMENT NOT NULL"]
  | .sqlite, false =>
    sentence
      [name, d.columnType c, nullClause c, d.defaultClause c, option "COLLATE " c.collation,
       d.enumCheck c]
  | .mysql, _ =>
    sentence
      [name, d.columnType c,
       if c.unsigned && (c.type.isInteger || c.type.isDecimal) then [.text "UNSIGNED"] else [],
       option "CHARACTER SET " c.charset, nullClause c, d.defaultClause c,
       if c.autoIncrement then [.text "AUTO_INCREMENT"] else [],
       match c.comment with
       | some comment => [.text "COMMENT ", .literal comment]
       | none => [],
       option "COLLATE " c.collation]
  | _, _ =>
    sentence
      [name, d.columnType c, nullClause c, d.defaultClause c,
       if c.autoIncrement then [.text "GENERATED BY DEFAULT AS IDENTITY"] else [],
       option "COLLATE " c.collation, d.enumCheck c]

/-- The statements that create the types which columns rely on. -/
def createTypes (d : Dialect) (columns : List Column) : List (List Piece) :=
  match d with
  | .postgres =>
    (columns.filter fun c => c.type = .enum && !c.options.isEmpty).map fun c =>
      .text ("DO $$ BEGIN CREATE TYPE " ++ c.enumTypeName ++ " AS ENUM (") ::
        literalList c.options ++
        [.text "); EXCEPTION WHEN duplicate_object THEN null; END $$;"]
  | _ => []

/-- The comment that is stored for a column, none where the dialect stores none apart. Postgres
marks types that it stores as another one. -/
def storedComment? (d : Dialect) (c : Column) : Option String :=
  let given := c.comment.filter (· ≠ "")
  match d with
  | .mysql | .sqlite => none
  | .generic | .hana => given
  | .postgres =>
    match c.type with
    | .year | .ipAddress | .vector => some (markComment c.type (c.comment.getD ""))
    | _ => given

/-- What is created by a CREATE statement for an index. -/
def indexKeyword : IndexKind → String
  | .plain => "INDEX"
  | .unique => "UNIQUE INDEX"
  | .primary => "PRIMARY KEY"

end Dialect

namespace Grammar

/-- The statement that comments on a column, where there is a comment to store. -/
def commentStatement? (g : Grammar) (c : Column) : Option (List Piece) :=
  (g.dialect.storedComment? c).map fun comment =>
    .text "COMMENT ON COLUMN " :: g.table c.tableName ++
      [.text ".", segment c.name, .text " IS ", .literal comment]

/-- The name under which an index is stored. On MySQL it belongs to its table; elsewhere it belongs
to the schema and carries the name of the table. -/
def indexName (g : Grammar) (table index : String) : String :=
  match g.dialect with
  | .mysql => index
  | _ => g.tablePrefix ++ table ++ "_" ++ index

/-- The method and the operator class of an index on a vector column. -/
def vectorMethod : ColumnType → String × String
  | .vectorF16 => ("vectors", "vecf16_cos_ops")
  | .halfVector => ("hnsw", "halfvec_cosine_ops")
  | _ => ("vectors", "vector_cos_ops")

/-- How the graph of a vector index is built. -/
def vectorOptions : String := "[indexing.hnsw]\nm = 16\nef_construction = 200"

/-- An index for search by nearness on one vector column. -/
def vectorIndex (g : Grammar) (t : Table) (index : Index) (column : Column) : List Piece :=
  let (method, operators) := vectorMethod column.type
  let options : List Piece :=
    if method = "vectors" then [.text " WITH (options=", .literal vectorOptions, .text ")"] else []
  .text "CREATE INDEX " :: segment (g.indexName t.name index.name) :: .text " ON " ::
    g.table t.name ++
    [.text (" USING " ++ method ++ " ("), segment column.name, .text (" " ++ operators ++ ")")] ++
    options

/-- An index on columns in key order. -/
def plainIndex (g : Grammar) (t : Table) (index : Index) : List Piece :=
  .text ("CREATE " ++ Dialect.indexKeyword index.kind ++ " ") ::
    segment (g.indexName t.name index.name) :: .text " ON " :: g.table t.name ++
    .text " " :: parenthesised (names index.columns)

/-- The statement that creates an index. Postgres has no order on JSON and creates no index there;
its vector indexes cover the first vector column. -/
def createIndex? (g : Grammar) (t : Table) (index : Index) : Option (List Piece) :=
  if index.kind = .primary then none
  else
    match g.dialect with
    | .postgres =>
      let columns := index.columns.filterMap t.column?
      if columns.any fun c => c.type.isJson then none
      else
        match columns.find? fun c => c.type.isVector with
        | some column => some (g.vectorIndex t index column)
        | none => some (g.plainIndex t index)
    | _ => some (g.plainIndex t index)

/-- An index declared inside CREATE TABLE, on MySQL. -/
def inlineIndex? (g : Grammar) (index : Index) : Option (List Piece) :=
  let declared (keyword : String) : List Piece :=
    .text keyword :: segment index.name :: .text " " :: parenthesised (names index.columns)
  match g.dialect, index.kind with
  | .mysql, .unique => some (declared "UNIQUE KEY ")
  | .mysql, .plain => some (declared "KEY ")
  | _, _ => none

end Grammar

/-- The declaration of a primary key. -/
def PrimaryKey.clause (key : PrimaryKey) : List Piece :=
  .text "PRIMARY KEY " :: parenthesised (Grammar.names key.columns)

end Sqlwright
