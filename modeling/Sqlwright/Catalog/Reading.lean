import Sqlwright.Catalog.NativeType
import Sqlwright.Ddl.NativeName
import Sqlwright.Row
import Sqlwright.Table.Basic

/-!
Reading the rows of catalog listings back into columns and indexes. Cells that are missing, empty or
of another kind count as not told.
-/

namespace Sqlwright

namespace Row

/-- The text of a named cell, unless it is empty. -/
def filledText? (row : Row) (name : String) : Option String :=
  ((row.getNamed? name).bind Value.toText).filter (· ≠ "")

/-- A count in a named cell. -/
def count? (row : Row) (name : String) : Option Nat :=
  (row.getNamed? name).bind Reading.count.read

/-- A flag in a named cell. -/
def flag (row : Row) (name : String) : Bool :=
  ((row.getNamed? name).bind Value.asBool).getD false

end Row

namespace Column

/-- The column with what its comment tells: a marked comment also tells the type. -/
def withComment (c : Column) (comment : String) : Column :=
  match markedComment comment with
  | some (type, rest) => { c with type, comment := rest }
  | none => { c with comment := some comment }

/-- The column with the numbers that belong to its type. Numbers of the listing come before those in
the native type. -/
def withSizes (c : Column) (row : Row) (native : NativeType) : Column :=
  if c.type.isDecimal then
    { c with
      precision := (row.count? "numeric_precision").or (native.arg? 0)
      scale := (row.count? "numeric_scale").or (native.arg? 1) }
  else if c.type = .enum then { c with options := native.args }
  else if c.type.isInteger then c
  else { c with length := (row.count? "max_length").or (native.arg? 0) }

/-- A column that the catalog reports to count up by itself; its default is then none of its own. -/
def countsUp (extra : Option String) : Bool :=
  match extra with
  | some text =>
    let words := text.toLower.toList
    Text.occurs "auto_increment".toList words || Text.occurs "identity".toList words
  | none => false

end Column

/-- The column that a row of a column listing describes. The type is found by the whole native type,
then by its name, then by the name of its data type. -/
def Dialect.readColumn (d : Dialect) (row : Row) (table : String) : Column :=
  let dataType := (row.filledText? "data_type").getD ""
  let typeText := (row.filledText? "type_name").getD dataType
  let native := NativeType.parse typeText
  let type := (((d.typeOfNative? typeText).or (d.typeOfNative? native.base)).or
    (d.typeOfNative? dataType)).getD (.other dataType.toLower)
  let autoIncrement := Column.countsUp (row.filledText? "extra")
  let column : Column :=
    { name := (row.filledText? "column_name").getD ""
      tableName := table
      type
      nativeType := some typeText
      nullable := row.flag "is_nullable"
      default := if autoIncrement then none else (row.filledText? "column_default").map .raw
      fractionDigits := row.count? "datetime_precision"
      unsigned := native.unsigned || row.flag "is_unsigned"
      autoIncrement
      primary := row.flag "is_primary"
      charset := row.filledText? "charset_name"
      collation := row.filledText? "collation_name"
      position := (row.count? "ordinal").getD 0 }
  let column := column.withSizes row native
  match row.filledText? "column_comment" with
  | some comment => column.withComment comment
  | none => column

/-- A text without another one in front; as it is where the other one is not in front. -/
def withoutStart (start text : String) : String :=
  if start.toList.isPrefixOf text.toList then .ofList (text.toList.drop start.toList.length)
  else text

/-- Adds a row of an index listing: a further column of the index of that name, or a new index.
Names lose the qualifier in front, that of the primary index excepted. -/
def addIndexRow (table qualifier : String) (indexes : List Index) (row : Row) : List Index :=
  match row.filledText? "index_name", row.filledText? "column_name" with
  | some stored, some column =>
    let primary := row.flag "is_primary" || stored = "PRIMARY"
    let name := if primary then stored else withoutStart qualifier stored
    match indexes.findIdx? (·.name = name) with
    | some i => indexes.modify i fun index => { index with columns := index.columns ++ [column] }
    | none =>
      let kind :=
        if primary then IndexKind.primary
        else if row.flag "is_unique" then .unique
        else .plain
      indexes ++
        [{ name, tableName := table, kind, columns := [column]
           comment := row.filledText? "index_comment" }]
  | _, _ => indexes

/-- The indexes that the rows of an index listing describe. -/
def readIndexes (table qualifier : String) (rows : List Row) : List Index :=
  rows.foldl (addIndexRow table qualifier) []

/-- The labels of an enum as Postgres prints an array of them: in braces, with commas between them;
blanks around labels and double quotes at their ends are dropped, and so are empty labels. -/
def readEnumLabels (text : String) : List String :=
  let inner := Text.stripEnds '\x7b' '\x7d' (Text.trimChars text.toList)
  let label (field : List Char) : String :=
    .ofList (Text.stripEnds '\x22' '\x22' (Text.trimChars field))
  ((Text.splitOn ',' inner).map label).filter (· ≠ "")

end Sqlwright
