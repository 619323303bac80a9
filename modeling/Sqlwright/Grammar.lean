import Sqlwright.Text.Alias
import Sqlwright.Piece

/-!
The grammar of a configured database: its dialect and the text put before table names. This module
holds how names are written: a dotted reference is cut at its points, every segment is quoted, and
the segment that names the table carries the table prefix.
-/

namespace Sqlwright

structure Grammar where
  dialect : Dialect
  tablePrefix : String := ""
  deriving DecidableEq, Repr, Inhabited

/-- The comparison operators that a dialect lets through. -/
def Dialect.operators : Dialect → List String
  | .hana =>
    ["=", "<", ">", "<=", ">=", "<>", "!=", "like", "not like", "between", "ilike", "not ilike",
     "~", "&", "|", "#", "<<", ">>", "<<=", ">>=", "&&", "@>", "<@", "?", "?|", "?&", "||", "-",
     "@?", "@@", "#-", "is distinct from", "is not distinct from"]
  | _ =>
    ["=", "<", ">", "<=", ">=", "<>", "!=", "<=>", "like", "like binary", "not like", "ilike",
     "&", "|", "^", "<<", ">>", "rlike", "not rlike", "regexp", "not regexp", "~", "~*", "!~",
     "!~*", "similar to", "not similar to", "not ilike", "~~*", "!~~*"]

namespace Grammar

/-- An operator of the dialect, blanks around it and the case of its letters aside. -/
def isOperator (g : Grammar) (operator : String) : Bool :=
  g.dialect.operators.contains (Text.trim operator).toLower

/-- One segment of a name; a star stands for all columns and is not quoted. -/
def segment (s : String) : Piece := if s = "*" then .text "*" else .name s

theorem segment_injective {first second : String} (same : segment first = segment second) :
    first = second := by
  unfold segment at same
  split at same <;> split at same <;> simp_all

/-- A segment that names a table. -/
def tableSegment (g : Grammar) (s : String) : Piece := segment (g.tablePrefix ++ s)

/-- Segments with points between them. -/
def dotted (segments : List Piece) : List Piece := joinPieces "." (segments.map fun s => [s])

/-- The pieces of a column reference: the last segment but one names the table. -/
def columnSegments (g : Grammar) : List String → List Piece
  | [] => []
  | [column] => [segment column]
  | [table, column] => [g.tableSegment table, segment column]
  | qualifier :: rest => segment qualifier :: columnSegments g rest

/-- The pieces of a table reference: the last segment names the table. -/
def tableSegments (g : Grammar) : List String → List Piece
  | [] => []
  | [table] => [g.tableSegment table]
  | qualifier :: rest => segment qualifier :: tableSegments g rest

/-- The trimmed text cut at its points. -/
def segmentsOf (s : List Char) : List String :=
  (Text.splitOn '.' (Text.trimChars s)).map .ofList

/-- A column reference, `column`, `table.column` or longer, with its aliases. -/
def column (g : Grammar) (reference : String) : List Piece :=
  let read := Text.Aliased.read reference.toList
  dotted (g.columnSegments (segmentsOf read.base)) ++
    read.aliases.flatMap fun label => [.text " as ", segment (.ofList label)]

/-- A table reference with its aliases; they carry the table prefix too. -/
def table (g : Grammar) (reference : String) : List Piece :=
  let read := Text.Aliased.read reference.toList
  dotted (g.tableSegments (segmentsOf read.base)) ++
    read.aliases.flatMap fun label => [.text " as ", g.tableSegment (.ofList label)]

/-- Column references with commas between them. -/
def columnList (g : Grammar) (references : List String) : List Piece :=
  joinPieces ", " (references.map g.column)

end Grammar

end Sqlwright
