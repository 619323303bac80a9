import Sqlwright.Ddl.Create
import Mathlib.Data.List.Basic

/-!
What the statements that create a table are made of: for each column its types, its definition and
its comment, for each index the clause or the statement that creates it, and the clause of the key.
The parts are those of the log; what they should be is told by the blueprint.
-/

namespace Sqlwright

/-- All that is written of a column. -/
structure ColumnPart where
  /-- Statements that create the types it relies on. -/
  types : List (List Piece)
  definition : List Piece
  /-- The statement that comments on it. -/
  comment : Option (List Piece)

/-- What creates an index. -/
inductive IndexPart where
  /-- A clause of the statement that creates the table. -/
  | inline (clause : List Piece)
  /-- A statement of its own. -/
  | apart (statement : List Piece)

namespace IndexPart

def clause? : IndexPart → Option (List Piece)
  | .inline clause => some clause
  | .apart _ => none

def statement? : IndexPart → Option (List Piece)
  | .inline _ => none
  | .apart statement => some statement

end IndexPart

/-- What is created with a table. -/
structure Creation where
  columns : List ColumnPart
  indexes : List IndexPart
  /-- The clause of the primary key. -/
  key : Option (List Piece)

/-- A column without its position and its flag, of which nothing is written. -/
def Column.written (c : Column) : Column := { c with position := 0, primary := false }

namespace Grammar

/-- The statement that creates a table with declarations between the parentheses. -/
def tableStatement (g : Grammar) (table : String) (options : CreateOptions)
    (body : List (List Piece)) : List Piece :=
  let keyword := if options.temporary then g.dialect.temporaryKeyword else "CREATE TABLE"
  sentence
    [.text (keyword ++ " ") :: g.table table ++ .text " (\n  " :: joinPieces ",\n  " body ++
       [.text "\n)"],
     g.dialect.tableOptions options]

def columnPart (g : Grammar) (c : Column) : ColumnPart where
  types := g.dialect.createTypes [c]
  definition := g.dialect.columnDefinition c
  comment := g.commentStatement? c

/-- What creates an index in a table, if anything does. -/
def indexPart? (g : Grammar) (t : Table) (index : Index) : Option IndexPart :=
  match g.inlineIndex? index with
  | some clause => some (.inline clause)
  | none => (g.createIndex? t index).map .apart

/-- What is created from the log of a blueprint. -/
def creation (g : Grammar) (t : Table) : Creation where
  columns := t.addedColumns.map g.columnPart
  indexes := t.createdIndexes.filterMap (g.indexPart? t)
  key := t.createdPrimary?.bind (g.tablePrimary? t)

end Grammar

/-- The statements that create a table of its parts, in order. -/
def Creation.statements (c : Creation) (g : Grammar) (table : String) (options : CreateOptions) :
    List (List Piece) :=
  let body :=
    c.columns.map ColumnPart.definition ++ c.indexes.filterMap IndexPart.clause? ++ c.key.toList
  c.columns.flatMap ColumnPart.types ++ [g.tableStatement table options body] ++
    c.indexes.filterMap IndexPart.statement? ++ c.columns.filterMap ColumnPart.comment

/-- The column that counts up on SQLite, which is a primary key by itself. -/
def countingKey (name : String) : List Piece :=
  [Grammar.segment name, .text " INTEGER PRIMARY KEY AUTOINCREMENT NOT NULL"]

/-- Whether a key is declared, by a clause or by its only column. -/
def Creation.Declares (c : Creation) : Option PrimaryKey → Prop
  | none => c.key = none
  | some key =>
    c.key = some key.clause ∨
      c.key = none ∧ ∃ only part, key.columns = [only] ∧ part ∈ c.columns ∧
        part.definition = countingKey only

/-- The statements from the log create the blueprint: its columns in order and as they are defined
in it, each of its indexes once and as it is defined in it, and its key. On Postgres indexes with a
JSON column are left out. -/
structure Grammar.CreatesBlueprint (g : Grammar) (t : Table) : Prop where
  columns : (g.creation t).columns = t.columns.map g.columnPart
  indexes : (g.creation t).indexes.Perm (t.indexes.filterMap (g.indexPart? t))
  leftOut : ∀ index ∈ t.indexes, g.indexPart? t index = none →
    g.dialect = .postgres ∧ ∃ column ∈ index.columns.filterMap t.column?, column.type.isJson
  key : (g.creation t).Declares t.primary

namespace Grammar

variable (g : Grammar)

theorem createTypes_eq (d : Dialect) (columns : List Column) :
    d.createTypes columns = columns.flatMap fun c => d.createTypes [c] := by
  induction columns with
  | nil => cases d <;> rfl
  | cons c rest ih =>
    rw [List.flatMap_cons, ← ih]
    cases d with
    | postgres =>
      simp only [Dialect.createTypes, List.filter_cons]
      split <;> rfl
    | _ => rfl

theorem clauses_eq (t : Table) (indexes : List Index) :
    (indexes.filterMap (g.indexPart? t)).filterMap IndexPart.clause? =
      indexes.filterMap g.inlineIndex? := by
  rw [List.filterMap_filterMap]
  refine List.filterMap_congr fun index _ => ?_
  unfold indexPart?
  cases g.inlineIndex? index with
  | some clause => rfl
  | none => cases g.createIndex? t index <;> rfl

theorem statements_eq (t : Table) (indexes : List Index) :
    (indexes.filterMap (g.indexPart? t)).filterMap IndexPart.statement? =
      (indexes.filter fun index => (g.inlineIndex? index).isNone).filterMap (g.createIndex? t) := by
  rw [List.filterMap_filterMap, List.filterMap_filter]
  refine List.filterMap_congr fun index _ => ?_
  unfold indexPart?
  cases g.inlineIndex? index with
  | some clause => rfl
  | none => cases g.createIndex? t index <;> rfl

/-- The statements that create a table are those of the parts in its log. -/
theorem createStatements_eq (t : Table) (options : CreateOptions) :
    g.createStatements t options = (g.creation t).statements g t.name options := by
  have definitions : (g.creation t).columns.map ColumnPart.definition =
      t.addedColumns.map g.dialect.columnDefinition := List.map_map
  have types : (g.creation t).columns.flatMap ColumnPart.types =
      g.dialect.createTypes t.addedColumns := by
    rw [createTypes_eq]
    exact List.flatMap_map ..
  have comments : (g.creation t).columns.filterMap ColumnPart.comment =
      t.addedColumns.filterMap g.commentStatement? := List.filterMap_map
  have clauses := g.clauses_eq t t.createdIndexes
  have statements := g.statements_eq t t.createdIndexes
  rw [Creation.statements, definitions, types, comments]
  unfold creation
  rw [clauses, statements]
  rfl

/-- Nothing is written of the position of a column and of its flag. -/
theorem columnPart_written (c : Column) : g.columnPart c.written = g.columnPart c := by
  have types : g.dialect.createTypes [c.written] = g.dialect.createTypes [c] := by
    cases g.dialect with
    | postgres =>
      simp only [Dialect.createTypes, List.filter_cons, List.filter_nil, Column.written]
      split <;> rfl
    | _ => rfl
  rw [columnPart, columnPart, types]
  rfl

/-- On SQLite a column that counts up is the key by itself. -/
theorem columnPart_counting (dialect : g.dialect = .sqlite) {c : Column}
    (counting : c.autoIncrement) : (g.columnPart c).definition = countingKey c.name := by
  simp only [columnPart, Dialect.columnDefinition, dialect, counting]
  rfl

/-- Only on Postgres, and only for JSON, an index is left out. -/
theorem indexPart?_eq_none {t : Table} {index : Index} (kind : index.kind ≠ .primary)
    (out : g.indexPart? t index = none) :
    g.dialect = .postgres ∧ ∃ column ∈ index.columns.filterMap t.column?, column.type.isJson := by
  unfold indexPart? at out
  split at out
  · cases out
  · have missing : g.createIndex? t index = none := Option.map_eq_none_iff.mp out
    rw [createIndex?, if_neg kind] at missing
    split at missing
    · next dialect =>
      refine ⟨dialect, ?_⟩
      dsimp only at missing
      split at missing
      · next json => exact List.any_eq_true.mp json
      · split at missing <;> cases missing
    · cases missing

end Grammar

end Sqlwright
