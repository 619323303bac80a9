import Mathlib.Data.List.Basic
import Sqlwright.Catalog.Reading
import Sqlwright.Ddl.Definition

/-!
Comments of columns on Postgres, written and read back. The comment of a type that is stored as
another one carries a marker, behind which any comment comes back. A comment without a marker comes
back as it is, unless it looks as if it had one; then it is taken for the marker of another type.
-/

namespace Sqlwright

/-- The text that a statement says at its end. -/
def commentIn? (statement : List Piece) : Option String :=
  match statement.getLast? with
  | some (.literal comment) => some comment
  | _ => none

/-- A comment that starts as a marker does, with a type behind the mark. -/
def LooksMarked (comment : String) : Prop :=
  ∃ next rest, comment.toList = 'T' :: ':' :: next :: rest ∧ next ≠ '|'

/-- The types that Postgres stores as others, with a marker in the comment. -/
def ColumnType.isMarked : ColumnType → Bool
  | .year | .ipAddress | .vector => true
  | _ => false

/-- A comment without the difference between an empty one and none. -/
def Column.filledComment (c : Column) : Option String := c.comment.filter (· ≠ "")

/-- Rows that tell the same in all cells but that of the comment. -/
def Row.SameButComment (row other : Row) : Prop :=
  ∀ name : String, name.toLower ≠ "column_comment" → row.getNamed? name = other.getNamed? name

/-- The cells that columns are read from, but that of the comment. -/
def columnCells : List String :=
  ["column_name", "ordinal", "column_default", "is_nullable", "data_type", "type_name",
   "max_length", "numeric_precision", "numeric_scale", "datetime_precision", "charset_name",
   "collation_name", "extra", "is_primary", "is_unsigned"]

/-! ### Markers -/

namespace Text

theorem cut_append {sep : Char} {front : List Char} (free : sep ∉ front) (rest : List Char) :
    cut sep (front ++ sep :: rest) = some (front, rest) := by
  induction front with
  | nil => simp [cut]
  | cons c front ih =>
    rw [List.mem_cons, not_or] at free
    rw [List.cons_append, cut, if_neg (Ne.symm free.1), ih free.2]
    rfl

theorem cut_eq_some {sep : Char} {s front rest : List Char}
    (found : cut sep s = some (front, rest)) : s = front ++ sep :: rest := by
  induction s generalizing front with
  | nil => cases found
  | cons c s ih =>
    by_cases here : c = sep
    · simp only [cut, here, if_true, Option.some.injEq, Prod.mk.injEq] at found
      obtain ⟨rfl, rfl⟩ := found
      rw [here, List.nil_append]
    · simp only [cut, here, if_false] at found
      obtain ⟨⟨front', rest'⟩, later, same⟩ := Option.map_eq_some_iff.mp found
      obtain ⟨rfl, rfl⟩ := Prod.mk.inj same
      rw [ih later, List.cons_append]

end Text

/-- A named type and the comment behind its marker are read back. -/
theorem markedComment_markComment {type : ColumnType} (known : type.isKnown) (comment : String) :
    markedComment (markComment type comment) =
      some (type, if comment = "" then none else some comment) := by
  have named : type.name.toList ≠ [] ∧ '|' ∉ type.name.toList := by
    cases type with
    | other native => cases known
    | _ => exact ⟨by decide, by decide⟩
  have marked : (markComment type comment).toList =
      'T' :: ':' :: (type.name.toList ++ '|' :: comment.toList) := by
    simp [markComment, String.toList_append]
  have empty : comment.toList.isEmpty = decide (comment = "") := by
    by_cases here : comment = "" <;> simp [here]
  simp only [markedComment, marked, Text.cut_append named.2, Option.getD_some,
    List.isEmpty_eq_false_iff.mpr named.1, Bool.false_eq_true, if_false, String.ofList_toList,
    ColumnType.ofName_name type known, empty, decide_eq_true_eq]

/-- A comment that looks marked is read as a marker, and what stands behind the marker is not the
whole comment. -/
theorem markedComment_of_looksMarked {comment : String} (looks : LooksMarked comment) :
    ∃ type rest, markedComment comment = some (type, rest) ∧ rest ≠ some comment := by
  obtain ⟨next, more, whole, apart⟩ := looks
  cases found : Text.cut '|' (next :: more) with
  | none =>
    refine ⟨.ofName (.ofList (next :: more)), none, ?_, by simp⟩
    simp [markedComment, whole, found]
  | some parts =>
    obtain ⟨name, rest⟩ := parts
    have split := Text.cut_eq_some found
    have named : name ≠ [] := by
      rintro rfl
      exact apart (List.cons.inj split).1
    refine ⟨.ofName (.ofList name), if rest.isEmpty then none else some (.ofList rest), ?_, ?_⟩
    · simp [markedComment, whole, found, named]
    · split_ifs
      · simp
      · intro same
        have all : rest = comment.toList := by
          rw [← Option.some.inj same, String.toList_ofList]
        have longer := congrArg List.length (whole.trans (congrArg _ (congrArg _ split)))
        rw [← all] at longer
        simp only [List.length_cons, List.length_append] at longer
        omega

/-- Nothing else is read as a marker. -/
theorem markedComment_of_not_looksMarked {comment : String} (plain : ¬ LooksMarked comment) :
    markedComment comment = none := by
  unfold markedComment
  split
  · next marked whole =>
    cases marked with
    | nil => rfl
    | cons next more =>
      have bar : next = '|' := by
        by_contra apart
        exact plain ⟨next, more, whole, apart⟩
      simp [Text.cut, bar]
  · rfl

/-! ### Statements -/

/-- What is written for a column is the comment that the dialect stores for it. -/
theorem commentIn?_commentStatement (g : Grammar) (c : Column) :
    (g.commentStatement? c).bind commentIn? = g.dialect.storedComment? c := by
  rw [Grammar.commentStatement?]
  cases g.dialect.storedComment? c with
  | none => rfl
  | some comment =>
    have last : ∀ front : List Piece, commentIn? (front ++ [.literal comment]) = some comment := by
      intro front
      rw [commentIn?, List.getLast?_concat]
    simpa using last (.text "COMMENT ON COLUMN " :: g.table c.tableName ++
      [.text ".", Grammar.segment c.name, .text " IS "])

theorem storedComment?_of_marked {c : Column} (marked : c.type.isMarked) :
    Dialect.storedComment? .postgres c = some (markComment c.type (c.comment.getD "")) := by
  unfold Dialect.storedComment?
  cases type : c.type <;> simp_all [ColumnType.isMarked]

theorem storedComment?_of_not_marked {c : Column} (plain : c.type.isMarked = false) :
    Dialect.storedComment? .postgres c = c.filledComment := by
  unfold Dialect.storedComment?
  cases type : c.type <;> simp_all [ColumnType.isMarked, Column.filledComment]

/-! ### Rows -/

/-- Cells of other names are read alike, in whatever way. -/
theorem Row.SameButComment.reads {row bare : Row} (same : row.SameButComment bare) :
    ∀ name ∈ columnCells, row.filledText? name = bare.filledText? name ∧
      row.count? name = bare.count? name ∧ row.flag name = bare.flag name := by
  have other : ∀ name ∈ columnCells, name.toLower ≠ "column_comment" := by decide +kernel
  intro name member
  have cell := same name (other name member)
  simp only [Row.filledText?, Row.count?, Row.flag, cell, and_self]

/-- A cell behind all others changes nothing but what is read under its own name. -/
theorem Row.sameButComment_concat {names : List String} {values : List Value}
    (aligned : names.length = values.length) (comment : Value) :
    Row.SameButComment ⟨names ++ ["column_comment"], values ++ [comment]⟩ ⟨names, values⟩ := by
  intro name other
  have lower : "column_comment".toLower = "column_comment" := by decide +kernel
  have folded : ("column_comment".toLower == name.toLower) = false := by
    rw [lower]
    exact beq_false_of_ne (Ne.symm other)
  have spelled : ("column_comment" == name) = false := by
    apply beq_false_of_ne
    rintro rfl
    exact other lower
  have place : Row.position? ⟨names ++ ["column_comment"], values ++ [comment]⟩ name =
      Row.position? ⟨names, values⟩ name := by
    simp [Row.position?, List.findIdx?_append, List.findIdx?_cons, spelled, folded]
  have inside : ∀ i, Row.position? ⟨names, values⟩ name = some i → i < values.length := by
    intro i found
    rw [← aligned]
    simp only [Row.position?] at found
    split at found
    · next j exact =>
      obtain rfl := Option.some.inj found
      exact (List.findIdx?_eq_some_iff_findIdx_eq.mp exact).1
    · exact (List.findIdx?_eq_some_iff_findIdx_eq.mp found).1
  rw [Row.getNamed?, Row.getNamed?, place]
  cases found : Row.position? ⟨names, values⟩ name with
  | none => rfl
  | some i => simp [Row.get?, List.getElem?_append_left (inside i found)]

/-! ### Columns -/

/-- A column is read from the other cells and then given the comment. -/
theorem Dialect.readColumn_comment (d : Dialect) {row bare : Row} (same : row.SameButComment bare)
    (silent : bare.filledText? "column_comment" = none) (table : String) :
    d.readColumn row table =
      (row.filledText? "column_comment").elim (d.readColumn bare table)
        (d.readColumn bare table).withComment := by
  have reads := same.reads
  simp only [columnCells, List.forall_mem_cons] at reads
  cases told : row.filledText? "column_comment" with
  | none =>
    simp only [Dialect.readColumn, Column.withSizes, silent, told, reads, Option.elim_none]
  | some comment =>
    simp only [Dialect.readColumn, Column.withSizes, silent, told, reads, Option.elim_some]

/-- Without a comment in the row, the column that is read has none. -/
theorem Dialect.readColumn_comment_of_silent (d : Dialect) {bare : Row}
    (silent : bare.filledText? "column_comment" = none) (table : String) :
    (d.readColumn bare table).comment = none := by
  simp only [Dialect.readColumn, silent, Column.withSizes]
  split_ifs <;> rfl

section Returned

variable {c : Column} {row bare : Row}

/-- A marked type comes back with the comment, whatever the comment is. -/
theorem Dialect.readColumn_of_marked (same : row.SameButComment bare)
    (silent : bare.filledText? "column_comment" = none)
    (returned : row.filledText? "column_comment" = Dialect.storedComment? .postgres c)
    (marked : c.type.isMarked) (table : String) :
    Dialect.readColumn .postgres row table =
      { Dialect.readColumn .postgres bare table with
        type := c.type, comment := c.filledComment } := by
  have known : c.type.isKnown := by
    cases type : c.type <;> simp_all [ColumnType.isMarked, ColumnType.isKnown]
  have behind : (if c.comment.getD "" = "" then none else some (c.comment.getD "")) =
      c.filledComment := by
    cases given : c.comment with
    | none => simp [Column.filledComment, given]
    | some comment =>
      by_cases empty : comment = "" <;> simp [Column.filledComment, given, empty, Option.filter]
  rw [readColumn_comment .postgres same silent, returned, storedComment?_of_marked marked,
    Option.elim_some]
  simp only [Column.withComment, markedComment_markComment known, behind]

/-- A comment that does not look marked comes back and leaves the rest of the column alone. -/
theorem Dialect.readColumn_of_plain (same : row.SameButComment bare)
    (silent : bare.filledText? "column_comment" = none)
    (returned : row.filledText? "column_comment" = Dialect.storedComment? .postgres c)
    (unmarked : c.type.isMarked = false)
    (plain : ∀ comment, c.comment = some comment → ¬ LooksMarked comment) (table : String) :
    Dialect.readColumn .postgres row table =
      { Dialect.readColumn .postgres bare table with comment := c.filledComment } := by
  rw [readColumn_comment .postgres same silent, returned, storedComment?_of_not_marked unmarked]
  cases filled : c.filledComment with
  | none =>
    have none_read := readColumn_comment_of_silent .postgres silent table
    rw [Option.elim_none, ← none_read]
  | some comment =>
    have given : c.comment = some comment := (Option.filter_eq_some_iff.mp filled).1
    rw [Option.elim_some]
    simp only [Column.withComment, markedComment_of_not_looksMarked (plain comment given)]

/-- A comment that looks marked does not come back from a type without a marker. -/
theorem Dialect.readColumn_of_looksMarked (same : row.SameButComment bare)
    (silent : bare.filledText? "column_comment" = none)
    (returned : row.filledText? "column_comment" = Dialect.storedComment? .postgres c)
    (unmarked : c.type.isMarked = false) {comment : String} (given : c.comment = some comment)
    (looks : LooksMarked comment) (table : String) :
    (Dialect.readColumn .postgres row table).filledComment ≠ c.filledComment := by
  have filled : c.filledComment = some comment := by
    obtain ⟨next, rest, whole, -⟩ := looks
    have : comment ≠ "" := by
      rintro rfl
      cases whole
    simp [Column.filledComment, given, this]
  obtain ⟨type, rest, read, short⟩ := markedComment_of_looksMarked looks
  rw [readColumn_comment .postgres same silent, returned, storedComment?_of_not_marked unmarked,
    filled, Option.elim_some]
  simp only [Column.withComment, read]
  intro back
  exact short (Option.filter_eq_some_iff.mp back).1

end Returned

/-- A comment and a marked type come back from Postgres exactly when the type has a marker of its
own or the comment does not look like one. A row tells of a column what another row without a
comment tells, and as the comment what was written for the column. What comes back is the comment
that is read, and the type: that of the column where it is marked, and otherwise the one that the
other cells tell. -/
theorem comment_comes_back_iff (g : Grammar) (postgres : g.dialect = .postgres) (c : Column)
    (table : String) {row bare : Row} (same : row.SameButComment bare)
    (silent : bare.filledText? "column_comment" = none)
    (returned : row.filledText? "column_comment" = (g.commentStatement? c).bind commentIn?) :
    ((g.dialect.readColumn row table).filledComment = c.filledComment ∧
      (g.dialect.readColumn row table).type =
        if c.type.isMarked then c.type else (g.dialect.readColumn bare table).type) ↔
    (c.type.isMarked ∨ ∀ comment, c.comment = some comment → ¬ LooksMarked comment) := by
  rw [commentIn?_commentStatement, postgres] at returned
  rw [postgres]
  have twice : ∀ column : Column, column.comment = c.filledComment →
      column.filledComment = c.filledComment := by
    intro column kept
    rw [Column.filledComment, kept, Column.filledComment, Option.filter_filter]
    simp
  cases marker : c.type.isMarked with
  | true =>
    have read := Dialect.readColumn_of_marked same silent returned marker table
    simp [read, twice]
  | false =>
    simp only [Bool.false_eq_true, if_false, false_or]
    constructor
    · rintro ⟨back, -⟩ comment given looks
      exact Dialect.readColumn_of_looksMarked same silent returned marker given looks table back
    · intro plain
      have read := Dialect.readColumn_of_plain same silent returned marker plain table
      exact ⟨twice _ (by rw [read]), by rw [read]⟩

/-- A year comes back from a `SMALLINT` with a comment that looks as if it marked another type. -/
theorem comment_comes_back_year :
    let c : Column :=
      { name := "since", tableName := "t", type := .year, comment := some "T:vector|x" }
    let cells : List Value := [.text "since", .text "SMALLINT"]
    let row : Row :=
      ⟨["column_name", "data_type"] ++ ["column_comment"], cells ++ [.text "T:year|T:vector|x"]⟩
    (Dialect.readColumn .postgres row "t").filledComment = c.filledComment ∧
      (Dialect.readColumn .postgres row "t").type = .year := by
  intro c cells row
  have same : row.SameButComment ⟨["column_name", "data_type"], cells⟩ :=
    Row.sameButComment_concat rfl _
  exact (comment_comes_back_iff ⟨.postgres, ""⟩ rfl c "t" same (by decide +kernel)
    (by decide +kernel)).mpr (.inl rfl)

/-- A text that is commented with `T:year|x` comes back as a year that is commented with `x`. -/
theorem comment_taken_for_marker :
    let c : Column := { name := "a", tableName := "t", type := .text, comment := some "T:year|x" }
    let bare : Row := ⟨["column_name", "data_type"], [.text "a", .text "TEXT"]⟩
    let row : Row :=
      ⟨bare.names ++ ["column_comment"], bare.values ++ [.text "T:year|x"]⟩
    row.filledText? "column_comment" =
        (Grammar.commentStatement? ⟨.postgres, ""⟩ c).bind commentIn? ∧
      (Dialect.readColumn .postgres row "t").comment = some "x" ∧
      (Dialect.readColumn .postgres row "t").type = .year ∧
      (Dialect.readColumn .postgres bare "t").type = .text := by
  decide +kernel

end Sqlwright
