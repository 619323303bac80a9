import Sqlwright.Catalog.Reading
import Sqlwright.Ddl.Definition
import Sqlwright.Proofs.NativeTypes

/-!
The labels of an enum on MySQL, read back from the type that they are written in. A label is closed
by the quote that no other one follows, so labels come back whatever they contain. The column that
is read is an enum unless its comment looks like the marker of another type.
-/

namespace Sqlwright

/-- The type that a column is declared with on MySQL. -/
def Column.mysqlType (c : Column) : String := render .mysql (Dialect.columnType .mysql c)

namespace NativeType

/-! ### Quoted arguments -/

/-- An argument that is closed is read as quoting by doubling reads it. -/
theorem quotedRest?_of_unquoteInside {s : List Char} {read : List Char × List Char}
    (closed : Text.unquoteInside '\x27' s = some read) : quotedRest? s = some read := by
  fun_induction quotedRest? s generalizing read with
  | case1 => cases closed
  | case2 => simpa [Text.unquoteInside] using closed
  | case3 c other => simp [Text.unquoteInside, other] at closed
  | case4 rest arg after found ih =>
    obtain ⟨inner, behind, rfl⟩ : ∃ inner, Text.unquoteInside '\x27' rest = some inner ∧
        ('\x27' :: inner.1, inner.2) = read := by
      simpa [Text.unquoteInside] using closed
    rw [found] at ih
    obtain rfl := Option.some.inj (ih behind)
    rfl
  | case5 rest missing ih =>
    obtain ⟨inner, behind, -⟩ : ∃ inner, Text.unquoteInside '\x27' rest = some inner ∧
        ('\x27' :: inner.1, inner.2) = read := by
      simpa [Text.unquoteInside] using closed
    rw [ih behind] at missing
    cases missing
  | case6 d rest other => simpa [Text.unquoteInside, other] using closed
  | case7 c d rest other ih =>
    obtain ⟨inner, behind, rfl⟩ : ∃ inner, Text.unquoteInside '\x27' (d :: rest) = some inner ∧
        (c :: inner.1, inner.2) = read := by
      simpa [Text.unquoteInside, other] using closed
    rw [ih behind]
    rfl

theorem quotedArgs_quote (label : List Char) {after : List Char}
    (apart : after.head? ≠ some '\x27') :
    quotedArgs (Text.quote '\x27' label ++ after) = .ofList label :: quotedArgs after := by
  have closed := quotedRest?_of_unquoteInside (Text.unquoteInside_double label apart)
  have text : Text.quote '\x27' label ++ after =
      '\x27' :: (Text.double '\x27' label ++ '\x27' :: after) := by
    simp [Text.quote]
  rw [text, quotedArgs, if_pos rfl]
  split
  · next arg rest found =>
    rw [closed] at found
    obtain ⟨rfl, rfl⟩ := Prod.mk.inj (Option.some.inj found)
    rfl
  · next missing =>
    rw [closed] at missing
    cases missing

/-- Texts that are quoted, with commas between them. -/
def quotedList (labels : List String) : String := Text.join "," (labels.map (Text.quoted '\x27'))

theorem toList_quotedList_cons (first second : String) (rest : List String) :
    (quotedList (first :: second :: rest)).toList =
      Text.quote '\x27' first.toList ++ ',' :: (quotedList (second :: rest)).toList := by
  simp [quotedList, Text.join, Text.quoted, String.toList_append]

theorem quotedArgs_quotedList (labels : List String) :
    quotedArgs (quotedList labels).toList = labels := by
  induction labels with
  | nil => simp [quotedList, Text.join, quotedArgs]
  | cons label rest ih =>
    cases rest with
    | nil =>
      have alone : quotedArgs (Text.quote '\x27' label.toList ++ []) =
          .ofList label.toList :: quotedArgs [] := quotedArgs_quote label.toList (by simp)
      simpa [quotedList, Text.join, Text.quoted, quotedArgs] using alone
    | cons next more =>
      have between : quotedArgs (',' :: (quotedList (next :: more)).toList) = next :: more := by
        rw [quotedArgs, if_neg (by decide), ih]
      rw [toList_quotedList_cons, quotedArgs_quote label.toList (by simp), between,
        String.ofList_toList]

/-- Labels are told by a list of them in quotes. -/
theorem argsOf_quotedList (labels : List String) : argsOf (quotedList labels).toList = labels := by
  cases labels with
  | nil => decide +kernel
  | cons label rest =>
    have quote : '\x27' ∈ (quotedList (label :: rest)).toList := by
      cases rest with
      | nil => simp [quotedList, Text.join, Text.quoted, Text.quote]
      | cons next more => simp [toList_quotedList_cons, Text.quote]
    rw [argsOf, if_pos (by simpa using quote), quotedArgs_quotedList]

end NativeType

/-! ### Types -/

theorem renderFrom_literalList (d : Dialect) (offset : Nat) (texts : List String) :
    renderFrom d offset (literalList texts) = NativeType.quotedList texts := by
  rw [literalList, renderFrom_joinPieces, NativeType.quotedList]
  congr 1
  induction texts with
  | nil => rfl
  | cons first rest ih =>
    have alone : renderFrom d offset [.literal first] = Text.quoted '\x27' first :=
      String.append_empty
    have still : advanceAll offset [.literal first] = offset := rfl
    rw [List.map_cons, textsFrom, alone, still, ih, List.map_cons]

theorem Column.mysqlType_enum {c : Column} (enum : c.type = .enum) :
    c.mysqlType = "ENUM" ++ "(" ++ NativeType.quotedList c.options ++ ")" := by
  rw [mysqlType, Dialect.columnType, if_pos enum, Dialect.enumType, List.cons_append, render,
    renderFrom, renderFrom_append, renderFrom_literalList]
  simp [Piece.render, renderFrom, String.append_assoc]

/-- No native name of MySQL is that of an enum with labels. -/
theorem Dialect.typeOfNative?_enum (inner : String) :
    typeOfNative? .mysql ("ENUM" ++ "(" ++ inner ++ ")") = none := by
  have text : ("ENUM" ++ "(" ++ inner ++ ")").toList =
      'E' :: ('N' :: 'U' :: 'M' :: '(' :: inner.toList ++ [')']) := by
    simp [String.toList_append]
  have solid : Text.trim ("ENUM" ++ "(" ++ inner ++ ")") = "ENUM" ++ "(" ++ inner ++ ")" := by
    rw [Text.trim, text, Text.trimChars_between (by decide) (by decide), ← text,
      String.ofList_toList]
  have opens : ("ENUM" ++ "(" ++ inner ++ ")").toUpper.toList.take 5 = "ENUM(".toList := by
    rw [String.toUpper, String.toList_map, text]
    simp
  have others : ∀ type ∈ ColumnType.all,
      (nativeName? .mysql type).map (·.toList.take 5) ≠ some "ENUM(".toList := by decide +kernel
  have unnamed : ColumnType.all.find? (fun type => nativeName? .mysql type =
      some ("ENUM" ++ "(" ++ inner ++ ")").toUpper) = none := by
    apply List.find?_eq_none.mpr
    intro type member named
    apply others type member
    rw [of_decide_eq_true named, Option.map_some, opens]
  rw [typeOfNative?, solid]
  simpa [catalogNames] using unnamed

theorem NativeType.parse_enum {c : Column} (enum : c.type = .enum) :
    parse c.mysqlType = { base := "ENUM", args := c.options, unsigned := false } := by
  rw [c.mysqlType_enum enum, parse_arguments (by decide) (by decide), argsOf_quotedList]

/-! ### Columns -/

/-- A column whose native type is an enum is read as one with its labels, before its comment is. -/
theorem Dialect.readColumn_enum {c : Column} (enum : c.type = .enum) {row : Row}
    (told : row.filledText? "type_name" = some c.mysqlType) (table : String) :
    ∃ column : Column, column.type = .enum ∧ column.options = c.options ∧
      readColumn .mysql row table =
        (row.filledText? "column_comment").elim column column.withComment := by
  have unnamed : typeOfNative? .mysql c.mysqlType = none := by
    rw [c.mysqlType_enum enum, typeOfNative?_enum]
  have base : typeOfNative? .mysql "ENUM" = some .enum := by decide +kernel
  have decimal : ColumnType.enum.isDecimal = false := rfl
  simp only [readColumn, told, Option.getD_some, NativeType.parse_enum enum, unnamed, base,
    Option.none_or, Option.some_or, Column.withSizes, decimal, Bool.false_eq_true, if_false,
    if_true]
  cases row.filledText? "column_comment" with
  | none => refine ⟨_, ?_, ?_, rfl⟩ <;> rfl
  | some comment => refine ⟨_, ?_, ?_, rfl⟩ <;> rfl

/-- The labels of an enum come back from MySQL, whatever they contain, and so does the type, exactly
unless the comment of the column is taken for the marker of another type. -/
theorem enum_comes_back_iff {c : Column} (enum : c.type = .enum) {row : Row}
    (told : row.filledText? "type_name" = some c.mysqlType) (table : String) :
    NativeType.parse c.mysqlType = { base := "ENUM", args := c.options, unsigned := false } ∧
      (Dialect.readColumn .mysql row table).options = c.options ∧
      ((Dialect.readColumn .mysql row table).type = .enum ↔
        ∀ comment, row.filledText? "column_comment" = some comment →
          ∀ type rest, markedComment comment = some (type, rest) → type = .enum) := by
  obtain ⟨column, type, options, read⟩ := Dialect.readColumn_enum enum told table
  refine ⟨NativeType.parse_enum enum, ?_⟩
  rw [read]
  cases commented : row.filledText? "column_comment" with
  | none => simp [type, options]
  | some comment =>
    rw [Option.elim_some, Column.withComment]
    cases marked : markedComment comment with
    | none => simp [type, options, marked]
    | some mark =>
      obtain ⟨markedType, rest⟩ := mark
      have only : (∀ found, some comment = some found → ∀ type rest,
          markedComment found = some (type, rest) → type = .enum) ↔ markedType = .enum := by
        constructor
        · intro all
          exact all comment rfl markedType rest marked
        · rintro same _ ⟨rfl⟩ type rest found
          rw [marked] at found
          cases found
          exact same
      exact ⟨options, only.symm⟩

/-- Labels with quotes, commas, parentheses and the words of numbers in them. -/
def oddLabels : Column :=
  { name := "state", type := .enum, options := ["it's", "a) unsigned", "", "x','y", "\n zerofill"] }

theorem enum_comes_back_odd :
    let row : Row := ⟨["column_name", "type_name"], [.text "state", .text oddLabels.mysqlType]⟩
    (Dialect.readColumn .mysql row "t").options = oddLabels.options ∧
      (Dialect.readColumn .mysql row "t").type = .enum := by
  intro row
  have told : row.filledText? "type_name" = some oddLabels.mysqlType := by decide +kernel
  have silent : row.filledText? "column_comment" = none := by decide +kernel
  obtain ⟨-, options, type⟩ := enum_comes_back_iff (c := oddLabels) rfl told "t"
  refine ⟨options, type.mpr fun comment given => ?_⟩
  rw [silent] at given
  cases given

/-- An enum with the comment `T:year|x` comes back as a year, with the labels that it had. -/
theorem enum_taken_for_year :
    let c : Column := { name := "state", type := .enum, options := ["a", "b"] }
    let row : Row :=
      ⟨["column_name", "type_name", "column_comment"],
        [.text "state", .text c.mysqlType, .text "T:year|x"]⟩
    row.filledText? "type_name" = some c.mysqlType ∧
      (Dialect.readColumn .mysql row "t").type = .year ∧
      (Dialect.readColumn .mysql row "t").options = ["a", "b"] := by
  decide +kernel

end Sqlwright
