import Mathlib.Data.List.TakeDrop
import Sqlwright.Catalog.Reading
import Sqlwright.Ddl.Definition
import Sqlwright.Proofs.NativeTypes

/-!
The types that columns are declared with on SQLite, read back from a catalog that only repeats
them. A declared type is a name with numbers behind it. The name is read as the first type that has
it, and each type that is read has a fixed number of numbers that it keeps: two for a decimal, none
for integers, floating-point and temporal types, and one for the others.
-/

namespace Sqlwright

/-- The name of a type on SQLite. -/
def ColumnType.sqliteName (type : ColumnType) : String := Dialect.nativeName .sqlite type

/-- Types whose names come with a length. -/
def ColumnType.bringsLength (type : ColumnType) : Bool := type.sqliteName.toList.contains '('

/-! ### Declared types -/

/-- A number in parentheses, as it is written for most types. -/
theorem Dialect.sizesText_toList (given : Option Nat) :
    sizesText given.toList = sizeText given := by
  cases given <;> rfl

theorem sizesText_pair (digits scale : Nat) :
    sizesText [digits, scale] = "(" ++ toString digits ++ "," ++ toString scale ++ ")" := by
  simp [sizesText, Text.join, String.append_assoc]

namespace Column

/-- The type that a column is declared with on SQLite. -/
def sqliteType (c : Column) : String := render .sqlite (Dialect.columnType .sqlite c)

/-- The numbers that stand behind the name of the type. -/
def sizes (c : Column) : List Nat :=
  match c.precision, c.scale, Dialect.takesScale .sqlite c.type with
  | some digits, some scale, true => [digits, scale]
  | _, _, _ =>
    if c.type = .enum || c.type.bringsLength then []
    else if c.type.isTemporal then c.fractionDigits.toList
    else c.length.toList

theorem sizes_decimal {c : Column} (decimal : c.type = .decimal) :
    c.sizes = match c.precision, c.scale with
      | some digits, some scale => [digits, scale]
      | _, _ => c.length.toList := by
  rw [sizes, decimal]
  cases c.precision <;> cases c.scale <;> rfl

theorem sizes_of_not_decimal {c : Column} (other : c.type ≠ .decimal) :
    c.sizes =
      if c.type = .enum || c.type.bringsLength then []
      else if c.type.isTemporal then c.fractionDigits.toList
      else c.length.toList := by
  have scaled : Dialect.takesScale .sqlite c.type = false := decide_eq_false other
  rw [sizes, scaled]
  cases c.precision <;> cases c.scale <;> rfl

theorem sizes_enum {c : Column} (enum : c.type = .enum) : c.sizes = [] := by
  rw [sizes_of_not_decimal (by simp [enum]), enum]
  rfl

theorem sizesText_sizes {c : Column} (plain : c.type ≠ .enum) :
    sizesText c.sizes = Dialect.sizeOf .sqlite c.type.sqliteName c := by
  have fractions : Dialect.fractionalSeconds .sqlite = true := rfl
  unfold sizes Dialect.sizeOf ColumnType.bringsLength
  match c.precision, c.scale, Dialect.takesScale .sqlite c.type with
  | some digits, some scale, true => exact sizesText_pair digits scale
  | none, _, _ | some _, none, _ | some _, some _, false =>
    simp only [plain, decide_false, Bool.false_or, fractions, Bool.and_true]
    split_ifs
    · rfl
    · exact Dialect.sizesText_toList c.fractionDigits
    · exact Dialect.sizesText_toList c.length

/-- A declared type is a name and the numbers behind it. -/
theorem sqliteType_eq (c : Column) :
    c.sqliteType = c.type.sqliteName ++ sizesText c.sizes := by
  have text : ∀ t, render .sqlite [.text t] = t := by simp [render, renderFrom, Piece.render]
  by_cases enum : c.type = .enum
  · rw [sizes_enum enum, sqliteType, Dialect.columnType, if_pos enum, enum]
    rfl
  · rw [sqliteType, Dialect.columnType, if_neg enum, text, sizesText_sizes enum]
    rfl

theorem sqliteType_of_empty (c : Column) (empty : c.sizes = []) :
    c.sqliteType = c.type.sqliteName := by
  rw [sqliteType_eq, empty]
  exact String.append_empty

end Column

namespace ColumnType

/-- The type that is read where a type is declared by name: the first one with its name. -/
def sqliteKin : ColumnType → ColumnType
  | .mediumText | .longText | .json | .jsonb | .enum => .text
  | .year => .integer
  | .dateTimeTz => .dateTime
  | .timeTz => .time
  | .timestampTz => .timestamp
  | .vector | .vectorF16 | .halfVector | .other _ => .string
  | type => type

/-- How many numbers behind the name of a type are read and written again. -/
def keptSizes (type : ColumnType) : Nat :=
  if type = .decimal then 2
  else if type.isTemporal || type.isInteger || type.isDecimal || type = .year then 0
  else 1

theorem typeOfNative?_sqliteName (type : ColumnType) :
    Dialect.typeOfNative? .sqlite type.sqliteName = some type.sqliteKin := by
  cases type with
  | other native =>
    change Dialect.typeOfNative? .sqlite "VARCHAR" = some .string
    decide +kernel
  | _ => decide +kernel

theorem sqliteName_sqliteKin (type : ColumnType) :
    type.sqliteKin.sqliteName = type.sqliteName := by
  cases type <;> rfl

theorem bringsLength_sqliteKin (type : ColumnType) :
    type.sqliteKin.bringsLength = type.bringsLength := by
  rw [bringsLength, sqliteName_sqliteKin, bringsLength]

theorem keptSizes_sqliteKin (type : ColumnType) : type.sqliteKin.keptSizes = type.keptSizes := by
  cases type <;> rfl

theorem sqliteKin_sqliteKin (type : ColumnType) : type.sqliteKin.sqliteKin = type.sqliteKin := by
  cases type <;> rfl

theorem sqliteName_mem (type : ColumnType) :
    type.sqliteName ∈ all.map sqliteName := by
  cases type with
  | other native => exact List.mem_map.mpr ⟨.string, by decide, rfl⟩
  | _ => exact List.mem_map_of_mem (by decide)

/-- Names of types are in capitals, but for those that bring their own length. -/
theorem sqliteName_capitals (type : ColumnType) :
    type.sqliteName ≠ "" ∧
      (type.bringsLength = false →
        type.sqliteName.toList.all NativeType.capitals.contains) := by
  have names : ∀ name ∈ all.map sqliteName, name ≠ "" ∧
      (name.toList.contains '(' = false → name.toList.all NativeType.capitals.contains) := by
    decide +kernel
  exact names _ type.sqliteName_mem

theorem parse_of_bare (type : ColumnType)
    (bare : type.bringsLength = false) :
    NativeType.parse type.sqliteName =
      { base := type.sqliteName } := by
  have names : ∀ name ∈ all.map sqliteName,
      name.toList.contains '(' = false → NativeType.parse name = { base := name } := by
    decide +kernel
  exact names _ type.sqliteName_mem bare

/-- The types that bring their own length are texts of that length. -/
theorem parse_of_bringsLength (type : ColumnType)
    (paren : type.bringsLength) :
    (NativeType.parse type.sqliteName).args.length = 1 ∧
      (NativeType.parse type.sqliteName).base ∈ ["CHAR", "VARCHAR"] := by
  have names : ∀ name ∈ all.map sqliteName, name.toList.contains '(' →
      (NativeType.parse name).args.length = 1 ∧
        (NativeType.parse name).base ∈ ["CHAR", "VARCHAR"] := by decide +kernel
  exact names _ type.sqliteName_mem paren

theorem keptSizes_of_text (type : ColumnType)
    (text : type.sqliteName ∈ ["CHAR", "VARCHAR"]) : type.keptSizes = 1 := by
  cases type <;> first | rfl | (revert text; decide)

end ColumnType

/-! ### Numbers that are kept -/

/-- A row that tells the type of a column in upper case and nothing else about it. -/
structure Row.TellsType (row : Row) (declared : String) : Prop where
  native : row.filledText? "type_name" = some declared.toUpper
  silent : ∀ name ∈ ["max_length", "numeric_precision", "numeric_scale", "datetime_precision"],
    row.count? name = none
  uncommented : row.filledText? "column_comment" = none

namespace Column

/-- The numbers that are written for the type of a column are those that are read. -/
structure KeepsSizes (c : Column) : Prop where
  decimal : c.type = .decimal → c.length = none ∨ c.precision.isSome ∧ c.scale.isSome
  temporal : c.type.isTemporal → c.fractionDigits = none
  bare : c.type.isInteger ∨ c.type = .year ∨ c.type = .float ∨ c.type = .double → c.length = none

theorem keepsSizes_iff (c : Column) :
    c.KeepsSizes ↔ c.sizes = [] ∨ c.sizes.length = c.type.keptSizes := by
  have fields : c.KeepsSizes ↔
      (c.type = .decimal → c.length = none ∨ c.precision.isSome ∧ c.scale.isSome) ∧
        (c.type.isTemporal → c.fractionDigits = none) ∧
        (c.type.isInteger ∨ c.type = .year ∨ c.type = .float ∨ c.type = .double →
          c.length = none) :=
    ⟨fun keeps => ⟨keeps.decimal, keeps.temporal, keeps.bare⟩,
      fun ⟨decimal, temporal, bare⟩ => ⟨decimal, temporal, bare⟩⟩
  rw [fields]
  by_cases decimal : c.type = .decimal
  · rw [sizes_decimal decimal, decimal]
    cases c.precision <;> cases c.scale <;> cases c.length <;>
      simp [ColumnType.isTemporal, ColumnType.isInteger, ColumnType.keptSizes]
  · have least : ∀ given : Option Nat, given = none ∨ given.toList.length = 1 := by
      intro given
      cases given <;> simp
    rw [sizes_of_not_decimal decimal]
    cases type : c.type <;>
      simp_all [ColumnType.isTemporal, ColumnType.isInteger, ColumnType.isDecimal,
        ColumnType.keptSizes, ColumnType.bringsLength, ColumnType.sqliteName, Dialect.nativeName,
        Dialect.nativeName?, Dialect.sqliteName?]

end Column

/-! ### The column that is read -/

theorem Dialect.sqliteName_of_typeOfNative? {text : String} {type : ColumnType}
    (found : typeOfNative? .sqlite text = some type) :
    type.sqliteName = (Text.trim text).toUpper := by
  have named : ColumnType.all.find? (fun type => nativeName? .sqlite type =
      some (Text.trim text).toUpper) = some type := by
    simpa [typeOfNative?, catalogNames] using found
  have same : nativeName? .sqlite type = some (Text.trim text).toUpper := by
    simpa using List.find?_some named
  rw [ColumnType.sqliteName, nativeName, same, Option.getD_some]

namespace Column

variable {column : Column} {row : Row} {native : NativeType} {sizes : List Nat}

theorem type_withSizes (column : Column) (row : Row) (native : NativeType) :
    (column.withSizes row native).type = column.type := by
  unfold withSizes
  split_ifs <;> rfl

/-- A decimal keeps two numbers. -/
theorem sizes_withSizes_decimal (decimal : column.type = .decimal) (length : column.length = none)
    (args : ∀ i, native.arg? i = sizes[i]?) (precision : row.count? "numeric_precision" = none)
    (scale : row.count? "numeric_scale" = none) :
    (column.withSizes row native).sizes = if 2 ≤ sizes.length then sizes.take 2 else [] := by
  have told : column.withSizes row native =
      { column with precision := sizes[0]?, scale := sizes[1]? } := by
    rw [withSizes, decimal, precision, scale, args, args]
    rfl
  rw [sizes_decimal (by rwa [type_withSizes]), told]
  match sizes with
  | [] => simp [length]
  | [_] => simp [length]
  | _ :: _ :: _ => simp

/-- The numbers of a column without any, once it has those of a native type: as many as the type
keeps, or none. -/
theorem sizes_withSizes (first : column.type.sqliteKin = column.type)
    (bare : column.type.bringsLength = false)
    (length : column.length = none) (fraction : column.fractionDigits = none)
    (args : ∀ i, native.arg? i = sizes[i]?) (noLength : row.count? "max_length" = none)
    (noPrecision : row.count? "numeric_precision" = none)
    (noScale : row.count? "numeric_scale" = none) :
    (column.withSizes row native).sizes =
      if column.type.keptSizes ≤ sizes.length then sizes.take column.type.keptSizes else [] := by
  by_cases decimal : column.type = .decimal
  · rw [sizes_withSizes_decimal decimal length args noPrecision noScale, decimal]
    rfl
  · have one : (sizes[0]?).toList = if 1 ≤ sizes.length then sizes.take 1 else [] := by
      cases sizes <;> simp
    rw [sizes_of_not_decimal (by rwa [type_withSizes]), type_withSizes, bare, withSizes, args,
      noLength]
    cases type : column.type <;>
      simp_all [ColumnType.sqliteKin, ColumnType.isTemporal, ColumnType.isInteger,
        ColumnType.isDecimal, ColumnType.keptSizes]

end Column

/-- A column that is read where only its type is told: one without numbers of the type that is
found, with those of the native type. -/
theorem Dialect.readColumn_of_tellsType {row : Row} {declared : String}
    (tells : row.TellsType declared) {kin : ColumnType}
    (found : (typeOfNative? .sqlite declared.toUpper).or
      (typeOfNative? .sqlite (NativeType.parse declared.toUpper).base) = some kin)
    (table : String) :
    ∃ column : Column, column.type = kin ∧ column.length = none ∧ column.fractionDigits = none ∧
      readColumn .sqlite row table =
        column.withSizes row (NativeType.parse declared.toUpper) := by
  have fraction : row.count? "datetime_precision" = none := tells.silent _ (by simp)
  simp only [readColumn, tells.native, Option.getD_some, found, Option.some_or, fraction,
    tells.uncommented]
  refine ⟨_, ?_, ?_, ?_, rfl⟩ <;> rfl

/-! ### Types that come back -/

namespace Column

variable {c : Column}

theorem sizes_of_bringsLength (paren : c.type.bringsLength) :
    c.sizes = [] := by
  have other : c.type ≠ .decimal := by
    intro decimal
    rw [decimal] at paren
    revert paren
    decide
  rw [sizes_of_not_decimal other, paren, Bool.or_true, if_pos rfl]

/-- A declared type has no blanks and no small letters. -/
theorem sqliteType_plain (c : Column) :
    ∀ ch ∈ c.sqliteType.toList, Text.isBlank ch = false ∧ ch.toUpper = ch := by
  intro ch member
  rw [sqliteType_eq, String.toList_append, List.mem_append] at member
  rcases member with inName | inSizes
  · have names : ∀ name ∈ ColumnType.all.map ColumnType.sqliteName,
        (name.toList.all fun ch => Text.isBlank ch = false ∧ ch.toUpper = ch) = true := by
      decide +kernel
    have plain := List.all_eq_true.mp (names _ c.type.sqliteName_mem) ch inName
    exact of_decide_eq_true plain
  · by_cases empty : c.sizes.isEmpty
    · simp [sizesText, empty] at inSizes
    · have inside : ch = '(' ∨ ch ∈ (Text.join "," (c.sizes.map toString)).toList ∨ ch = ')' := by
        simpa [sizesText, empty] using inSizes
      rcases inside with rfl | member | rfl
      · decide
      · rcases NativeType.digit_or_comma member with digit | rfl
        · obtain ⟨solid, -, -, upper⟩ := Number.digit_plain digit
          exact ⟨solid, upper⟩
        · decide
      · decide

theorem toUpper_sqliteType (c : Column) : c.sqliteType.toUpper = c.sqliteType :=
  NativeType.toUpper_eq_self fun ch member => (c.sqliteType_plain ch member).2

theorem trim_sqliteType (c : Column) : Text.trim c.sqliteType = c.sqliteType := by
  have solid : ∀ ch ∈ c.sqliteType.toList, !Text.isBlank ch := fun ch member => by
    simp [(c.sqliteType_plain ch member).1]
  rw [Text.trim, Text.trimChars_solid solid, String.ofList_toList]

theorem parse_sqliteType (bare : c.type.bringsLength = false) :
    NativeType.parse c.sqliteType =
      { base := c.type.sqliteName, args := c.sizes.map toString } := by
  obtain ⟨filled, upper⟩ := c.type.sqliteName_capitals
  rw [sqliteType_eq]
  by_cases empty : c.sizes = []
  · rw [empty, sizesText, List.isEmpty_nil, if_pos rfl, String.append_empty,
      c.type.parse_of_bare bare, List.map_nil]
  · exact NativeType.parse_sizes filled (upper bare) empty

/-- A type whose text with the numbers is the name of another one has one number. -/
theorem keptSizes_of_whole {type : ColumnType}
    (found : Dialect.typeOfNative? .sqlite c.sqliteType = some type) (some_size : c.sizes ≠ []) :
    type.bringsLength ∧
      c.sizes.length = c.type.keptSizes := by
  have bare : c.type.bringsLength = false := by
    by_contra paren
    exact some_size (sizes_of_bringsLength (by simpa using paren))
  have named := Dialect.sqliteName_of_typeOfNative? found
  rw [trim_sqliteType, toUpper_sqliteType] at named
  have paren : type.bringsLength := by
    simp [ColumnType.bringsLength, named, sqliteType_eq, sizesText, some_size]
  refine ⟨paren, ?_⟩
  -- one text is read here, as the name of `type` and as that of `c.type` with its numbers
  have parsed := parse_sqliteType bare
  rw [← named] at parsed
  obtain ⟨one, base⟩ := type.parse_of_bringsLength paren
  rw [parsed] at one base
  rw [c.type.keptSizes_of_text base, ← one, List.length_map]

end Column

section Returned

variable {c : Column} {row : Row}

/-- A type that brings its own length is read and written as it is. -/
theorem Dialect.sqliteType_of_bringsLength (tells : row.TellsType c.sqliteType) {type : ColumnType}
    (found : typeOfNative? .sqlite c.sqliteType = some type)
    (paren : type.bringsLength) (table : String) :
    (readColumn .sqlite row table).sqliteType = c.sqliteType := by
  have named := sqliteName_of_typeOfNative? found
  rw [c.trim_sqliteType, c.toUpper_sqliteType] at named
  have whole : (typeOfNative? .sqlite c.sqliteType.toUpper).or
      (typeOfNative? .sqlite (NativeType.parse c.sqliteType.toUpper).base) = some type := by
    rw [c.toUpper_sqliteType, found, Option.some_or]
  obtain ⟨column, rfl, -, -, read⟩ := readColumn_of_tellsType tells whole table
  have kept := column.type_withSizes row (NativeType.parse c.sqliteType.toUpper)
  rw [read, Column.sqliteType_eq, Column.sizes_of_bringsLength (by rwa [kept]), kept, named]
  exact String.append_empty

/-- A type without a length of its own is read as the first one with its name, which keeps its own
number of numbers. -/
theorem Dialect.sqliteType_of_name (tells : row.TellsType c.sqliteType)
    (found : (typeOfNative? .sqlite c.sqliteType).or
      (typeOfNative? .sqlite (NativeType.parse c.sqliteType).base) = some c.type.sqliteKin)
    (args : ∀ i, (NativeType.parse c.sqliteType).arg? i = c.sizes[i]?)
    (bare : c.type.bringsLength = false) (table : String) :
    (readColumn .sqlite row table).sqliteType = c.sqliteType ↔
      c.sizes = [] ∨ c.sizes.length = c.type.keptSizes := by
  rw [← c.toUpper_sqliteType] at found args
  obtain ⟨column, type, length, fraction, read⟩ := readColumn_of_tellsType tells found table
  have first : column.type.sqliteKin = column.type := by rw [type, c.type.sqliteKin_sqliteKin]
  have own : column.type.sqliteName = c.type.sqliteName := by
    rw [type, c.type.sqliteName_sqliteKin]
  have bareKin : column.type.bringsLength = false := by
    rw [type, c.type.bringsLength_sqliteKin, bare]
  have kept := Column.sizes_withSizes first bareKin length fraction args
    (tells.silent _ (by simp)) (tells.silent _ (by simp)) (tells.silent _ (by simp))
  rw [read, Column.sqliteType_eq, Column.type_withSizes, own, kept, c.sqliteType_eq,
    String.append_right_inj, sizesText_injective.eq_iff, type, c.type.keptSizes_sqliteKin]
  split_ifs with enough
  · rw [List.take_eq_self_iff]
    constructor
    · intro few
      exact .inr (Nat.le_antisymm few enough)
    · rintro (empty | exact_size)
      · simp [empty]
      · exact exact_size.le
  · constructor
    · intro empty
      exact .inl empty.symm
    · rintro (empty | exact_size)
      · exact empty.symm
      · exact absurd exact_size.ge enough

/-- The type that a column is declared with on SQLite comes back from a catalog that tells nothing
else about it exactly if the numbers in it are those that are read for its name. -/
theorem sqliteType_comes_back_iff (tells : row.TellsType c.sqliteType)
    (low : ∀ n ∈ c.sizes, n ≤ Number.maxCount) (table : String) :
    (Dialect.readColumn .sqlite row table).sqliteType = c.sqliteType ↔ c.KeepsSizes := by
  rw [c.keepsSizes_iff]
  cases paren : c.type.bringsLength with
  | true =>
    have empty := Column.sizes_of_bringsLength paren
    have found := c.type.typeOfNative?_sqliteName
    rw [← c.sqliteType_of_empty empty] at found
    have kin_paren : c.type.sqliteKin.bringsLength := by
      rwa [c.type.bringsLength_sqliteKin]
    exact iff_of_true (Dialect.sqliteType_of_bringsLength tells found kin_paren table) (.inl empty)
  | false =>
    have parsed := Column.parse_sqliteType paren
    have args : ∀ i, (NativeType.parse c.sqliteType).arg? i = c.sizes[i]? := by
      rw [parsed]
      exact NativeType.arg?_sizes low
    -- with a number behind it, the name may be that of a type that brings the number
    cases whole : Dialect.typeOfNative? .sqlite c.sqliteType with
    | none =>
      refine Dialect.sqliteType_of_name tells ?_ args paren table
      rw [whole, parsed, Option.none_or, c.type.typeOfNative?_sqliteName]
    | some type =>
      by_cases empty : c.sizes = []
      · have found := c.type.typeOfNative?_sqliteName
        rw [← c.sqliteType_of_empty empty] at found
        refine Dialect.sqliteType_of_name tells ?_ args paren table
        rw [found, Option.some_or]
      · obtain ⟨own, one⟩ := Column.keptSizes_of_whole whole empty
        exact iff_of_true (Dialect.sqliteType_of_bringsLength tells whole own table) (.inr one)

end Returned

/-- A text that is read as an address, because of its length, has the same type again. -/
theorem sqliteType_comes_back_text :
    let c : Column := { name := "host", type := .string, length := some 45 }
    let row : Row := ⟨["data_type", "type_name"], [.text "VARCHAR(45)", .text "VARCHAR(45)"]⟩
    (Dialect.readColumn .sqlite row "t").type = .ipAddress ∧
      (Dialect.readColumn .sqlite row "t").sqliteType = c.sqliteType := by
  intro c row
  have tells : row.TellsType c.sqliteType :=
    ⟨by decide +kernel, by decide +kernel, by decide +kernel⟩
  have keeps : c.KeepsSizes := ⟨by decide, by decide, by decide⟩
  exact ⟨by decide +kernel, (sqliteType_comes_back_iff tells (by decide) "t").mpr keeps⟩

/-- The digits of a fraction of a second are read as a length, which a temporal type is declared
without. -/
theorem fractionDigits_lost :
    let c : Column := { name := "at", type := .dateTime, fractionDigits := some 3 }
    let row : Row := ⟨["data_type", "type_name"], [.text "DATETIME(3)", .text "DATETIME(3)"]⟩
    c.sqliteType = "DATETIME(3)" ∧ row.TellsType c.sqliteType ∧
      (Dialect.readColumn .sqlite row "t").sqliteType = "DATETIME" := by
  intro c row
  exact ⟨by decide +kernel, ⟨by decide +kernel, by decide +kernel, by decide +kernel⟩,
    by decide +kernel⟩

end Sqlwright
