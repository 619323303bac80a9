import Mathlib.Data.List.Basic
import Sqlwright.Ddl.Alter
import Sqlwright.Proofs.DeclaredTypes
import Sqlwright.Proofs.EnumTypes

/-!
Quoting in definitions. A statement that creates or alters a table consists of words that no caller
gives a name to and of names and texts in quotes, and each quoted one is read back where it stands.
The one exception are the enum types of Postgres, whose names are made of labels and are written as
they are.
-/

namespace Sqlwright

/-- The fixed words of definitions, in all dialects. -/
def definitionWords : List String :=
  ["*", ".", ",", " ", "(", ")", "))", " as ", ",\n  ", " (\n  ", "\n)",
   "CREATE TABLE ", "CREATE TEMPORARY TABLE ", "CREATE GLOBAL TEMPORARY TABLE ", "CREATE INDEX ",
   "CREATE UNIQUE INDEX ", "KEY ", "UNIQUE KEY ", "PRIMARY KEY ", " ON ",
   " USING vectors (", " USING hnsw (", " vector_cos_ops)", " vecf16_cos_ops)",
   " halfvec_cosine_ops)", " WITH (options=", "COMMENT ON COLUMN ", " IS ",
   "ENUM(", "enum__", "SERIAL", "SMALLSERIAL", "BIGSERIAL", "NULL", "NOT NULL", "DEFAULT ",
   "COLLATE ", "UNSIGNED", "AUTO_INCREMENT", " INTEGER PRIMARY KEY AUTOINCREMENT NOT NULL",
   "GENERATED BY DEFAULT AS IDENTITY", "COMMENT ", "CHECK (", " IN (",
   "ALTER TABLE ", " ADD ", " ADD COLUMN ", " MODIFY COLUMN ", " ALTER ", " ALTER COLUMN ",
   " RENAME COLUMN ", " RENAME INDEX ", " DROP ", " DROP COLUMN ", " DROP CONSTRAINT ",
   " DROP PRIMARY KEY", "RENAME COLUMN ", "RENAME INDEX ", "ALTER INDEX ", "DROP INDEX ", " TO ",
   " RENAME TO ", " TYPE ", " USING (", "::", " DROP NOT NULL", " SET NOT NULL", " DROP DEFAULT",
   " SET ", " SET DATA TYPE "]

/-- What statements say outside quotes about columns: fixed words, native types with numbers, and
what the columns and the options of the table give as SQL or as a value without quotes. -/
inductive Wording (d : Dialect) (columns : List Column) (options : CreateOptions) : String → Prop
  | word {s : String} (fixed : s ∈ definitionWords) : Wording d columns options s
  | type (type : ColumnType) (sizes : List Nat) :
      Wording d columns options (d.nativeName type ++ sizesText sizes)
  | rawDefault {c : Column} {sql : String} (defined : c ∈ columns)
      (given : c.default = some (.raw sql)) : Wording d columns options ("DEFAULT " ++ sql)
  | value {c : Column} {v : Value} {s : String} (defined : c ∈ columns)
      (given : c.default = some (.value v)) (bare : d.literal v = .text s) :
      Wording d columns options s
  | charset {c : Column} {s : String} (defined : c ∈ columns) (given : c.charset = some s) :
      Wording d columns options ("CHARACTER SET " ++ s)
  | collation {c : Column} {s : String} (defined : c ∈ columns) (given : c.collation = some s) :
      Wording d columns options ("COLLATE " ++ s)
  | engine {s : String} (given : options.engine = some s) :
      Wording d columns options ("ENGINE " ++ s)
  | tableCharset {s : String} (given : options.charset = some s) :
      Wording d columns options ("DEFAULT CHARSET " ++ s)
  | tableCollation {s : String} (given : options.collation = some s) :
      Wording d columns options ("COLLATE=" ++ s)

/-- A statement that opens with a fixed word and has no names outside quotes: its pieces are wording
or quoted, and reading a quoted one in the text from where it stands gives it back. -/
structure KeepsQuotes (d : Dialect) (wording : String → Prop) (statement : List Piece) :
    Prop where
  opens : ∃ word ∈ definitionWords, statement.head? = some (.text word)
  said : ∀ piece ∈ statement,
    (∃ s, piece = .text s ∧ wording s) ∨ (∃ s, piece = .name s) ∨ ∃ s, piece = .literal s
  name_closed : ∀ front s rest, statement = front ++ .name s :: rest →
    Text.unquote d.quoteChar (render d (.name s :: rest)).toList =
      some (s.toList, (render d rest).toList)
  literal_closed : ∀ front s rest, statement = front ++ .literal s :: rest →
    Text.unquote '\x27' (render d (.literal s :: rest)).toList =
      some (s.toList, (render d rest).toList)

namespace Table

/-- The columns that the log defines. -/
def definedColumns (t : Table) : List Column := t.commands.filterMap fun c => c.change.column?

end Table

/-- The statements that are written for a blueprint: those that create its table, and those of every
change in its log. -/
inductive Grammar.Writes (g : Grammar) (t : Table) (options : CreateOptions) : List Piece → Prop
  | create {statement : List Piece} (listed : statement ∈ g.createStatements t options) :
      g.Writes t options statement
  | alter {command : Command} {statements : List (List Piece)} {statement : List Piece}
      (logged : command ∈ t.commands)
      (ready : g.alterStatements t.withoutCommands command.change = .ok statements)
      (listed : statement ∈ statements) : g.Writes t options statement

/-! ### Pieces in quotes -/

/-- A text that starts with a character other than a quote. -/
def opensPlain (s : String) : Bool := s.toList.head?.any fun c => c ∉ ['\x60', '\x22', '\x27']

theorem opensPlain_of_word : ∀ word ∈ definitionWords, opensPlain word = true := by
  decide +kernel

theorem head?_ne_of_opensPlain {s : String} (plain : opensPlain s) {q : Char}
    (quote : q ∈ ['\x60', '\x22', '\x27']) (rest : String) :
    (s ++ rest).toList.head? ≠ some q := by
  intro opens
  cases shape : s.toList with
  | nil => simp [opensPlain, shape] at plain
  | cons c more =>
    have same : c = q := by simpa [String.toList_append, shape] using opens
    have apart : q ∉ ['\x60', '\x22', '\x27'] := by
      simpa [opensPlain, shape, same] using plain
    exact apart quote

def Piece.isQuoted : Piece → Bool
  | .name _ | .literal _ => true
  | _ => false

/-- Pieces that are wording or quoted, with wording behind everything quoted. -/
inductive Quoted (wording : String → Prop) : List Piece → Prop
  | nil : Quoted wording []
  | text {s : String} {rest : List Piece} (said : wording s) (behind : Quoted wording rest) :
      Quoted wording (.text s :: rest)
  | last {piece : Piece} (quoted : piece.isQuoted) : Quoted wording [piece]
  | before {piece : Piece} {s : String} {rest : List Piece} (quoted : piece.isQuoted)
      (plain : opensPlain s) (behind : Quoted wording (.text s :: rest)) :
      Quoted wording (piece :: .text s :: rest)

namespace Quoted

variable {wording : String → Prop} {front rest inner : List Piece}

theorem said (quoted : Quoted wording front) : ∀ piece ∈ front,
    (∃ s, piece = .text s ∧ wording s) ∨ (∃ s, piece = .name s) ∨ ∃ s, piece = .literal s := by
  have shape : ∀ piece : Piece, piece.isQuoted →
      (∃ s, piece = .text s ∧ wording s) ∨ (∃ s, piece = .name s) ∨ ∃ s, piece = .literal s := by
    intro piece quoted
    cases piece with
    | name s => exact .inr (.inl ⟨s, rfl⟩)
    | literal s => exact .inr (.inr ⟨s, rfl⟩)
    | _ => cases quoted
  induction quoted with
  | nil => exact List.forall_mem_nil _
  | text said _ ih => exact List.forall_mem_cons.mpr ⟨.inl ⟨_, rfl, said⟩, ih⟩
  | last quoted => exact List.forall_mem_singleton.mpr (shape _ quoted)
  | before quoted _ _ ih => exact List.forall_mem_cons.mpr ⟨shape _ quoted, ih⟩

/-- What stands behind a quoted piece does not go on with a quote. -/
theorem head?_ne {piece : Piece} (quoted : Quoted wording (front ++ piece :: rest))
    (inside : piece.isQuoted) {q : Char} (quote : q ∈ ['\x60', '\x22', '\x27']) (d : Dialect) :
    (render d rest).toList.head? ≠ some q := by
  generalize whole : front ++ piece :: rest = pieces at quoted
  induction quoted generalizing front with
  | nil => simp at whole
  | text said behind ih =>
    cases front with
    | nil =>
      obtain ⟨rfl, -⟩ := List.cons.inj whole
      cases inside
    | cons first more => exact ih (List.cons.inj whole).2
  | last _ =>
    cases front with
    | nil =>
      obtain ⟨-, rfl⟩ := List.cons.inj whole
      simp [render, renderFrom]
    | cons first more =>
      have nothing := (List.cons.inj whole).2
      simp at nothing
  | before _ plain _ ih =>
    cases front with
    | nil =>
      obtain ⟨-, rfl⟩ := List.cons.inj whole
      exact head?_ne_of_opensPlain plain quote _
    | cons first more => exact ih (List.cons.inj whole).2

theorem append_text {s : String} (first : Quoted wording front) (plain : opensPlain s)
    (behind : Quoted wording (.text s :: rest)) : Quoted wording (front ++ .text s :: rest) := by
  induction first with
  | nil => exact behind
  | text said _ ih => exact .text said ih
  | last quoted => exact .before quoted plain behind
  | before quoted opens _ ih => exact .before quoted opens ih

theorem name_closed (d : Dialect) {s : String}
    (quoted : Quoted wording (front ++ .name s :: rest)) :
    Text.unquote d.quoteChar (render d (.name s :: rest)).toList =
      some (s.toList, (render d rest).toList) := by
  have quote : d.quoteChar ∈ ['\x60', '\x22', '\x27'] := by cases d <;> decide
  have text : (render d (.name s :: rest)).toList =
      Text.quote d.quoteChar s.toList ++ (render d rest).toList := by
    simp [render, renderFrom, Piece.render, Piece.advance, Dialect.quoteIdentifier, Text.quoted,
      String.toList_append]
  rw [text, Text.unquote_quote _ (quoted.head?_ne rfl quote d)]

theorem literal_closed (d : Dialect) {s : String}
    (quoted : Quoted wording (front ++ .literal s :: rest)) :
    Text.unquote '\x27' (render d (.literal s :: rest)).toList =
      some (s.toList, (render d rest).toList) := by
  have text : (render d (.literal s :: rest)).toList =
      Text.quote '\x27' s.toList ++ (render d rest).toList := by
    simp [render, renderFrom, Piece.render, Piece.advance, Dialect.quoteString, Text.quoted,
      String.toList_append]
  rw [text, Text.unquote_quote _ (quoted.head?_ne rfl (by decide) d)]

theorem join {sep : String} (said : wording sep) (plain : opensPlain sep)
    {parts : List (List Piece)} (each : ∀ part ∈ parts, Quoted wording part) :
    Quoted wording (joinPieces sep parts) := by
  induction parts with
  | nil => exact .nil
  | cons part rest ih =>
    obtain ⟨first, later⟩ := List.forall_mem_cons.mp each
    cases rest with
    | nil => exact first
    | cons next more => exact first.append_text plain (.text said (ih later))

end Quoted

/-! ### Names and lists -/

namespace Quoted

variable {d : Dialect} {columns : List Column} {options : CreateOptions}
  {front rest inner : List Piece} {s : String}

theorem word (fixed : s ∈ definitionWords) (behind : Quoted (Wording d columns options) rest) :
    Quoted (Wording d columns options) (.text s :: rest) :=
  .text (.word fixed) behind

theorem only (fixed : s ∈ definitionWords) : Quoted (Wording d columns options) [.text s] :=
  .word fixed .nil

theorem append_word (first : Quoted (Wording d columns options) front)
    (fixed : s ∈ definitionWords) (behind : Quoted (Wording d columns options) rest) :
    Quoted (Wording d columns options) (front ++ .text s :: rest) :=
  first.append_text (opensPlain_of_word s fixed) (.word fixed behind)

theorem parenthesised (quoted : Quoted (Wording d columns options) inner) :
    Quoted (Wording d columns options) (parenthesised inner) :=
  .word (by decide) (quoted.append_word (by decide) .nil)

theorem separated (fixed : s ∈ definitionWords) {parts : List (List Piece)}
    (each : ∀ part ∈ parts, Quoted (Wording d columns options) part) :
    Quoted (Wording d columns options) (joinPieces s parts) :=
  .join (.word fixed) (opensPlain_of_word s fixed) each

theorem sentence {clauses : List (List Piece)}
    (each : ∀ clause ∈ clauses, Quoted (Wording d columns options) clause) :
    Quoted (Wording d columns options) (sentence clauses) :=
  separated (by decide) fun clause member => each clause (List.mem_filter.mp member).1

/-- `sentence` with one fact for each clause. -/
theorem clauses {parts : List (List Piece)}
    (each : parts.Forall (Quoted (Wording d columns options))) :
    Quoted (Wording d columns options) (Sqlwright.sentence parts) :=
  sentence (List.forall_iff_forall_mem.mp each)

theorem segment (s : String) : Quoted (Wording d columns options) [Grammar.segment s] := by
  rw [Grammar.segment]
  split
  · exact .only (by decide)
  · exact .last rfl

theorem names (names : List String) :
    Quoted (Wording d columns options) (Grammar.names names) := by
  refine separated (by decide) fun part member => ?_
  obtain ⟨name, -, rfl⟩ := List.mem_map.mp member
  exact .segment name

theorem literalList (texts : List String) :
    Quoted (Wording d columns options) (literalList texts) := by
  refine separated (by decide) fun part member => ?_
  obtain ⟨text, -, rfl⟩ := List.mem_map.mp member
  exact .last rfl

theorem table (g : Grammar) (reference : String) :
    Quoted (Wording d columns options) (g.table reference) := by
  have segments : ∀ parts : List String, ∀ piece ∈ g.tableSegments parts,
      Quoted (Wording d columns options) [piece] := by
    intro parts
    induction parts with
    | nil => exact List.forall_mem_nil _
    | cons first rest ih =>
      cases rest with
      | nil => exact List.forall_mem_singleton.mpr (.segment _)
      | cons second more => exact List.forall_mem_cons.mpr ⟨.segment _, ih⟩
  have labels : ∀ (labels : List (List Char)) (front : List Piece),
      Quoted (Wording d columns options) front →
        Quoted (Wording d columns options) (front ++ labels.flatMap fun label =>
          [.text " as ", g.tableSegment (.ofList label)]) := by
    intro labels
    induction labels with
    | nil => simp
    | cons label more ih =>
      intro front quoted
      have grown : Quoted (Wording d columns options)
          (front ++ [.text " as ", g.tableSegment (.ofList label)]) :=
        quoted.append_word (by decide) (.segment _)
      simpa using ih _ grown
  apply labels
  refine separated (by decide) fun part member => ?_
  obtain ⟨piece, inside, rfl⟩ := List.mem_map.mp member
  exact segments _ piece inside

end Quoted

/-! ### Columns -/

/-- A column whose type is not named by labels. -/
def Column.TypeUnnamed (d : Dialect) (c : Column) : Prop :=
  d = .postgres → c.type = .enum → c.options = []

namespace Dialect

theorem exists_sizesText (d : Dialect) (native : String) (c : Column) :
    ∃ sizes, d.sizeOf native c = sizesText sizes := by
  unfold sizeOf
  split
  · next digits scale _ _ _ =>
    exact ⟨[digits, scale], by simp [sizesText, Text.join, String.append_assoc]⟩
  · split_ifs
    · exact ⟨[], rfl⟩
    · exact ⟨_, (sizesText_toList c.fractionDigits).symm⟩
    · exact ⟨_, (sizesText_toList c.length).symm⟩

variable {d : Dialect} {columns : List Column} {options : CreateOptions} {c : Column}

theorem columnType_quoted (unnamed : c.TypeUnnamed d) :
    Quoted (Wording d columns options) (d.columnType c) := by
  have typed : ∀ type sizes, Quoted (Wording d columns options)
      [.text (d.nativeName type ++ sizesText sizes)] := fun type sizes =>
    .text (.type type sizes) .nil
  by_cases enum : c.type = .enum
  · rw [columnType, if_pos enum]
    cases d with
    | mysql => exact .word (by decide) ((Quoted.literalList c.options).append_word (by decide) .nil)
    | postgres =>
      have bare : c.enumTypeName = "enum__" := by
        rw [Column.enumTypeName, unnamed rfl enum]
        rfl
      rw [enumType, bare]
      exact .only (by decide)
    | sqlite => exact typed .text []
    | generic | hana => exact typed .string [_]
  · obtain ⟨sizes, size⟩ := d.exists_sizesText (d.nativeName c.type) c
    simp only [columnType, if_neg enum, size]
    exact typed c.type sizes

theorem createTypes_eq_nil {defined : List Column} (unnamed : ∀ c ∈ defined, c.TypeUnnamed d) :
    d.createTypes defined = [] := by
  cases d with
  | postgres =>
    have none_typed : (defined.filter fun c => c.type = .enum && !c.options.isEmpty) = [] := by
      apply List.filter_eq_nil_iff.mpr
      intro c member typed
      have ⟨enum, filled⟩ : c.type = .enum ∧ c.options ≠ [] := by simpa using typed
      exact filled (unnamed c member rfl enum)
    rw [createTypes, none_typed, List.map_nil]
  | _ => rfl

theorem literal_cases (d : Dialect) (v : Value) :
    (∃ s, d.literal v = .text s) ∨ (d.literal v).isQuoted := by
  unfold literal
  split
  all_goals first | exact .inl ⟨_, rfl⟩ | exact .inr rfl

theorem defaultClause_quoted (defined : c ∈ columns) :
    Quoted (Wording d columns options) (d.defaultClause c) := by
  unfold defaultClause
  split
  · exact .nil
  · next sql given => exact .text (.rawDefault defined given) .nil
  · next v given =>
    rcases d.literal_cases v with ⟨s, bare⟩ | quoted
    · rw [bare]
      exact .word (by decide) (.text (.value defined given bare) .nil)
    · exact .word (by decide) (.last quoted)

theorem nullClause_quoted (c : Column) : Quoted (Wording d columns options) (nullClause c) := by
  rw [nullClause]
  split
  · exact .only (by decide)
  · exact .only (by decide)

theorem enumCheck_quoted (c : Column) : Quoted (Wording d columns options) (d.enumCheck c) := by
  unfold enumCheck
  split
  · exact .nil
  · split
    · exact .nil
    · have labels : Quoted (Wording d columns options)
          (.text " IN (" :: literalList c.options ++ [.text "))"]) :=
        .word (by decide) ((Quoted.literalList c.options).append_word (by decide) .nil)
      exact .word (by decide) ((Quoted.segment c.name).append_text (by decide) labels)

/-- What the caller gives as SQL stands behind a word. -/
theorem option_quoted {word : String} {given : Option String}
    (said : ∀ s, given = some s → Wording d columns options (word ++ s)) :
    Quoted (Wording d columns options) (option word given) := by
  cases given with
  | none => exact .nil
  | some s => exact .text (said s rfl) .nil

theorem columnDefinition_quoted (defined : c ∈ columns) (unnamed : c.TypeUnnamed d) :
    Quoted (Wording d columns options) (d.columnDefinition c) := by
  have name : Quoted (Wording d columns options) [Grammar.segment c.name] := .segment c.name
  have type : Quoted (Wording d columns options) (d.columnType c) := columnType_quoted unnamed
  have null : Quoted (Wording d columns options) (nullClause c) := nullClause_quoted c
  have default : Quoted (Wording d columns options) (d.defaultClause c) :=
    defaultClause_quoted defined
  have collation : Quoted (Wording d columns options) (option "COLLATE " c.collation) :=
    option_quoted fun s given => .collation defined given
  have charset : Quoted (Wording d columns options) (option "CHARACTER SET " c.charset) :=
    option_quoted fun s given => .charset defined given
  have check : Quoted (Wording d columns options) (d.enumCheck c) := enumCheck_quoted c
  have serial : serialType c.type ∈ definitionWords := by
    unfold serialType
    split <;> decide
  have marked : ∀ {holds : Bool} {word : String}, word ∈ definitionWords →
      Quoted (Wording d columns options) (if holds then [.text word] else []) := by
    intro holds word fixed
    cases holds with
    | true => exact .only fixed
    | false => exact .nil
  unfold columnDefinition
  split
  · exact .clauses ⟨name, .only serial⟩
  · refine .clauses ⟨name, type, null, default, ?_⟩
    split
    · exact .word (by decide) (.segment _)
    · exact .nil
  · exact name.append_word (by decide) .nil
  · exact .clauses ⟨name, type, null, default, collation, check⟩
  · refine .clauses
      ⟨name, type, marked (by decide), charset, null, default, marked (by decide), ?_, collation⟩
    split
    · exact .word (by decide) (.last rfl)
    · exact .nil
  · exact .clauses ⟨name, type, null, default, marked (by decide), collation, check⟩

end Dialect

/-! ### Statements -/

theorem KeepsQuotes.of_quoted {d : Dialect} {wording : String → Prop} {statement : List Piece}
    (quoted : Quoted wording statement)
    (opens : ∃ word ∈ definitionWords, statement.head? = some (.text word)) :
    KeepsQuotes d wording statement := by
  refine ⟨opens, quoted.said, fun front s rest split => ?_, fun front s rest split => ?_⟩
  · exact Quoted.name_closed d (split ▸ quoted)
  · exact Quoted.literal_closed d (split ▸ quoted)

theorem PrimaryKey.clause_quoted {d : Dialect} {columns : List Column} {options : CreateOptions}
    (key : PrimaryKey) : Quoted (Wording d columns options) key.clause :=
  .word (by decide) (Quoted.names key.columns).parenthesised

namespace Grammar

variable {g : Grammar} {t : Table} {columns : List Column} {options : CreateOptions} {c : Column}
  {index : Index} {statement : List Piece}

/-- A statement that opens with a word and is quoted behind it. -/
theorem keepsQuotes_word {d : Dialect} {word : String} {rest : List Piece}
    (fixed : word ∈ definitionWords) (behind : Quoted (Wording d columns options) rest) :
    KeepsQuotes d (Wording d columns options) (.text word :: rest) :=
  .of_quoted (.word fixed behind) ⟨word, fixed, rfl⟩

/-- The same with a table behind the word. -/
theorem keepsQuotes_table {d : Dialect} {word second : String} {rest : List Piece}
    (fixed : word ∈ definitionWords) (table : String) (fixed' : second ∈ definitionWords)
    (behind : Quoted (Wording d columns options) rest) :
    KeepsQuotes d (Wording d columns options)
      (.text word :: g.table table ++ .text second :: rest) :=
  keepsQuotes_word fixed ((Quoted.table g table).append_word fixed' behind)

theorem commentStatement?_keepsQuotes (written : g.commentStatement? c = some statement) :
    KeepsQuotes g.dialect (Wording g.dialect columns options) statement := by
  obtain ⟨comment, -, rfl⟩ := Option.map_eq_some_iff.mp written
  have said : Quoted (Wording g.dialect columns options) [.text " IS ", .literal comment] :=
    .word (by decide) (.last rfl)
  exact keepsQuotes_table (by decide) c.tableName (by decide)
    ((Quoted.segment c.name).append_text (by decide) said)

/-- A statement that creates an index, up to what stands behind the table. -/
theorem keepsQuotes_index {opening next : String} {behind : List Piece}
    (fixed : opening ∈ definitionWords) (t : Table) (index : Index)
    (fixed' : next ∈ definitionWords)
    (quoted : Quoted (Wording g.dialect columns options) behind) :
    KeepsQuotes g.dialect (Wording g.dialect columns options)
      (.text opening :: segment (g.indexName t.name index.name) :: .text " ON " ::
        g.table t.name ++ .text next :: behind) := by
  have onTable : Quoted (Wording g.dialect columns options)
      (.text " ON " :: g.table t.name ++ .text next :: behind) :=
    .word (by decide) ((Quoted.table g t.name).append_word fixed' quoted)
  exact keepsQuotes_word fixed ((Quoted.segment _).append_text (by decide) onTable)

theorem vectorIndex_keepsQuotes (t : Table) (index : Index) (column : Column) :
    KeepsQuotes g.dialect (Wording g.dialect columns options) (g.vectorIndex t index column) := by
  have graph : Quoted (Wording g.dialect columns options)
      [.text " WITH (options=", .literal vectorOptions, .text ")"] :=
    .word (by decide) (.before rfl (by decide) (.only (by decide)))
  have onColumn : ∀ {word : String} {rest : List Piece}, word ∈ definitionWords →
      Quoted (Wording g.dialect columns options) rest →
        Quoted (Wording g.dialect columns options) (segment column.name :: .text word :: rest) :=
    fun fixed quoted => (Quoted.segment column.name).append_word fixed quoted
  have nothing : Quoted (Wording g.dialect columns options) [] := .nil
  simp only [vectorIndex, List.append_assoc, List.cons_append]
  unfold vectorMethod
  split
  · exact keepsQuotes_index (by decide) t index (by decide) (onColumn (by decide) graph)
  · exact keepsQuotes_index (by decide) t index (by decide) (onColumn (by decide) nothing)
  · exact keepsQuotes_index (by decide) t index (by decide) (onColumn (by decide) graph)

theorem plainIndex_keepsQuotes (t : Table) (secondary : index.kind ≠ .primary) :
    KeepsQuotes g.dialect (Wording g.dialect columns options) (g.plainIndex t index) := by
  have opening : "CREATE " ++ Dialect.indexKeyword index.kind ++ " " ∈ definitionWords := by
    cases kind : index.kind with
    | primary => exact absurd kind secondary
    | _ => decide
  exact keepsQuotes_index opening t index (by decide) (Quoted.names index.columns).parenthesised

theorem createIndex?_keepsQuotes (created : g.createIndex? t index = some statement) :
    KeepsQuotes g.dialect (Wording g.dialect columns options) statement := by
  simp only [createIndex?] at created
  split at created
  · cases created
  · next secondary =>
    split at created
    · split at created
      · cases created
      · split at created
        · cases created
          exact vectorIndex_keepsQuotes t index _
        · cases created
          exact plainIndex_keepsQuotes t secondary
    · cases created
      exact plainIndex_keepsQuotes t secondary

theorem inlineIndex?_quoted {d : Dialect} (declared : g.inlineIndex? index = some statement) :
    Quoted (Wording d columns options) statement := by
  have keyed : ∀ {keyword : String}, keyword ∈ definitionWords →
      Quoted (Wording d columns options)
        (.text keyword :: segment index.name :: .text " " :: parenthesised (names index.columns)) :=
    fun fixed => .word fixed
      ((Quoted.segment index.name).append_word (by decide) (Quoted.names _).parenthesised)
  simp only [inlineIndex?] at declared
  split at declared
  · cases declared
    exact keyed (by decide)
  · cases declared
    exact keyed (by decide)
  · cases declared

theorem tableOptions_quoted (d : Dialect) :
    Quoted (Wording d columns options) (d.tableOptions options) := by
  unfold Dialect.tableOptions
  split
  · exact .clauses ⟨Dialect.option_quoted fun s given => .engine given,
      Dialect.option_quoted fun s given => .tableCharset given,
      Dialect.option_quoted fun s given => .tableCollation given⟩
  · exact .nil

/-- Columns of which all are told of by the wording, with types that no labels name. -/
def Covers (g : Grammar) (columns defined : List Column) : Prop :=
  ∀ c ∈ defined, c ∈ columns ∧ c.TypeUnnamed g.dialect

theorem createTable_keepsQuotes (covers : g.Covers columns t.addedColumns) :
    KeepsQuotes g.dialect (Wording g.dialect columns options) (g.createTable t options) := by
  have keyword : (if options.temporary then g.dialect.temporaryKeyword else "CREATE TABLE") ++ " " ∈
      definitionWords := by
    split
    · cases g.dialect <;> decide
    · decide
  have columnsQuoted : ∀ part ∈ t.addedColumns.map g.dialect.columnDefinition,
      Quoted (Wording g.dialect columns options) part := by
    intro part member
    obtain ⟨c, added, rfl⟩ := List.mem_map.mp member
    exact Dialect.columnDefinition_quoted (covers c added).1 (covers c added).2
  have indexesQuoted : ∀ part ∈ t.createdIndexes.filterMap g.inlineIndex?,
      Quoted (Wording g.dialect columns options) part := by
    intro part member
    obtain ⟨index, -, declared⟩ := List.mem_filterMap.mp member
    exact inlineIndex?_quoted declared
  have primaryQuoted : ∀ part ∈ (t.createdPrimary?.bind (g.tablePrimary? t)).toList,
      Quoted (Wording g.dialect columns options) part := by
    intro part member
    obtain ⟨key, -, declared⟩ := Option.bind_eq_some_iff.mp (Option.mem_toList.mp member)
    unfold tablePrimary? at declared
    split at declared
    · split at declared
      · cases declared
      · cases declared
        exact key.clause_quoted
    · cases declared
      exact key.clause_quoted
  have body := Quoted.separated (s := ",\n  ") (by decide)
    (List.forall_mem_append.mpr ⟨List.forall_mem_append.mpr ⟨columnsQuoted, indexesQuoted⟩,
      primaryQuoted⟩)
  have closed := (body.append_word (s := "\n)") (by decide) .nil)
  have table := (Quoted.table g t.name).append_word (s := " (\n  ") (by decide) closed
  have first := Quoted.word keyword table
  have whole : Quoted (Wording g.dialect columns options) (g.createTable t options) :=
    .clauses ⟨by simpa using first, tableOptions_quoted g.dialect⟩
  refine .of_quoted whole ⟨_, keyword, ?_⟩
  rw [createTable, sentence]
  cases empty : (g.dialect.tableOptions options).isEmpty <;> simp [joinPieces, empty]

theorem createStatements_keepsQuotes (covers : g.Covers columns t.addedColumns) :
    ∀ statement ∈ g.createStatements t options,
      KeepsQuotes g.dialect (Wording g.dialect columns options) statement := by
  have untyped := Dialect.createTypes_eq_nil fun c added => (covers c added).2
  intro statement member
  rw [createStatements, untyped, List.nil_append, List.append_assoc] at member
  rcases List.mem_append.mp member with ofTable | later
  · rw [List.mem_singleton.mp ofTable]
    exact createTable_keepsQuotes covers
  · rcases List.mem_append.mp later with ofIndex | ofComment
    · obtain ⟨index, -, created⟩ := List.mem_filterMap.mp ofIndex
      exact createIndex?_keepsQuotes created
    · obtain ⟨c, -, written⟩ := List.mem_filterMap.mp ofComment
      exact commentStatement?_keepsQuotes written

/-! ### Changes -/

theorem altering_keepsQuotes {action : String} {rest : List Piece}
    (fixed : " " ++ action ∈ definitionWords)
    (quoted : Quoted (Wording g.dialect columns options) rest) :
    KeepsQuotes g.dialect (Wording g.dialect columns options) (g.altering t action rest) :=
  keepsQuotes_table (by decide) t.name fixed quoted

theorem pair_quoted {d : Dialect} {word : String} (fixed : word ∈ definitionWords)
    (first second : String) :
    Quoted (Wording d columns options) (pair first word second) :=
  (Quoted.segment first).append_word fixed (.segment second)

theorem commenting_keepsQuotes : ∀ statement ∈ g.commenting c,
    KeepsQuotes g.dialect (Wording g.dialect columns options) statement :=
  fun _ member => commentStatement?_keepsQuotes (Option.mem_toList.mp member)

theorem alterAddColumn_keepsQuotes (defined : c ∈ columns) (unnamed : c.TypeUnnamed g.dialect) :
    ∀ statement ∈ g.alterAddColumn t c,
      KeepsQuotes g.dialect (Wording g.dialect columns options) statement := by
  have definition : Quoted (Wording g.dialect columns options) (g.dialect.columnDefinition c) :=
    Dialect.columnDefinition_quoted defined unnamed
  have untyped : g.dialect.createTypes [c] = [] :=
    Dialect.createTypes_eq_nil (List.forall_mem_singleton.mpr unnamed)
  simp only [alterAddColumn, untyped]
  split
  · exact List.forall_mem_cons.mpr
      ⟨altering_keepsQuotes (by decide) definition.parenthesised, commenting_keepsQuotes⟩
  · exact List.forall_mem_cons.mpr
      ⟨altering_keepsQuotes (by decide) definition, commenting_keepsQuotes⟩

theorem postgresModifyColumn_keepsQuotes (defined : c ∈ columns)
    (unnamed : c.TypeUnnamed g.dialect) : ∀ statement ∈ g.postgresModifyColumn t c,
      KeepsQuotes g.dialect (Wording g.dialect columns options) statement := by
  have untyped : g.dialect.createTypes [c] = [] :=
    Dialect.createTypes_eq_nil (List.forall_mem_singleton.mpr unnamed)
  have name : Quoted (Wording g.dialect columns options) [segment c.name] := .segment c.name
  have type : Quoted (Wording g.dialect columns options) (g.dialect.columnType c) :=
    Dialect.columnType_quoted unnamed
  have default : Quoted (Wording g.dialect columns options) (g.dialect.defaultClause c) :=
    Dialect.defaultClause_quoted defined
  have altered : ∀ {word : String} {rest : List Piece}, word ∈ definitionWords →
      Quoted (Wording g.dialect columns options) rest →
        KeepsQuotes g.dialect (Wording g.dialect columns options)
          (g.altering t "ALTER COLUMN " (segment c.name :: .text word :: rest)) :=
    fun fixed quoted => altering_keepsQuotes (by decide) (name.append_word fixed quoted)
  have typed : Quoted (Wording g.dialect columns options)
      (g.dialect.columnType c ++ .text " USING (" :: segment c.name :: .text "::" ::
        g.dialect.columnType c ++ [.text ")"]) := by
    have cast := (type.append_word (s := ")") (by decide) .nil)
    simpa using type.append_word (s := " USING (") (by decide)
      (name.append_word (s := "::") (by decide) cast)
  simp only [postgresModifyColumn, untyped, List.nil_append]
  refine List.forall_mem_append.mpr ⟨List.forall_mem_cons.mpr ⟨?_, List.forall_mem_cons.mpr ⟨?_,
    List.forall_mem_singleton.mpr ?_⟩⟩, commenting_keepsQuotes⟩
  · simpa using altered (by decide) typed
  · split
    · exact altered (by decide) .nil
    · exact altered (by decide) .nil
  · split
    · exact altered (by decide) .nil
    · exact altered (by decide) default

theorem alterModifyColumn_keepsQuotes (defined : c ∈ columns) (unnamed : c.TypeUnnamed g.dialect)
    {statements : List (List Piece)} (ready : g.alterModifyColumn t c = .ok statements) :
    ∀ statement ∈ statements,
      KeepsQuotes g.dialect (Wording g.dialect columns options) statement := by
  have definition : Quoted (Wording g.dialect columns options) (g.dialect.columnDefinition c) :=
    Dialect.columnDefinition_quoted defined unnamed
  have type : Quoted (Wording g.dialect columns options) (g.dialect.columnType c) :=
    Dialect.columnType_quoted unnamed
  unfold alterModifyColumn at ready
  split at ready
  · cases ready
  · cases ready
    exact List.forall_mem_singleton.mpr (altering_keepsQuotes (by decide) definition)
  · cases ready
    exact postgresModifyColumn_keepsQuotes defined unnamed
  · cases ready
    exact List.forall_mem_cons.mpr
      ⟨altering_keepsQuotes (by decide) definition.parenthesised, commenting_keepsQuotes⟩
  · cases ready
    have renamed := (Quoted.segment c.name).append_word (s := " SET DATA TYPE ") (by decide) type
    exact List.forall_mem_cons.mpr
      ⟨altering_keepsQuotes (by decide) renamed, commenting_keepsQuotes⟩

/-- The statements of every change keep their quotes, where the type of the column that it defines
is not named by labels. -/
theorem alterStatements_keepsQuotes {change : Change}
    (covers : g.Covers columns change.column?.toList) {statements : List (List Piece)}
    (ready : g.alterStatements t change = .ok statements) :
    ∀ statement ∈ statements,
      KeepsQuotes g.dialect (Wording g.dialect columns options) statement := by
  cases change with
  | addColumn c =>
    obtain ⟨defined, unnamed⟩ := covers c (by simp [Change.column?])
    cases ready
    exact alterAddColumn_keepsQuotes defined unnamed
  | modifyColumn c =>
    obtain ⟨defined, unnamed⟩ := covers c (by simp [Change.column?])
    exact alterModifyColumn_keepsQuotes defined unnamed ready
  | renameColumn source target =>
    simp only [alterStatements, alterRenameColumn] at ready
    split at ready
    · split at ready
      · cases ready
        exact List.forall_mem_singleton.mpr
          (keepsQuotes_table (by decide) t.name (by decide) (pair_quoted (by decide) source target))
      · cases ready
        exact List.forall_mem_singleton.mpr
          (altering_keepsQuotes (by decide) (pair_quoted (by decide) source target))
    · cases ready
  | dropColumn name =>
    cases ready
    refine List.forall_mem_singleton.mpr ?_
    unfold alterDropColumn
    split
    · exact altering_keepsQuotes (by decide) (Quoted.segment name).parenthesised
    · exact altering_keepsQuotes (by decide) (.segment name)
  | createIndex index =>
    cases ready
    exact fun statement member => createIndex?_keepsQuotes (Option.mem_toList.mp member)
  | dropIndex name =>
    cases ready
    refine List.forall_mem_singleton.mpr ?_
    unfold alterDropIndex
    split
    · have onTable : Quoted (Wording g.dialect columns options)
          (segment (g.indexName t.name name) :: .text " ON " :: g.table t.name) :=
        (Quoted.segment _).append_word (by decide) (.table g t.name)
      exact keepsQuotes_word (by decide) onTable
    · exact keepsQuotes_word (by decide) (.segment _)
  | renameIndex source target =>
    simp only [alterStatements, alterRenameIndex] at ready
    split at ready
    · cases ready
    · cases ready
      exact List.forall_mem_singleton.mpr
        (altering_keepsQuotes (by decide) (pair_quoted (by decide) _ _))
    · cases ready
      exact List.forall_mem_singleton.mpr
        (keepsQuotes_word (by decide) (pair_quoted (by decide) _ _))
    · cases ready
      exact List.forall_mem_singleton.mpr
        (keepsQuotes_word (by decide) (pair_quoted (by decide) _ _))
    · cases ready
      exact List.forall_mem_singleton.mpr
        (keepsQuotes_word (by decide) (pair_quoted (by decide) _ _))
  | createPrimary key =>
    simp only [alterStatements, alterCreatePrimary] at ready
    split at ready
    · cases ready
    · cases ready
      exact List.forall_mem_singleton.mpr (altering_keepsQuotes (by decide) key.clause_quoted)
  | dropPrimary constraint =>
    have dropping : ∀ name, ∀ statement ∈ [g.altering t "DROP CONSTRAINT " [segment name]],
        KeepsQuotes g.dialect (Wording g.dialect columns options) statement := fun name =>
      List.forall_mem_singleton.mpr (altering_keepsQuotes (by decide) (.segment name))
    have whole : ∀ statement ∈ [g.altering t "DROP PRIMARY KEY" []],
        KeepsQuotes g.dialect (Wording g.dialect columns options) statement :=
      List.forall_mem_singleton.mpr (altering_keepsQuotes (by decide) .nil)
    simp only [alterStatements, alterDropPrimary] at ready
    split at ready
    · cases ready
    · cases ready
      exact whole
    · cases ready
      exact whole
    · cases ready
      exact dropping _
    · cases ready
      exact dropping _

/-! ### Types that are named by labels -/

/-- On Postgres a change that defines an enum column creates its type. -/
theorem typeCreation_mem_alterStatements (g : Grammar) (t : Table)
    (postgres : g.dialect = .postgres) {change : Change} (column : change.column? = some c)
    (enum : c.type = .enum) (labelled : c.options ≠ []) :
    ∃ statements, g.alterStatements t change = .ok statements ∧ c.typeCreation ∈ statements := by
  have created : Dialect.createTypes .postgres [c] = [c.typeCreation] := by
    simp [createTypes_postgres, typedColumns, enum, labelled]
  cases change with
  | addColumn added =>
    obtain rfl : added = c := Option.some.inj column
    exact ⟨_, rfl, by simp [alterAddColumn, postgres, created]⟩
  | modifyColumn modified =>
    obtain rfl : modified = c := Option.some.inj column
    have ready : g.alterStatements t (.modifyColumn modified) =
        .ok (g.postgresModifyColumn t modified) := by
      simp [alterStatements, alterModifyColumn, postgres]
    exact ⟨_, ready, by simp [postgresModifyColumn, postgres, created]⟩
  | _ => cases column

theorem not_keepsQuotes_typeCreation {d : Dialect} {wording : String → Prop} (c : Column) :
    ¬ KeepsQuotes d wording c.typeCreation := by
  intro keeps
  obtain ⟨word, fixed, opens⟩ := keeps.opens
  have other : ∀ word ∈ definitionWords, word.toList.take 5 ≠ "DO $$".toList := by
    decide +kernel
  have same : word = "DO $$ BEGIN CREATE TYPE " ++ c.enumTypeName ++ " AS ENUM (" := by
    simpa [Column.typeCreation] using opens.symm
  apply other word fixed
  simp [same, String.toList_append]

end Grammar

/-- Definitions keep all names in quotes, on every dialect and for every blueprint, exactly unless
an enum column with labels is defined on Postgres. Of the caller's texts, only what is given as SQL
and values without quotes stand outside. -/
theorem definitions_quoted_iff (g : Grammar) (t : Table) (options : CreateOptions) :
    (∀ statement, g.Writes t options statement →
      KeepsQuotes g.dialect (Wording g.dialect t.definedColumns options) statement) ↔
    ∀ c ∈ t.definedColumns, c.TypeUnnamed g.dialect := by
  constructor
  · intro keeps c defined postgres enum
    by_contra labelled
    obtain ⟨command, logged, column⟩ := List.mem_filterMap.mp defined
    obtain ⟨statements, ready, listed⟩ := g.typeCreation_mem_alterStatements t.withoutCommands
      postgres column enum labelled
    exact Grammar.not_keepsQuotes_typeCreation c (keeps _ (.alter logged ready listed))
  · intro unnamed statement writes
    have covers : ∀ columns ⊆ t.definedColumns, g.Covers t.definedColumns columns :=
      fun columns inside c member => ⟨inside member, unnamed c (inside member)⟩
    cases writes with
    | create listed =>
      refine Grammar.createStatements_keepsQuotes (covers _ fun c added => ?_) statement listed
      obtain ⟨command, logged, change⟩ := List.mem_filterMap.mp added
      refine List.mem_filterMap.mpr ⟨command, logged, ?_⟩
      cases here : command.change <;> simp_all [Change.column?]
    | alter logged ready listed =>
      have defined : _ ⊆ t.definedColumns := fun c member =>
        List.mem_filterMap.mpr ⟨_, logged, Option.mem_toList.mp member⟩
      exact Grammar.alterStatements_keepsQuotes (covers _ defined) ready statement listed

/-- A label stands outside quotes in the name of the type that is made of it. -/
theorem label_outside_quotes :
    let c : Column := { name := "state", tableName := "t", type := .enum, options := ["a b"] }
    let g : Grammar := { dialect := .postgres }
    let t : Table := { name := "t", columns := [c], commands := [{ change := .addColumn c }] }
    (g.createStatements t {}).map (render g.dialect) =
        ["DO $$ BEGIN CREATE TYPE enum__a b AS ENUM ('a b'); " ++
            "EXCEPTION WHEN duplicate_object THEN null; END $$;",
          "CREATE TABLE \"t\" (\n  \"state\" enum__a b NOT NULL\n)"] ∧
      ¬ ∀ statement, g.Writes t {} statement →
        KeepsQuotes g.dialect (Wording g.dialect t.definedColumns {}) statement := by
  intro c g t
  refine ⟨by decide +kernel, fun keeps => ?_⟩
  have listed : c.typeCreation ∈ g.createStatements t {} := List.mem_cons_self
  exact Grammar.not_keepsQuotes_typeCreation c (keeps _ (.create listed))

end Sqlwright
