import Sqlwright.Proofs.AddressedTables
import Sqlwright.Proofs.LiteralReading
import Sqlwright.Proofs.QuotedNames

/-!
Texts in definitions. The labels of enums, defaults that are texts or JSON, comments and the options
of vector indexes are written into statements as string literals, in a known order and with nothing
else in quotes of this kind around them. So they are what a server reads just if every one of them
is spelled by its literal.
-/

namespace Sqlwright

/-- The text of a piece that is a string literal. -/
def Piece.literal? : Piece → Option String
  | .literal s => some s
  | _ => none

/-- The texts of all string literals, from left to right. -/
def literals (pieces : List Piece) : List String := pieces.filterMap Piece.literal?

/-- Statements say the texts: these are all literals in them, and each literal is read back from
where it stands. -/
structure Denotes (d : Dialect) (statements : List (List Piece)) (texts : List String) : Prop where
  literals : statements.flatMap literals = texts
  read : ∀ statement ∈ statements, ∀ front s rest, statement = front ++ .literal s :: rest →
    d.readString (render d (.literal s :: rest)).toList = some (s.toList, (render d rest).toList)

/-! ### Texts that are given -/

namespace Column

/-- The labels of an enum. -/
def labels (c : Column) : List String := if c.type = .enum then c.options else []

/-- The text of a default that is written in quotes. -/
def defaultTexts (c : Column) : List String :=
  match c.default with
  | some (.value (.text s)) => [s]
  | some (.value (.json value)) => [value.render]
  | _ => []

end Column

namespace Dialect

/-- The texts in the definition of a column. -/
def definitionTexts (d : Dialect) (c : Column) : List String :=
  match d, c.autoIncrement with
  | .postgres, true | .sqlite, true => []
  | .postgres, false => c.defaultTexts
  | .mysql, _ => c.labels ++ c.defaultTexts ++ c.comment.toList
  | _, _ => c.defaultTexts ++ c.labels

/-- The texts in the type that is created for a column. -/
def createdTypeTexts (d : Dialect) (c : Column) : List String :=
  match d with
  | .postgres => c.labels
  | _ => []

/-- The texts in the statements that add a column. -/
def additionTexts (d : Dialect) (c : Column) : List String :=
  d.createdTypeTexts c ++ d.definitionTexts c ++ (d.storedComment? c).toList

/-- The texts in the statements that modify a column. -/
def modificationTexts (d : Dialect) (c : Column) : List String :=
  d.createdTypeTexts c ++
    (match d with
    | .mysql | .hana => d.definitionTexts c
    | .postgres => c.defaultTexts
    | .generic | .sqlite => []) ++
    (d.storedComment? c).toList

end Dialect

namespace Grammar

/-- The options of an index that covers a vector column. -/
def indexTexts (g : Grammar) (t : Table) (index : Index) : List String :=
  if g.dialect ≠ .postgres || index.kind = .primary then []
  else
    let columns := index.columns.filterMap t.column?
    if columns.any fun c => c.type.isJson then []
    else
      match columns.find? fun c => c.type.isVector with
      | some column => if (vectorMethod column.type).1 = "vectors" then [vectorOptions] else []
      | none => []

/-- The texts in the statements that create the table of a blueprint. -/
def createTexts (g : Grammar) (t : Table) : List String :=
  t.addedColumns.flatMap g.dialect.createdTypeTexts ++
    t.addedColumns.flatMap g.dialect.definitionTexts ++
    t.createdIndexes.flatMap (g.indexTexts t) ++
    t.addedColumns.filterMap g.dialect.storedComment?

/-- The texts in the statements of a change. -/
def alterTexts (g : Grammar) (t : Table) : Change → List String
  | .addColumn c => g.dialect.additionTexts c
  | .modifyColumn c => g.dialect.modificationTexts c
  | .createIndex index => g.indexTexts t index
  | _ => []

end Grammar

/-! ### Literals in their places -/

/-- Pieces with these literals, which have nothing behind them or text that opens with no quote. -/
inductive Speaks : List String → List Piece → Prop
  | nil : Speaks [] []
  | silent {piece : Piece} {texts : List String} {rest : List Piece} (mute : piece.literal? = none)
      (behind : Speaks texts rest) : Speaks texts (piece :: rest)
  | last (s : String) : Speaks [s] [.literal s]
  | before {s word : String} {texts : List String} {rest : List Piece} (plain : opensPlain word)
      (behind : Speaks texts (.text word :: rest)) :
      Speaks (s :: texts) (.literal s :: .text word :: rest)

/-- Parts with these literals, all parts together. -/
inductive Tells : List String → List (List Piece) → Prop
  | nil : Tells [] []
  | cons {texts more : List String} {part : List Piece} {rest : List (List Piece)}
      (first : Speaks texts part) (later : Tells more rest) : Tells (texts ++ more) (part :: rest)

namespace Speaks

variable {texts more : List String} {front rest : List Piece} {s word : String}

theorem literals_eq (speaks : Speaks texts front) : literals front = texts := by
  induction speaks with
  | nil => rfl
  | silent mute _ ih => rw [literals, List.filterMap_cons_none mute, ← literals, ih]
  | last s => rfl
  | before _ _ ih => exact congrArg _ ih

theorem head?_ne (speaks : Speaks texts (front ++ .literal s :: rest)) (d : Dialect) :
    (render d rest).toList.head? ≠ some '\x27' := by
  generalize whole : front ++ .literal s :: rest = pieces at speaks
  induction speaks generalizing front with
  | nil => simp at whole
  | silent mute _ ih =>
    cases front with
    | nil =>
      obtain ⟨rfl, -⟩ := List.cons.inj whole
      cases mute
    | cons first more => exact ih (List.cons.inj whole).2
  | last _ =>
    cases front with
    | nil =>
      obtain ⟨-, rfl⟩ := List.cons.inj whole
      simp [render, renderFrom]
    | cons first more =>
      have nothing := (List.cons.inj whole).2
      simp at nothing
  | before plain _ ih =>
    cases front with
    | nil =>
      obtain ⟨-, rfl⟩ := List.cons.inj whole
      exact head?_ne_of_opensPlain plain (by decide) _
    | cons first more => exact ih (List.cons.inj whole).2

theorem of_mute (mute : ∀ piece ∈ front, piece.literal? = none) : Speaks [] front := by
  induction front with
  | nil => exact .nil
  | cons piece rest ih =>
    obtain ⟨first, later⟩ := List.forall_mem_cons.mp mute
    exact .silent first (ih later)

theorem mute_append (mute : ∀ piece ∈ front, piece.literal? = none) (behind : Speaks texts rest) :
    Speaks texts (front ++ rest) := by
  induction front with
  | nil => exact behind
  | cons piece more ih =>
    obtain ⟨first, later⟩ := List.forall_mem_cons.mp mute
    exact .silent first (ih later)

theorem append_text (first : Speaks texts front) (plain : opensPlain word)
    (behind : Speaks more (.text word :: rest)) :
    Speaks (texts ++ more) (front ++ .text word :: rest) := by
  induction first with
  | nil => exact behind
  | silent mute _ ih => exact .silent mute ih
  | last s => exact .before plain behind
  | before opens _ ih => exact .before opens ih

/-- A word behind the literals. -/
theorem close (first : Speaks texts front) (plain : opensPlain word) :
    Speaks texts (front ++ [.text word]) := by
  simpa using first.append_text plain (.silent rfl .nil)

theorem parenthesised (inside : Speaks texts front) : Speaks texts (parenthesised front) :=
  .silent rfl (inside.close (by decide))

end Speaks

namespace Tells

variable {texts more : List String} {parts others : List (List Piece)} {sep : String}

theorem single {part : List Piece} (first : Speaks texts part) : Tells texts [part] := by
  simpa using Tells.cons first .nil

/-- A part without literals. -/
theorem mute {part : List Piece} (first : Speaks [] part) (later : Tells texts parts) :
    Tells texts (part :: parts) :=
  .cons first later

theorem append (first : Tells texts parts) (later : Tells more others) :
    Tells (texts ++ more) (parts ++ others) := by
  induction first with
  | nil => exact later
  | cons speaks _ ih =>
    rw [List.append_assoc]
    exact .cons speaks ih

theorem map {α : Type} {told : α → List String} {write : α → List Piece} {items : List α}
    (each : ∀ item ∈ items, Speaks (told item) (write item)) :
    Tells (items.flatMap told) (items.map write) := by
  induction items with
  | nil => exact .nil
  | cons item rest ih =>
    obtain ⟨first, later⟩ := List.forall_mem_cons.mp each
    exact .cons first (ih later)

/-- Parts that are written for some of the items. -/
theorem filterMap {α : Type} {told : α → List String} {write : α → Option (List Piece)}
    {items : List α} (each : ∀ item ∈ items, Tells (told item) (write item).toList) :
    Tells (items.flatMap told) (items.filterMap write) := by
  induction items with
  | nil => exact .nil
  | cons item rest ih =>
    obtain ⟨first, later⟩ := List.forall_mem_cons.mp each
    have whole := first.append (ih later)
    cases written : write item with
    | none => simpa [written] using whole
    | some part => simpa [written] using whole

theorem filterMap_mute {α : Type} {write : α → Option (List Piece)} {items : List α}
    (each : ∀ item ∈ items, Tells [] (write item).toList) : Tells [] (items.filterMap write) := by
  have whole : Tells (items.flatMap fun _ => []) (items.filterMap write) := .filterMap each
  have nothing : (items.flatMap fun _ => ([] : List String)) = [] :=
    List.flatMap_eq_nil_iff.mpr fun _ _ => rfl
  rwa [nothing] at whole

theorem joined (tells : Tells texts parts) (plain : opensPlain sep) :
    Speaks texts (joinPieces sep parts) := by
  induction tells with
  | nil => exact .nil
  | cons first later ih =>
    cases later with
    | nil => simpa [joinPieces] using first
    | cons second others => exact first.append_text plain (.silent rfl ih)

/-- Empty parts say nothing. -/
theorem written (tells : Tells texts parts) :
    Tells texts (parts.filter fun part => !part.isEmpty) := by
  induction tells with
  | nil => exact .nil
  | @cons texts more part rest first later ih =>
    cases part with
    | nil =>
      cases first
      exact ih
    | cons piece behind => exact .cons first ih

/-- Told texts are said exactly if each is spelled by its literal. -/
theorem denotes_iff (tells : Tells texts parts) (d : Dialect) :
    Denotes d parts texts ↔ ∀ s ∈ texts, d.Spells s := by
  have told : parts.flatMap literals = texts ∧ ∀ part ∈ parts, ∃ texts, Speaks texts part := by
    induction tells with
    | nil => exact ⟨rfl, List.forall_mem_nil _⟩
    | cons first _ ih =>
      refine ⟨?_, List.forall_mem_cons.mpr ⟨⟨_, first⟩, ih.2⟩⟩
      rw [List.flatMap_cons, first.literals_eq, ih.1]
  have read_iff {front rest : List Piece} {s : String}
      (member : front ++ .literal s :: rest ∈ parts) :
      d.readString (render d (.literal s :: rest)).toList =
        some (s.toList, (render d rest).toList) ↔ d.Spells s := by
    obtain ⟨_, speaks⟩ := told.2 _ member
    have text : (render d (.literal s :: rest)).toList =
        (d.quoteString s).toList ++ (render d rest).toList := String.toList_append
    rw [text, d.readString_quoteString_iff s (speaks.head?_ne d)]
  constructor
  · intro denotes s member
    rw [← denotes.literals] at member
    obtain ⟨part, present, inside⟩ := List.mem_flatMap.mp member
    obtain ⟨piece, held, literal⟩ := List.mem_filterMap.mp inside
    obtain ⟨front, rest, rfl⟩ := List.append_of_mem held
    cases piece with
    | literal text =>
      cases literal
      exact (read_iff present).mp (denotes.read _ present front s rest rfl)
    | _ => cases literal
  · intro spells
    refine ⟨told.1, ?_⟩
    rintro _ present front s rest rfl
    refine (read_iff present).mpr (spells s ?_)
    rw [← told.1]
    refine List.mem_flatMap.mpr ⟨_, present, List.mem_filterMap.mpr ⟨.literal s, ?_, rfl⟩⟩
    exact List.mem_append_right _ List.mem_cons_self

end Tells

theorem Speaks.sentence {texts : List String} {parts : List (List Piece)}
    (tells : Tells texts parts) : Speaks texts (sentence parts) :=
  tells.written.joined (by decide)

/-! ### Names -/

section Names

variable (g : Grammar)

theorem Grammar.segment_mute (s : String) : (segment s).literal? = none := by
  unfold segment
  split <;> rfl

theorem Grammar.table_mute (reference : String) :
    ∀ piece ∈ g.table reference, piece.literal? = none := by
  intro piece member
  have written := g.table_isReference reference piece member
  cases piece with
  | literal s => cases written
  | _ => rfl

theorem Grammar.names_mute (names : List String) :
    ∀ piece ∈ Grammar.names names, piece.literal? = none := by
  refine joinPieces_map_forall (P := fun piece => piece.literal? = none) rfl fun name _ => ?_
  exact List.forall_mem_singleton.mpr (Grammar.segment_mute name)

theorem Speaks.segment {texts : List String} {rest : List Piece} (behind : Speaks texts rest)
    (s : String) : Speaks texts (Grammar.segment s :: rest) :=
  .silent (Grammar.segment_mute s) behind

theorem PrimaryKey.clause_speaks (key : PrimaryKey) : Speaks [] key.clause :=
  .silent rfl (Speaks.of_mute (Grammar.names_mute key.columns)).parenthesised

end Names

/-! ### Columns -/

theorem literalList_speaks (texts : List String) : Speaks texts (literalList texts) := by
  have each : Tells (texts.flatMap fun text => [text]) (texts.map fun text => [.literal text]) :=
    .map fun text _ => .last text
  have whole : Speaks (texts.flatMap fun text => [text]) (literalList texts) :=
    each.joined (by decide)
  simpa using whole

namespace Dialect

variable (d : Dialect) (c : Column)

theorem columnType_speaks :
    Speaks (match d with | .mysql => c.labels | _ => []) (d.columnType c) := by
  by_cases enum : c.type = .enum
  · rw [columnType, if_pos enum]
    cases d with
    | mysql =>
      rw [Column.labels, if_pos enum]
      exact .silent rfl ((literalList_speaks c.options).close (by decide))
    | _ => exact .silent rfl .nil
  · have unlabelled : c.labels = [] := if_neg enum
    rw [columnType, if_neg enum, unlabelled]
    cases d <;> exact .silent rfl .nil

theorem defaultClause_speaks : Speaks c.defaultTexts (d.defaultClause c) := by
  unfold Column.defaultTexts defaultClause
  cases c.default with
  | none => exact .nil
  | some given =>
    cases given with
    | raw sql => exact .silent rfl .nil
    | value v =>
      cases v with
      | text s => exact .silent rfl (.last s)
      | json value => exact .silent rfl (.last value.render)
      | _ => exact .silent rfl (.silent rfl .nil)

theorem enumCheck_speaks (other : d ≠ .postgres) : Speaks c.labels (d.enumCheck c) := by
  have listed : Speaks c.labels
      (if c.type ≠ .enum || c.options.isEmpty then []
      else .text "CHECK (" :: Grammar.segment c.name :: .text " IN (" :: literalList c.options ++
        [.text "))"]) := by
    by_cases enum : c.type = .enum
    · rw [Column.labels, if_pos enum]
      cases labels : c.options with
      | nil => simpa [enum] using Speaks.nil
      | cons label more =>
        have closed : Speaks (label :: more) (literalList (label :: more) ++ [.text "))"]) :=
          (literalList_speaks _).close (by decide)
        simpa [enum] using Speaks.silent rfl (Speaks.segment (.silent rfl closed) c.name)
    · simpa [Column.labels, enum] using Speaks.nil
  cases d with
  | postgres => exact absurd rfl other
  | _ => exact listed

theorem option_speaks (word : String) (given : Option String) : Speaks [] (option word given) := by
  cases given with
  | none => exact .nil
  | some given => exact .silent rfl .nil

theorem columnDefinition_speaks : Speaks (d.definitionTexts c) (d.columnDefinition c) := by
  have name : Speaks [] [Grammar.segment c.name] := .segment .nil c.name
  have type := d.columnType_speaks c
  have null : Speaks [] (nullClause c) := .silent rfl .nil
  have default := d.defaultClause_speaks c
  have flag (condition : Bool) (word : String) :
      Speaks [] (if condition then [.text word] else []) := by
    cases condition
    · exact .nil
    · exact .silent rfl .nil
  have collation := option_speaks "COLLATE " c.collation
  cases d with
  | generic | hana =>
    refine .sentence (.mute name (.mute type (.mute null (.cons default (.mute (flag _ _)
      (.mute collation (.single (enumCheck_speaks _ c ?_))))))))
    decide
  | sqlite =>
    cases counts : c.autoIncrement <;> simp only [definitionTexts, columnDefinition, counts]
    case true => exact name.close (by decide)
    case false =>
      exact .sentence (.mute name (.mute type (.mute null (.cons default
        (.mute collation (.single (enumCheck_speaks .sqlite c (by decide))))))))
  | postgres =>
    cases counts : c.autoIncrement <;> simp only [definitionTexts, columnDefinition, counts]
    case true => exact .sentence (.mute name (.mute (.silent rfl .nil) .nil))
    case false =>
      rw [← List.append_nil c.defaultTexts]
      refine .sentence (.mute name (.mute type (.mute null (.cons default (.mute ?_ .nil)))))
      cases c.collation with
      | none => exact .nil
      | some given => exact .silent rfl (.segment .nil given)
  | mysql =>
    have texts : definitionTexts .mysql c =
        c.labels ++ (c.defaultTexts ++ (c.comment.toList ++ [])) := by simp [definitionTexts]
    rw [texts]
    refine .sentence (.mute name (.cons type (.mute (flag _ _)
      (.mute (option_speaks _ c.charset) (.mute null (.cons default (.mute (flag _ _)
        (.cons ?_ (.mute collation .nil)))))))))
    cases c.comment with
    | none => exact .nil
    | some given => exact .silent rfl (.last given)

/-- The types of columns with labels are created with them. -/
theorem createTypes_tells (columns : List Column) :
    Tells (columns.flatMap d.createdTypeTexts) (d.createTypes columns) := by
  cases d with
  | postgres =>
    have labelled : columns.flatMap Column.labels =
        (columns.filter fun c => c.type = .enum && !c.options.isEmpty).flatMap Column.options := by
      induction columns with
      | nil => rfl
      | cons c rest ih =>
        rw [List.flatMap_cons, ih]
        by_cases enum : c.type = .enum <;> cases labels : c.options <;>
          simp [Column.labels, enum, labels]
    have same : columns.flatMap (createdTypeTexts .postgres) = columns.flatMap Column.labels := rfl
    rw [same, labelled]
    exact .map fun c _ => .silent rfl ((literalList_speaks c.options).close (by decide))
  | _ =>
    have nothing {d : Dialect} (none : d.createdTypeTexts = fun _ => []) :
        columns.flatMap d.createdTypeTexts = [] := by rw [none]; simp
    rw [nothing rfl]
    exact .nil

end Dialect

/-! ### Statements -/

namespace Grammar

variable (g : Grammar) (t : Table)

/-- A table with more behind it. -/
theorem table_speaks {texts : List String} {rest : List Piece} (behind : Speaks texts rest)
    (reference : String) : Speaks texts (g.table reference ++ rest) :=
  .mute_append (g.table_mute reference) behind

theorem commenting_tells (c : Column) :
    Tells (g.dialect.storedComment? c).toList (g.commentStatement? c).toList := by
  unfold commentStatement?
  cases g.dialect.storedComment? c with
  | none => exact .nil
  | some comment =>
    exact .single (.silent rfl (g.table_speaks (.silent rfl (.segment (.silent rfl (.last comment))
      c.name)) c.tableName))

theorem plainIndex_speaks (index : Index) : Speaks [] (g.plainIndex t index) := by
  have columns : Speaks [] (parenthesised (names index.columns)) :=
    (Speaks.of_mute (names_mute index.columns)).parenthesised
  exact .silent rfl (.segment (.silent rfl (g.table_speaks (.silent rfl columns) t.name)) _)

theorem vectorIndex_speaks (index : Index) (column : Column) :
    Speaks (if (vectorMethod column.type).1 = "vectors" then [vectorOptions] else [])
      (g.vectorIndex t index column) := by
  have front (texts : List String) (rest : List Piece) (behind : Speaks texts rest) :
      Speaks texts (.text "CREATE INDEX " :: segment (g.indexName t.name index.name) ::
        .text " ON " :: g.table t.name ++
        [.text (" USING " ++ (vectorMethod column.type).1 ++ " ("), segment column.name,
          .text (" " ++ (vectorMethod column.type).2 ++ ")")] ++ rest) := by
    have columns : Speaks texts (.text (" USING " ++ (vectorMethod column.type).1 ++ " (") ::
        segment column.name :: .text (" " ++ (vectorMethod column.type).2 ++ ")") :: rest) :=
      .silent rfl (.segment (.silent rfl behind) column.name)
    simpa using Speaks.silent rfl
      (.segment (.silent rfl (g.table_speaks columns t.name)) (g.indexName t.name index.name))
  by_cases method : (vectorMethod column.type).1 = "vectors"
  · simp only [vectorIndex, if_pos method]
    exact front _ _ (.silent rfl (.before (by decide) (.silent rfl .nil)))
  · simp only [vectorIndex, if_neg method]
    exact front _ _ .nil

theorem createIndex?_tells (index : Index) :
    Tells (g.indexTexts t index) (g.createIndex? t index).toList := by
  unfold indexTexts createIndex?
  by_cases key : index.kind = .primary
  · simpa [key] using Tells.nil
  · simp only [key, decide_false, Bool.or_false, if_false]
    cases g.dialect with
    | postgres =>
      simp only [ne_eq, not_true_eq_false, decide_false, Bool.false_eq_true, if_false]
      split
      · exact .nil
      · cases (index.columns.filterMap t.column?).find? fun c => c.type.isVector with
        | some column => exact .single (g.vectorIndex_speaks t index column)
        | none => exact .single (g.plainIndex_speaks t index)
    | _ => exact .single (g.plainIndex_speaks t index)

theorem inlineIndex?_tells (index : Index) : Tells [] (g.inlineIndex? index).toList := by
  have declared (keyword : String) : Tells [] [.text keyword :: segment index.name ::
      .text " " :: parenthesised (names index.columns)] :=
    .single (.silent rfl (.segment (.silent rfl
      (Speaks.of_mute (names_mute index.columns)).parenthesised) index.name))
  unfold inlineIndex?
  split
  · exact declared "UNIQUE KEY "
  · exact declared "KEY "
  · exact .nil

theorem tablePrimary?_tells (key : PrimaryKey) : Tells [] (g.tablePrimary? t key).toList := by
  unfold tablePrimary?
  split
  · split
    · exact .nil
    · exact .single key.clause_speaks
  · exact .single key.clause_speaks

theorem tableOptions_speaks (d : Dialect) (options : CreateOptions) :
    Speaks [] (d.tableOptions options) := by
  cases d with
  | mysql =>
    exact .sentence (.mute (Dialect.option_speaks _ _) (.mute (Dialect.option_speaks _ _)
      (.mute (Dialect.option_speaks _ _) .nil)))
  | _ => exact .nil

theorem createTable_speaks (options : CreateOptions) :
    Speaks (t.addedColumns.flatMap g.dialect.definitionTexts) (g.createTable t options) := by
  have framed {texts : List String} {parts : List (List Piece)} (tells : Tells texts parts)
      (keyword : String) : Speaks texts
        (.text keyword :: g.table t.name ++ .text " (\n  " :: joinPieces ",\n  " parts ++
          [.text "\n)"]) := by
    have closed : Speaks texts (.text " (\n  " :: (joinPieces ",\n  " parts ++ [.text "\n)"])) :=
      .silent rfl ((tells.joined (by decide)).close (by decide))
    simpa using Speaks.silent rfl (g.table_speaks closed t.name)
  have columns : Tells (t.addedColumns.flatMap g.dialect.definitionTexts)
      (t.addedColumns.map g.dialect.columnDefinition) :=
    .map fun c _ => g.dialect.columnDefinition_speaks c
  have indexes : Tells [] (t.createdIndexes.filterMap g.inlineIndex?) :=
    .filterMap_mute fun index _ => g.inlineIndex?_tells index
  have primary : Tells [] (t.createdPrimary?.bind (g.tablePrimary? t)).toList := by
    cases t.createdPrimary? with
    | none => exact .nil
    | some key => exact g.tablePrimary?_tells t key
  have body := (columns.append indexes).append primary
  rw [List.append_nil, List.append_nil] at body
  have whole := Speaks.sentence (.cons (framed body
    ((if options.temporary then g.dialect.temporaryKeyword else "CREATE TABLE") ++ " "))
    (.mute (tableOptions_speaks g.dialect options) .nil))
  simpa [createTable] using whole

/-- The statements that create a table say the texts of its columns, and nothing else. -/
theorem createStatements_tells (options : CreateOptions) :
    Tells (g.createTexts t) (g.createStatements t options) := by
  have indexes : Tells (t.createdIndexes.flatMap (g.indexTexts t))
      ((t.createdIndexes.filter fun index => (g.inlineIndex? index).isNone).filterMap
        (g.createIndex? t)) := by
    rw [List.filterMap_filter]
    refine .filterMap fun index _ => ?_
    cases inlined : g.inlineIndex? index with
    | none => exact g.createIndex?_tells t index
    | some declared =>
      have elsewhere : g.dialect ≠ .postgres := by
        intro postgres
        simp [inlineIndex?, postgres] at inlined
      have nothing : g.indexTexts t index = [] := by simp [indexTexts, elsewhere]
      rw [nothing]
      exact .nil
  have comments : Tells (t.addedColumns.filterMap g.dialect.storedComment?)
      (t.addedColumns.filterMap g.commentStatement?) := by
    rw [List.filterMap_eq_flatMap_toList]
    exact .filterMap fun c _ => g.commenting_tells c
  exact (((g.dialect.createTypes_tells t.addedColumns).append
    (.single (g.createTable_speaks t options))).append indexes).append comments

theorem altering_speaks {texts : List String} {rest : List Piece} (behind : Speaks texts rest)
    (action : String) : Speaks texts (g.altering t action rest) :=
  .silent rfl (g.table_speaks (.silent rfl behind) t.name)

theorem pair_speaks (first word second : String) : Speaks [] (pair first word second) :=
  .segment (.silent rfl (.segment .nil second)) first

/-- Only Postgres creates types. -/
theorem createTypes_single_tells (c : Column) :
    Tells (g.dialect.createdTypeTexts c) (g.dialect.createTypes [c]) := by
  simpa using g.dialect.createTypes_tells [c]

theorem alterAddColumn_tells (c : Column) :
    Tells (g.dialect.additionTexts c) (g.alterAddColumn t c) := by
  have definition := g.dialect.columnDefinition_speaks c
  have comment := g.commenting_tells c
  unfold Dialect.additionTexts alterAddColumn
  split
  · next hana =>
    have untyped : g.dialect.createdTypeTexts c = [] := by rw [hana]; rfl
    rw [untyped]
    exact .cons (g.altering_speaks t definition.parenthesised "ADD ") comment
  · exact ((g.createTypes_single_tells c).append
      (.single (g.altering_speaks t definition "ADD COLUMN "))).append comment

theorem postgresModifyColumn_tells (postgres : g.dialect = .postgres) (c : Column) :
    Tells (g.dialect.modificationTexts c) (g.postgresModifyColumn t c) := by
  have alter {texts : List String} {rest : List Piece} (behind : Speaks texts rest) :
      Speaks texts (g.altering t "ALTER COLUMN " (segment c.name :: rest)) :=
    g.altering_speaks t (.segment behind c.name) _
  have type : Speaks [] (g.dialect.columnType c) := by
    rw [postgres]
    exact Dialect.columnType_speaks .postgres c
  have typed : Speaks [] (.text " TYPE " :: g.dialect.columnType c ++ .text " USING (" ::
      segment c.name :: .text "::" :: g.dialect.columnType c ++ [.text ")"]) := by
    have cast : Speaks [] (.text "::" :: g.dialect.columnType c ++ [.text ")"]) :=
      .silent rfl (type.close (by decide))
    have casting : Speaks [] (.text " USING (" :: segment c.name :: .text "::" ::
        g.dialect.columnType c ++ [.text ")"]) := .silent rfl (.segment cast c.name)
    have named : Speaks [] (.text " TYPE " :: g.dialect.columnType c) := .silent rfl type
    simpa using named.append_text (by decide) casting
  have null : Speaks [] [.text (if c.nullable then " DROP NOT NULL" else " SET NOT NULL")] :=
    .silent rfl .nil
  have default : Speaks c.defaultTexts (if (g.dialect.defaultClause c).isEmpty then
      [.text " DROP DEFAULT"] else .text " SET " :: g.dialect.defaultClause c) := by
    have clause := g.dialect.defaultClause_speaks c
    cases shape : g.dialect.defaultClause c with
    | nil =>
      rw [shape] at clause
      rw [← clause.literals_eq]
      exact .silent rfl .nil
    | cons piece rest => exact .silent rfl (shape ▸ clause)
  have changed : Tells c.defaultTexts
      [g.altering t "ALTER COLUMN " (segment c.name :: .text " TYPE " :: g.dialect.columnType c ++
          .text " USING (" :: segment c.name :: .text "::" :: g.dialect.columnType c ++
          [.text ")"]),
        g.altering t "ALTER COLUMN " [segment c.name,
          .text (if c.nullable then " DROP NOT NULL" else " SET NOT NULL")],
        g.altering t "ALTER COLUMN " (segment c.name ::
          if (g.dialect.defaultClause c).isEmpty then [.text " DROP DEFAULT"]
          else .text " SET " :: g.dialect.defaultClause c)] :=
    .mute (alter typed) (.mute (alter null) (.single (alter default)))
  have whole := ((g.createTypes_single_tells c).append changed).append (g.commenting_tells c)
  simpa [Dialect.modificationTexts, postgres, postgresModifyColumn, commenting] using whole

theorem alterModifyColumn_tells (c : Column) {statements : List (List Piece)}
    (ready : g.alterModifyColumn t c = .ok statements) :
    Tells (g.dialect.modificationTexts c) statements := by
  have definition := g.dialect.columnDefinition_speaks c
  have comment := g.commenting_tells c
  unfold alterModifyColumn at ready
  split at ready
  · cases ready
  · next mysql =>
    cases ready
    have texts : g.dialect.modificationTexts c = g.dialect.definitionTexts c := by
      simp [Dialect.modificationTexts, Dialect.createdTypeTexts, Dialect.storedComment?, mysql]
    rw [texts]
    exact .single (g.altering_speaks t definition "MODIFY COLUMN ")
  · next postgres =>
    cases ready
    exact g.postgresModifyColumn_tells t postgres c
  · next hana =>
    cases ready
    have texts : g.dialect.modificationTexts c =
        g.dialect.definitionTexts c ++ (g.dialect.storedComment? c).toList := by
      simp [Dialect.modificationTexts, Dialect.createdTypeTexts, hana]
    rw [texts]
    exact .cons (g.altering_speaks t definition.parenthesised "ALTER ") comment
  · next generic =>
    cases ready
    have texts : g.dialect.modificationTexts c = (g.dialect.storedComment? c).toList := by
      simp [Dialect.modificationTexts, Dialect.createdTypeTexts, generic]
    have type : Speaks [] (g.dialect.columnType c) := by
      rw [generic]
      exact Dialect.columnType_speaks .generic c
    rw [texts]
    exact .mute (g.altering_speaks t (.segment (.silent rfl type) c.name) "ALTER COLUMN ") comment

/-- The statements of a change say the texts of the column that it defines, or the options of the
index that it creates. -/
theorem alterStatements_tells {change : Change} {statements : List (List Piece)}
    (ready : g.alterStatements t change = .ok statements) :
    Tells (g.alterTexts t change) statements := by
  cases change with
  | addColumn c =>
    cases ready
    exact g.alterAddColumn_tells t c
  | modifyColumn c => exact g.alterModifyColumn_tells t c ready
  | renameColumn source target =>
    simp only [alterStatements, alterRenameColumn] at ready
    split at ready
    · split at ready
      · cases ready
        have renamed : Speaks [] (.text "." :: pair source " TO " target) :=
          .silent rfl (pair_speaks source " TO " target)
        exact .single (.silent rfl (g.table_speaks renamed t.name))
      · cases ready
        exact .single (g.altering_speaks t (pair_speaks source " TO " target) _)
    · cases ready
  | dropColumn name =>
    cases ready
    have only : Speaks [] [segment name] := .segment .nil name
    refine .single ?_
    unfold alterDropColumn
    split
    · exact g.altering_speaks t only.parenthesised _
    · exact g.altering_speaks t only _
  | createIndex index =>
    cases ready
    exact g.createIndex?_tells t index
  | dropIndex name =>
    cases ready
    refine .single ?_
    have onTable : Speaks [] (.text " ON " :: g.table t.name) :=
      .silent rfl (.of_mute (g.table_mute t.name))
    unfold alterDropIndex
    split
    · exact .silent rfl (.segment onTable _)
    · exact .silent rfl (.segment .nil _)
  | renameIndex source target =>
    simp only [alterStatements, alterRenameIndex] at ready
    split at ready
    · cases ready
    · cases ready
      exact .single (g.altering_speaks t (pair_speaks _ _ _) _)
    all_goals
      cases ready
      exact .single (.silent rfl (pair_speaks _ _ _))
  | createPrimary key =>
    simp only [alterStatements, alterCreatePrimary] at ready
    split at ready
    · cases ready
    · cases ready
      exact .single (g.altering_speaks t key.clause_speaks _)
  | dropPrimary constraint =>
    have dropping (name : String) : Tells [] [g.altering t "DROP CONSTRAINT " [segment name]] :=
      .single (g.altering_speaks t (.segment .nil name) _)
    have whole : Tells [] [g.altering t "DROP PRIMARY KEY" []] :=
      .single (g.altering_speaks t .nil _)
    simp only [alterStatements, alterDropPrimary] at ready
    split at ready
    · cases ready
    · cases ready
      exact whole
    · cases ready
      exact whole
    · cases ready
      exact dropping _
    · cases ready
      exact dropping _

end Grammar

/-- A string literal is read as the text that was quoted, whatever follows it, on every dialect but
MySQL, and there just for texts in which a mark of patterns stands behind each backslash. So the
statements that create or alter a table say the labels, defaults and comments that were given, each
read from where it stands, just if all of them are such texts. -/
theorem literals_read_iff (g : Grammar) (t : Table) :
    (∀ (s : String) (after : List Char), after.head? ≠ some '\x27' →
      (g.dialect.readString ((g.dialect.quoteString s).toList ++ after) = some (s.toList, after) ↔
        (g.dialect = .mysql → Text.KeepsBackslashes s.toList))) ∧
    (∀ options, Denotes g.dialect (g.createStatements t options) (g.createTexts t) ↔
      ∀ s ∈ g.createTexts t, g.dialect = .mysql → Text.KeepsBackslashes s.toList) ∧
    ∀ (change : Change) (statements : List (List Piece)),
      g.alterStatements t change = .ok statements →
        (Denotes g.dialect statements (g.alterTexts t change) ↔
          ∀ s ∈ g.alterTexts t change, g.dialect = .mysql → Text.KeepsBackslashes s.toList) := by
  refine ⟨fun s after apart => ?_, fun options => ?_, fun change statements ready => ?_⟩
  · exact g.dialect.readString_quoteString_iff s apart
  · exact (g.createStatements_tells t options).denotes_iff g.dialect
  · exact (g.alterStatements_tells t ready).denotes_iff g.dialect

/-- A MySQL column whose default holds a quote, and whose comment holds a backslash that is kept. -/
def quotedColumn : Column where
  name := "a"
  tableName := "t"
  type := .string
  default := some (.value (.text "it's"))
  comment := some "100\\%"

theorem literals_read_iff_quoted :
    Dialect.readString .mysql ((Dialect.quoteString .mysql "it's").toList ++ [',']) =
        some ("it's".toList, [',']) ∧
      ∃ statements, Grammar.alterStatements { dialect := .mysql } { name := "t" }
          (.addColumn quotedColumn) = .ok statements ∧
        Denotes .mysql statements ["it's", "100\\%"] := by
  obtain ⟨reads, -, statements⟩ := literals_read_iff { dialect := .mysql } { name := "t" }
  have added := statements (.addColumn quotedColumn) _ rfl
  refine ⟨(reads "it's" [','] (by decide)).mpr (by decide), _, rfl, added.mpr ?_⟩
  intro s member _
  have given : s = "it's" ∨ s = "100\\%" := by
    simpa [Grammar.alterTexts, Dialect.additionTexts, Dialect.createdTypeTexts,
      Dialect.definitionTexts, Dialect.storedComment?, Column.labels, Column.defaultTexts,
      quotedColumn] using member
  rcases given with rfl | rfl <;> decide

/-- A backslash at the end of a text takes the closing quote, and the literal is not closed. -/
theorem literal_not_always_read :
    ¬ ∀ (d : Dialect) (s : String),
      d.readString (d.quoteString s).toList = some (s.toList, []) := by
  intro all
  have closed := all .mysql "a\\"
  exact absurd closed (by decide)

end Sqlwright
