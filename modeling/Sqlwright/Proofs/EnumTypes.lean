import Mathlib.Data.List.Basic
import Sqlwright.Ddl.Alter
import Sqlwright.Proofs.JoinedLabels
import Sqlwright.Table.Build

/-!
The enum types of Postgres. A type is named by its labels and created in front of the columns that
need it, unless the server has one of that name already. So a column has its own labels as long as
different labels make different names, which they do if the separator is told from them.
-/

namespace Sqlwright

/-! ### Creating types -/

/-- The string literals among pieces. -/
def literalsOf (pieces : List Piece) : List String :=
  pieces.filterMap fun piece => match piece with
    | .literal s => some s
    | _ => none

/-- The enum type that a statement creates under a guard: its name as it is written, and its
labels. -/
def createdType? : List Piece → Option (String × List String)
  | .text opening :: rest =>
    (opening.toList.dropPrefix? "DO $$ BEGIN CREATE TYPE ".toList).bind fun named =>
      (named.dropSuffix? " AS ENUM (".toList).map fun name => (.ofList name, literalsOf rest)
  | _ => none

/-- What a server knows of enum types. -/
structure EnumServer where
  /-- The name under which a type is kept that is written so, without quotes. -/
  keptAs : String → String
  /-- The labels of the types by the names under which they are kept. -/
  types : List (String × List String) := []

namespace EnumServer

def labels? (server : EnumServer) (name : String) : Option (List String) :=
  Keyed.find? (server.keptAs name) server.types

/-- Performs a statement. A type is created only if there is none of its name yet. -/
def perform (server : EnumServer) (statement : List Piece) : EnumServer :=
  match createdType? statement with
  | some (name, labels) =>
    if (server.labels? name).isSome then server
    else { server with types := Keyed.insert (server.keptAs name) labels server.types }
  | none => server

def performAll (server : EnumServer) (statements : List (List Piece)) : EnumServer :=
  statements.foldl perform server

end EnumServer

/-! ### Columns -/

/-- The enum columns among columns. -/
def enumColumns (columns : List Column) : List Column := columns.filter fun c => c.type = .enum

/-- Statements that define columns of a table: those that create it, and those of a change that adds
a column or modifies one. -/
inductive Grammar.Defines (g : Grammar) (t : Table) : List (List Piece) → List Column → Prop
  | create (options : CreateOptions) : g.Defines t (g.createStatements t options) t.addedColumns
  | alter {change : Change} {c : Column} {statements : List (List Piece)}
      (column : change.column? = some c) (ready : g.alterStatements t change = .ok statements) :
      g.Defines t statements [c]

namespace Column

/-- The type of an enum column has the labels of the column: one of the statements creates it so,
and every statement that writes the type comes behind that one, when the server knows the type with
these labels. -/
structure OwnsType (c : Column) (server : EnumServer) (statements : List (List Piece)) : Prop where
  created : ∃ creation ∈ statements, createdType? creation = some (c.enumTypeName, c.options)
  labelled : (server.performAll statements).labels? c.enumTypeName = some c.options
  earlier : ∀ before use after, statements = before ++ use :: after →
    .text c.enumTypeName ∈ use →
      (∃ creation ∈ before, createdType? creation = some (c.enumTypeName, c.options)) ∧
        (server.performAll before).labels? c.enumTypeName = some c.options
  /-- A column that counts up is of a type that counts up, all others are of their enum type. -/
  used : c.autoIncrement = false → ∃ use ∈ statements, .text c.enumTypeName ∈ use

/-- Labels that are told by the name of the type: there are some, and the separator is found first
behind each of them. -/
def ToldByType (c : Column) : Prop :=
  c.options ≠ [] ∧ ∀ label ∈ c.options, Text.EndsBefore "_eopt_".toList label.toList

instance (c : Column) : Decidable c.ToldByType := inferInstanceAs (Decidable (_ ∧ _))

end Column

/-- Columns whose types differ where their labels do: all enum columns have labels, and types of one
name have the same ones, also those that the server knows already. -/
structure EnumServer.TellsApart (server : EnumServer) (columns : List Column) : Prop where
  filled : ∀ c ∈ enumColumns columns, c.options ≠ []
  known : ∀ c ∈ enumColumns columns, ∀ labels, server.labels? c.enumTypeName = some labels →
    labels = c.options
  alike : ∀ c ∈ enumColumns columns, ∀ d ∈ enumColumns columns,
    server.keptAs c.enumTypeName = server.keptAs d.enumTypeName → c.options = d.options

/-- A server that has created its types for columns whose labels are told by them. -/
def EnumServer.TellsLabels (server : EnumServer) : Prop :=
  ∀ name labels, server.labels? name = some labels →
    ∃ c : Column, c.ToldByType ∧ server.keptAs name = server.keptAs c.enumTypeName ∧
      labels = c.options

/-! ### Statements -/

/-- The statement that creates the type of a column. -/
def Column.typeCreation (c : Column) : List Piece :=
  .text ("DO $$ BEGIN CREATE TYPE " ++ c.enumTypeName ++ " AS ENUM (") :: literalList c.options ++
    [.text "); EXCEPTION WHEN duplicate_object THEN null; END $$;"]

/-- The columns for which types are created. -/
def typedColumns (columns : List Column) : List Column :=
  columns.filter fun c => c.type = .enum && !c.options.isEmpty

theorem createTypes_postgres (columns : List Column) :
    Dialect.createTypes .postgres columns = (typedColumns columns).map Column.typeCreation := rfl

theorem mem_typedColumns {columns : List Column} {c : Column} :
    c ∈ typedColumns columns ↔ c ∈ enumColumns columns ∧ c.options ≠ [] := by
  simp [typedColumns, enumColumns, and_assoc]

theorem literalsOf_literalList (texts : List String) (closing : String) :
    literalsOf (literalList texts ++ [.text closing]) = texts := by
  induction texts with
  | nil => rfl
  | cons first rest ih =>
    cases rest with
    | nil => rfl
    | cons second rest => exact congrArg (first :: ·) ih

theorem createdType?_typeCreation (c : Column) :
    createdType? c.typeCreation = some (c.enumTypeName, c.options) := by
  have opened : ("DO $$ BEGIN CREATE TYPE " ++ c.enumTypeName ++ " AS ENUM (").toList.dropPrefix?
      "DO $$ BEGIN CREATE TYPE ".toList = some (c.enumTypeName ++ " AS ENUM (").toList := by
    refine List.dropPrefix?_eq_some_iff.mpr ⟨_, ?_, beq_self_eq_true _⟩
    rw [String.append_assoc, String.toList_append]
  have closed : (c.enumTypeName ++ " AS ENUM (").toList.dropSuffix? " AS ENUM (".toList =
      some c.enumTypeName.toList := by
    refine List.dropSuffix?_eq_some_iff.mpr ⟨_, ?_, beq_self_eq_true _⟩
    rw [String.toList_append]
  rw [Column.typeCreation, List.cons_append, createdType?, opened, Option.bind_some, closed,
    Option.map_some, String.ofList_toList, literalsOf_literalList]

/-- A statement that does not open as one that creates a type. -/
theorem createdType?_eq_none {opening : String} (first : opening.toList.head? ≠ some 'D')
    (rest : List Piece) : createdType? (.text opening :: rest) = none := by
  have other : opening.toList.dropPrefix? "DO $$ BEGIN CREATE TYPE ".toList = none := by
    cases found : opening.toList.dropPrefix? "DO $$ BEGIN CREATE TYPE ".toList with
    | none => rfl
    | some named =>
      obtain ⟨start, whole, same⟩ := List.dropPrefix?_eq_some_iff.mp found
      obtain rfl := eq_of_beq same
      rw [whole] at first
      simp at first
  rw [createdType?, other, Option.bind_none]

/-- The statement that creates a type does not use it. -/
theorem enumTypeName_not_mem_typeCreation (c d : Column) :
    .text c.enumTypeName ∉ d.typeCreation := by
  have different {words : String} (first : words.toList.head? ≠ some 'e') :
      Piece.text c.enumTypeName ≠ .text words := by
    intro same
    rw [← Piece.text.inj same, Column.enumTypeName] at first
    simp at first
  have between : Piece.text c.enumTypeName ≠ .text "," := different (by decide)
  have labels : ∀ piece ∈ literalList d.options, .text c.enumTypeName ≠ piece := by
    refine joinPieces_map_forall between fun label _ piece member => ?_
    rw [List.mem_singleton.mp member]
    simp
  intro member
  rcases List.mem_append.mp member with front | last
  · rcases List.mem_cons.mp front with opening | inside
    · exact different (by simp) opening
    · exact labels _ inside rfl
  · exact different (by decide) (List.mem_singleton.mp last)

/-! ### The server -/

namespace EnumServer

variable {server : EnumServer}

theorem perform_keptAs (server : EnumServer) (statement : List Piece) :
    (server.perform statement).keptAs = server.keptAs := by
  unfold perform
  split
  · split <;> rfl
  · rfl

/-- A type that is created is known by its labels if no other one of its name was known. -/
theorem labels?_perform {statement : List Piece} {name : String} {labels : List String}
    (creates : createdType? statement = some (name, labels)) (wanted : String) :
    (server.perform statement).labels? wanted =
      (server.labels? wanted).or
        (if server.keptAs name = server.keptAs wanted then some labels else none) := by
  rw [perform, creates]
  by_cases same : server.keptAs name = server.keptAs wanted
  · cases found : Keyed.find? (server.keptAs wanted) server.types <;>
      simp [labels?, same, found, Keyed.find?_insert]
  · simp only [if_neg same, Option.or_none]
    by_cases known : (server.labels? name).isSome
    · rw [if_pos known]
    · rw [if_neg known, labels?, labels?, Keyed.find?_insert, if_neg (Ne.symm same)]

theorem performAll_of_others {statements : List (List Piece)}
    (others : ∀ statement ∈ statements, createdType? statement = none) :
    server.performAll statements = server := by
  refine List.foldlRecOn (motive := fun after => after = server) statements perform rfl ?_
  rintro _ rfl statement member
  rw [perform, others statement member]

theorem performAll_append (server : EnumServer) (front back : List (List Piece)) :
    server.performAll (front ++ back) = (server.performAll front).performAll back :=
  List.foldl_append

theorem performAll_keptAs (server : EnumServer) (statements : List (List Piece)) :
    (server.performAll statements).keptAs = server.keptAs := by
  refine List.foldlRecOn (motive := fun after => after.keptAs = server.keptAs) statements perform
    rfl ?_
  intro after kept statement _
  rw [perform_keptAs, kept]

/-- Of several types of one name the first is the one that is known. -/
theorem labels?_performAll (server : EnumServer) (columns : List Column) (name : String) :
    (server.performAll (columns.map Column.typeCreation)).labels? name =
      (server.labels? name).or
        ((columns.find? fun c => server.keptAs c.enumTypeName = server.keptAs name).map
          Column.options) := by
  induction columns generalizing server with
  | nil => simp [performAll]
  | cons c rest ih =>
    have step : server.performAll ((c :: rest).map Column.typeCreation) =
        (server.perform c.typeCreation).performAll (rest.map Column.typeCreation) := rfl
    rw [step, ih, perform_keptAs, labels?_perform (createdType?_typeCreation c), Option.or_assoc,
      List.find?_cons]
    by_cases same : server.keptAs c.enumTypeName = server.keptAs name <;> simp [same]

end EnumServer

/-! ### Definitions of columns -/

/-- Statements of which the first ones create types, the others do not, and the others write the
type of every enum column. -/
structure TypesFirst (statements : List (List Piece)) (columns : List Column)
    (rest : List (List Piece)) : Prop where
  split : statements = (typedColumns columns).map Column.typeCreation ++ rest
  others : ∀ statement ∈ rest, createdType? statement = none
  used : ∀ c ∈ enumColumns columns, c.autoIncrement = false →
    ∃ use ∈ rest, .text c.enumTypeName ∈ use

theorem mem_joinPieces {sep : String} {parts : List (List Piece)} {part : List Piece}
    {piece : Piece} (inside : part ∈ parts) (member : piece ∈ part) :
    piece ∈ joinPieces sep parts := by
  induction parts with
  | nil => cases inside
  | cons first rest ih =>
    cases rest with
    | nil => exact List.mem_singleton.mp inside ▸ member
    | cons second rest =>
      rcases List.mem_cons.mp inside with rfl | later
      · exact List.mem_append_left _ member
      · exact List.mem_append_right _ (List.mem_cons_of_mem _ (ih later))

/-- The definition of an enum column that does not count up names its type. -/
theorem enumTypeName_mem_definition {c : Column} (enum : c.type = .enum)
    (counts : c.autoIncrement = false) :
    .text c.enumTypeName ∈ Dialect.columnDefinition .postgres c := by
  have type : Dialect.columnType .postgres c = [.text c.enumTypeName] := by
    rw [Dialect.columnType, if_pos enum]
    rfl
  simp only [Dialect.columnDefinition, counts, type, sentence]
  refine mem_joinPieces ?_ (List.mem_singleton_self (Piece.text c.enumTypeName))
  simp

namespace Grammar

variable {g : Grammar} {t : Table}

theorem createdType?_commentStatement {c : Column} {statement : List Piece}
    (written : statement ∈ g.commenting c) : createdType? statement = none := by
  obtain ⟨comment, -, rfl⟩ := Option.map_eq_some_iff.mp (Option.mem_toList.mp written)
  exact createdType?_eq_none (by decide) _

theorem createdType?_createIndex {index : Index} {statement : List Piece}
    (created : g.createIndex? t index = some statement) : createdType? statement = none := by
  have plain : createdType? (g.plainIndex t index) = none := createdType?_eq_none (by simp) _
  have vector (column : Column) : createdType? (g.vectorIndex t index column) = none :=
    createdType?_eq_none (by decide) _
  simp only [createIndex?] at created
  split at created
  · cases created
  · split at created
    · split at created
      · cases created
      · split at created
        · cases created
          exact vector _
        · cases created
          exact plain
    · cases created
      exact plain

theorem createdType?_createTable (postgres : g.dialect = .postgres) (options : CreateOptions) :
    createdType? (g.createTable t options) = none := by
  simp only [createTable, postgres, Dialect.tableOptions, sentence]
  refine createdType?_eq_none ?_ _
  split <;> decide

theorem columnDefinition_subset_createTable (postgres : g.dialect = .postgres)
    (options : CreateOptions) {c : Column} (added : c ∈ t.addedColumns) :
    Dialect.columnDefinition .postgres c ⊆ g.createTable t options := by
  intro piece member
  simp only [createTable, postgres, Dialect.tableOptions, sentence]
  have inside : Dialect.columnDefinition .postgres c ∈
      t.addedColumns.map (Dialect.columnDefinition .postgres) := List.mem_map_of_mem added
  have joined := @mem_joinPieces ",\n  " _ _ _ (List.mem_append_left
    (t.createdIndexes.filterMap g.inlineIndex? ++
      (t.createdPrimary?.bind (g.tablePrimary? t)).toList) inside) member
  simp [joinPieces, joined, List.append_assoc]

/-- The types of a table are created in front of it. -/
theorem createStatements_typesFirst (postgres : g.dialect = .postgres) (options : CreateOptions) :
    ∃ rest, TypesFirst (g.createStatements t options) t.addedColumns rest := by
  let apart := t.createdIndexes.filter fun index => (g.inlineIndex? index).isNone
  refine ⟨g.createTable t options ::
    (apart.filterMap (g.createIndex? t) ++ t.addedColumns.filterMap g.commentStatement?),
    ?_, ?_, ?_⟩
  · rw [createStatements, postgres, createTypes_postgres]
    simp [apart]
  · refine List.forall_mem_cons.mpr ⟨createdType?_createTable postgres options, ?_⟩
    intro statement member
    rcases List.mem_append.mp member with ofIndex | ofComment
    · obtain ⟨index, -, created⟩ := List.mem_filterMap.mp ofIndex
      exact createdType?_createIndex created
    · obtain ⟨c, -, commented⟩ := List.mem_filterMap.mp ofComment
      exact createdType?_commentStatement (Option.mem_toList.mpr commented)
  · intro c member counts
    obtain ⟨added, enum⟩ := List.mem_filter.mp member
    refine ⟨_, List.mem_cons_self, columnDefinition_subset_createTable postgres options added ?_⟩
    exact enumTypeName_mem_definition (by simpa using enum) counts

theorem createdType?_altering (action : String) (rest : List Piece) :
    createdType? (g.altering t action rest) = none :=
  createdType?_eq_none (by decide) _

/-- The type of a column is created in front of what adds the column or modifies it. -/
theorem alterStatements_typesFirst (postgres : g.dialect = .postgres) {change : Change} {c : Column}
    {statements : List (List Piece)} (column : change.column? = some c)
    (ready : g.alterStatements t change = .ok statements) :
    ∃ rest, TypesFirst statements [c] rest := by
  have enum {d : Column} (member : d ∈ enumColumns [c]) : d = c ∧ c.type = .enum := by
    obtain ⟨only, enum⟩ := List.mem_filter.mp member
    obtain rfl := List.mem_singleton.mp only
    exact ⟨rfl, by simpa using enum⟩
  cases change with
  | addColumn added =>
    obtain rfl : added = c := Option.some.inj column
    cases ready
    refine ⟨g.altering t "ADD COLUMN " (Dialect.columnDefinition .postgres added) ::
      g.commenting added, ?_, ?_, ?_⟩
    · simp [alterAddColumn, postgres, createTypes_postgres]
    · exact List.forall_mem_cons.mpr
        ⟨createdType?_altering _ _, fun _ written => createdType?_commentStatement written⟩
    · intro d member counts
      obtain ⟨rfl, enum⟩ := enum member
      refine ⟨_, List.mem_cons_self, List.mem_append_right _ (List.mem_cons_of_mem _ ?_)⟩
      exact enumTypeName_mem_definition enum counts
  | modifyColumn modified =>
    obtain rfl : modified = c := Option.some.inj column
    simp only [alterStatements, alterModifyColumn, postgres, Except.ok.injEq] at ready
    subst ready
    refine ⟨_, by rw [postgresModifyColumn, postgres, createTypes_postgres, List.append_assoc],
      ?_, ?_⟩
    · intro statement member
      rcases List.mem_append.mp member with altered | commented
      · simp only [List.mem_cons, List.not_mem_nil, or_false] at altered
        rcases altered with rfl | rfl | rfl <;> exact createdType?_altering _ _
      · exact createdType?_commentStatement commented
    · intro d member _
      obtain ⟨rfl, enum⟩ := enum member
      refine ⟨_, List.mem_append_left _ List.mem_cons_self, List.mem_append_right _ ?_⟩
      simp [Dialect.columnType, enum, Dialect.enumType]
  | _ => cases column

theorem Defines.typesFirst (postgres : g.dialect = .postgres) {statements : List (List Piece)}
    {columns : List Column} (defines : g.Defines t statements columns) :
    ∃ rest, TypesFirst statements columns rest := by
  cases defines with
  | create options => exact createStatements_typesFirst postgres options
  | alter column ready => exact alterStatements_typesFirst postgres column ready

end Grammar

/-! ### Labels -/

/-- Labels that are told by the names of their types are the same where the names are. -/
theorem Column.ToldByType.options_eq {c d : Column} (told : c.ToldByType) (told' : d.ToldByType)
    (same : c.enumTypeName = d.enumTypeName) : c.options = d.options := by
  have joined : Text.join "_eopt_" c.options = Text.join "_eopt_" d.options := by
    have texts := congrArg String.toList same
    simpa [Column.enumTypeName, String.toList_append, String.toList_inj] using texts
  exact Text.join_injective told.1 told'.1 told.2 told'.2 joined

namespace TypesFirst

variable {server : EnumServer} {statements rest : List (List Piece)} {columns : List Column}

theorem performAll_eq (first : TypesFirst statements columns rest) (server : EnumServer) :
    server.performAll statements =
      server.performAll ((typedColumns columns).map Column.typeCreation) := by
  rw [first.split, EnumServer.performAll_append]
  exact EnumServer.performAll_of_others first.others

/-- What writes a type comes behind everything that creates one. -/
theorem created_before (first : TypesFirst statements columns rest) {c : Column}
    {before after : List (List Piece)} {use : List Piece}
    (split : statements = before ++ use :: after) (written : .text c.enumTypeName ∈ use) :
    ∃ more, before = (typedColumns columns).map Column.typeCreation ++ more ∧
      ∀ statement ∈ more, createdType? statement = none := by
  rcases List.append_eq_append_iff.mp (first.split.symm.trans split) with
    ⟨more, front, behind⟩ | ⟨more, front, behind⟩
  · refine ⟨more, front, fun statement member => first.others statement ?_⟩
    rw [behind]
    exact List.mem_append_left _ member
  · cases more with
    | nil => exact ⟨[], by simpa using front.symm, List.forall_mem_nil _⟩
    | cons head more =>
      have created : use ∈ (typedColumns columns).map Column.typeCreation := by
        rw [front, (List.cons.inj behind).1]
        exact List.mem_append_right _ List.mem_cons_self
      obtain ⟨d, -, rfl⟩ := List.mem_map.mp created
      exact absurd written (enumTypeName_not_mem_typeCreation c d)

theorem ownsType (first : TypesFirst statements columns rest) {c : Column}
    (member : c ∈ enumColumns columns) (filled : c.options ≠ [])
    (labelled : (server.performAll statements).labels? c.enumTypeName = some c.options) :
    c.OwnsType server statements := by
  have typed : c.typeCreation ∈ (typedColumns columns).map Column.typeCreation :=
    List.mem_map_of_mem (mem_typedColumns.mpr ⟨member, filled⟩)
  refine ⟨⟨c.typeCreation, ?_, createdType?_typeCreation c⟩, labelled, ?_, ?_⟩
  · rw [first.split]
    exact List.mem_append_left _ typed
  · intro before use after split written
    obtain ⟨more, front, others⟩ := first.created_before split written
    constructor
    · refine ⟨c.typeCreation, ?_, createdType?_typeCreation c⟩
      rw [front]
      exact List.mem_append_left _ typed
    · rw [front, EnumServer.performAll_append, EnumServer.performAll_of_others others,
        ← first.performAll_eq]
      exact labelled
  · intro counts
    obtain ⟨use, inside, written⟩ := first.used c member counts
    refine ⟨use, ?_, written⟩
    rw [first.split]
    exact List.mem_append_right _ inside

/-- All enum columns own their types exactly if types of one name have the same labels. -/
theorem ownsType_iff (first : TypesFirst statements columns rest) (server : EnumServer) :
    (∀ c ∈ enumColumns columns, c.OwnsType server statements) ↔ server.TellsApart columns := by
  have labels (name : String) := server.labels?_performAll (typedColumns columns) name
  simp only [← first.performAll_eq server] at labels
  constructor
  · intro owns
    refine ⟨fun c member => ?_, fun c member known found => ?_, fun c here d there same => ?_⟩
    · obtain ⟨creation, inside, created⟩ := (owns c member).created
      rw [first.split] at inside
      rcases List.mem_append.mp inside with typed | other
      · obtain ⟨d, filled, rfl⟩ := List.mem_map.mp typed
        rw [createdType?_typeCreation, Option.some.injEq, Prod.mk.injEq] at created
        exact created.2 ▸ (mem_typedColumns.mp filled).2
      · rw [first.others creation other] at created
        cases created
    · have labelled := (owns c member).labelled
      rw [labels, found] at labelled
      exact Option.some.inj labelled
    · have alike : (server.performAll statements).labels? c.enumTypeName =
          (server.performAll statements).labels? d.enumTypeName := by
        rw [EnumServer.labels?, EnumServer.labels?, EnumServer.performAll_keptAs, same]
      rw [(owns c here).labelled, (owns d there).labelled] at alike
      exact Option.some.inj alike
  · intro apart c member
    have filled := apart.filled c member
    apply first.ownsType member filled
    rw [labels]
    cases known : server.labels? c.enumTypeName with
    | some held => rw [apart.known c member held known]; rfl
    | none =>
      cases found : (typedColumns columns).find? fun d =>
          server.keptAs d.enumTypeName = server.keptAs c.enumTypeName with
      | none =>
        have other := List.find?_eq_none.mp found c (mem_typedColumns.mpr ⟨member, filled⟩)
        simp at other
      | some d =>
        have same : server.keptAs d.enumTypeName = server.keptAs c.enumTypeName := by
          simpa using List.find?_some found
        have there := (mem_typedColumns.mp (List.mem_of_find?_eq_some found)).1
        rw [Option.none_or, Option.map_some, apart.alike d there c member same]

/-- What is created for columns whose labels are told by their types leaves the labels told. -/
theorem tellsLabels (first : TypesFirst statements columns rest) (tells : server.TellsLabels)
    (told : ∀ c ∈ enumColumns columns, c.ToldByType) :
    (server.performAll statements).TellsLabels := by
  intro name labels found
  rw [EnumServer.performAll_keptAs]
  rw [first.performAll_eq, EnumServer.labels?_performAll] at found
  rcases Option.or_eq_some_iff.mp found with known | ⟨-, created⟩
  · exact tells name labels known
  · obtain ⟨c, first, rfl⟩ := Option.map_eq_some_iff.mp created
    have member := (mem_typedColumns.mp (List.mem_of_find?_eq_some first)).1
    have same : server.keptAs c.enumTypeName = server.keptAs name := by
      simpa using List.find?_some first
    exact ⟨c, told c member, same.symm, rfl⟩

end TypesFirst

/-- Columns whose labels are told by their types are told apart by a server that keeps the names as
they are. -/
theorem EnumServer.TellsLabels.tellsApart {server : EnumServer} {columns : List Column}
    (tells : server.TellsLabels) (kept : Function.Injective server.keptAs)
    (told : ∀ c ∈ enumColumns columns, c.ToldByType) : server.TellsApart columns where
  filled c member := (told c member).1
  known c member labels found := by
    obtain ⟨d, told', same, rfl⟩ := tells c.enumTypeName labels found
    exact told'.options_eq (told c member) (kept same).symm
  alike c here d there same := (told c here).options_eq (told d there) (kept same)

/-- On Postgres, in the statements that create a table, add a column or modify one, the type of
every enum column is created first and has just the labels of the column exactly if all these
columns have labels and types of one name have the same ones. This holds, with whatever was created
before in the same way, if the labels of all columns are told by the names of their types and the
server tells these apart. -/
theorem enum_types_own_iff {g : Grammar} (postgres : g.dialect = .postgres) {t : Table}
    {statements : List (List Piece)} {columns : List Column}
    (defines : g.Defines t statements columns) (server : EnumServer) :
    ((∀ c ∈ enumColumns columns, c.OwnsType server statements) ↔ server.TellsApart columns) ∧
      (Function.Injective server.keptAs → server.TellsLabels →
        (∀ c ∈ enumColumns columns, c.ToldByType) →
          (∀ c ∈ enumColumns columns, c.OwnsType server statements) ∧
            (server.performAll statements).TellsLabels) := by
  obtain ⟨rest, first⟩ := defines.typesFirst postgres
  refine ⟨first.ownsType_iff server, fun kept tells told => ⟨?_, first.tellsLabels tells told⟩⟩
  exact (first.ownsType_iff server).mpr (tells.tellsApart kept told)

/-- A server that keeps names as they are and knows one type. -/
def sizedServer : EnumServer := { keptAs := id, types := [("enum__s_eopt_l", ["s", "l"])] }

/-- A column with the labels that the server knows, one with the same in another order, and one with
labels that are nearly separators. -/
def sizedTable : Table :=
  TableCall.runAll
    [.column (.enum "size" ["s", "l"]), .column (.enum "cut" ["l", "s"]),
     .column (.enum "fit" ["eopt_", "_eop", "on hold"])]
    { name := "shirts" }

/-- All these columns own their types. -/
theorem enum_types_own_sized :
    (∀ c ∈ enumColumns sizedTable.addedColumns, c.ToldByType) ∧
      ∀ c ∈ enumColumns sizedTable.addedColumns,
        c.OwnsType sizedServer
          (Grammar.createStatements { dialect := .postgres } sizedTable {}) := by
  have told : ∀ c ∈ enumColumns sizedTable.addedColumns, c.ToldByType := by decide
  have tells : sizedServer.TellsLabels := by
    intro name labels found
    have known : Keyed.find? name [("enum__s_eopt_l", ["s", "l"])] = some labels := found
    let size : Column := { name := "size", type := .enum, options := ["s", "l"] }
    by_cases here : name = "enum__s_eopt_l"
    · have same : ["s", "l"] = labels := by simpa [Keyed.find?, here] using known
      have toldSize : size.ToldByType := by decide
      exact ⟨size, toldSize, here, same.symm⟩
    · simp [Keyed.find?, here] at known
  have defines : Grammar.Defines { dialect := .postgres } sizedTable _ _ := .create {}
  exact ⟨told, ((enum_types_own_iff rfl defines sizedServer).2 Function.injective_id tells told).1⟩

/-- Labels that contain the separator, and no labels at all. -/
def separatorLabels : Table :=
  TableCall.runAll
    [.column (.enum "size" ["a", "b"]), .column (.enum "kind" ["a_eopt_b"]),
     .column (.enum "state" [])]
    { name := "t" }

/-- The second column gets the type of the first one, which has other labels, and the type of the
third one is never created. -/
theorem enum_type_shared :
    let statements := Grammar.createStatements { dialect := .postgres } separatorLabels {}
    let server : EnumServer := { keptAs := id }
    let kind : Column :=
      { name := "kind", tableName := "t", type := .enum, options := ["a_eopt_b"], position := 2 }
    let state : Column := { name := "state", tableName := "t", type := .enum, position := 3 }
    (kind ∈ separatorLabels.addedColumns ∧ state ∈ separatorLabels.addedColumns) ∧
      (server.performAll statements).labels? kind.enumTypeName = some ["a", "b"] ∧
      (server.performAll statements).labels? state.enumTypeName = none ∧
      ¬ kind.OwnsType server statements ∧ ¬ state.OwnsType server statements := by
  intro statements server kind state
  have shared : (server.performAll statements).labels? kind.enumTypeName = some ["a", "b"] := by
    decide
  have missing : (server.performAll statements).labels? state.enumTypeName = none := by decide
  have listed : kind ∈ separatorLabels.addedColumns ∧ state ∈ separatorLabels.addedColumns :=
    ⟨List.mem_of_getElem? (i := 1) rfl, List.mem_of_getElem? (i := 2) rfl⟩
  refine ⟨listed, shared, missing, fun owns => ?_, fun owns => ?_⟩
  · have labelled := shared.symm.trans owns.labelled
    exact absurd labelled (by decide)
  · have labelled := missing.symm.trans owns.labelled
    cases labelled

end Sqlwright
