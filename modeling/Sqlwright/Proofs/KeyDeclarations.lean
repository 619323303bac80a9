import Sqlwright.Proofs.CreatedBlueprint

/-!
Declarations of a primary key on SQLite. A column that counts up is declared as the key where it
stands, and the clause of the key is left out beside it if the key is on that column alone. The
column is declared as the log has it, which is how it was defined first, while the clause goes by
the blueprint, which has its last definition.
-/

namespace Sqlwright

/-- All that stands between the parentheses of the statement that creates the table. -/
def Creation.declarations (c : Creation) : List (List Piece) :=
  c.columns.map ColumnPart.definition ++ c.indexes.filterMap IndexPart.clause? ++ c.key.toList

/-- A key is declared by a column that counts up, and by a clause of its own. -/
def declaresKey : List Piece → Bool
  | [_, .text words] => words == " INTEGER PRIMARY KEY AUTOINCREMENT NOT NULL"
  | .text words :: _ => words == "PRIMARY KEY "
  | _ => false

/-- A name is that of a column that counts up as it was defined first. -/
def CountsFirst (columns : List Column) (name : String) : Prop :=
  ∃ c, Named.first? Column.name name columns = some c ∧ c.autoIncrement

/-- A name is that of a column that counts up as it was defined last. -/
def CountsLast (columns : List Column) (name : String) : Prop :=
  ∃ c, Named.last? Column.name name columns = some c ∧ c.autoIncrement

/-- At most one column counts up at first, and beside it the key is on one column that counts up in
the end. -/
structure CountsAlone (columns : List Column) (key : Option PrimaryKey) : Prop where
  alone : ∀ a b, CountsFirst columns a → CountsFirst columns b → a = b
  covered : ∀ name held, CountsFirst columns name → key = some held →
    ∃ only, held.columns = [only] ∧ CountsLast columns only

theorem length_le_one_iff {α : Type} {entries : List α} (distinct : entries.Nodup) :
    entries.length ≤ 1 ↔ ∀ a ∈ entries, ∀ b ∈ entries, a = b := by
  match entries with
  | [] => simp
  | [_] => simp
  | a :: b :: rest =>
    have apart : a ≠ b := fun same => (List.nodup_cons.mp distinct).1 (same ▸ List.mem_cons_self)
    refine iff_of_false (by simp) fun all => apart (all a ?_ b ?_)
    · exact List.mem_cons_self
    · exact List.mem_cons_of_mem _ List.mem_cons_self

/-! ### Single declarations -/

/-- Of columns just those that count up declare a key. -/
theorem declaresKey_columnDefinition (c : Column) :
    declaresKey (Dialect.sqlite.columnDefinition c) = c.autoIncrement := by
  cases counting : c.autoIncrement with
  | true =>
    simp only [Dialect.columnDefinition, counting]
    rfl
  | false =>
    -- the name, a blank and the type stand first, so there are more pieces than a key has
    obtain ⟨native, type⟩ : ∃ native, Dialect.sqlite.columnType c = [.text native] := by
      unfold Dialect.columnType Dialect.enumType
      split <;> exact ⟨_, rfl⟩
    obtain ⟨rest, parts⟩ : ∃ rest, Dialect.sqlite.columnDefinition c =
        Grammar.segment c.name :: .text " " :: .text native :: rest := by
      simp only [Dialect.columnDefinition, counting, type, sentence, Dialect.nullClause]
      exact ⟨_, rfl⟩
    rw [parts, Grammar.segment]
    split <;> rfl

theorem declaresKey_clause (key : PrimaryKey) : declaresKey key.clause := by
  rw [PrimaryKey.clause, parenthesised]
  cases Grammar.names key.columns <;> rfl

namespace Grammar

variable {g : Grammar} {t : Table}

/-- The statement that creates a table has the declarations of its parts. -/
theorem createTable_eq (g : Grammar) (t : Table) (options : CreateOptions) :
    g.createTable t options = g.tableStatement t.name options (g.creation t).declarations := by
  have definitions : (g.creation t).columns.map ColumnPart.definition =
      t.addedColumns.map g.dialect.columnDefinition := List.map_map
  have clauses := g.clauses_eq t t.createdIndexes
  rw [Creation.declarations, definitions, creation, clauses]
  rfl

/-- Keys are declared by the columns that count up in the log, and by the clause. -/
theorem declarations_countP (dialect : g.dialect = .sqlite) (t : Table) :
    (g.creation t).declarations.countP declaresKey =
      t.addedColumns.countP Column.autoIncrement + (g.creation t).key.toList.length := by
  have definitions : (g.creation t).columns.map ColumnPart.definition =
      t.addedColumns.map Dialect.sqlite.columnDefinition := by
    rw [← dialect]
    exact List.map_map
  have clauses : (g.creation t).indexes.filterMap IndexPart.clause? = [] := by
    rw [creation, clauses_eq, List.filterMap_eq_nil_iff]
    intro index _
    rw [inlineIndex?, dialect]
  have keys : (g.creation t).key.toList.countP declaresKey =
      (g.creation t).key.toList.length := by
    refine List.countP_eq_length.mpr fun part member => ?_
    obtain ⟨key, -, clause⟩ := Option.bind_eq_some_iff.mp (Option.mem_toList.mp member)
    have declared : part = key.clause := by
      unfold tablePrimary? at clause
      split at clause
      · split at clause <;> cases clause
        rfl
      · exact (Option.some.inj clause).symm
    rw [declared]
    exact declaresKey_clause key
  have each : declaresKey ∘ Dialect.sqlite.columnDefinition = Column.autoIncrement :=
    funext declaresKey_columnDefinition
  rw [Creation.declarations, definitions, clauses, List.append_nil, List.countP_append,
    List.countP_map, each, keys]

end Grammar

/-! ### Log and blueprint -/

namespace Table.Drafted

variable {columns : List Column} {indexes : List Index} {t : Table}

/-- A column is found in the blueprint as it was defined last. -/
theorem column?_written (drafted : t.Drafted columns indexes) (name : String) :
    (t.column? name).map Column.written = Named.last? Column.name name columns := by
  cases found : t.column? name with
  | none =>
    have absent : name ∉ t.written.map Column.name := by
      rw [written_names]
      intro member
      have there := (drafted.indexed.columns.find?_isSome_iff name).mpr (List.mem_map.mp member)
      rw [column?] at found
      rw [found] at there
      cases there
    exact (Named.last?_eq_none_iff.mpr (drafted.lasts.undefined absent)).symm
  | some column =>
    obtain ⟨member, rfl⟩ := drafted.indexed.columns.of_find? found
    exact (drafted.lasts.picked column.written (List.mem_map_of_mem member)).symm

/-- The columns of the log that count up are those that did as they were defined first. -/
theorem countsFirst_iff (drafted : t.Drafted columns indexes) (name : String) :
    CountsFirst columns name ↔
      name ∈ (t.addedColumns.filter Column.autoIncrement).map Column.name := by
  rw [List.mem_map]
  constructor
  · rintro ⟨first, found, counting⟩
    obtain ⟨defined, rfl⟩ := Named.first?_eq_some found
    obtain ⟨_, logged, named⟩ := List.mem_map.mp (drafted.firsts.all first defined)
    obtain ⟨column, added, rfl⟩ := List.mem_map.mp logged
    have same := drafted.firsts.picked column.written logged
    rw [named, found] at same
    obtain rfl := Option.some.inj same
    exact ⟨column, List.mem_filter.mpr ⟨added, counting⟩, rfl⟩
  · rintro ⟨column, member, rfl⟩
    obtain ⟨added, counting⟩ := List.mem_filter.mp member
    exact ⟨column.written, drafted.firsts.picked _ (List.mem_map_of_mem added), counting⟩

theorem counting_ne_zero_iff (drafted : t.Drafted columns indexes) :
    t.addedColumns.countP Column.autoIncrement ≠ 0 ↔ ∃ name, CountsFirst columns name := by
  simp only [drafted.countsFirst_iff, List.mem_map, List.mem_filter]
  rw [← Nat.pos_iff_ne_zero, List.countP_pos_iff]
  constructor
  · rintro ⟨column, added, counting⟩
    exact ⟨column.name, column, ⟨added, counting⟩, rfl⟩
  · rintro ⟨_, column, ⟨added, counting⟩, -⟩
    exact ⟨column, added, counting⟩

theorem counting_le_one_iff (drafted : t.Drafted columns indexes) :
    t.addedColumns.countP Column.autoIncrement ≤ 1 ↔
      ∀ a b, CountsFirst columns a → CountsFirst columns b → a = b := by
  have names : (t.addedColumns.map Column.name).Nodup := by
    have distinct := drafted.firsts.distinct
    rwa [List.map_map] at distinct
  have distinct := names.sublist (List.filter_sublist (p := Column.autoIncrement).map Column.name)
  have length : (t.addedColumns.filter Column.autoIncrement).length =
      ((t.addedColumns.filter Column.autoIncrement).map Column.name).length :=
    (List.length_map _).symm
  rw [List.countP_eq_length_filter, length, length_le_one_iff distinct]
  simp only [drafted.countsFirst_iff]
  exact ⟨fun all a b first second => all a first b second,
    fun all a first b second => all a b first second⟩

/-- The clause of the key is left out for a single column that counts up as it was defined last. -/
theorem clause_eq_none_iff (drafted : t.Drafted columns indexes) {g : Grammar}
    (dialect : g.dialect = .sqlite) :
    (g.creation t).key = none ↔ ∀ held, t.primary = some held →
      ∃ only, held.columns = [only] ∧ CountsLast columns only := by
  have log : (g.creation t).key = t.primary.bind (g.tablePrimary? t) := by
    rw [Grammar.creation, drafted.key]
  rw [log, Option.bind_eq_none_iff]
  refine forall₂_congr fun held _ => ?_
  have last (only : String) : ((t.column? only).map Column.autoIncrement).getD false ↔
      CountsLast columns only := by
    rw [CountsLast, ← drafted.column?_written]
    cases t.column? only <;> simp [Column.written]
  rw [Grammar.tablePrimary?, dialect]
  cases held.columns with
  | nil => simp
  | cons only rest =>
    cases rest with
    | nil => simp [last]
    | cons => simp

end Table.Drafted

/-- On SQLite the statement that creates a table which was built by definitions, indexes and keys
declares a primary key at most once exactly if at most one column counts up as it was defined first,
and beside it the key is on a single column that counts up as it was defined last. -/
theorem key_declared_once_iff (g : Grammar) (dialect : g.dialect = .sqlite) (name : String)
    {calls : List TableCall} (creating : ∀ call ∈ calls, call.IsCreating) :
    let t := TableCall.runAll calls { name }
    let columns := (calls.flatMap TableCall.definitions).map (ColumnCall.finished name)
    (∀ options, g.createTable t options =
        g.tableStatement t.name options (g.creation t).declarations) ∧
      ((g.creation t).declarations.countP declaresKey ≤ 1 ↔ CountsAlone columns t.primary) := by
  intro t columns
  have drafted : t.Drafted columns (calls.flatMap (TableCall.creations name)) :=
    (Table.Drafted.empty name).runAll creating
  refine ⟨g.createTable_eq t, ?_⟩
  have covered := drafted.clause_eq_none_iff dialect
  have alone := drafted.counting_le_one_iff
  have counting := drafted.counting_ne_zero_iff
  rw [g.declarations_countP dialect]
  cases clause : (g.creation t).key with
  | none =>
    have held := covered.mp clause
    rw [Option.toList_none, List.length_nil, Nat.add_zero, alone]
    exact ⟨fun one => ⟨one, fun _ key _ => held key⟩, CountsAlone.alone⟩
  | some part =>
    have single : t.addedColumns.countP Column.autoIncrement + 1 ≤ 1 ↔
        ¬ ∃ name, CountsFirst columns name := by
      rw [← counting]
      omega
    rw [Option.toList_some, List.length_singleton, single]
    constructor
    · intro none
      exact ⟨fun a _ first _ => absurd ⟨a, first⟩ none, fun a _ first => absurd ⟨a, first⟩ none⟩
    · rintro once ⟨name, first⟩
      have out := covered.mpr fun key => once.covered name key first
      rw [clause] at out
      cases out

/-- A counting key that is defined a second time, beside a column with an index. -/
def countedAgain : List TableCall :=
  [.column (.id "id"), .column (.typed .text "name"), .column (.id "id"),
   .createIndex .unique "i" ["name"]]

/-- However often the only counting column is defined, it declares the key alone. -/
theorem key_declared_once_again :
    let t := TableCall.runAll countedAgain { name := "t" }
    (Grammar.creation { dialect := .sqlite } t).declarations.countP declaresKey ≤ 1 := by
  intro t
  have creating : ∀ call ∈ countedAgain, call.IsCreating := by
    have plain : (ColumnCall.id "id").redefine = false := rfl
    simp [countedAgain, TableCall.IsCreating, ColumnCall.typed, plain]
  have only (name : String) (first : CountsFirst ((countedAgain.flatMap
      TableCall.definitions).map (ColumnCall.finished "t")) name) : name = "id" := by
    obtain ⟨c, found, counting⟩ := first
    obtain ⟨member, rfl⟩ := Named.first?_eq_some found
    have listed : c = (ColumnCall.id "id").finished "t" ∨
        c = (ColumnCall.typed .text "name").finished "t" := by
      simpa [countedAgain, TableCall.definitions, or_comm] using member
    rcases listed with rfl | rfl
    · rfl
    · cases counting
  refine (key_declared_once_iff _ rfl "t" creating).2.mpr ⟨?_, ?_⟩
  · intro a b first second
    rw [only a first, only b second]
  · rintro name held - ⟨⟩
    exact ⟨"id", rfl, (ColumnCall.id "id").finished "t", rfl, rfl⟩

/-- A counting key whose column is defined once more as a number. -/
def countedNoMore : List TableCall := [.column (.id "id"), .column (.typed .integer "id")]

/-- Both declare the key: the column, since it counted up at first, and the clause, since it does
not in the end. -/
theorem key_declared_twice :
    let t := TableCall.runAll countedNoMore { name := "t" }
    (∀ call ∈ countedNoMore, call.IsCreating) ∧
      (Grammar.creation { dialect := .sqlite } t).declarations.countP declaresKey = 2 := by
  intro t
  have plain : (ColumnCall.id "id").redefine = false := rfl
  refine ⟨?_, rfl⟩
  simp [countedNoMore, TableCall.IsCreating, ColumnCall.typed, plain]

end Sqlwright
