import Sqlwright.Ddl.Alter

/-!
Indexes that belong to the schema, and the names under which they are stored there. The name of the
table and the name of the index are joined by an underscore that may stand in either of them, so two
indexes are stored under one name exactly if their names overlap around an underscore. Statements
that create, drop or rename an index of one table then address the index of another one.
-/

namespace Sqlwright

/-- An index as it is called: by a name within a table. -/
structure IndexRef where
  table : String
  index : String
  deriving DecidableEq

namespace IndexRef

/-- The name under which an index is stored. -/
def stored (g : Grammar) (ref : IndexRef) : String := g.indexName ref.table ref.index

/-- The name of one table goes on behind that of the other one, with an underscore and the text that
the name of the other one's index starts with. -/
def Overlaps (longer shorter : IndexRef) : Prop :=
  ∃ middle, longer.table = shorter.table ++ "_" ++ middle ∧
    shorter.index = middle ++ "_" ++ longer.index

/-- Two indexes are the same, or their names overlap. -/
def Shares (first second : IndexRef) : Prop :=
  first = second ∨ first.Overlaps second ∨ second.Overlaps first

end IndexRef

/-- The indexes of its table that a change creates, drops or renames. -/
def Change.indexes : Change → List String
  | .createIndex index => [index.name]
  | .dropIndex name => [name]
  | .renameIndex source target => [source, target]
  | _ => []

/-- The name of a piece. -/
def Piece.name? : Piece → Option String
  | .name s => some s
  | _ => none

/-- The words in front of the stored name of an index that is created or dropped. -/
def indexOpenings : List String := ["CREATE INDEX ", "CREATE UNIQUE INDEX ", "DROP INDEX "]

/-- The words in front of the stored name of an index that gets another one. -/
def renameOpenings : List String := ["ALTER INDEX ", "RENAME INDEX "]

/-- The stored names of indexes in a statement: the one that is created or dropped, or both names of
one that is renamed. -/
def namedIndexes : List Piece → List String
  | .text words :: rest =>
    if words ∈ indexOpenings then (rest.take 1).filterMap Piece.name?
    else if words ∈ renameOpenings then rest.filterMap Piece.name?
    else []
  | _ => []

/-! ### Names -/

/-- A mark between two texts stands at one place, or the texts overlap around it. -/
theorem eq_or_overlap_of_append {α : Type} {front back front' back' more : List α} {mark : α}
    (longer : front' = front ++ more) (rest : mark :: back = more ++ mark :: back') :
    (front' = front ∧ back' = back) ∨
      ∃ middle, front' = front ++ mark :: middle ∧ back = middle ++ mark :: back' := by
  cases more with
  | nil =>
    obtain ⟨-, same⟩ := List.cons.inj rest
    exact .inl ⟨by rw [longer, List.append_nil], same.symm⟩
  | cons first middle =>
    obtain ⟨same, behind⟩ := List.cons.inj rest
    rw [← same] at longer
    exact .inr ⟨middle, longer, behind⟩

theorem append_mark_eq_iff {α : Type} (front back front' back' : List α) (mark : α) :
    front ++ mark :: back = front' ++ mark :: back' ↔
      (front = front' ∧ back = back') ∨
        (∃ middle, front = front' ++ mark :: middle ∧ back' = middle ++ mark :: back) ∨
          ∃ middle, front' = front ++ mark :: middle ∧ back = middle ++ mark :: back' := by
  constructor
  · intro same
    rcases List.append_eq_append_iff.mp same with ⟨more, longer, rest⟩ | ⟨more, longer, rest⟩
    · rcases eq_or_overlap_of_append longer rest with ⟨fronts, backs⟩ | overlap
      · exact .inl ⟨fronts.symm, backs.symm⟩
      · exact .inr (.inr overlap)
    · rcases eq_or_overlap_of_append longer rest with parts | overlap
      · exact .inl parts
      · exact .inr (.inl overlap)
  · rintro (⟨rfl, rfl⟩ | ⟨middle, rfl, rfl⟩ | ⟨middle, rfl, rfl⟩)
    · rfl
    · rw [List.append_assoc, List.cons_append]
    · rw [List.append_assoc, List.cons_append]

namespace IndexRef

variable {g : Grammar} {first second longer shorter : IndexRef}

theorem stored_of_global (global : g.dialect ≠ .mysql) (ref : IndexRef) :
    ref.stored g = g.tablePrefix ++ (ref.table ++ "_" ++ ref.index) := by
  rw [stored, Grammar.indexName]
  split
  · exact absurd ‹_› global
  · simp only [String.append_assoc]

theorem overlaps_iff :
    longer.Overlaps shorter ↔
      ∃ middle : List Char, longer.table.toList = shorter.table.toList ++ '_' :: middle ∧
        shorter.index.toList = middle ++ '_' :: longer.index.toList := by
  constructor
  · rintro ⟨middle, table, index⟩
    exact ⟨middle.toList, by simp [table, String.toList_append],
      by simp [index, String.toList_append]⟩
  · rintro ⟨middle, table, index⟩
    refine ⟨.ofList middle, ?_, ?_⟩
    · apply String.toList_injective
      simp [table, String.toList_append]
    · apply String.toList_injective
      simp [index, String.toList_append]

/-- Where indexes belong to the schema, two of them are stored under one name exactly if their names
overlap. -/
theorem stored_eq_iff (global : g.dialect ≠ .mysql) :
    first.stored g = second.stored g ↔ first.Shares second := by
  have joined (ref : IndexRef) :
      (ref.table ++ "_" ++ ref.index).toList = ref.table.toList ++ '_' :: ref.index.toList := by
    simp [String.toList_append]
  have parts : first = second ↔
      first.table.toList = second.table.toList ∧ first.index.toList = second.index.toList := by
    cases first
    cases second
    simp [String.toList_inj]
  rw [stored_of_global global, stored_of_global global, String.append_right_inj,
    ← String.toList_inj, joined, joined, append_mark_eq_iff, ← parts, ← overlaps_iff,
    ← overlaps_iff]
  rfl

/-- Names overlap around an underscore of the longer table and one of the other index. -/
theorem Overlaps.underscored (overlaps : longer.Overlaps shorter) :
    '_' ∈ longer.table.toList ∧ '_' ∈ shorter.index.toList := by
  obtain ⟨middle, table, index⟩ := overlaps_iff.mp overlaps
  rw [table, index]
  exact ⟨List.mem_append_right _ (List.mem_cons_self ..),
    List.mem_append_right _ (List.mem_cons_self ..)⟩

/-- What is stored in a schema is quoted in a statement: it is not a star. -/
theorem segment_stored (global : g.dialect ≠ .mysql) (ref : IndexRef) :
    Grammar.segment (ref.stored g) = .name (ref.stored g) := by
  rw [Grammar.segment, if_neg]
  intro star
  have underscored : '_' ∈ (ref.stored g).toList := by
    simp [stored_of_global global, String.toList_append]
  rw [star] at underscored
  exact absurd underscored (by decide)

end IndexRef

/-! ### Statements -/

/-- A statement that opens otherwise names no index. -/
theorem namedIndexes_eq_nil {words : String} (other : words ∉ indexOpenings ++ renameOpenings)
    (rest : List Piece) : namedIndexes (.text words :: rest) = [] := by
  rw [List.mem_append, not_or] at other
  rw [namedIndexes, if_neg other.1, if_neg other.2]

namespace Grammar

variable {g : Grammar} {t : Table} {statement : List Piece} {statements : List (List Piece)}

/-- A statement that creates or drops an index names the one that it is written for. -/
theorem namedIndexes_opening (global : g.dialect ≠ .mysql) {words : String}
    (opening : words ∈ indexOpenings) (name : String) (rest : List Piece) :
    namedIndexes (.text words :: segment (g.indexName t.name name) :: rest) =
      [(⟨t.name, name⟩ : IndexRef).stored g] := by
  have quoted := IndexRef.segment_stored global ⟨t.name, name⟩
  rw [IndexRef.stored] at quoted
  rw [namedIndexes, if_pos opening, quoted]
  rfl

theorem namedIndexes_renaming (global : g.dialect ≠ .mysql) {words : String}
    (opening : words ∈ renameOpenings) (between source target : String) :
    namedIndexes (.text words ::
        pair (g.indexName t.name source) between (g.indexName t.name target)) =
      [(⟨t.name, source⟩ : IndexRef).stored g, (⟨t.name, target⟩ : IndexRef).stored g] := by
  have first := IndexRef.segment_stored global ⟨t.name, source⟩
  have second := IndexRef.segment_stored global ⟨t.name, target⟩
  rw [IndexRef.stored] at first second
  have apart : words ∉ indexOpenings := by
    revert words
    decide
  rw [namedIndexes, if_neg apart, if_pos opening, pair, first, second]
  rfl

theorem namedIndexes_createIndex? (global : g.dialect ≠ .mysql) {index : Index}
    (created : g.createIndex? t index = some statement) :
    namedIndexes statement = [(⟨t.name, index.name⟩ : IndexRef).stored g] := by
  have plain (secondary : index.kind ≠ .primary) :
      namedIndexes (g.plainIndex t index) = [(⟨t.name, index.name⟩ : IndexRef).stored g] := by
    have opening : "CREATE " ++ Dialect.indexKeyword index.kind ++ " " ∈ indexOpenings := by
      cases kind : index.kind with
      | primary => exact absurd kind secondary
      | _ => decide
    exact namedIndexes_opening global opening index.name _
  simp only [createIndex?] at created
  split at created
  · cases created
  · split at created
    · split at created
      · cases created
      · split at created
        · cases created
          exact namedIndexes_opening global (by decide) index.name _
        · cases created
          exact plain ‹_›
    · cases created
      exact plain ‹_›

theorem namedIndexes_alterDropIndex (global : g.dialect ≠ .mysql) (name : String) :
    namedIndexes (g.alterDropIndex t name) = [(⟨t.name, name⟩ : IndexRef).stored g] := by
  rw [alterDropIndex]
  split
  · exact absurd ‹_› global
  · exact namedIndexes_opening global (by decide) name []

theorem namedIndexes_alterRenameIndex (global : g.dialect ≠ .mysql) {source target : String}
    (ready : g.alterRenameIndex t source target = .ok statements)
    (listed : statement ∈ statements) :
    namedIndexes statement =
      [(⟨t.name, source⟩ : IndexRef).stored g, (⟨t.name, target⟩ : IndexRef).stored g] := by
  rw [alterRenameIndex] at ready
  split at ready
  · cases ready
  · exact absurd ‹_› global
  all_goals
    cases ready
    rw [List.mem_singleton.mp listed]
    exact namedIndexes_renaming global (by decide) _ source target

/-- The statements of a change name the stored indexes that the change is about. -/
theorem namedIndexes_alterStatements (global : g.dialect ≠ .mysql) {change : Change}
    (about : change.indexes ≠ []) (ready : g.alterStatements t change = .ok statements)
    (listed : statement ∈ statements) :
    namedIndexes statement =
      change.indexes.map fun name => (⟨t.name, name⟩ : IndexRef).stored g := by
  cases change with
  | createIndex index =>
    cases ready
    exact namedIndexes_createIndex? global (Option.mem_toList.mp listed)
  | dropIndex name =>
    cases ready
    rw [List.mem_singleton.mp listed]
    exact namedIndexes_alterDropIndex global name
  | renameIndex source target => exact namedIndexes_alterRenameIndex global ready listed
  | _ => exact absurd rfl about

theorem namedIndexes_createTypes {columns : List Column}
    (created : statement ∈ g.dialect.createTypes columns) : namedIndexes statement = [] := by
  unfold Dialect.createTypes at created
  split at created
  · obtain ⟨column, -, rfl⟩ := List.mem_map.mp created
    apply namedIndexes_eq_nil
    intro opening
    have starts : ∀ words ∈ indexOpenings ++ renameOpenings,
        words.toList.take 2 ≠ ['D', 'O'] := by decide
    exact starts _ opening (by simp [String.toList_append])
  · cases created

theorem namedIndexes_createTable (global : g.dialect ≠ .mysql) (options : CreateOptions) :
    namedIndexes (g.createTable t options) = [] := by
  have without : g.dialect.tableOptions options = [] := by
    unfold Dialect.tableOptions
    split
    · exact absurd ‹_› global
    · rfl
  have opening : (if options.temporary then g.dialect.temporaryKeyword else "CREATE TABLE") ++ " " ∉
      indexOpenings ++ renameOpenings := by
    cases options.temporary <;> cases g.dialect <;> decide
  rw [createTable, without]
  exact namedIndexes_eq_nil opening _

theorem namedIndexes_commentStatement? {column : Column}
    (commented : g.commentStatement? column = some statement) : namedIndexes statement = [] := by
  obtain ⟨comment, -, rfl⟩ := Option.map_eq_some_iff.mp commented
  exact namedIndexes_eq_nil (by decide) _

theorem inlineIndex?_of_global (global : g.dialect ≠ .mysql) (index : Index) :
    g.inlineIndex? index = none := by
  simp only [inlineIndex?]
  split
  · exact absurd ‹_› global
  · exact absurd ‹_› global
  · rfl

/-- Of the statements that create a table, those that create its indexes name any. -/
theorem mem_namedIndexes_createStatements (global : g.dialect ≠ .mysql) (options : CreateOptions)
    (stored : String) :
    (∃ statement ∈ g.createStatements t options, stored ∈ namedIndexes statement) ↔
      ∃ index ∈ t.createdIndexes, (g.createIndex? t index).isSome ∧
        stored = (⟨t.name, index.name⟩ : IndexRef).stored g := by
  have apart : (t.createdIndexes.filter fun index => (g.inlineIndex? index).isNone) =
      t.createdIndexes :=
    List.filter_eq_self.mpr fun index _ => by rw [inlineIndex?_of_global global]; rfl
  rw [createStatements, apart]
  constructor
  · rintro ⟨statement, listed, named⟩
    have silent (none_named : namedIndexes statement = []) : False := by
      rw [none_named] at named
      cases named
    rcases List.mem_append.mp listed with front | commented
    · rcases List.mem_append.mp front with table | created
      · rcases List.mem_append.mp table with typed | alone
        · exact (silent (namedIndexes_createTypes typed)).elim
        · rw [List.mem_singleton.mp alone] at silent
          exact (silent (namedIndexes_createTable global options)).elim
      · obtain ⟨index, logged, written⟩ := List.mem_filterMap.mp created
        rw [namedIndexes_createIndex? global written] at named
        exact ⟨index, logged, by rw [written]; rfl, List.mem_singleton.mp named⟩
    · obtain ⟨column, -, written⟩ := List.mem_filterMap.mp commented
      exact (silent (namedIndexes_commentStatement? written)).elim
  · rintro ⟨index, logged, some_written, rfl⟩
    obtain ⟨statement, written⟩ := Option.isSome_iff_exists.mp some_written
    refine ⟨statement, ?_, ?_⟩
    · have created := List.mem_filterMap.mpr ⟨index, logged, written⟩
      exact List.mem_append_left _ (List.mem_append_right _ created)
    · rw [namedIndexes_createIndex? global written]
      exact List.mem_singleton_self _

end Grammar

/-- Where indexes belong to the schema, they are told apart unless their names overlap. Two of them
are stored under one name exactly if they are the same or their names overlap; a statement that
creates, drops or renames an index names the stored name of another one exactly then, whether it
changes a table or belongs to the creation of one. -/
theorem stored_indexes_shared_iff {g : Grammar} (global : g.dialect ≠ .mysql) :
    (∀ first second : IndexRef, first.stored g = second.stored g ↔ first.Shares second) ∧
      (∀ (t : Table) (change : Change) (statements : List (List Piece)), change.indexes ≠ [] →
        g.alterStatements t change = .ok statements → ∀ statement ∈ statements,
          ∀ other : IndexRef, other.stored g ∈ namedIndexes statement ↔
            ∃ name ∈ change.indexes, other.Shares ⟨t.name, name⟩) ∧
      ∀ (t : Table) (options : CreateOptions) (other : IndexRef),
        (∃ statement ∈ g.createStatements t options, other.stored g ∈ namedIndexes statement) ↔
          ∃ index ∈ t.createdIndexes, (g.createIndex? t index).isSome ∧
            other.Shares ⟨t.name, index.name⟩ := by
  refine ⟨fun first second => IndexRef.stored_eq_iff global, ?_, ?_⟩
  · intro t change statements about ready statement listed other
    rw [Grammar.namedIndexes_alterStatements global about ready listed, List.mem_map]
    apply exists_congr
    intro name
    rw [eq_comm, IndexRef.stored_eq_iff global]
  · intro t options other
    rw [Grammar.mem_namedIndexes_createStatements global options]
    simp only [IndexRef.stored_eq_iff global]

/-- On Postgres, dropping one index of `user` names one of `user_roles`, and dropping another one
does not. -/
theorem stored_indexes_shared_roles :
    let g : Grammar := ⟨.postgres, "p_"⟩
    let roles : IndexRef := ⟨"user_roles", "name"⟩
    roles.stored g ∈ namedIndexes (g.alterDropIndex { name := "user" } "roles_name") ∧
      roles.stored g ∉ namedIndexes (g.alterDropIndex { name := "user" } "name") := by
  intro g roles
  obtain ⟨-, altered, -⟩ := stored_indexes_shared_iff (g := g) (by decide)
  have dropped (name : String) := altered { name := "user" } (.dropIndex name)
    [g.alterDropIndex { name := "user" } name] (List.cons_ne_nil name []) rfl _
    (List.mem_singleton_self _) roles
  have longer : roles.Overlaps ⟨"user", "roles_name"⟩ := ⟨"roles", rfl, rfl⟩
  refine ⟨(dropped "roles_name").mpr ⟨"roles_name", List.mem_singleton_self _, .inr (.inl longer)⟩,
    fun named => ?_⟩
  obtain ⟨name, only, shared⟩ := (dropped "name").mp named
  rw [List.mem_singleton.mp only] at shared
  rcases shared with same | overlaps | overlaps
  · exact absurd (congrArg IndexRef.table same) (by decide)
  · exact absurd overlaps.underscored.2 (by decide)
  · exact absurd overlaps.underscored.1 (by decide)

/-- Two different indexes are stored under one name, and one statement drops either. -/
theorem other_index_dropped :
    let g : Grammar := ⟨.postgres, ""⟩
    (⟨"user", "roles_name"⟩ : IndexRef) ≠ ⟨"user_roles", "name"⟩ ∧
      (⟨"user", "roles_name"⟩ : IndexRef).stored g = (⟨"user_roles", "name"⟩ : IndexRef).stored g ∧
      render g.dialect (g.alterDropIndex { name := "user" } "roles_name") =
        "DROP INDEX \"user_roles_name\"" ∧
      render g.dialect (g.alterDropIndex { name := "user_roles" } "name") =
        "DROP INDEX \"user_roles_name\"" := by
  decide +kernel

end Sqlwright
