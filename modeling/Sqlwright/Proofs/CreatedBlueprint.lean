import Sqlwright.Proofs.CreationLog

/-!
Creating a table against its blueprint. The statements are made from the log, which has every
column as it was defined first and every index that was ever created, while the blueprint has the
last of each; the two agree as long as nothing that is written changes.
-/

namespace Sqlwright

namespace Grammar

/-- Columns that are defined again are written as they were at first. -/
def WritesAlike (g : Grammar) (columns : List Column) : Prop :=
  ∀ name first last, Named.first? Column.name name columns = some first →
    Named.last? Column.name name columns = some last → g.columnPart first = g.columnPart last

/-- Of an index that is created again, nothing is created before the last time. -/
def CreatesOnce (g : Grammar) (t : Table) (indexes : List Index) : Prop :=
  indexes.Pairwise fun earlier later =>
    earlier.name = later.name → g.indexPart? t earlier = none

variable {g : Grammar} {columns : List Column} {indexes : List Index} {t : Table}

theorem columnParts_iff (g : Grammar) (drafted : t.Drafted columns indexes) :
    (g.creation t).columns = t.columns.map g.columnPart ↔ g.WritesAlike columns := by
  have written (cs : List Column) :
      cs.map g.columnPart = (cs.map Column.written).map g.columnPart := by
    rw [List.map_map]
    exact List.map_congr_left fun c _ => (g.columnPart_written c).symm
  have aligned :
      (t.addedColumns.map Column.written).map Column.name = t.written.map Column.name := by
    rw [Table.written_names, ← drafted.names, List.map_map]
    rfl
  have log : (g.creation t).columns = t.addedColumns.map g.columnPart := rfl
  rw [log, written, written t.columns]
  exact Named.map_eq_map_iff drafted.firsts drafted.lasts aligned g.columnPart

theorem indexParts_iff (g : Grammar) (drafted : t.Drafted columns indexes) :
    (g.creation t).indexes.Perm (t.indexes.filterMap (g.indexPart? t)) ↔
      g.CreatesOnce t indexes := by
  have log : (g.creation t).indexes = indexes.filterMap (g.indexPart? t) := by
    rw [creation, drafted.created]
  rw [log]
  exact drafted.indexLasts.filterMap_perm_iff (g.indexPart? t)

/-- The key of the blueprint is declared once its columns are. -/
theorem declares (drafted : t.Drafted columns indexes)
    (parts : (g.creation t).columns = t.columns.map g.columnPart) :
    (g.creation t).Declares t.primary := by
  have log : (g.creation t).key = t.primary.bind (g.tablePrimary? t) := by
    rw [creation, drafted.key]
  cases held : t.primary with
  | none => exact log.trans (by rw [held]; rfl)
  | some key =>
    rw [held, Option.bind_some] at log
    unfold tablePrimary? at log
    split at log
    · next only dialect single =>
      split at log
      · next counting =>
        cases found : t.column? only with
        | none =>
          rw [found] at counting
          cases counting
        | some column =>
          obtain ⟨member, named⟩ := drafted.indexed.columns.of_find? found
          have counts : column.autoIncrement := by simpa [found] using counting
          refine .inr ⟨log, only, g.columnPart column, single, ?_, ?_⟩
          · rw [parts]
            exact List.mem_map_of_mem member
          · rw [← named]
            exact g.columnPart_counting dialect counts
      · exact .inl log
    · exact .inl log

end Grammar

namespace TableCall

/-- No creating call creates a key as an index. -/
theorem creations_kind {calls : List TableCall} (creating : ∀ call ∈ calls, call.IsCreating)
    (table : String) : ∀ index ∈ calls.flatMap (creations table), index.kind ≠ .primary := by
  intro index member
  obtain ⟨call, inside, created⟩ := List.mem_flatMap.mp member
  have creates := creating call inside
  cases call with
  | column call =>
    obtain ⟨modifier, -, adds⟩ := List.mem_filterMap.mp created
    cases modifier <;> cases adds <;> simp
  | createIndex kind name columns =>
    obtain rfl := List.mem_singleton.mp created
    exact creates
  | _ => cases created

end TableCall

/-- The statements that create a table are those of the parts in its log. For a table built by
definitions, indexes and keys alone they create the blueprint exactly if every column is written as
it was defined first, and every index that is created again yields nothing the first time. -/
theorem creates_blueprint_iff (g : Grammar) (name : String) {calls : List TableCall}
    (creating : ∀ call ∈ calls, call.IsCreating) :
    let t := TableCall.runAll calls { name }
    let columns := (calls.flatMap TableCall.definitions).map (ColumnCall.finished name)
    let indexes := calls.flatMap (TableCall.creations name)
    (∀ options, g.createStatements t options = (g.creation t).statements g t.name options) ∧
      (g.CreatesBlueprint t ↔ g.WritesAlike columns ∧ g.CreatesOnce t indexes) := by
  intro t columns indexes
  have drafted : t.Drafted columns indexes := (Table.Drafted.empty name).runAll creating
  refine ⟨g.createStatements_eq t, fun creates => ?_, fun ⟨alike, once⟩ => ?_⟩
  · exact ⟨(g.columnParts_iff drafted).mp creates.columns,
      (g.indexParts_iff drafted).mp creates.indexes⟩
  · have parts := (g.columnParts_iff drafted).mpr alike
    refine ⟨parts, (g.indexParts_iff drafted).mpr once, fun index member out => ?_,
      Grammar.declares drafted parts⟩
    have created := (Named.last?_eq_some (drafted.indexLasts.picked index member)).1
    exact g.indexPart?_eq_none (TableCall.creations_kind creating name index created) out

/-- A column defined once more as it was, and an index created once more, first on JSON. -/
def indexedAgain : List TableCall :=
  [.column (.typed .integer "id"), .column (.typed .json "data"), .column (.typed .json "data"),
   .createIndex .plain "i" ["data"], .createIndex .unique "i" ["id"]]

/-- On Postgres this creates the blueprint, since no index is created on JSON; on MySQL both indexes
are created. -/
theorem creates_blueprint_indexed_again :
    let t := TableCall.runAll indexedAgain { name := "t" }
    Grammar.CreatesBlueprint { dialect := .postgres } t ∧
      ¬ Grammar.CreatesBlueprint { dialect := .mysql } t := by
  intro t
  have creating : ∀ call ∈ indexedAgain, call.IsCreating := by
    simp [indexedAgain, TableCall.IsCreating, ColumnCall.typed]
  let first : Index := { name := "i", tableName := "t", kind := .plain, columns := ["data"] }
  let second : Index := { name := "i", tableName := "t", kind := .unique, columns := ["id"] }
  have created : indexedAgain.flatMap (TableCall.creations "t") = [first, second] := rfl
  refine ⟨(creates_blueprint_iff _ "t" creating).2.mpr ⟨?_, ?_⟩, fun creates => ?_⟩
  · intro name a b first? last?
    have listed (c : Column)
        (member : c ∈ (indexedAgain.flatMap TableCall.definitions).map (ColumnCall.finished "t")) :
        c = (ColumnCall.typed .integer "id").finished "t" ∨
          c = (ColumnCall.typed .json "data").finished "t" := by
      simpa [indexedAgain, TableCall.definitions] using member
    obtain ⟨inside, named⟩ := Named.first?_eq_some first?
    obtain ⟨inside', named'⟩ := Named.last?_eq_some last?
    rcases listed a inside with rfl | rfl <;> rcases listed b inside' with rfl | rfl
    · rfl
    · exact absurd (named.trans named'.symm) (by decide)
    · exact absurd (named.trans named'.symm) (by decide)
    · rfl
  · have json : Grammar.indexPart? { dialect := .postgres } t first = none := rfl
    rw [created]
    exact List.pairwise_pair.mpr fun _ => json
  · obtain ⟨-, once⟩ := (creates_blueprint_iff _ "t" creating).2.mp creates
    rw [created] at once
    have skipped : Grammar.indexPart? { dialect := .mysql } t first = none :=
      List.pairwise_pair.mp once rfl
    cases skipped

/-- A column that becomes a counting key when it is defined again, with an index that is created
again. -/
def definedAgain : List TableCall :=
  [.column (.typed .text "id"), .column (.id "id"), .createIndex .plain "i" ["id"],
   .createIndex .unique "i" ["id"]]

/-- On SQLite the key is lost with the second definition of its column, and MySQL creates both
indexes. -/
theorem second_definition_lost :
    let t := TableCall.runAll definedAgain { name := "t" }
    ¬ (Grammar.creation { dialect := .sqlite } t).Declares t.primary ∧
      ¬ Grammar.CreatesBlueprint { dialect := .sqlite } t ∧
      ¬ Grammar.CreatesBlueprint { dialect := .mysql } t := by
  intro t
  have undeclared : ¬ (Grammar.creation { dialect := .sqlite } t).Declares t.primary := by
    have key : t.primary = some { tableName := "t", columns := ["id"] } := rfl
    have clause : (Grammar.creation { dialect := .sqlite } t).key = none := rfl
    have columns : (Grammar.creation { dialect := .sqlite } t).columns.map
        (fun part => part.definition.length) = [5] := rfl
    rw [key]
    rintro (declared | ⟨-, only, part, -, member, counting⟩)
    · rw [clause] at declared
      cases declared
    · have length : part.definition.length ∈ [5] := columns ▸ List.mem_map_of_mem member
      rw [counting] at length
      exact absurd length (by simp [countingKey])
  refine ⟨undeclared, fun creates => undeclared creates.key, fun creates => ?_⟩
  have twice : (Grammar.creation { dialect := .mysql } t).indexes.length = 2 := rfl
  have once : (t.indexes.filterMap (Grammar.indexPart? { dialect := .mysql } t)).length = 1 := rfl
  have same := creates.indexes.length_eq
  rw [twice, once] at same
  cases same

end Sqlwright
