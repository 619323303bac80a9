import Sqlwright.Table.Build

/-!
What calls do to a blueprint does not depend on its log. A structural call performed behind a longer
log records what it would record behind the shorter one and changes the rest of the blueprint
alike, so calls may be performed in one batch or behind a log that was taken away.
-/

namespace Sqlwright

theorem modify_append_right {α : Type} (front back : List α) (i : Nat) (f : α → α) :
    (front ++ back).modify (front.length + i) f = front ++ back.modify i f := by
  induction front with
  | nil => simp
  | cons entry rest ih =>
    have shift : (entry :: rest).length + i = rest.length + i + 1 := by
      rw [List.length_cons]
      omega
    rw [shift, List.cons_append, List.modify_succ_cons, ih, List.cons_append]

/-- The handle of a column behind a log that is longer by `count` commands. -/
def ColumnHandle.behind (handle : ColumnHandle) (count : Nat) : ColumnHandle :=
  { handle with command := count + handle.command }

namespace Table

/-- The blueprint with more commands in front of its log. -/
def prepend (log : List Command) (t : Table) : Table := { t with commands := log ++ t.commands }

theorem withoutCommands_prepend (t : Table) : t.withoutCommands.prepend t.commands = t := by
  simp [prepend, withoutCommands]

/-- A step that does the same behind a longer log and leaves the name of the table alone. -/
structure Records (step : Table → Table) : Prop where
  prepend (log : List Command) (t : Table) : step (t.prepend log) = (step t).prepend log
  name (t : Table) : (step t).name = t.name

theorem Records.comp {first second : Table → Table} (one : Records first)
    (other : Records second) : Records fun t => second (first t) where
  prepend log t := by rw [one.prepend, other.prepend]
  name t := by rw [other.name, one.name]

theorem Records.foldl {α : Type} {step : Table → α → Table} {items : List α}
    (each : ∀ item ∈ items, Records fun t => step t item) :
    Records fun t => items.foldl step t := by
  induction items with
  | nil => exact ⟨fun _ _ => rfl, fun _ => rfl⟩
  | cons item rest ih =>
    obtain ⟨first, others⟩ := List.forall_mem_cons.mp each
    have later := ih others
    constructor
    · intro log t
      have head : step (t.prepend log) item = (step t item).prepend log := first.prepend log t
      rw [List.foldl_cons, head]
      exact later.prepend log (step t item)
    · intro t
      exact (later.name (step t item)).trans (first.name t)

/-! ### Structural changes -/

theorem record_prepend (t : Table) (log : List Command) (change : Change) :
    (t.prepend log).record change = (t.record change).prepend log := by
  simp [record, prepend]

theorem record_records (change : Change) : Records fun t => t.record change :=
  ⟨fun log t => t.record_prepend log change, fun _ => rfl⟩

theorem reindex_records : Records reindex := ⟨fun _ _ => rfl, fun _ => rfl⟩

theorem flagColumns_records (names : List String) (primary : Bool) :
    Records fun t => t.flagColumns names primary :=
  .foldl fun _ _ => ⟨fun _ _ => rfl, fun _ => rfl⟩

theorem renameColumn_records (source target : String) :
    Records fun t => t.renameColumn source target := by
  constructor
  · intro log t
    have known : ((t.record (.renameColumn source target)).prepend log).hasColumns [source] =
        (t.record (.renameColumn source target)).hasColumns [source] := rfl
    simp only [renameColumn, record_prepend, known]
    split <;> rfl
  · intro t
    simp only [renameColumn]
    split <;> rfl

theorem dropColumn_records (name : String) : Records fun t => t.dropColumn name :=
  ⟨fun log t => by simp [dropColumn, Table.prepend, record], fun _ => rfl⟩

theorem dropColumns_records (names : List String) : Records fun t => t.dropColumns names :=
  .comp (.foldl fun name _ => dropColumn_records name) reindex_records

theorem putIndex_records (index : Index) : Records fun t => t.putIndex index := by
  constructor
  · intro log t
    have held : (t.prepend log).indexLookup = t.indexLookup := rfl
    unfold putIndex
    rw [held]
    cases Keyed.find? index.name t.indexLookup <;> rfl
  · intro t
    unfold putIndex
    cases Keyed.find? index.name t.indexLookup <;> rfl

theorem createIndex_records (kind : IndexKind) (name : String) (columns : List String) :
    Records fun t => t.createIndex kind name columns := by
  have created (index : Index) : Records fun t => (t.putIndex index).record (.createIndex index) :=
    (putIndex_records index).comp (record_records (.createIndex index))
  exact ⟨fun log t => (created _).prepend log t, fun t => (created _).name t⟩

theorem dropIndex_records (name : String) : Records fun t => t.dropIndex name :=
  ⟨fun log t => by simp [dropIndex, Table.prepend, record], fun _ => rfl⟩

theorem dropIndexes_records (names : List String) : Records fun t => t.dropIndexes names :=
  .comp (.foldl fun name _ => dropIndex_records name) reindex_records

theorem renameIndex_records (source target : String) :
    Records fun t => t.renameIndex source target := by
  constructor
  · intro log t
    have known : ((t.record (.renameIndex source target)).prepend log).hasIndexes [source] =
        (t.record (.renameIndex source target)).hasIndexes [source] := rfl
    simp only [renameIndex, record_prepend, known]
    split <;> rfl
  · intro t
    simp only [renameIndex]
    split <;> rfl

theorem createPrimary_records (columns : List String) :
    Records fun t => t.createPrimary columns := by
  have flagged := flagColumns_records columns true
  constructor
  · intro log t
    simp only [createPrimary, flagged.prepend]
    simp [Table.prepend, record]
  · exact flagged.name

theorem dropPrimary_records : Records dropPrimary := by
  constructor
  · intro log t
    have kept : (t.prepend log).primary = t.primary := rfl
    unfold dropPrimary
    rw [kept]
    cases t.primary with
    | none => exact t.record_prepend log _
    | some key =>
      simp only [(flagColumns_records key.columns false).prepend]
      simp [Table.prepend, record]
  · intro t
    unfold dropPrimary
    cases t.primary with
    | none => rfl
    | some key => exact (flagColumns_records key.columns false).name t

/-! ### Columns and their modifiers -/

theorem putColumn_records (column : Column) : Records fun t => t.putColumn column := by
  constructor
  · intro log t
    have held : (t.prepend log).columnLookup = t.columnLookup := rfl
    unfold putColumn
    rw [held]
    cases Keyed.find? column.name t.columnLookup <;> rfl
  · intro t
    unfold putColumn
    cases Keyed.find? column.name t.columnLookup <;> rfl

/-- A column that is put and recorded behind a log has its handle behind it too. -/
theorem define_prepend (t : Table) (log : List Command) (column : Column) (change : Change) :
    (((t.prepend log).putColumn column).record change,
        (⟨column.name, (t.prepend log).commands.length⟩ : ColumnHandle)) =
      (((t.putColumn column).record change).prepend log,
        (⟨column.name, t.commands.length⟩ : ColumnHandle).behind log.length) := by
  rw [(putColumn_records column).prepend, record_prepend]
  simp [prepend, ColumnHandle.behind]

theorem addColumn_prepend (log : List Command) (t : Table) (column : Column) :
    (t.prepend log).addColumn column =
      ((t.addColumn column).1.prepend log, (t.addColumn column).2.behind log.length) :=
  t.define_prepend log column _

theorem changeColumn_prepend (log : List Command) (t : Table) (column : Column) :
    (t.prepend log).changeColumn column =
      ((t.changeColumn column).1.prepend log, (t.changeColumn column).2.behind log.length) :=
  t.define_prepend log column _

theorem extend_records (name : String) (modifier : Modifier) :
    Records (modifier.extend name) := by
  cases modifier with
  | primary => exact createPrimary_records [name]
  | unique => exact createIndex_records .unique name [name]
  | index => exact createIndex_records .plain name [name]
  | _ => exact ⟨fun _ _ => rfl, fun _ => rfl⟩

theorem modify_prepend (log : List Command) (t : Table) (handle : ColumnHandle)
    (modifier : Modifier) :
    (t.prepend log).modify (handle.behind log.length) modifier =
      (t.modify handle modifier).prepend log := by
  have extended : modifier.extend (handle.behind log.length).column (t.prepend log) =
      (modifier.extend handle.column t).prepend log :=
    (extend_records handle.column modifier).prepend log t
  rw [modify, extended]
  simp [modify, adjust, prepend, editColumn, ColumnHandle.behind, modify_append_right]

theorem modify_name (t : Table) (handle : ColumnHandle) (modifier : Modifier) :
    (t.modify handle modifier).name = t.name :=
  (extend_records handle.column modifier).name t

end Table

/-! ### Calls -/

theorem ColumnCall.run_records (call : ColumnCall) : Table.Records call.run := by
  constructor
  · intro log t
    have defined : call.define (t.prepend log) =
        ((call.define t).1.prepend log, (call.define t).2.behind log.length) := by
      unfold define
      split
      · exact t.changeColumn_prepend log call.column
      · exact t.addColumn_prepend log call.column
    have modified (modifiers : List Modifier) (t : Table) (handle : ColumnHandle) :
        modifiers.foldl (fun t modifier => t.modify (handle.behind log.length) modifier)
            (t.prepend log) =
          (modifiers.foldl (fun t modifier => t.modify handle modifier) t).prepend log := by
      induction modifiers generalizing t with
      | nil => rfl
      | cons modifier rest ih => rw [List.foldl_cons, Table.modify_prepend, ih, List.foldl_cons]
    rw [run, defined]
    exact modified call.modifiers (call.define t).1 (call.define t).2
  · intro t
    have defined : (call.define t).1.name = t.name := by
      unfold define
      split <;> exact (Table.putColumn_records call.column).name t
    have modified (modifiers : List Modifier) (t : Table) (handle : ColumnHandle) :
        (modifiers.foldl (fun t modifier => t.modify handle modifier) t).name = t.name := by
      induction modifiers generalizing t with
      | nil => rfl
      | cons modifier rest ih => rw [List.foldl_cons, ih, Table.modify_name]
    exact (modified call.modifiers (call.define t).1 (call.define t).2).trans defined

namespace TableCall

/-- Calls that change the blueprint; telling a watcher does not. -/
def IsStructural : TableCall → Prop
  | .watch _ => False
  | _ => True

theorem run_records {call : TableCall} (structural : call.IsStructural) :
    Table.Records call.run := by
  cases call with
  | column call => exact call.run_records
  | timestamps => exact .foldl fun call _ => call.run_records
  | renameColumn source target => exact Table.renameColumn_records source target
  | dropColumns names => exact Table.dropColumns_records names
  | createIndex kind name columns => exact Table.createIndex_records kind name columns
  | dropIndexes names => exact Table.dropIndexes_records names
  | renameIndex source target => exact Table.renameIndex_records source target
  | createPrimary columns => exact Table.createPrimary_records columns
  | dropPrimary => exact Table.dropPrimary_records
  | watch label => exact structural.elim

theorem runAll_records {calls : List TableCall}
    (structural : ∀ call ∈ calls, call.IsStructural) : Table.Records (runAll calls) :=
  .foldl fun call member => run_records (structural call member)

/-- Calls performed behind a log leave it in front of what they record without it. -/
theorem runAll_eq_prepend {calls : List TableCall}
    (structural : ∀ call ∈ calls, call.IsStructural) (t : Table) :
    runAll calls t = (runAll calls t.withoutCommands).prepend t.commands := by
  rw [← (runAll_records structural).prepend, Table.withoutCommands_prepend]

theorem runAll_append (first second : List TableCall) (t : Table) :
    runAll (first ++ second) t = runAll second (runAll first t) :=
  List.foldl_append

end TableCall

end Sqlwright
