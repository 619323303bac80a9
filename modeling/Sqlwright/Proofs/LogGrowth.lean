import Sqlwright.Proofs.LogPrepending

/-!
How logs grow. Whatever is not the definition of a column leaves the name and the log of a blueprint
in place and records behind it, and what a catalog lists records nothing.
-/

namespace Sqlwright

namespace Table

section Catalog

variable {P : Table → Prop} {t listed : Table}

theorem listIndex_keeps (put : ∀ t index, P t → P (t.putIndex index))
    (key : ∀ t primary, P t → P { t with primary }) {index : Index} (holds : P t)
    (found : t.listIndex index = .ok listed) : P listed := by
  unfold listIndex at found
  split at found
  · cases found
  · split at found
    · cases found
      exact key t _ holds
    · cases found
      exact put t index holds

theorem listIndexes_keeps (put : ∀ t index, P t → P (t.putIndex index))
    (key : ∀ t primary, P t → P { t with primary }) {indexes : List Index} (holds : P t)
    (found : indexes.foldlM listIndex t = .ok listed) : P listed := by
  induction indexes generalizing t with
  | nil =>
    cases found
    exact holds
  | cons index rest ih =>
    rw [List.foldlM_cons] at found
    cases first : t.listIndex index with
    | error fault =>
      rw [first] at found
      cases found
    | ok next =>
      rw [first] at found
      exact ih (listIndex_keeps put key holds first) found

/-- What holds of the blueprint with the listed columns, and is kept by what a catalog does to it
afterwards, holds of the blueprint of the catalog: indexes are put or make the key, and the columns
of the key are flagged. -/
theorem ofCatalog_keeps_listed {name : String} {schema : Option String} {columns : List Column}
    (pushed : P (columns.foldl pushColumn { name, schema }))
    (put : ∀ t index, P t → P (t.putIndex index)) (key : ∀ t primary, P t → P { t with primary })
    (flag : ∀ t names, P t → P (t.flagColumns names true)) {indexes : List Index}
    (found : ofCatalog name schema columns indexes = .ok t) : P t := by
  unfold ofCatalog at found
  cases all : indexes.foldlM listIndex (columns.foldl pushColumn { name, schema }) with
  | error fault =>
    rw [all] at found
    cases found
  | ok listed =>
    rw [all] at found
    cases found
    exact key _ _ (flag listed _ (listIndexes_keeps put key pushed all))

/-- What holds of an empty blueprint, and is kept by what a catalog does to one, holds of the
blueprint of the catalog. -/
theorem ofCatalog_keeps {name : String} {schema : Option String} (empty : P { name, schema })
    (push : ∀ t column, P t → P (t.pushColumn column))
    (put : ∀ t index, P t → P (t.putIndex index)) (key : ∀ t primary, P t → P { t with primary })
    (flag : ∀ t names, P t → P (t.flagColumns names true)) {columns : List Column}
    {indexes : List Index} (found : ofCatalog name schema columns indexes = .ok t) : P t := by
  have pushed : P (columns.foldl pushColumn { name, schema }) :=
    List.foldlRecOn columns pushColumn empty fun t holds column _ => push t column holds
  exact ofCatalog_keeps_listed pushed put key flag found

end Catalog

/-- A blueprint that records more than another one, but no columns. -/
structure Extended (before after : Table) : Prop where
  name : after.name = before.name
  commands : ∃ more, after.commands = before.commands ++ more ∧
    ∀ command ∈ more, command.change.column? = none

namespace Extended

variable {t middle after : Table}

theorem of_eq (name : after.name = t.name) (commands : after.commands = t.commands) :
    Extended t after :=
  ⟨name, [], by rw [commands, List.append_nil], List.forall_mem_nil _⟩

theorem of_recorded {change : Change} (name : after.name = t.name)
    (commands : after.commands = t.commands ++ [⟨change, none⟩]) (other : change.column? = none) :
    Extended t after :=
  ⟨name, [⟨change, none⟩], commands, List.forall_mem_singleton.mpr other⟩

theorem trans (first : Extended t middle) (second : Extended middle after) : Extended t after := by
  obtain ⟨name, more, commands, others⟩ := first
  obtain ⟨name', more', commands', others'⟩ := second
  refine ⟨name'.trans name, more ++ more', ?_, List.forall_mem_append.mpr ⟨others, others'⟩⟩
  rw [commands', commands, List.append_assoc]

theorem foldl {α : Type} {step : Table → α → Table} (each : ∀ t item, Extended t (step t item))
    (items : List α) (t : Table) : Extended t (items.foldl step t) :=
  List.foldlRecOn items step (.of_eq rfl rfl) fun so_far grown item _ =>
    grown.trans (each so_far item)

theorem flagColumns (t : Table) (names : List String) (primary : Bool) :
    Extended t (t.flagColumns names primary) := by
  have flag (t : Table) (name : String) :
      Extended t (t.editColumn name fun c => { c with primary }) := .of_eq rfl rfl
  exact foldl flag names t

theorem putColumn (t : Table) (column : Column) : Extended t (t.putColumn column) := by
  unfold Table.putColumn
  cases Keyed.find? column.name t.columnLookup <;> exact .of_eq rfl rfl

theorem putIndex (t : Table) (index : Index) : Extended t (t.putIndex index) := by
  unfold Table.putIndex
  cases Keyed.find? index.name t.indexLookup <;> exact .of_eq rfl rfl

theorem createIndex (t : Table) (kind : IndexKind) (name : String) (columns : List String) :
    Extended t (t.createIndex kind name columns) :=
  (putIndex t _).trans (.of_recorded rfl rfl rfl)

theorem renameColumn (t : Table) (source target : String) :
    Extended t (t.renameColumn source target) := by
  simp only [Table.renameColumn]
  split <;> exact .of_recorded rfl rfl rfl

theorem dropColumns (t : Table) (names : List String) : Extended t (t.dropColumns names) := by
  have drop (t : Table) (name : String) : Extended t (t.dropColumn name) :=
    .of_recorded rfl rfl rfl
  exact (foldl drop names t).trans (.of_eq rfl rfl)

theorem dropIndexes (t : Table) (names : List String) : Extended t (t.dropIndexes names) := by
  have drop (t : Table) (name : String) : Extended t (t.dropIndex name) :=
    .of_recorded rfl rfl rfl
  exact (foldl drop names t).trans (.of_eq rfl rfl)

theorem renameIndex (t : Table) (source target : String) :
    Extended t (t.renameIndex source target) := by
  simp only [Table.renameIndex]
  split <;> exact .of_recorded rfl rfl rfl

theorem createPrimary (t : Table) (columns : List String) :
    Extended t (t.createPrimary columns) :=
  (flagColumns t columns true).trans (.of_recorded rfl rfl rfl)

theorem dropPrimary (t : Table) : Extended t t.dropPrimary := by
  unfold Table.dropPrimary
  cases t.primary with
  | none => exact .of_recorded rfl rfl rfl
  | some key => exact (flagColumns t key.columns false).trans (.of_recorded rfl rfl rfl)

theorem extend (t : Table) (name : String) (modifier : Modifier) :
    Extended t (modifier.extend name t) := by
  cases modifier with
  | primary => exact createPrimary t [name]
  | unique => exact createIndex t .unique name [name]
  | index => exact createIndex t .plain name [name]
  | _ => exact .of_eq rfl rfl

/-- The blueprint of a listed table is called by its name, and its log is empty. -/
theorem ofCatalog {name : String} {schema : Option String} {columns : List Column}
    {indexes : List Index} (found : Table.ofCatalog name schema columns indexes = .ok t) :
    Extended { name, schema } t := by
  refine ofCatalog_keeps (.of_eq rfl rfl) ?_ ?_ ?_ ?_ found
  · intro t column grown
    exact grown.trans (.of_eq rfl rfl)
  · intro t index grown
    exact grown.trans (putIndex t index)
  · intro t primary grown
    exact grown.trans (.of_eq rfl rfl)
  · intro t names grown
    exact grown.trans (flagColumns t names true)

end Extended

end Table

end Sqlwright
