import Sqlwright.Proofs.ColumnPlaces

/-!
The two copies of a definition. A column that is defined stands in the blueprint and in the command
that records it, and modifiers change both: the one under its name, the other under its number. The
copies part in one way only. A column that is changed before it is there is appended at a position
of its own, but its command keeps the one that was given.
-/

namespace Sqlwright

/-- The column that the command of a number defines. -/
def Table.recorded? (t : Table) (number : Nat) : Option Column :=
  t.commands[number]?.bind fun command => command.change.column?

/-! ### Edits -/

theorem Change.adjust_column? (change : Change) (edit : Column → Column) :
    (change.adjust edit).column? = change.column?.map edit := by
  cases change <;> rfl

theorem Modifier.editAll_position (modifiers : List Modifier) (c : Column) :
    (editAll modifiers c).position = c.position := by
  induction modifiers generalizing c with
  | nil => rfl
  | cons modifier rest ih =>
    have first : (modifier.edit c).position = c.position := by cases modifier <;> rfl
    exact (ih (modifier.edit c)).trans first

/-- No modifier looks at the position. -/
theorem Modifier.editAll_moved (modifiers : List Modifier) (c : Column) (position : Nat) :
    editAll modifiers { c with position } = { editAll modifiers c with position } := by
  induction modifiers generalizing c with
  | nil => rfl
  | cons modifier rest ih =>
    have first : modifier.edit { c with position } = { modifier.edit c with position } := by
      cases modifier <;> rfl
    exact (congrArg (editAll rest) first).trans (ih (modifier.edit c))

namespace Table

variable {t : Table} {handle : ColumnHandle}

/-! ### The copy in the blueprint -/

theorem editColumn_column? (t : Table) (name : String) (edit : Column → Column) :
    (t.editColumn name edit).column? name = (t.column? name).map edit := by
  unfold column? editColumn Named.find?
  cases found : Keyed.find? name t.columnLookup with
  | none => rfl
  | some i =>
    have updated := Named.getElem?_update t.columnLookup name edit t.columns i
    simpa only [Option.bind_some, found, if_true] using updated

/-- What a modifier adds to the table leaves the column to the edit of that modifier. -/
theorem extend_column? (t : Table) (name : String) (modifier : Modifier) :
    ((modifier.extend name t).column? name).map modifier.edit =
      (t.column? name).map modifier.edit := by
  have created (kind : IndexKind) : (t.createIndex kind name [name]).column? name =
      t.column? name := by
    obtain ⟨_, _, created⟩ := t.createIndex_eq kind name [name]
    rw [created]
    rfl
  cases modifier with
  | primary =>
    -- the key flags the column, and the modifier flags it once more
    have flagged : (t.createPrimary [name]).column? name =
        (t.column? name).map fun c => { c with primary := true } :=
      t.editColumn_column? name _
    rw [Modifier.extend, flagged, Option.map_map]
    rfl
  | unique => exact congrArg _ (created .unique)
  | index => exact congrArg _ (created .plain)
  | _ => rfl

theorem modify_column? (t : Table) (handle : ColumnHandle) (modifier : Modifier) :
    (t.modify handle modifier).column? handle.column =
      (t.column? handle.column).map modifier.edit := by
  have edited := (modifier.extend handle.column t).editColumn_column? handle.column modifier.edit
  exact edited.trans (t.extend_column? handle.column modifier)

theorem modifyAll_column? (t : Table) (handle : ColumnHandle) (modifiers : List Modifier) :
    (modifiers.foldl (fun t modifier => t.modify handle modifier) t).column? handle.column =
      (t.column? handle.column).map (Modifier.editAll modifiers) := by
  induction modifiers generalizing t with
  | nil => exact (congrFun Option.map_id (t.column? handle.column)).symm
  | cons modifier rest ih =>
    rw [List.foldl_cons, ih, modify_column?, Option.map_map]
    rfl

/-- A column that is put is the one of its name. -/
theorem putColumn_column? (indexed : t.Indexed) (column : Column) :
    (t.putColumn column).column? column.name = some (t.placed column) := by
  have led : Keyed.find? column.name (t.putColumn column).columnLookup =
      some (t.placeOf column.name) := by rw [putColumn_find?, if_pos rfl]
  rw [column?, Named.find?, led, Option.bind_some, putColumn_getElem? indexed, if_pos rfl]

/-! ### The copy in the log -/

theorem modifyAll_recorded? {told : Column} (held : t.recorded? handle.command = some told)
    (modifiers : List Modifier) :
    (modifiers.foldl (fun t modifier => t.modify handle modifier) t).recorded? handle.command =
      some (Modifier.editAll modifiers told) := by
  obtain ⟨command, there, defines⟩ := Option.bind_eq_some_iff.mp held
  rw [recorded?, modifyAll_command there, Option.bind_some, Change.adjust_column?, defines,
    Option.map_some]

/-- The positions of the two copies agree unless a column is changed that is not there. -/
def SamePosition (t : Table) (call : ColumnCall) : Prop :=
  call.redefine → call.column.name ∉ t.columnNames → call.column.position ≠ 0

theorem placed_of_absent (indexed : t.Indexed) {column : Column}
    (absent : column.name ∉ t.columnNames) : t.placed column = t.appended column := by
  have unknown : t.column? column.name = none := by
    rw [column?, Named.find?, (indexed.find?_eq_none_iff column.name).mpr absent, Option.bind_none]
  rw [placed, unknown]

/-- A definition puts the column and records it as it is put, but for the position. -/
theorem define_copies (indexed : t.Indexed) (call : ColumnCall) :
    ∃ told, (call.define t).1.recorded? t.commands.length = some told ∧
      told = { t.placed call.column with position := told.position } ∧
      (told.position = (t.placed call.column).position ↔ t.SamePosition call) := by
  have recorded {change : Change} {told : Column} (defines : change.column? = some told) :
      ((t.putColumn call.column).record change).recorded? t.commands.length = some told := by
    rw [recorded?, putColumn_record_commands, List.getElem?_concat_length, Option.bind_some,
      defines]
  have known := indexed.hasColumns_singleton call.column.name
  cases redefine : call.redefine with
  | false =>
    refine ⟨t.placed call.column, ?_, rfl, iff_of_true rfl fun redefined => ?_⟩
    · rw [ColumnCall.define, redefine]
      refine recorded ?_
      split <;> rfl
    · rw [redefine] at redefined
      cases redefined
  | true =>
    by_cases there : call.column.name ∈ t.columnNames
    · refine ⟨t.placed call.column, ?_, rfl, iff_of_true rfl fun _ absent => absurd there absent⟩
      rw [ColumnCall.define, redefine]
      exact recorded (congrArg some (if_pos (known.mpr there)))
    · refine ⟨{ call.column with tableName := t.name }, ?_, ?_, ?_⟩
      · rw [ColumnCall.define, redefine]
        exact recorded (congrArg some (if_neg fun held => there (known.mp held)))
      · rw [placed_of_absent indexed there]
        rfl
      · have same : t.SamePosition call ↔ call.column.position ≠ 0 := by
          simp [SamePosition, redefine, there]
        rw [same, placed_of_absent indexed there, appended]
        by_cases unset : call.column.position = 0 <;> simp [unset]

end Table

/-- In every blueprint that can be built, a column that is defined is found in the table and in the
command behind the log, after any modifiers. The two copies differ in their positions at most, and
they do so just if a column is changed that is not there and is given no position. -/
theorem definition_recorded_iff {t : Table} (reachable : t.Reachable) (call : ColumnCall)
    (modifiers : List Modifier) :
    let defined := (call.define t).1
    let handle := (call.define t).2
    let after := modifiers.foldl (fun t modifier => t.modify handle modifier) defined
    ∃ stored told, after.column? call.column.name = some stored ∧
      after.recorded? t.commands.length = some told ∧
      told = { stored with position := told.position } ∧
      (told = stored ↔
        (call.redefine → call.column.name ∉ t.columnNames → call.column.position ≠ 0)) := by
  intro defined handle after
  have indexed := reachable.indexed
  obtain ⟨first, recorded, alike, positions⟩ := Table.define_copies indexed call
  obtain ⟨change, put⟩ := t.define_eq call
  obtain ⟨-, -, -, handled⟩ := t.define_records call
  have named : handle.column = call.column.name := congrArg ColumnHandle.column handled
  have number : handle.command = t.commands.length := congrArg ColumnHandle.command handled
  have stored : after.column? call.column.name =
      some (Modifier.editAll modifiers (t.placed call.column)) := by
    have before : defined.column? call.column.name = some (t.placed call.column) :=
      (congrArg (Table.column? · call.column.name) put).trans
        (Table.putColumn_column? indexed call.column)
    rw [← named] at before ⊢
    rw [Table.modifyAll_column?, before, Option.map_some]
  have told : after.recorded? t.commands.length = some (Modifier.editAll modifiers first) := by
    rw [← number] at recorded ⊢
    exact Table.modifyAll_recorded? recorded modifiers
  refine ⟨_, _, stored, told, ?_, Iff.trans ⟨fun same => ?_, fun same => ?_⟩ positions⟩
  · rw [Modifier.editAll_position, ← Modifier.editAll_moved, ← alike]
  · have moved := congrArg Column.position same
    rwa [Modifier.editAll_position, Modifier.editAll_position] at moved
  · rw [alike, same]

/-- A column is changed before it is there, and made the key afterwards. -/
def changedUnseen : ColumnCall := { column := { name := "a", type := .text }, redefine := true }

/-- The column is appended at the first position, and its command tells none. -/
theorem definition_recorded_iff_unseen :
    (Table.Reachable { name := "t" }) ∧
      ∃ stored told : Column,
        (TableCall.run (.column (changedUnseen.withModifiers [.primary])) { name := "t" }).column?
          "a" = some stored ∧
        (TableCall.run (.column (changedUnseen.withModifiers [.primary])) { name := "t" }).recorded?
          0 = some told ∧ told = { stored with position := 0 } ∧ told ≠ stored := by
  have reachable : Table.Reachable { name := "t" } := .fresh "t"
  obtain ⟨stored, told, found, recorded, alike, same⟩ :=
    definition_recorded_iff reachable changedUnseen [.primary]
  have unset : told.position = 0 := by
    cases recorded
    rfl
  refine ⟨reachable, stored, told, found, recorded, unset ▸ alike, fun equal => ?_⟩
  exact same.mp equal rfl (List.not_mem_nil) rfl

/-- The copies do not agree in all that can be defined. -/
theorem definition_not_always_recorded :
    ¬ ∀ (t : Table) (call : ColumnCall) (modifiers : List Modifier), t.Reachable →
      let handle := (call.define t).2
      let after := modifiers.foldl (fun t modifier => t.modify handle modifier) (call.define t).1
      after.column? call.column.name = after.recorded? t.commands.length := by
  intro agree
  have same := agree { name := "t" } changedUnseen [] (.fresh "t")
  have positions := congrArg (Option.map Column.position) same
  exact absurd positions (by decide)

end Sqlwright
