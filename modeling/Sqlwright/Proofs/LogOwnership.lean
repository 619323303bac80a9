import Sqlwright.Proofs.AddressedTables
import Sqlwright.Proofs.LogGrowth

/-!
Whose columns a log defines. Calls either record changes that define no column, or define one for
the table of the blueprint; modifiers change its definition but not its table. So every column that
is defined on the way from an empty or a listed blueprint is in the table of the blueprint.
-/

namespace Sqlwright

namespace Table

/-- All columns that the log defines are in the table. -/
def Owned (t : Table) : Prop := ∀ command ∈ t.commands, command.change.In t.name

namespace Owned

variable {t after : Table}

theorem extended (owned : t.Owned) (more : Extended t after) : after.Owned := by
  obtain ⟨name, more, commands, others⟩ := more
  intro command inside
  rw [commands] at inside
  rw [name]
  rcases List.mem_append.mp inside with old | new
  · exact owned command old
  · intro column defined
    rw [others command new] at defined
    cases defined

/-- Commands that are changed one by one stay in the table. -/
theorem modified (owned : t.Owned) (name : after.name = t.name) {i : Nat}
    {edit : Command → Command} (commands : after.commands = t.commands.modify i edit)
    (kept : ∀ command : Command, command.change.In t.name → (edit command).change.In t.name) :
    after.Owned := by
  intro command inside
  rw [commands] at inside
  obtain ⟨j, found⟩ := List.mem_iff_getElem?.mp inside
  rw [List.getElem?_modify] at found
  obtain ⟨old, held, rfl⟩ := Option.map_eq_some_iff.mp found
  have before := owned old (List.mem_iff_getElem?.mpr ⟨j, held⟩)
  rw [name]
  split
  · exact kept old before
  · exact before

theorem record {change : Change} (owned : t.Owned) (there : change.In t.name) :
    (t.record change).Owned := by
  intro command inside
  rcases List.mem_append.mp inside with old | new
  · exact owned command old
  · rw [List.mem_singleton.mp new]
    exact there

theorem placed_tableName (t : Table) (column : Column) : (t.placed column).tableName = t.name := by
  unfold placed
  cases t.column? column.name <;> rfl

theorem putColumn_record {column : Column} {change : Change} (owned : t.Owned)
    (there : change.In t.name) : ((t.putColumn column).record change).Owned := by
  have put := Extended.putColumn t column
  refine (owned.extended put).record ?_
  rwa [put.name]

/-- A definition is recorded for the table of the blueprint, whatever table it was made for. -/
theorem define (owned : t.Owned) (call : ColumnCall) : (call.define t).1.Owned := by
  have placed := placed_tableName t call.column
  unfold ColumnCall.define
  split
  · refine owned.putColumn_record fun column defined => ?_
    cases defined
    split
    · exact placed
    · rfl
  · refine owned.putColumn_record fun column defined => ?_
    split at defined
    all_goals
      cases defined
      exact placed

theorem adjust_in {name : String} {change : Change} (there : change.In name)
    (modifier : Modifier) : (change.adjust modifier.edit).In name := by
  have kept (column : Column) : (modifier.edit column).tableName = column.tableName := by
    cases modifier <;> rfl
  intro column defined
  cases change with
  | addColumn given | modifyColumn given =>
    cases defined
    exact (kept given).trans (there given rfl)
  | _ => cases defined

theorem modify (owned : t.Owned) (handle : ColumnHandle) (modifier : Modifier) :
    (t.modify handle modifier).Owned := by
  have extended := owned.extended (.extend t handle.column modifier)
  exact extended.modified rfl rfl fun command there => adjust_in there modifier

theorem column (owned : t.Owned) (call : ColumnCall) : (call.run t).Owned :=
  List.foldlRecOn call.modifiers _ (owned.define call) fun _ owned modifier _ =>
    owned.modify _ modifier

/-- Whatever a call records is about columns of the table. -/
theorem run (owned : t.Owned) (call : TableCall) : (call.run t).Owned := by
  cases call with
  | column call => exact owned.column call
  | timestamps => exact List.foldlRecOn _ _ owned fun _ owned call _ => owned.column call
  | renameColumn source target => exact owned.extended (.renameColumn t source target)
  | dropColumns names => exact owned.extended (.dropColumns t names)
  | createIndex kind name columns => exact owned.extended (.createIndex t kind name columns)
  | dropIndexes names => exact owned.extended (.dropIndexes t names)
  | renameIndex source target => exact owned.extended (.renameIndex t source target)
  | createPrimary columns => exact owned.extended (.createPrimary t columns)
  | dropPrimary => exact owned.extended (.dropPrimary t)
  | watch label => exact owned.modified rfl rfl fun _ there => there

theorem runAll (owned : t.Owned) (calls : List TableCall) : (TableCall.runAll calls t).Owned :=
  List.foldlRecOn calls _ owned fun _ owned call _ => owned.run call

end Owned

/-- No call changes what the table is called. -/
theorem runAll_name (calls : List TableCall) (t : Table) :
    (TableCall.runAll calls t).name = t.name := by
  induction calls generalizing t with
  | nil => rfl
  | cons call rest ih =>
    have kept : (call.run t).name = t.name := by
      by_cases structural : call.IsStructural
      · exact (TableCall.run_records structural).name t
      · cases call with
        | watch label => rfl
        | _ => exact absurd trivial structural
    exact (ih (call.run t)).trans kept

end Table

end Sqlwright
