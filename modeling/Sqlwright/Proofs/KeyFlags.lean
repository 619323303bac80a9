import Sqlwright.Proofs.CallRuns
import Sqlwright.Proofs.ColumnPlaces

/-!
The primary key is told twice: the blueprint has the key with the names of its columns, and every
column has a flag. Most operations leave both alone or change them alike. A key that replaces
another one, a definition of a column anew and a rename to a name that is known to the key or to
another column change only one of the two.
-/

namespace Sqlwright

/-- What a column tells of the key: its name and its flag. -/
def Column.mark (c : Column) : String × Bool := (c.name, c.primary)

/-- A flag that says of a name what the key says. -/
def Told (key : List String) (mark : String × Bool) : Prop := mark.2 ↔ mark.1 ∈ key

namespace Table

/-- The columns of the primary key; none without a key. -/
def keyColumns (t : Table) : List String := (t.primary.map PrimaryKey.columns).getD []

/-- The columns that are flagged are those that the primary key lists. -/
def KeyTold (t : Table) : Prop :=
  ∀ column ∈ t.columns, column.primary ↔ ∃ key, t.primary = some key ∧ column.name ∈ key.columns

/-- A column that its name does not lead to, because a later one has the name too. -/
def Hides (t : Table) (column : Column) : Prop :=
  ∃ i, t.columns[i]? = some column ∧ Keyed.find? column.name t.columnLookup ≠ some i

/-- A key that can take the place of the present one: no column outside of it is flagged, and a
column that it cannot reach is. -/
def FitsKey (t : Table) (names : List String) : Prop :=
  (∀ column ∈ t.columns, column.primary → column.name ∈ names) ∧
    ∀ column, t.Hides column → column.name ∈ names → column.primary

/-- A rename that key and flags follow alike: the new name is in the key only if the old one is, and
a column of the key comes apart from no other column of its name and meets one of its new name only
in the key. -/
def RenameTellsKey (t : Table) (source target : String) : Prop :=
  (target ∈ t.keyColumns → source ∈ t.keyColumns) ∧
    (source ∈ t.keyColumns →
      (target ∈ t.columnNames → target ∈ t.keyColumns) ∧
        ∀ column, t.Hides column → column.name ≠ source)

end Table

/-- A definition that tells of its column what the key says, or makes it a key that fits. -/
def ColumnCall.TellsKey (t : Table) (call : ColumnCall) : Prop :=
  (Modifier.primary ∈ call.modifiers → t.FitsKey [call.column.name]) ∧
    (Modifier.primary ∉ call.modifiers →
      (call.column.primary ↔ call.column.name ∈ t.keyColumns))

/-- A call that changes the flags of columns as it changes the key. -/
def TableCall.TellsKey (t : Table) : TableCall → Prop
  | .column call => call.TellsKey t
  | .timestamps => ∀ call ∈ ColumnCall.timestamps, call.TellsKey t
  | .renameColumn source target =>
    source ∈ t.columnNames → source ≠ target → t.RenameTellsKey source target
  | .createPrimary columns => t.FitsKey columns
  | .dropPrimary => ∀ column, t.Hides column → ¬ column.primary
  | _ => True

namespace Table

variable {t : Table}

/-! ### Marks -/

def marks (t : Table) : List (String × Bool) := t.columns.map Column.mark

theorem forall_marks {P : Nat → String × Bool → Prop} :
    (∀ i mark, t.marks[i]? = some mark → P i mark) ↔
      ∀ i column, t.columns[i]? = some column → P i column.mark := by
  constructor
  · intro all i column held
    exact all i column.mark (by rw [marks, List.getElem?_map, held, Option.map_some])
  · intro all i mark held
    rw [marks, List.getElem?_map] at held
    obtain ⟨column, there, rfl⟩ := Option.map_eq_some_iff.mp held
    exact all i column there

theorem mark_placeOf_iff {i : Nat} {mark : String × Bool} (held : t.marks[i]? = some mark)
    (name : String) : i = t.placeOf name ↔ Keyed.find? name t.columnLookup = some i := by
  have inside := (List.getElem?_eq_some_iff.mp held).1
  rw [marks, List.length_map] at inside
  exact eq_placeOf_iff inside name

theorem mem_keyColumns (name : String) :
    name ∈ t.keyColumns ↔ ∃ key, t.primary = some key ∧ name ∈ key.columns := by
  unfold keyColumns
  cases t.primary <;> simp

/-- Whether the key is told depends on marks and key alone. -/
theorem keyTold_iff :
    t.KeyTold ↔ ∀ (i : Nat) mark, t.marks[i]? = some mark → Told t.keyColumns mark := by
  rw [forall_marks]
  constructor
  · intro told i column held
    exact (told column (List.mem_of_getElem? held)).trans (mem_keyColumns column.name).symm
  · intro told column member
    obtain ⟨i, held⟩ := List.mem_iff_getElem?.mp member
    exact (told i column held).trans (mem_keyColumns column.name)

theorem KeyTold.of_eq {after : Table} (marks : after.marks = t.marks)
    (key : after.keyColumns = t.keyColumns) : after.KeyTold ↔ t.KeyTold := by
  rw [keyTold_iff, keyTold_iff, marks, key]

theorem fitsKey_iff (names : List String) :
    t.FitsKey names ↔ ∀ (i : Nat) mark, t.marks[i]? = some mark →
      (mark.2 → mark.1 ∈ names) ∧
        (Keyed.find? mark.1 t.columnLookup ≠ some i → mark.1 ∈ names → mark.2) := by
  rw [forall_marks]
  constructor
  · rintro ⟨outside, unreached⟩ i column held
    exact ⟨outside column (List.mem_of_getElem? held), fun hidden =>
      unreached column ⟨i, held, hidden⟩⟩
  · intro each
    refine ⟨fun column member => ?_, fun column ⟨i, held, hidden⟩ => (each i column held).2 hidden⟩
    obtain ⟨i, held⟩ := List.mem_iff_getElem?.mp member
    exact (each i column held).1

/-- A name leads to columns of that name only. -/
theorem Indexed.led_name (indexed : t.Indexed) {i : Nat} {column : Column} {name : String}
    (held : t.columns[i]? = some column) (led : Keyed.find? name t.columnLookup = some i) :
    column.name = name := by
  obtain ⟨other, there, named⟩ := indexed.columns.points led
  obtain rfl : column = other := Option.some.inj (held.symm.trans there)
  exact named

theorem Indexed.led_iff (indexed : t.Indexed) {i : Nat} {mark : String × Bool}
    (held : t.marks[i]? = some mark) (names : List String) :
    (∃ name ∈ names, Keyed.find? name t.columnLookup = some i) ↔
      mark.1 ∈ names ∧ Keyed.find? mark.1 t.columnLookup = some i := by
  constructor
  · rintro ⟨name, member, led⟩
    rw [marks, List.getElem?_map] at held
    obtain ⟨column, there, rfl⟩ := Option.map_eq_some_iff.mp held
    obtain rfl : column.name = name := indexed.led_name there led
    exact ⟨member, led⟩
  · rintro ⟨member, led⟩
    exact ⟨mark.1, member, led⟩

/-! ### Keys -/

theorem flagColumns_marks (t : Table) (names : List String) (primary : Bool) (i : Nat) :
    (t.flagColumns names primary).marks[i]? = t.marks[i]?.map fun mark =>
      if ∃ name ∈ names, Keyed.find? name t.columnLookup = some i then (mark.1, primary)
      else mark := by
  rw [marks, marks, List.getElem?_map, List.getElem?_map, flagColumns_getElem?, Option.map_map,
    Option.map_map]
  congr 1
  funext c
  exact apply_ite Column.mark _ { c with primary } c

/-- What holds of all marks once columns are flagged. -/
theorem forall_flagged_marks (indexed : t.Indexed) (names : List String) (primary : Bool)
    {P : String × Bool → Prop} :
    (∀ (i : Nat) mark, (t.flagColumns names primary).marks[i]? = some mark → P mark) ↔
      ∀ (i : Nat) mark, t.marks[i]? = some mark →
        (mark.1 ∈ names ∧ Keyed.find? mark.1 t.columnLookup = some i → P (mark.1, primary)) ∧
          (¬ (mark.1 ∈ names ∧ Keyed.find? mark.1 t.columnLookup = some i) → P mark) := by
  simp only [flagColumns_marks, Option.map_eq_some_iff, forall_exists_index, and_imp]
  refine forall_congr' fun i => ?_
  constructor
  · intro all mark held
    have here := all _ mark held rfl
    simp only [indexed.led_iff held] at here
    constructor
    · intro member led
      rwa [if_pos ⟨member, led⟩] at here
    · intro unled
      rwa [if_neg unled] at here
  · rintro all _ mark held rfl
    simp only [indexed.led_iff held]
    split
    · next led => exact (all mark held).1 led.1 led.2
    · next unled => exact (all mark held).2 unled

/-- A new key is told exactly if it fits. -/
theorem createPrimary_keyTold_iff (indexed : t.Indexed) (names : List String) :
    (t.createPrimary names).KeyTold ↔ t.FitsKey names := by
  have flagged := forall_flagged_marks indexed names true (P := Told names)
  rw [keyTold_iff, fitsKey_iff]
  refine flagged.trans (forall₃_congr fun i mark _ => ?_)
  constructor
  · rintro ⟨-, unled⟩
    exact ⟨fun flag => Classical.byContradiction fun outside =>
        outside ((unled fun led => outside led.1).mp flag),
      fun hidden => (unled fun led => hidden led.2).mpr⟩
  · rintro ⟨outside, unreached⟩
    refine ⟨fun led => iff_of_true rfl led.1, fun unled => ⟨outside, fun member => ?_⟩⟩
    exact unreached (fun led => unled ⟨member, led⟩) member

/-- Without the key no flag is left, if none is out of reach. -/
theorem dropPrimary_keyTold_iff (indexed : t.Indexed) (told : t.KeyTold) :
    t.dropPrimary.KeyTold ↔ ∀ column, t.Hides column → ¬ column.primary := by
  unfold dropPrimary
  cases held : t.primary with
  | none =>
    have same : (t.record (.dropPrimary (t.name ++ "_primary"))).KeyTold ↔ t.KeyTold :=
      KeyTold.of_eq rfl rfl
    refine iff_of_true (same.mpr told) ?_
    rintro column ⟨i, there, -⟩ flagged
    obtain ⟨key, known, -⟩ := (told column (List.mem_of_getElem? there)).mp flagged
    rw [held] at known
    cases known
  | some key =>
    have listed : t.keyColumns = key.columns := by rw [keyColumns, held]; rfl
    rw [keyTold_iff] at told ⊢
    refine (forall_flagged_marks indexed key.columns false (P := Told [])).trans ?_
    constructor
    · rintro all column ⟨i, there, hidden⟩ flag
      have unled := (forall_marks.mp all i column there).2 fun led => hidden led.2
      exact List.not_mem_nil (unled.mp flag)
    · intro unflagged
      refine forall_marks.mpr fun i column there => ⟨fun _ => by simp [Told], fun unled => ?_⟩
      have before : Told key.columns column.mark := listed ▸ forall_marks.mp told i column there
      refine ⟨fun flag => absurd flag ?_, fun member => absurd member List.not_mem_nil⟩
      exact unflagged column ⟨i, there, fun led => unled ⟨before.mp flag, led⟩⟩

/-! ### Definitions -/

/-- What a modifier other than that of the key adds to a table leaves columns and key alone. -/
theorem extend_key (t : Table) (name : String) {modifier : Modifier} (other : modifier ≠ .primary) :
    (modifier.extend name t).marks = t.marks ∧
      (modifier.extend name t).keyColumns = t.keyColumns ∧
      (modifier.extend name t).columnLookup = t.columnLookup := by
  have created (kind : IndexKind) : (t.createIndex kind name [name]).marks = t.marks ∧
      (t.createIndex kind name [name]).keyColumns = t.keyColumns ∧
      (t.createIndex kind name [name]).columnLookup = t.columnLookup := by
    obtain ⟨_, _, created⟩ := t.createIndex_eq kind name [name]
    rw [created]
    exact ⟨rfl, rfl, rfl⟩
  cases modifier with
  | primary => exact absurd rfl other
  | unique => exact created .unique
  | index => exact created .plain
  | _ => exact ⟨rfl, rfl, rfl⟩

theorem modify_key (t : Table) (handle : ColumnHandle) {modifier : Modifier}
    (other : modifier ≠ .primary) :
    (t.modify handle modifier).marks = t.marks ∧
      (t.modify handle modifier).keyColumns = t.keyColumns ∧
      (t.modify handle modifier).columnLookup = t.columnLookup := by
  have kept (c : Column) : (modifier.edit c).mark = c.mark := by
    cases modifier with
    | primary => exact absurd rfl other
    | _ => rfl
  obtain ⟨marks, key, lookup⟩ := t.extend_key handle.column other
  have edited : (t.modify handle modifier).marks = (modifier.extend handle.column t).marks :=
    Named.map_update _ handle.column (modifier.extend handle.column t).columns kept
  exact ⟨edited.trans marks, key, lookup⟩

theorem createPrimary_marks (t : Table) (name : String) :
    (t.createPrimary [name]).marks =
      Named.update t.columnLookup name (fun mark => (mark.1, true)) t.marks :=
  Named.map_update_eq t.columnLookup name t.columns fun _ => rfl

/-- That a column is the key is said once; saying it again of the flag changes nothing. -/
theorem modify_primary_marks (t : Table) (handle : ColumnHandle) :
    (t.modify handle .primary).marks = (t.createPrimary [handle.column]).marks := by
  have edited : (t.modify handle .primary).marks =
      Named.update t.columnLookup handle.column (fun mark => (mark.1, true))
        (t.createPrimary [handle.column]).marks :=
    Named.map_update_eq t.columnLookup handle.column (t.createPrimary [handle.column]).columns
      fun _ => rfl
  rw [edited, createPrimary_marks, Named.update_update]

/-- Among all modifiers of a column just that of the key counts for marks and key. -/
theorem modifyAll_key (t : Table) (handle : ColumnHandle) (modifiers : List Modifier) :
    let after := modifiers.foldl (fun t modifier => t.modify handle modifier) t
    (.primary ∈ modifiers →
        after.marks = (t.createPrimary [handle.column]).marks ∧
          after.keyColumns = [handle.column]) ∧
      (.primary ∉ modifiers → after.marks = t.marks ∧ after.keyColumns = t.keyColumns) := by
  induction modifiers generalizing t with
  | nil => simp
  | cons modifier rest ih =>
    obtain ⟨keyed, unkeyed⟩ := ih (t.modify handle modifier)
    by_cases primary : modifier = .primary
    · subst primary
      refine ⟨fun _ => ?_, fun absent => absurd List.mem_cons_self absent⟩
      by_cases again : .primary ∈ rest
      · obtain ⟨marks, key⟩ := keyed again
        refine ⟨marks.trans ?_, key⟩
        have lookup : (t.modify handle .primary).columnLookup = t.columnLookup := rfl
        rw [createPrimary_marks, modify_primary_marks, createPrimary_marks, lookup,
          Named.update_update]
      · obtain ⟨marks, key⟩ := unkeyed again
        exact ⟨marks.trans (t.modify_primary_marks handle), key⟩
    · obtain ⟨marks, key, lookup⟩ := t.modify_key handle primary
      have later : .primary ∈ modifier :: rest ↔ .primary ∈ rest := by
        simp [Ne.symm primary]
      rw [createPrimary_marks, marks, lookup, ← createPrimary_marks] at keyed
      rw [marks, key] at unkeyed
      rw [later]
      exact ⟨keyed, unkeyed⟩

theorem placed_mark (t : Table) (column : Column) : (t.placed column).mark = column.mark := by
  unfold placed
  cases t.column? column.name <;> rfl

theorem putColumn_marks (indexed : t.Indexed) (column : Column) (i : Nat) :
    (t.putColumn column).marks[i]? =
      if i = t.placeOf column.name then some column.mark else t.marks[i]? := by
  rw [marks, List.getElem?_map, putColumn_getElem? indexed, marks, List.getElem?_map]
  split
  · rw [Option.map_some, placed_mark]
  · rfl

/-- What holds of all marks once a column is put. -/
theorem forall_put_marks (indexed : t.Indexed) (column : Column)
    {P : Nat → String × Bool → Prop} :
    (∀ i mark, (t.putColumn column).marks[i]? = some mark → P i mark) ↔
      P (t.placeOf column.name) column.mark ∧ ∀ (i : Nat) mark, t.marks[i]? = some mark →
        Keyed.find? column.name t.columnLookup ≠ some i → P i mark := by
  simp only [putColumn_marks indexed]
  constructor
  · intro all
    refine ⟨all _ _ (if_pos rfl), fun i mark held other => all i mark ?_⟩
    rw [if_neg fun here => other ((mark_placeOf_iff held _).mp here), held]
  · rintro ⟨put, kept⟩ i mark held
    split at held
    · next here =>
      obtain rfl := here
      obtain rfl := Option.some.inj held
      exact put
    · next other => exact kept i mark held fun led => other ((mark_placeOf_iff held _).mpr led)

/-- A key of just the column that is put fits as it did before. -/
theorem putColumn_fitsKey_iff (indexed : t.Indexed) (column : Column) :
    (t.putColumn column).FitsKey [column.name] ↔ t.FitsKey [column.name] := by
  rw [fitsKey_iff, fitsKey_iff, forall_put_marks indexed]
  simp only [putColumn_find?, List.mem_singleton]
  constructor
  · rintro ⟨-, kept⟩ i mark held
    by_cases led : Keyed.find? column.name t.columnLookup = some i
    · have here := ((indexed.led_iff held [column.name]).mp ⟨_, List.mem_singleton_self _, led⟩)
      obtain ⟨member, reached⟩ := here
      exact ⟨fun _ => List.mem_singleton.mp member, fun hidden => absurd reached hidden⟩
    · obtain ⟨outside, unreached⟩ := kept i mark held led
      refine ⟨outside, fun _ named => unreached ?_ named⟩
      rw [if_pos named]
      exact fun place => led ((mark_placeOf_iff held _).mp (Option.some.inj place).symm)
  · intro fits
    refine ⟨⟨fun _ => rfl, fun hidden => absurd (if_pos rfl) hidden⟩, fun i mark held other => ?_⟩
    obtain ⟨outside, unreached⟩ := fits i mark held
    exact ⟨outside, fun _ named => unreached (named ▸ other) named⟩

theorem putColumn_keyColumns (t : Table) (column : Column) :
    (t.putColumn column).keyColumns = t.keyColumns := by
  obtain ⟨_, _, put⟩ := t.putColumn_eq column
  rw [put]
  rfl

/-- A column that is put beside a told key has to tell the same. -/
theorem putColumn_keyTold_iff (indexed : t.Indexed) (told : t.KeyTold) (column : Column) :
    (t.putColumn column).KeyTold ↔ (column.primary ↔ column.name ∈ t.keyColumns) := by
  rw [keyTold_iff] at told ⊢
  rw [forall_put_marks indexed column (P := fun _ mark => Told _ mark), putColumn_keyColumns]
  exact and_iff_left fun i mark held _ => told i mark held

/-- A definition that makes no key puts its column, and that is all. -/
theorem column_key (t : Table) {call : ColumnCall} (plain : .primary ∉ call.modifiers) :
    (call.run t).marks = (t.putColumn call.column).marks ∧
      (call.run t).keyColumns = t.keyColumns := by
  obtain ⟨change, defined⟩ := t.define_eq call
  obtain ⟨-, unkeyed⟩ := (call.define t).1.modifyAll_key (call.define t).2 call.modifiers
  have kept : (call.run t).marks = (call.define t).1.marks ∧
      (call.run t).keyColumns = (call.define t).1.keyColumns := unkeyed plain
  rw [defined] at kept
  obtain ⟨marks, key⟩ := kept
  exact ⟨marks, key.trans (t.putColumn_keyColumns call.column)⟩

/-- A definition leaves the key told exactly if its own column is told, or makes a key that fits. -/
theorem column_keyTold_iff (indexed : t.Indexed) (told : t.KeyTold) (call : ColumnCall) :
    (call.run t).KeyTold ↔ call.TellsKey t := by
  by_cases primary : .primary ∈ call.modifiers
  · obtain ⟨change, defined⟩ := t.define_eq call
    obtain ⟨_, -, -, handled⟩ := t.define_records call
    obtain ⟨keyed, -⟩ := (call.define t).1.modifyAll_key (call.define t).2 call.modifiers
    obtain ⟨marks, key⟩ := keyed primary
    have same : (call.run t).KeyTold ↔
        ((call.define t).1.createPrimary [(call.define t).2.column]).KeyTold :=
      KeyTold.of_eq marks key
    have put := (indexed.putColumn call.column).record change
    have fits : ((t.putColumn call.column).record change).FitsKey [call.column.name] ↔
        t.FitsKey [call.column.name] := putColumn_fitsKey_iff indexed call.column
    rw [same, defined, handled, createPrimary_keyTold_iff put, fits]
    simp [ColumnCall.TellsKey, primary]
  · obtain ⟨marks, key⟩ := t.column_key primary
    have same : (call.run t).KeyTold ↔ (t.putColumn call.column).KeyTold :=
      KeyTold.of_eq marks (key.trans (t.putColumn_keyColumns call.column).symm)
    rw [same, putColumn_keyTold_iff indexed told]
    simp [ColumnCall.TellsKey, primary]

theorem columnCalls_keyColumns (t : Table) {calls : List ColumnCall}
    (plain : ∀ call ∈ calls, .primary ∉ call.modifiers) :
    (calls.foldl (fun t call => call.run t) t).keyColumns = t.keyColumns := by
  refine List.foldlRecOn (motive := fun (after : Table) => after.keyColumns = t.keyColumns) calls _
    rfl ?_
  intro after kept call member
  exact (after.column_key (plain call member)).2.trans kept

/-- Definitions of other columns leave a mark where it is. -/
theorem columnCalls_keep_mark (indexed : t.Indexed) {calls : List ColumnCall}
    (plain : ∀ call ∈ calls, .primary ∉ call.modifiers) {i : Nat} {mark : String × Bool}
    (held : t.marks[i]? = some mark) (apart : ∀ call ∈ calls, call.column.name ≠ mark.1) :
    (calls.foldl (fun t call => call.run t) t).marks[i]? = some mark := by
  have kept : (calls.foldl (fun t call => call.run t) t).Indexed ∧
      (calls.foldl (fun t call => call.run t) t).marks[i]? = some mark := by
    refine List.foldlRecOn (motive := fun (after : Table) =>
      after.Indexed ∧ after.marks[i]? = some mark) calls _ ⟨indexed, held⟩ ?_
    rintro after ⟨indexed, held⟩ call member
    refine ⟨indexed.column call, ?_⟩
    rw [(after.column_key (plain call member)).1, putColumn_marks indexed, if_neg, held]
    intro here
    have led := (mark_placeOf_iff held _).mp here
    obtain ⟨same, -⟩ :=
      (indexed.led_iff held [call.column.name]).mp ⟨_, List.mem_singleton_self _, led⟩
    exact apart call member (List.mem_singleton.mp same).symm
  exact kept.2

/-- Definitions of different columns without a key leave the key told exactly if each does. -/
theorem columnCalls_keyTold_iff (indexed : t.Indexed) (told : t.KeyTold) {calls : List ColumnCall}
    (plain : ∀ call ∈ calls, .primary ∉ call.modifiers)
    (apart : calls.Pairwise fun first second => second.column.name ≠ first.column.name) :
    (calls.foldl (fun t call => call.run t) t).KeyTold ↔ ∀ call ∈ calls, call.TellsKey t := by
  induction calls generalizing t with
  | nil => exact iff_of_true told (List.forall_mem_nil _)
  | cons call rest ih =>
    obtain ⟨here, plain⟩ := List.forall_mem_cons.mp plain
    obtain ⟨others, apart⟩ := List.pairwise_cons.mp apart
    have run := indexed.column call
    obtain ⟨marks, key⟩ := t.column_key here
    -- the condition on a later column is the same after this one
    have later : (∀ next ∈ rest, next.TellsKey (call.run t)) ↔ ∀ next ∈ rest, next.TellsKey t := by
      refine forall₂_congr fun next member => ?_
      simp [ColumnCall.TellsKey, plain next member, key]
    rw [List.foldl_cons, List.forall_mem_cons]
    constructor
    · intro final
      have put : (call.run t).marks[t.placeOf call.column.name]? = some call.column.mark := by
        rw [marks, putColumn_marks indexed, if_pos rfl]
      have stays := columnCalls_keep_mark run plain put others
      have said := keyTold_iff.mp final _ _ stays
      rw [columnCalls_keyColumns _ plain, key] at said
      have first : call.TellsKey t := ⟨fun primary => absurd primary here, fun _ => said⟩
      have between := (column_keyTold_iff indexed told call).mpr first
      exact ⟨first, later.mp ((ih run between plain apart).mp final)⟩
    · rintro ⟨first, rest⟩
      have between := (column_keyTold_iff indexed told call).mpr first
      exact (ih run between plain apart).mpr (later.mpr rest)

theorem timestamps_keyTold_iff (indexed : t.Indexed) (told : t.KeyTold) :
    (TableCall.timestamps.run t).KeyTold ↔ TableCall.timestamps.TellsKey t := by
  refine columnCalls_keyTold_iff indexed told ?_ ?_
  · simp [ColumnCall.timestamps, ColumnCall.typed, ColumnCall.withModifiers]
  · simp [ColumnCall.timestamps, ColumnCall.typed, ColumnCall.withModifiers]

/-! ### Names -/

theorem mem_renamed_iff {names : List String} {source target : String} (apart : source ≠ target)
    (name : String) :
    (name ∈ names.map fun n => if n = source then target else n) ↔
      (name = target ∧ source ∈ names) ∨ (name ≠ source ∧ name ∈ names) := by
  rw [List.mem_map]
  constructor
  · rintro ⟨n, member, rfl⟩
    by_cases here : n = source
    · subst here
      exact .inl ⟨if_pos rfl, member⟩
    · rw [if_neg here]
      exact .inr ⟨here, member⟩
  · rintro (⟨rfl, member⟩ | ⟨other, member⟩)
    · exact ⟨source, member, if_pos rfl⟩
    · exact ⟨name, member, if_neg other⟩

/-- The key follows a rename of a column that is there. -/
theorem renameColumn_keyColumns (indexed : t.Indexed) {source : String}
    (known : source ∈ t.columnNames) (target : String) :
    (t.renameColumn source target).keyColumns =
      t.keyColumns.map fun name => if name = source then target else name := by
  have there : (t.record (.renameColumn source target)).hasColumns [source] :=
    (indexed.hasColumns_singleton source).mpr known
  rw [renameColumn, if_pos there]
  simp only [keyColumns, reindex, record]
  cases t.primary <;> rfl

theorem renameColumn_marks (t : Table) (source target : String) :
    (t.renameColumn source target).marks =
      Named.update t.columnLookup source (fun mark => (target, mark.2)) t.marks := by
  rw [marks, renameColumn_columns]
  exact Named.map_update_eq t.columnLookup source t.columns fun _ => rfl

/-- The column that is renamed is told under its new name if the key does not have it otherwise. -/
theorem told_target_iff {key : List String} {source target : String} {flag : Bool}
    (apart : source ≠ target) (told : Told key (source, flag)) :
    Told (key.map fun name => if name = source then target else name) (target, flag) ↔
      (target ∈ key → source ∈ key) := by
  have before : flag ↔ source ∈ key := told
  simp only [Told, mem_renamed_iff apart, before]
  constructor
  · intro after listed
    exact after.mpr (.inr ⟨apart.symm, listed⟩)
  · intro follows
    refine ⟨fun listed => .inl ⟨trivial, listed⟩, ?_⟩
    rintro (⟨-, listed⟩ | ⟨-, listed⟩)
    · exact listed
    · exact follows listed

/-- A column that stays as it is has neither the old name nor, outside of the key, the new one. -/
theorem told_other_iff {key : List String} {source target name : String} {flag : Bool}
    (apart : source ≠ target) (told : Told key (name, flag)) :
    Told (key.map fun name => if name = source then target else name) (name, flag) ↔
      (source ∈ key → name ≠ source ∧ (name = target → target ∈ key)) := by
  have before : flag ↔ name ∈ key := told
  simp only [Told, mem_renamed_iff apart, before]
  constructor
  · intro after listed
    constructor
    · rintro rfl
      rcases after.mp listed with ⟨same, -⟩ | ⟨other, -⟩
      · exact apart same
      · exact other rfl
    · rintro rfl
      exact after.mpr (.inl ⟨rfl, listed⟩)
  · intro meets
    constructor
    · intro listed
      exact .inr ⟨fun named => (meets (named ▸ listed)).1 named, listed⟩
    · rintro (⟨rfl, listed⟩ | ⟨-, listed⟩)
      · exact (meets listed).2 rfl
      · exact listed

theorem renameColumn_keyTold_iff (indexed : t.Indexed) (told : t.KeyTold) {source target : String}
    (known : source ∈ t.columnNames) (apart : source ≠ target) :
    (t.renameColumn source target).KeyTold ↔ t.RenameTellsKey source target := by
  rw [keyTold_iff, forall_marks] at told
  rw [keyTold_iff, renameColumn_marks, renameColumn_keyColumns indexed known,
    Named.forall_update (P := fun _ mark => Told _ mark), forall_marks]
  constructor
  · intro all
    refine ⟨?_, fun listed => ⟨fun there => ?_, ?_⟩⟩
    · obtain ⟨i, column, led, held, rfl⟩ := indexed.columns.leads known
      have after := all i column held
      rw [if_pos led] at after
      exact (told_target_iff apart (told i column held)).mp after
    · obtain ⟨column, member, rfl⟩ := List.mem_map.mp there
      obtain ⟨i, held⟩ := List.mem_iff_getElem?.mp member
      have after := all i column held
      rw [if_neg fun led => apart (indexed.led_name held led).symm] at after
      exact ((told_other_iff apart (told i column held)).mp after listed).2 rfl
    · rintro column ⟨i, held, hidden⟩ rfl
      have after := all i column held
      rw [if_neg hidden] at after
      exact ((told_other_iff apart (told i column held)).mp after listed).1 rfl
  · rintro ⟨follows, meets⟩ i column held
    split
    · next led =>
      have before := told i column held
      rw [Column.mark, indexed.led_name held led] at before
      exact (told_target_iff apart before).mpr follows
    · next unled =>
      refine (told_other_iff apart (told i column held)).mpr fun listed => ⟨?_, ?_⟩
      · intro named
        have hidden : t.Hides column := ⟨i, held, named ▸ unled⟩
        exact (meets listed).2 column hidden named
      · rintro rfl
        exact (meets listed).1 (List.mem_map_of_mem (List.mem_of_getElem? held))

/-- A rename of no column, or to the same name, changes nothing. -/
theorem renameColumn_keyTold (indexed : t.Indexed) (told : t.KeyTold) {source target : String}
    (idle : source ∈ t.columnNames → source = target) :
    (t.renameColumn source target).KeyTold := by
  by_cases known : source ∈ t.columnNames
  · obtain rfl := idle known
    rw [keyTold_iff, forall_marks] at told
    rw [keyTold_iff, renameColumn_marks, renameColumn_keyColumns indexed known,
      Named.forall_update (P := fun _ mark => Told _ mark), forall_marks]
    have same : (fun name => if name = source then source else name) = id := by
      funext name
      by_cases here : name = source <;> simp [here]
    rw [same, List.map_id]
    intro i column held
    split
    · next led => exact indexed.led_name held led ▸ told i column held
    · exact told i column held
  · have absent : ¬ (t.record (.renameColumn source target)).hasColumns [source] := fun there =>
      known ((indexed.hasColumns_singleton source).mp there)
    rw [renameColumn, if_neg absent]
    exact told

/-! ### Calls -/

/-- Columns may be left out beside a key. -/
theorem KeyTold.of_subset {after : Table} (told : t.KeyTold) (key : after.primary = t.primary)
    (columns : after.columns ⊆ t.columns) : after.KeyTold := by
  intro column member
  rw [key]
  exact told column (columns member)

theorem dropColumns_primary (t : Table) (names : List String) :
    (t.dropColumns names).primary = t.primary := by
  unfold dropColumns
  exact List.foldlRecOn (motive := fun (after : Table) => after.primary = t.primary) names _ rfl
    fun _ kept _ _ => kept

theorem dropIndexes_primary (t : Table) (names : List String) :
    (t.dropIndexes names).primary = t.primary := by
  unfold dropIndexes
  exact List.foldlRecOn (motive := fun (after : Table) => after.primary = t.primary) names _ rfl
    fun _ kept _ _ => kept

theorem renameIndex_primary (t : Table) (source target : String) :
    (t.renameIndex source target).primary = t.primary := by
  simp only [renameIndex]
  split <;> rfl

/-- Of all calls those that change only the key or only a flag are the ones that do not tell it. -/
theorem KeyTold.run_iff (call : TableCall) (indexed : t.Indexed) (told : t.KeyTold) :
    (call.run t).KeyTold ↔ call.TellsKey t := by
  cases call with
  | column call => exact column_keyTold_iff indexed told call
  | timestamps => exact timestamps_keyTold_iff indexed told
  | renameColumn source target =>
    by_cases idle : source ∈ t.columnNames → source = target
    · refine iff_of_true (renameColumn_keyTold indexed told idle) ?_
      exact fun known apart => absurd (idle known) apart
    · simp only [Classical.not_imp] at idle
      obtain ⟨known, apart⟩ := idle
      rw [TableCall.run, renameColumn_keyTold_iff indexed told known apart]
      exact ⟨fun tells _ _ => tells, fun tells => tells known apart⟩
  | dropColumns names =>
    refine iff_of_true (told.of_subset (t.dropColumns_primary names) ?_) trivial
    rw [TableCall.run, dropColumns_columns]
    exact List.filter_sublist.subset
  | createIndex kind name columns =>
    obtain ⟨_, _, created⟩ := t.createIndex_eq kind name columns
    refine iff_of_true ?_ trivial
    rw [TableCall.run, created]
    exact told
  | dropIndexes names =>
    refine iff_of_true (told.of_subset (t.dropIndexes_primary names) ?_) trivial
    exact fun _ member => t.dropIndexes_columns names ▸ member
  | renameIndex source target =>
    refine iff_of_true (told.of_subset (t.renameIndex_primary source target) ?_) trivial
    exact fun _ member => t.renameIndex_columns source target ▸ member
  | createPrimary columns => exact createPrimary_keyTold_iff indexed columns
  | dropPrimary => exact dropPrimary_keyTold_iff indexed told
  | watch label => exact iff_of_true told trivial

end Table

/-- In every blueprint on the way of a run the flags tell the key exactly when each call changes
both alike. -/
theorem key_told_iff (name : String) (calls : List TableCall) :
    (∀ done, done <+: calls → (TableCall.runAll done { name }).KeyTold) ↔
      ∀ done call, done ++ [call] <+: calls → call.TellsKey (TableCall.runAll done { name }) := by
  have fresh : Table.Indexed { name } := ⟨fun _ => rfl, fun _ => rfl⟩
  have unflagged : Table.KeyTold { name } := fun _ member => absurd member List.not_mem_nil
  exact TableCall.always_iff (fun call _ indexed => indexed.run call)
    (fun call _ indexed told => Table.KeyTold.run_iff call indexed told) fresh unflagged calls

/-- A key in place of another one leaves the column of that flagged. -/
theorem replaced_key_untold :
    ¬ (TableCall.runAll
        [.column (.id "id"), .column (.typed .integer "owner"), .createPrimary ["owner"]]
        { name := "t" }).KeyTold := by
  intro told
  have flagged := Table.keyTold_iff.mp told 0 ("id", true) rfl
  have listed : "id" ∈ ["owner"] := flagged.mp rfl
  exact absurd listed (by decide)

end Sqlwright
