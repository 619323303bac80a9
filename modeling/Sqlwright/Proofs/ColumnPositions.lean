import Sqlwright.Proofs.CallRuns
import Sqlwright.Proofs.ColumnPlaces

/-!
Positions along the columns. A column that brings no position of its own stands one behind the
number of columns, which is behind all of them only as long as the positions count from one without
a gap; after a drop, or on a listing with gaps, a new column may come to stand at or before the
position of another one.
-/

namespace Sqlwright

/-! ### Increasing rows of numbers -/

/-- Different numbers between two bounds are no more than there is room for. -/
theorem length_le_of_increasing {numbers : List Nat} (increasing : numbers.Pairwise (· < ·))
    {low high : Nat} (bounds : low ≤ high) (above : ∀ n ∈ numbers, low < n)
    (below : ∀ n ∈ numbers, n ≤ high) : low + numbers.length ≤ high := by
  induction numbers generalizing low with
  | nil => exact bounds
  | cons first rest ih =>
    obtain ⟨smaller, increasing⟩ := List.pairwise_cons.mp increasing
    have fits : first ≤ high := below first (by simp)
    have later := ih increasing fits smaller fun n member => below n (List.mem_cons_of_mem _ member)
    have lower : low < first := above first (by simp)
    rw [List.length_cons]
    omega

/-- Numbers that leave no room are all that there are. -/
theorem eq_range'_of_increasing {numbers : List Nat} (increasing : numbers.Pairwise (· < ·))
    {low : Nat} (above : ∀ n ∈ numbers, low < n)
    (below : ∀ n ∈ numbers, n ≤ low + numbers.length) :
    numbers = List.range' (low + 1) numbers.length := by
  induction numbers generalizing low with
  | nil => rfl
  | cons first rest ih =>
    obtain ⟨smaller, later⟩ := List.pairwise_cons.mp increasing
    have lower : low < first := above first (by simp)
    have room (n : Nat) (member : n ∈ rest) : n ≤ low + (rest.length + 1) :=
      below n (List.mem_cons_of_mem _ member)
    have fits : first ≤ low + (rest.length + 1) := below first (by simp)
    have full := length_le_of_increasing later fits smaller room
    obtain rfl : first = low + 1 := by omega
    have counted := ih later smaller fun n member => by
      have bound := room n member
      omega
    rw [List.length_cons, List.range'_succ, ← counted]

theorem increasing_append_range'_iff (numbers : List Nat) (next count : Nat) :
    (numbers ++ List.range' next count).Pairwise (· < ·) ↔
      numbers.Pairwise (· < ·) ∧ (count ≠ 0 → ∀ n ∈ numbers, n < next) := by
  have ranged : (List.range' next count).Pairwise (· < ·) := List.pairwise_lt_range'
  rw [List.pairwise_append]
  constructor
  · rintro ⟨increasing, -, behind⟩
    refine ⟨increasing, fun some n member => behind n member next ?_⟩
    exact List.mem_range'_1.mpr ⟨Nat.le_refl _, by omega⟩
  · rintro ⟨increasing, behind⟩
    refine ⟨increasing, ranged, fun n member m ahead => ?_⟩
    obtain ⟨from_next, inside⟩ := List.mem_range'_1.mp ahead
    have lower := behind (by omega) n member
    omega

namespace Table

/-- The positions increase along the columns, so no two are the same. -/
def PositionsIncrease (t : Table) : Prop := t.positions.Pairwise (· < ·)

/-- The positions count from one, without a gap. -/
def Unbroken (t : Table) : Prop := t.positions = List.range' 1 t.columns.length

/-- A column that comes to stand behind all columns of the table: at a greater position of its own,
or at the next one if the positions so far have no gap. -/
def FitsBehind (t : Table) (column : Column) : Prop :=
  if column.position = 0 then t.Unbroken else ∀ p ∈ t.positions, p < column.position

/-- No column is without a position. -/
def Positioned (t : Table) : Prop := ∀ p ∈ t.positions, 0 < p

end Table

/-- A call that appends columns only behind all others. -/
def TableCall.AppendsBehind (t : Table) (call : TableCall) : Prop :=
  ∀ definition ∈ call.definitions,
    definition.column.name ∉ t.columnNames → t.FitsBehind definition.column

namespace Table

variable {t : Table}

theorem length_positions (t : Table) : t.positions.length = t.columns.length := List.length_map _

theorem unbroken_iff (increasing : t.PositionsIncrease) (positioned : t.Positioned) :
    t.Unbroken ↔ ∀ p ∈ t.positions, p < t.columns.length + 1 := by
  constructor
  · intro unbroken p member
    rw [unbroken] at member
    have inside := (List.mem_range'_1.mp member).2
    omega
  · intro below
    have full := eq_range'_of_increasing increasing positioned fun p member => by
      have bound := below p member
      rw [length_positions]
      omega
    rwa [length_positions] at full

/-! ### Positions after a call -/

theorem column_positions (indexed : t.Indexed) (call : ColumnCall) :
    (call.run t).positions =
      if call.column.name ∈ t.columnNames then t.positions
      else t.positions ++ [(t.appended call.column).position] := by
  rw [positions_eq, column_places indexed, positions_eq]
  split <;> simp

/-- Columns that bring no position are numbered on from the number of columns. -/
theorem columnCalls_positions (indexed : t.Indexed) (calls : List ColumnCall)
    (unplaced : ∀ call ∈ calls, call.column.position = 0) :
    ∃ count,
      (calls.foldl (fun t call => call.run t) t).positions =
        t.positions ++ List.range' (t.columns.length + 1) count ∧
      (count = 0 ↔ ∀ call ∈ calls, call.column.name ∈ t.columnNames) := by
  induction calls generalizing t with
  | nil => exact ⟨0, by simp⟩
  | cons call rest ih =>
    obtain ⟨here, unplaced⟩ := List.forall_mem_cons.mp unplaced
    obtain ⟨count, later, known⟩ := ih (indexed.column call) unplaced
    have places := column_places indexed call
    rw [List.foldl_cons, later]
    by_cases there : call.column.name ∈ t.columnNames
    · rw [if_pos there] at places
      have positions := positions_of_places places
      refine ⟨count, ?_, ?_⟩
      · rw [← length_positions, positions, length_positions]
      · rw [known, columnNames_of_places places, List.forall_mem_cons]
        simp [there]
    · rw [if_neg there] at places
      have next : (t.appended call.column).position = t.columns.length + 1 := by
        simp [appended, here]
      have positions : (call.run t).positions = t.positions ++ [t.columns.length + 1] := by
        rw [positions_eq, places, positions_eq, next]
        simp
      refine ⟨count + 1, ?_, ?_⟩
      · rw [← length_positions, positions, List.range'_succ, List.append_assoc, List.length_append,
          length_positions]
        rfl
      · simp [there]

/-- Calls that define no column leave positions out at most. -/
theorem run_positions_sublist {call : TableCall} (undefining : call.definitions = [])
    (t : Table) : (call.run t).positions.Sublist t.positions := by
  have same {after : Table} (kept : after.places = t.places) :
      after.positions.Sublist t.positions :=
    positions_of_places kept ▸ List.Sublist.refl _
  cases call with
  | column call => cases undefining
  | timestamps => cases undefining
  | renameColumn source target =>
    have kept : (t.renameColumn source target).positions = t.positions := by
      rw [positions, renameColumn_columns]
      exact Named.map_update t.columnLookup source t.columns fun _ => rfl
    exact kept ▸ List.Sublist.refl _
  | dropColumns names =>
    rw [TableCall.run, positions, dropColumns_columns]
    exact List.filter_sublist.map Column.position
  | createIndex kind name columns => exact same (t.createIndex_places kind name columns)
  | dropIndexes names =>
    exact same (congrArg (List.map Column.place) (t.dropIndexes_columns names))
  | renameIndex source target =>
    exact same (congrArg (List.map Column.place) (t.renameIndex_columns source target))
  | createPrimary columns => exact same (t.createPrimary_places columns)
  | dropPrimary => exact same t.dropPrimary_places
  | watch label => exact same rfl

namespace Positioned

theorem column (indexed : t.Indexed) (positioned : t.Positioned) (call : ColumnCall) :
    (call.run t).Positioned := by
  intro p member
  rw [column_positions indexed] at member
  split at member
  · exact positioned p member
  · rcases List.mem_append.mp member with old | new
    · exact positioned p old
    · rw [List.mem_singleton.mp new, appended]
      dsimp only
      split <;> omega

theorem columnCalls (indexed : t.Indexed) (positioned : t.Positioned) (calls : List ColumnCall) :
    (calls.foldl (fun t call => call.run t) t).Positioned := by
  induction calls generalizing t with
  | nil => exact positioned
  | cons call rest ih => exact ih (indexed.column call) (positioned.column indexed call)

theorem run (indexed : t.Indexed) (positioned : t.Positioned) (call : TableCall) :
    (call.run t).Positioned := by
  have undefining (none : call.definitions = []) : (call.run t).Positioned :=
    fun p member => positioned p ((run_positions_sublist none t).subset member)
  cases call with
  | column call => exact positioned.column indexed call
  | timestamps => exact positioned.columnCalls indexed ColumnCall.timestamps
  | _ => exact undefining rfl

end Positioned

namespace PositionsIncrease

theorem fitsBehind_iff (increasing : t.PositionsIncrease) (positioned : t.Positioned)
    (column : Column) :
    t.FitsBehind column ↔ ∀ p ∈ t.positions, p < (t.appended column).position := by
  unfold FitsBehind appended
  by_cases unplaced : column.position = 0
  · simp only [unplaced, if_true]
    exact unbroken_iff increasing positioned
  · simp only [unplaced, if_false]

theorem column_iff (indexed : t.Indexed) (increasing : t.PositionsIncrease)
    (positioned : t.Positioned) (call : ColumnCall) :
    (call.run t).PositionsIncrease ↔
      (call.column.name ∉ t.columnNames → t.FitsBehind call.column) := by
  rw [PositionsIncrease, column_positions indexed, increasing.fitsBehind_iff positioned]
  by_cases there : call.column.name ∈ t.columnNames
  · rw [if_pos there]
    exact iff_of_true increasing fun fresh => absurd there fresh
  · have before : t.positions.Pairwise (· < ·) := increasing
    simp [there, List.pairwise_append, before]

theorem timestamps_iff (indexed : t.Indexed) (increasing : t.PositionsIncrease)
    (positioned : t.Positioned) :
    (TableCall.timestamps.run t).PositionsIncrease ↔ TableCall.timestamps.AppendsBehind t := by
  have unplaced : ∀ call ∈ ColumnCall.timestamps, call.column.position = 0 := by
    simp [ColumnCall.timestamps, ColumnCall.typed, ColumnCall.withModifiers]
  obtain ⟨count, positions, known⟩ := columnCalls_positions indexed _ unplaced
  have after : (TableCall.timestamps.run t).positions = _ := positions
  have before : t.positions.Pairwise (· < ·) := increasing
  rw [PositionsIncrease, after, increasing_append_range'_iff, ← unbroken_iff increasing positioned,
    Ne, known]
  have fits (call : ColumnCall) (member : call ∈ ColumnCall.timestamps) :
      t.FitsBehind call.column ↔ t.Unbroken := by
    rw [FitsBehind, if_pos (unplaced call member)]
  constructor
  · rintro ⟨-, unbroken⟩ call member fresh
    exact (fits call member).mpr (unbroken fun all => fresh (all call member))
  · intro behind
    refine ⟨before, fun some => ?_⟩
    by_cases unbroken : t.Unbroken
    · exact unbroken
    · refine absurd (fun call member => ?_) some
      by_cases there : call.column.name ∈ t.columnNames
      · exact there
      · exact absurd ((fits call member).mp (behind call member there)) unbroken

/-- Of all calls only a definition of a new column can break the order. -/
theorem run_iff (call : TableCall) (indexed : t.Indexed) (increasing : t.PositionsIncrease)
    (positioned : t.Positioned) : (call.run t).PositionsIncrease ↔ call.AppendsBehind t := by
  have undefining (none : call.definitions = []) :
      (call.run t).PositionsIncrease ↔ call.AppendsBehind t := by
    refine iff_of_true (increasing.sublist (run_positions_sublist none t)) ?_
    rw [TableCall.AppendsBehind, none]
    exact List.forall_mem_nil _
  cases call with
  | column call =>
    rw [TableCall.run, increasing.column_iff indexed positioned]
    exact (List.forall_mem_singleton (p := fun definition : ColumnCall =>
      definition.column.name ∉ t.columnNames → t.FitsBehind definition.column)).symm
  | timestamps => exact increasing.timestamps_iff indexed positioned
  | _ => exact undefining rfl

end PositionsIncrease

/-! ### Runs -/

/-- Listings with positions from one on in increasing order. -/
def ListedInOrder (columns : List Column) (_ : List Index) : Prop :=
  (columns.map Column.position).Pairwise (· < ·) ∧ ∀ column ∈ columns, 0 < column.position

theorem pushColumns_positions {columns : List Column}
    (positioned : ∀ column ∈ columns, 0 < column.position) (t : Table) :
    (columns.foldl pushColumn t).positions = t.positions ++ columns.map Column.position := by
  induction columns generalizing t with
  | nil => simp
  | cons column rest ih =>
    obtain ⟨here, positioned⟩ := List.forall_mem_cons.mp positioned
    have first : (t.pushColumn column).positions = t.positions ++ [column.position] := by
      simp [positions, pushColumn, appended, Nat.ne_of_gt here]
    rw [List.foldl_cons, ih positioned, first, List.append_assoc, List.map_cons,
      List.singleton_append]

theorem ListedInOrder.positions {name : String} {schema : Option String} {columns : List Column}
    {indexes : List Index} (fit : ListedInOrder columns indexes)
    (found : ofCatalog name schema columns indexes = .ok t) :
    t.positions = columns.map Column.position := by
  rw [positions_eq, ofCatalog_places found, ← positions_eq, pushColumns_positions fit.2]
  rfl

theorem Started.positionsIncrease (started : t.Started ListedInOrder) : t.PositionsIncrease := by
  cases started with
  | empty name => exact List.Pairwise.nil
  | catalog fit found =>
    rw [PositionsIncrease, fit.positions found]
    exact fit.1

theorem Started.positioned (started : t.Started ListedInOrder) : t.Positioned := by
  cases started with
  | empty name => exact List.forall_mem_nil _
  | catalog fit found =>
    rw [Positioned, fit.positions found]
    exact List.forall_mem_map.mpr fit.2

end Table

/-- Positions increase in every blueprint on the way of a run exactly when each new column fits
behind the columns that are there. -/
theorem positions_increase_iff {t : Table} (started : t.Started Table.ListedInOrder)
    (calls : List TableCall) :
    (∀ done, done <+: calls → (TableCall.runAll done t).PositionsIncrease) ↔
      ∀ done call, done ++ [call] <+: calls → call.AppendsBehind (TableCall.runAll done t) :=
  TableCall.always_iff (I := fun t => t.Indexed ∧ t.Positioned)
    (fun call _ held => ⟨held.1.run call, held.2.run held.1 call⟩)
    (fun call _ held increasing => increasing.run_iff call held.1 held.2)
    ⟨started.indexed, started.positioned⟩ started.positionsIncrease calls

/-- Columns as a catalog lists them where the second of three was dropped. -/
def columnsWithGap : List Column :=
  [{ name := "a", type := .text, position := 1 }, { name := "c", type := .text, position := 3 }]

/-- On a listing with a gap a new column comes to stand where the last one is; with the last one
dropped there is no gap. -/
theorem positions_increase_listed :
    ∃ t, Table.ofCatalog "t" none columnsWithGap [] = .ok t ∧
      (TableCall.runAll [.dropColumns ["c"], .column (.typed .text "d")] t).PositionsIncrease ∧
      ¬ ∀ done, done <+: [TableCall.column (.typed .text "d")] →
        (TableCall.runAll done t).PositionsIncrease := by
  obtain ⟨t, found⟩ : ∃ t, Table.ofCatalog "t" none columnsWithGap [] = .ok t := ⟨_, rfl⟩
  have started : t.Started Table.ListedInOrder := by
    refine .catalog ⟨?_, ?_⟩ found
    · decide
    · simp [columnsWithGap]
  have names : t.columnNames = ["a", "c"] := by
    cases found
    rfl
  have positions : t.positions = [1, 3] ∧ (t.dropColumns ["c"]).positions = [1] := by
    cases found
    exact ⟨rfl, rfl⟩
  have counts : t.columns.length = 2 ∧ (t.dropColumns ["c"]).columns.length = 1 := by
    rw [← Table.length_positions, ← Table.length_positions, positions.1, positions.2]
    exact ⟨rfl, rfl⟩
  refine ⟨t, found, ?_, ?_⟩
  · have drops : TableCall.AppendsBehind t (.dropColumns ["c"]) := List.forall_mem_nil _
    have adds : TableCall.AppendsBehind (t.dropColumns ["c"]) (.column (.typed .text "d")) := by
      refine List.forall_mem_singleton.mpr fun _ => ?_
      simp [Table.FitsBehind, ColumnCall.typed, Table.Unbroken, positions.2, counts.2]
    exact (positions_increase_iff started _).mpr
      (TableCall.forall_call_cons.mpr
        ⟨drops, TableCall.forall_call_cons.mpr ⟨adds, TableCall.forall_call_nil⟩⟩)
      _ (List.prefix_refl _)
  · intro always
    have adds : TableCall.AppendsBehind t (.column (.typed .text "d")) :=
      (positions_increase_iff started _).mp always [] _ (List.prefix_refl _)
    have unbroken : t.Unbroken :=
      adds _ (List.mem_singleton_self _) (by simp [names, ColumnCall.typed])
    rw [Table.Unbroken, positions.1, counts.1] at unbroken
    exact absurd unbroken (by decide)

/-- A column that is added after a drop gets the position of the last column. -/
theorem position_repeated :
    ¬ (TableCall.runAll
        [.column (.typed .text "a"), .column (.typed .text "b"), .dropColumns ["a"],
         .column (.typed .text "c")]
        { name := "t" }).PositionsIncrease := by
  intro increasing
  have repeated : [2, 2].Pairwise (· < ·) := increasing
  exact absurd repeated (by decide)

end Sqlwright
