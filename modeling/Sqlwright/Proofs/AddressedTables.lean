import Sqlwright.Ddl.Alter
import Sqlwright.Catalog.Listing
import Sqlwright.Proofs.QualifiedNames

/-!
Which table statements name. A written reference keeps every point of its text, so two references
that differ in their points are written differently. The statements of a change name the table they
change by the blueprint they are written for; a comment names it by the column it comments on.
-/

namespace Sqlwright

/-! ### Points of references -/

/-- The points in what a piece says. -/
def Piece.points : Piece → Nat
  | .text s | .name s => s.toList.count '.'
  | _ => 0

/-- The points in a row of pieces. -/
def pointsOf : List Piece → Nat
  | [] => 0
  | piece :: rest => piece.points + pointsOf rest

@[simp] theorem pointsOf_nil : pointsOf [] = 0 := rfl

@[simp] theorem pointsOf_cons (piece : Piece) (rest : List Piece) :
    pointsOf (piece :: rest) = piece.points + pointsOf rest := rfl

@[simp] theorem pointsOf_append (front back : List Piece) :
    pointsOf (front ++ back) = pointsOf front + pointsOf back := by
  induction front with
  | nil => simp
  | cons piece rest ih => rw [List.cons_append, pointsOf_cons, pointsOf_cons, ih, Nat.add_assoc]

namespace Grammar

variable (g : Grammar)

@[simp] theorem points_segment (s : String) : (segment s).points = s.toList.count '.' := by
  unfold segment
  split
  · subst s
    rfl
  · rfl

@[simp] theorem points_tableSegment (s : String) :
    (g.tableSegment s).points = g.tablePrefix.toList.count '.' + s.toList.count '.' := by
  simp [tableSegment]

theorem dotted_cons (piece : Piece) {rest : List Piece} (some : rest ≠ []) :
    dotted (piece :: rest) = piece :: .text "." :: dotted rest := by
  obtain ⟨next, more, rfl⟩ := List.exists_cons_of_ne_nil some
  rfl

/-- A name has the points of its text and those of the prefix. -/
theorem pointsOf_tableSegments {fields : List (List Char)} (some : fields ≠ []) :
    pointsOf (dotted (g.tableSegments (fields.map .ofList))) =
      (Text.joinWith '.' fields).count '.' + g.tablePrefix.toList.count '.' := by
  match fields with
  | [] => exact absurd rfl some
  | [table] =>
    have alone : dotted (g.tableSegments [.ofList table]) = [g.tableSegment (.ofList table)] := rfl
    rw [List.map_singleton, alone, pointsOf_cons, pointsOf_nil, points_tableSegment,
      String.toList_ofList, Text.joinWith]
    omega
  | qualifier :: next :: rest =>
    have later : next :: rest ≠ [] := List.cons_ne_nil next rest
    have inner := pointsOf_tableSegments later
    have segments : (next :: rest).map String.ofList ≠ [] := by simp
    have whole : dotted (g.tableSegments ((qualifier :: next :: rest).map .ofList)) =
        segment (.ofList qualifier) :: .text "." ::
          dotted (g.tableSegments ((next :: rest).map .ofList)) :=
      dotted_cons _ (g.tableSegments_ne_nil segments)
    have point : (Piece.text ".").points = 1 := rfl
    have joined : Text.joinWith '.' (qualifier :: next :: rest) =
        qualifier ++ '.' :: Text.joinWith '.' (next :: rest) := rfl
    rw [whole, joined, pointsOf_cons, pointsOf_cons, point, points_segment, inner,
      String.toList_ofList, List.count_append, List.count_cons_self]
    omega

theorem pointsOf_namePieces (name : List Char) :
    pointsOf (g.namePieces name) = name.count '.' + g.tablePrefix.toList.count '.' := by
  rw [namePieces, g.pointsOf_tableSegments (Text.splitOn_ne_nil '.' name), Text.joinWith_splitOn]

/-- A table reference has all points of the text it is written for, and those of the prefix once
more for every name that the prefix is put before. -/
theorem pointsOf_table (text : String) :
    pointsOf (g.table text) = text.toList.count '.' +
      ((g.table text).countP Piece.isLabel + 1) * g.tablePrefix.toList.count '.' := by
  cases found : Text.splitAlias? text.toList with
  | none =>
    have labels : (g.table text).countP Piece.isLabel = 0 := by
      rw [g.table_plain found, List.countP_eq_zero]
      simpa using g.namePieces_unlabelled (Text.trimChars text.toList)
    rw [labels, g.table_plain found, pointsOf_namePieces, Text.count_trimChars (by decide)]
    omega
  | some parts =>
    obtain ⟨name, label⟩ := parts
    have shorter := Text.length_lt_of_splitAlias? found
    have points := (Text.splitAlias?_eq_some_iff.mp found).count_point
    have inner := pointsOf_table (.ofList name)
    have word : (Piece.text " as ").points = 0 := rfl
    have labels : List.countP Piece.isLabel
        [.text " as ", g.tableSegment (.ofList label)] = 1 := by
      simp [tableSegment, List.countP_cons]
    rw [String.toList_ofList] at inner
    rw [g.table_label found, pointsOf_append, List.countP_append, inner, labels, points]
    simp only [pointsOf_cons, pointsOf_nil, word, points_tableSegment, String.toList_ofList,
      Nat.add_mul, Nat.one_mul]
    omega
termination_by text.toList.length
decreasing_by simpa using shorter

/-- Two texts that are written alike have as many points. -/
theorem count_point_of_table_eq {first second : String} (same : g.table first = g.table second) :
    first.toList.count '.' = second.toList.count '.' := by
  have one := g.pointsOf_table first
  have other := g.pointsOf_table second
  rw [same] at one
  omega

end Grammar

theorem unqualified_free (name : String) : '.' ∉ (unqualified name).toList := by
  intro inside
  have kept : '.' ∈ name.toList.reverse.takeWhile (· != '.') := by
    simpa [unqualified, Text.afterLast] using inside
  simpa using List.mem_takeWhile_imp kept

theorem unqualified_of_free {name : String} (free : '.' ∉ name.toList) :
    unqualified name = name := by
  have all : name.toList.reverse.takeWhile (· != '.') = name.toList.reverse := by
    refine List.takeWhile_eq_self_iff.mpr fun c inside => ?_
    have apart : c ≠ '.' := by
      rintro rfl
      exact free (List.mem_reverse.mp inside)
    simpa using apart
  rw [unqualified, Text.afterLast, all]
  simp

/-- A name is written like its last part exactly if it has no other. -/
theorem table_unqualified_iff (g : Grammar) (name : String) :
    g.table (unqualified name) = g.table name ↔ '.' ∉ name.toList := by
  constructor
  · intro same
    have counted := g.count_point_of_table_eq same
    rw [List.count_eq_zero.mpr (unqualified_free name)] at counted
    exact List.count_eq_zero.mp counted.symm
  · intro free
    rw [unqualified_of_free free]

/-! ### What statements address -/

/-- Pieces that references are written with. -/
def Piece.isReference : Piece → Bool
  | .name _ | .text "." | .text "*" | .text " as " => true
  | _ => false

/-- The reference that a row of pieces starts with. -/
def leadingReference (pieces : List Piece) : List Piece := pieces.takeWhile Piece.isReference

/-- The table that stands behind an index. -/
def indexedTable? : List Piece → Option (List Piece)
  | _ :: .text " ON " :: rest => some (leadingReference rest)
  | _ => none

/-- The table that a statement changes, as it is named there: the one that is altered, the one whose
column is renamed or commented on, or the one that an index is created on or dropped from. -/
def addressed? : List Piece → Option (List Piece)
  | .text words :: rest =>
    if words = "ALTER TABLE " then some (leadingReference rest)
    else if words = "COMMENT ON COLUMN " ∨ words = "RENAME COLUMN " then
      some (leadingReference rest).dropLast.dropLast
    else indexedTable? rest
  | _ => none

/-- Words that neither a table nor a column stands behind. -/
def NamesNoTable (words : String) : Prop :=
  words ≠ "ALTER TABLE " ∧ words ≠ "COMMENT ON COLUMN " ∧ words ≠ "RENAME COLUMN "

theorem addressed?_of_namesNoTable {words : String} (other : NamesNoTable words)
    (rest : List Piece) : addressed? (.text words :: rest) = indexedTable? rest := by
  obtain ⟨table, comment, rename⟩ := other
  rw [addressed?, if_neg table, if_neg (not_or.mpr ⟨comment, rename⟩)]

/-- A statement that names no other table as the one it changes. -/
def Addresses (ref : List Piece) (statement : List Piece) : Prop :=
  ∀ named, addressed? statement = some named → named = ref

theorem addresses_of_none {ref statement : List Piece} (nowhere : addressed? statement = none) :
    Addresses ref statement := by
  intro named found
  rw [nowhere] at found
  cases found

theorem addresses_of_eq {ref statement : List Piece} (there : addressed? statement = some ref) :
    Addresses ref statement := by
  intro named found
  rw [there] at found
  exact (Option.some.inj found).symm

namespace Grammar

variable (g : Grammar) {t : Table}

theorem segment_isReference (s : String) : (segment s).isReference := by
  unfold segment
  split <;> rfl

theorem table_isReference (text : String) : ∀ piece ∈ g.table text, piece.isReference := by
  intro piece inside
  rcases List.mem_append.mp inside with name | labels
  · have each := g.tableSegments_forall (p := fun piece => piece.isReference) segment_isReference
    exact dotted_forall (p := fun piece => piece.isReference) rfl (each _) piece name
  · obtain ⟨label, -, inside⟩ := List.mem_flatMap.mp labels
    rcases List.mem_pair.mp inside with rfl | rfl
    · rfl
    · exact segment_isReference _

/-- A table is read up to the first piece that no reference is written with. -/
theorem leadingReference_table (text : String) {stop : Piece} (apart : stop.isReference = false)
    (rest : List Piece) : leadingReference (g.table text ++ stop :: rest) = g.table text := by
  rw [leadingReference, List.takeWhile_append_of_pos (g.table_isReference text),
    List.takeWhile_cons, apart]
  simp

theorem leadingReference_table_end (text : String) :
    leadingReference (g.table text) = g.table text :=
  List.takeWhile_eq_self_iff.mpr (g.table_isReference text)

/-- Behind a table, a point and the name of a column are read with it. -/
theorem leadingReference_column (table column : String) {stop : Piece}
    (apart : stop.isReference = false) (rest : List Piece) :
    (leadingReference
        (g.table table ++ .text "." :: segment column :: stop :: rest)).dropLast.dropLast =
      g.table table := by
  have inside : ∀ piece ∈ g.table table ++ [.text ".", segment column], piece.isReference := by
    refine List.forall_mem_append.mpr ⟨g.table_isReference table, ?_⟩
    exact List.forall_mem_cons.mpr
      ⟨rfl, List.forall_mem_singleton.mpr (segment_isReference column)⟩
  have whole : g.table table ++ .text "." :: segment column :: stop :: rest =
      (g.table table ++ [.text ".", segment column]) ++ stop :: rest := by simp
  rw [whole, leadingReference, List.takeWhile_append_of_pos inside, List.takeWhile_cons, apart]
  have two : g.table table ++ [.text ".", segment column] =
      (g.table table ++ [.text "."]) ++ [segment column] := by simp
  rw [if_neg Bool.false_ne_true, List.append_nil, two, List.dropLast_concat, List.dropLast_concat]

theorem altering_addresses (t : Table) {action : String} (rest : List Piece)
    (apart : (Piece.text (" " ++ action)).isReference = false) :
    Addresses (g.table t.name) (g.altering t action rest) :=
  addresses_of_eq (congrArg some (g.leadingReference_table t.name apart rest))

theorem commentStatement_addresses {column : Column} {statement : List Piece}
    (commented : g.commentStatement? column = some statement) :
    Addresses (g.table column.tableName) statement := by
  obtain ⟨comment, -, rfl⟩ := Option.map_eq_some_iff.mp commented
  exact addresses_of_eq
    (congrArg some (g.leadingReference_column column.tableName column.name rfl _))

theorem vectorIndex_addresses (t : Table) (index : Index) (column : Column) :
    Addresses (g.table t.name) (g.vectorIndex t index column) := by
  have apart : (Piece.text (" USING " ++ (vectorMethod column.type).1 ++ " (")).isReference =
      false := by
    cases column.type <;> rfl
  obtain ⟨rest, whole⟩ : ∃ rest, g.vectorIndex t index column =
      .text "CREATE INDEX " :: segment (g.indexName t.name index.name) :: .text " ON " ::
        (g.table t.name ++ .text (" USING " ++ (vectorMethod column.type).1 ++ " (") :: rest) :=
    ⟨_, by simp only [vectorIndex, List.append_assoc, List.cons_append, List.nil_append]; rfl⟩
  rw [whole]
  exact addresses_of_eq (congrArg some (g.leadingReference_table t.name apart rest))

theorem plainIndex_addresses (t : Table) (index : Index) :
    Addresses (g.table t.name) (g.plainIndex t index) := by
  have other : NamesNoTable ("CREATE " ++ Dialect.indexKeyword index.kind ++ " ") := by
    cases index.kind <;> exact ⟨by decide, by decide, by decide⟩
  refine addresses_of_eq ((addressed?_of_namesNoTable other _).trans ?_)
  exact congrArg some (g.leadingReference_table t.name rfl _)

/-- An index is created on the table of its blueprint. -/
theorem createIndex?_addresses (t : Table) {index : Index} {statement : List Piece}
    (created : g.createIndex? t index = some statement) :
    Addresses (g.table t.name) statement := by
  simp only [createIndex?] at created
  split at created
  · cases created
  · split at created
    · split at created
      · cases created
      · split at created
        · cases created
          exact g.vectorIndex_addresses t index _
        · cases created
          exact g.plainIndex_addresses t index
    · cases created
      exact g.plainIndex_addresses t index

/-- The types that a column relies on belong to no table. -/
theorem createTypes_addresses {columns : List Column} {statement : List Piece}
    (created : statement ∈ g.dialect.createTypes columns) (ref : List Piece) :
    Addresses ref statement := by
  unfold Dialect.createTypes at created
  split at created
  · obtain ⟨column, -, rfl⟩ := List.mem_map.mp created
    have different {words : String} (first : words.toList.head? ≠ some 'D') :
        "DO $$ BEGIN CREATE TYPE " ++ column.enumTypeName ++ " AS ENUM (" ≠ words := by
      rintro rfl
      simp at first
    have other : NamesNoTable ("DO $$ BEGIN CREATE TYPE " ++ column.enumTypeName ++ " AS ENUM (") :=
      ⟨different (by decide), different (by decide), different (by decide)⟩
    refine addresses_of_none ((addressed?_of_namesNoTable other _).trans ?_)
    match column.options with
    | [] => rfl
    | [label] => rfl
    | first :: second :: rest => rfl
  · cases created

/-! ### Statements of a log -/

/-- A column that is in the table it says it is in. -/
theorem commenting_addresses {column : Column} (owned : column.tableName = t.name)
    {statement : List Piece} (commented : statement ∈ g.commenting column) :
    Addresses (g.table t.name) statement := by
  rw [← owned]
  exact g.commentStatement_addresses (Option.mem_toList.mp commented)

theorem alterAddColumn_addresses {column : Column} (owned : column.tableName = t.name)
    {statement : List Piece} (written : statement ∈ g.alterAddColumn t column) :
    Addresses (g.table t.name) statement := by
  unfold alterAddColumn at written
  split at written
  · rcases List.mem_cons.mp written with rfl | commented
    · exact g.altering_addresses t _ rfl
    · exact g.commenting_addresses owned commented
  · rcases List.mem_append.mp written with added | commented
    · rcases List.mem_append.mp added with created | altered
      · exact g.createTypes_addresses created _
      · rw [List.mem_singleton.mp altered]
        exact g.altering_addresses t _ rfl
    · exact g.commenting_addresses owned commented

theorem postgresModifyColumn_addresses {column : Column} (owned : column.tableName = t.name)
    {statement : List Piece} (written : statement ∈ g.postgresModifyColumn t column) :
    Addresses (g.table t.name) statement := by
  simp only [postgresModifyColumn] at written
  rcases List.mem_append.mp written with altered | commented
  · rcases List.mem_append.mp altered with created | altered
    · exact g.createTypes_addresses created _
    · simp only [List.mem_cons, List.not_mem_nil, or_false] at altered
      rcases altered with rfl | rfl | rfl <;> exact g.altering_addresses t _ rfl
  · exact g.commenting_addresses owned commented

theorem alterModifyColumn_addresses {column : Column} (owned : column.tableName = t.name)
    {statements : List (List Piece)} (ready : g.alterModifyColumn t column = .ok statements)
    {statement : List Piece} (written : statement ∈ statements) :
    Addresses (g.table t.name) statement := by
  have commented (inside : statement ∈ g.commenting column) :
      Addresses (g.table t.name) statement := g.commenting_addresses owned inside
  unfold alterModifyColumn at ready
  split at ready
  all_goals cases ready
  · rw [List.mem_singleton.mp written]
    exact g.altering_addresses t _ rfl
  · exact g.postgresModifyColumn_addresses owned written
  all_goals
    rcases List.mem_cons.mp written with rfl | inside
    · exact g.altering_addresses t _ rfl
    · exact commented inside

theorem alterRenameColumn_addresses {source target : String} {statements : List (List Piece)}
    (ready : g.alterRenameColumn t source target = .ok statements) {statement : List Piece}
    (written : statement ∈ statements) : Addresses (g.table t.name) statement := by
  unfold alterRenameColumn at ready
  split at ready
  · split at ready
    all_goals
      cases ready
      rw [List.mem_singleton.mp written]
    · exact addresses_of_eq (congrArg some (g.leadingReference_column t.name source rfl _))
    · exact g.altering_addresses t _ rfl
  · cases ready

theorem alterDropColumn_addresses (t : Table) (name : String) :
    Addresses (g.table t.name) (g.alterDropColumn t name) := by
  unfold alterDropColumn
  split <;> exact g.altering_addresses t _ rfl

theorem alterDropIndex_addresses (t : Table) (name : String) :
    Addresses (g.table t.name) (g.alterDropIndex t name) := by
  simp only [alterDropIndex]
  split
  · exact addresses_of_eq (congrArg some (g.leadingReference_table_end t.name))
  · exact addresses_of_none rfl

theorem alterRenameIndex_addresses {source target : String} {statements : List (List Piece)}
    (ready : g.alterRenameIndex t source target = .ok statements) {statement : List Piece}
    (written : statement ∈ statements) : Addresses (g.table t.name) statement := by
  simp only [alterRenameIndex] at ready
  split at ready
  · cases ready
  · cases ready
    rw [List.mem_singleton.mp written]
    exact g.altering_addresses t _ rfl
  all_goals
    cases ready
    rw [List.mem_singleton.mp written]
    exact addresses_of_none rfl

theorem alterCreatePrimary_addresses {key : PrimaryKey} {statements : List (List Piece)}
    (ready : g.alterCreatePrimary t key = .ok statements) {statement : List Piece}
    (written : statement ∈ statements) : Addresses (g.table t.name) statement := by
  unfold alterCreatePrimary at ready
  split at ready
  · cases ready
  · cases ready
    rw [List.mem_singleton.mp written]
    exact g.altering_addresses t _ rfl

theorem alterDropPrimary_addresses {constraint : String} {statements : List (List Piece)}
    (ready : g.alterDropPrimary t constraint = .ok statements) {statement : List Piece}
    (written : statement ∈ statements) : Addresses (g.table t.name) statement := by
  simp only [alterDropPrimary] at ready
  split at ready
  · cases ready
  all_goals
    cases ready
    rw [List.mem_singleton.mp written]
    exact g.altering_addresses t _ rfl

end Grammar

/-- A change whose column, if it defines one, is in the table of a name. -/
def Change.In (name : String) (change : Change) : Prop :=
  ∀ column, change.column? = some column → column.tableName = name

/-- Every statement of a change in a table names the table as the blueprint is called. -/
theorem Grammar.alterStatements_addresses (g : Grammar) {t : Table} {change : Change}
    (owned : change.In t.name) {statements : List (List Piece)}
    (ready : g.alterStatements t change = .ok statements) {statement : List Piece}
    (written : statement ∈ statements) : Addresses (g.table t.name) statement := by
  cases change with
  | addColumn column =>
    cases ready
    exact g.alterAddColumn_addresses (owned column rfl) written
  | modifyColumn column => exact g.alterModifyColumn_addresses (owned column rfl) ready written
  | renameColumn source target => exact g.alterRenameColumn_addresses ready written
  | dropColumn name =>
    cases ready
    rw [List.mem_singleton.mp written]
    exact g.alterDropColumn_addresses t name
  | createIndex index =>
    cases ready
    exact g.createIndex?_addresses t (Option.mem_toList.mp written)
  | dropIndex name =>
    cases ready
    rw [List.mem_singleton.mp written]
    exact g.alterDropIndex_addresses t name
  | renameIndex source target => exact g.alterRenameIndex_addresses ready written
  | createPrimary key => exact g.alterCreatePrimary_addresses ready written
  | dropPrimary constraint => exact g.alterDropPrimary_addresses ready written

end Sqlwright
