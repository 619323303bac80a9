import Sqlwright.Proofs.WriteNumbering

/-!
Cells that hold the default of their column. A default is meant to be written as the keyword DEFAULT
in place of a placeholder. The statements that write bind it like any other value instead, so they
are what they should be where no cell and no assignment is a default, and only there.
-/

namespace Sqlwright

/-! ### Defaults as keywords -/

namespace Operand

/-- A bound value that stands for the default of its column. -/
def isDefault : Operand → Bool
  | .value .default => true
  | _ => false

/-- The keyword DEFAULT in place of a default. -/
def asKeyword : Operand → Operand
  | .value .default => .raw "DEFAULT"
  | operand => operand

theorem asKeyword_eq_self {operand : Operand} (other : ¬ operand.isDefault) :
    operand.asKeyword = operand := by
  unfold asKeyword
  split
  · exact absurd rfl other
  · rfl

/-- The keyword binds nothing where the default binds a value. -/
theorem length_values_asKeyword (operand : Operand) :
    operand.values.length = operand.asKeyword.values.length + operand.isDefault.toNat := by
  by_cases default : operand.isDefault
  · unfold isDefault at default
    split at default
    · rfl
    · cases default
  · rw [asKeyword_eq_self default, eq_false_of_ne_true default]
    rfl

theorem length_values_keywords (operands : List Operand) :
    (operands.flatMap values).length =
      ((operands.map asKeyword).flatMap values).length + operands.countP isDefault := by
  induction operands with
  | nil => rfl
  | cons operand rest ih =>
    rw [List.flatMap_cons, List.map_cons, List.flatMap_cons, List.length_append, List.length_append,
      ih, operand.length_values_asKeyword, List.countP_cons]
    cases operand.isDefault <;> simp <;> omega

/-- Operands bind the same as with keywords only where no default is among them. -/
theorem values_keywords_iff {operands : List Operand} :
    (operands.map asKeyword).flatMap values = operands.flatMap values ↔
      ∀ operand ∈ operands, ¬ operand.isDefault := by
  constructor
  · intro same
    have lengths := length_values_keywords operands
    rw [same] at lengths
    exact List.countP_eq_zero.mp (by omega)
  · intro none
    rw [List.map_congr_left fun operand member => asKeyword_eq_self (none operand member),
      List.map_id']

end Operand

namespace Record

/-- The operands of a record, in the order of its columns. -/
def operands (r : Record) : List Operand := r.fields.map (·.2)

def withKeywords (r : Record) : Record :=
  ⟨r.fields.map fun field => (field.1, field.2.asKeyword)⟩

variable (r : Record)

theorem columns_withKeywords : r.withKeywords.columns = r.columns := by
  simp [withKeywords, columns, Function.comp_def]

theorem operands_withKeywords : r.withKeywords.operands = r.operands.map Operand.asKeyword := by
  simp [withKeywords, operands, Function.comp_def]

theorem values_eq_operands : r.values = r.operands.flatMap Operand.values := by
  rw [values, operands, List.flatMap_map]

theorem get?_withKeywords (column : String) :
    r.withKeywords.get? column = (r.get? column).map Operand.asKeyword := by
  simp [withKeywords, get?, List.find?_map, Function.comp_def]

theorem row_withKeywords (columns : List String) :
    r.withKeywords.row columns = (r.row columns).map Operand.asKeyword := by
  rw [row, row, List.map_map]
  refine List.map_congr_left fun column _ => ?_
  rw [Function.comp_apply, r.get?_withKeywords]
  cases r.get? column <;> rfl

theorem withKeywords_eq_self {r : Record} (none : ∀ operand ∈ r.operands, ¬ operand.isDefault) :
    r.withKeywords = r := by
  have fields : r.fields.map (fun field => (field.1, field.2.asKeyword)) = r.fields := by
    refine (List.map_congr_left fun field member => ?_).trans (List.map_id' _)
    rw [Operand.asKeyword_eq_self (none _ (List.mem_map_of_mem member))]
  rw [withKeywords, fields]

end Record

namespace RowSet

/-- The cells that records fill, row by row. -/
def cells (records : List Record) : List Operand := (ofRecords records).rows.flatten

def withKeywords (data : RowSet) : RowSet :=
  ⟨data.columns, data.rows.map (List.map Operand.asKeyword)⟩

theorem ofRecords_withKeywords (records : List Record) :
    ofRecords (records.map Record.withKeywords) = (ofRecords records).withKeywords := by
  cases records with
  | nil => rfl
  | cons first rest =>
    rw [List.map_cons, ofRecords, first.columns_withKeywords, ← List.map_cons, ofRecords,
      withKeywords, List.map_map, List.map_map]
    congr 1
    exact List.map_congr_left fun r _ => r.row_withKeywords _

theorem cells_withKeywords (records : List Record) :
    cells (records.map Record.withKeywords) = (cells records).map Operand.asKeyword := by
  rw [cells, ofRecords_withKeywords, withKeywords, cells, List.map_flatten]

theorem withKeywords_eq_self {data : RowSet}
    (none : ∀ operand ∈ data.rows.flatten, ¬ operand.isDefault) : data.withKeywords = data := by
  have rows : data.rows.map (List.map Operand.asKeyword) = data.rows := by
    refine (List.map_congr_left fun row member => ?_).trans (List.map_id' _)
    refine (List.map_congr_left fun operand inside => ?_).trans (List.map_id' _)
    exact Operand.asKeyword_eq_self (none _ (List.mem_flatten_of_mem member inside))
  rw [withKeywords, rows]

/-- Where there are no columns there are no cells. -/
theorem cells_of_isEmpty {records : List Record} (empty : (ofRecords records).isEmpty) :
    cells records = [] := by
  cases records with
  | nil => rfl
  | cons first rest =>
    have columns : first.columns = [] := by simpa [ofRecords, isEmpty] using empty
    simp [cells, ofRecords, columns, Record.row]

end RowSet

namespace Overwrite

/-- The operands that are set in rows that are already there. -/
def operands : Overwrite → List Operand
  | .columns _ => []
  | .values record => record.operands

def withKeywords : Overwrite → Overwrite
  | .columns names => .columns names
  | .values record => .values record.withKeywords

variable (update : Overwrite)

theorem operands_withKeywords :
    update.withKeywords.operands = update.operands.map Operand.asKeyword := by
  cases update with
  | columns names => rfl
  | values record => exact record.operands_withKeywords

theorem isEmpty_withKeywords : update.withKeywords.isEmpty = update.isEmpty := by
  cases update with
  | columns names => rfl
  | values record => simp [withKeywords, Record.withKeywords, isEmpty]

theorem operands_of_isEmpty {update : Overwrite} (empty : update.isEmpty) :
    update.operands = [] := by
  cases update with
  | columns names => rfl
  | values record => simpa [isEmpty, operands, Record.operands] using empty

theorem withKeywords_eq_self {update : Overwrite}
    (none : ∀ operand ∈ update.operands, ¬ operand.isDefault) : update.withKeywords = update := by
  cases update with
  | columns names => rfl
  | values record => rw [withKeywords, Record.withKeywords_eq_self none]

theorem orInserted_withKeywords (inserted key : List String) :
    update.withKeywords.orInserted inserted key =
      (update.orInserted inserted key).withKeywords := by
  rw [orInserted, orInserted, update.isEmpty_withKeywords]
  split <;> rfl

theorem Sound.orInserted {update : Overwrite} (sound : update.Sound) (inserted key : List String) :
    (update.orInserted inserted key).Sound := by
  unfold Overwrite.orInserted
  split
  · trivial
  · exact sound

/-- Columns that stand for an empty overwrite set no operands of their own. -/
theorem operands_orInserted (inserted key : List String) :
    (update.orInserted inserted key).operands = update.operands := by
  unfold orInserted
  split
  · next empty => rw [operands_of_isEmpty empty, operands]
  · rfl

theorem overwriteValues_eq :
    Grammar.overwriteValues update = update.operands.flatMap Operand.values := by
  cases update with
  | columns names => rfl
  | values record => exact record.values_eq_operands

end Overwrite

/-! ### Statements over defaults -/

/-- Two statements send the same. -/
def Statement.Same (d : Dialect) (s t : Statement) : Prop := s.sql d = t.sql d ∧ s.values = t.values

/-- A statement that binds the values of what it writes is the one with keywords only where it
writes no defaults. -/
theorem Statement.same_iff {d : Dialect} {s t : Statement} {written : List Operand}
    {front behind : List Value}
    (bound : s.values = front ++ written.flatMap Operand.values ++ behind)
    (keyed : t.values = front ++ (written.map Operand.asKeyword).flatMap Operand.values ++ behind)
    (unchanged : (∀ operand ∈ written, ¬ operand.isDefault) → t = s) :
    s.Same d t ↔ ∀ operand ∈ written, ¬ operand.isDefault := by
  constructor
  · -- The texts need not be compared: a default binds a value and a keyword none.
    rintro ⟨-, values⟩
    rw [bound, keyed] at values
    exact Operand.values_keywords_iff.mp
      (List.append_cancel_left (List.append_cancel_right values)).symm
  · exact fun none => unchanged none ▸ ⟨rfl, rfl⟩

namespace Grammar

variable (g : Grammar) (q : Query)

theorem writeRows_values (verb : String) (records : List Record) :
    (g.writeRows verb q (.ofRecords records)).values =
      (RowSet.cells records).flatMap Operand.values := by
  unfold writeRows
  split
  · next empty => rw [RowSet.cells_of_isEmpty empty, List.flatMap_nil]
  · rfl

theorem insertOrIgnore_values (records : List Record) :
    (g.insertOrIgnore q (.ofRecords records)).values =
      (RowSet.cells records).flatMap Operand.values := by
  unfold insertOrIgnore
  split
  · exact g.writeRows_values q _ records
  · exact g.writeRows_values q _ records
  · exact (List.append_nil _).trans (g.writeRows_values q _ records)
  · exact g.writeRows_values q _ records
  · exact g.writeRows_values q _ records

theorem insertGetId_values (record : Record) (sequence : Option String) :
    (g.insertGetId q record sequence).values =
      (RowSet.cells [record]).flatMap Operand.values := by
  unfold insertGetId
  split
  · exact (List.append_nil _).trans (g.writeRows_values q _ [record])
  · exact g.writeRows_values q _ [record]

/-- An update binds the values of its assignments between those of its clauses. -/
theorem update_values : ∃ front behind, ∀ record : Record,
    (g.update q record).values = front ++ record.values ++ behind := by
  unfold update
  split
  · exact ⟨_, _, fun record => List.append_assoc ..⟩
  · split
    · exact ⟨[], _, fun record => rfl⟩
    · exact ⟨_, _, fun record => rfl⟩
  · exact ⟨_, _, fun record => rfl⟩

/-- The operands that an upsert sets in rows that are already there. -/
def overwritten (update : Overwrite) : List Operand :=
  match g.dialect with
  | .mysql | .postgres | .sqlite => update.operands
  | .generic | .hana => []

theorem onConflict_values (insert : Statement) (key : List String) (update : Overwrite) :
    (g.onConflict insert key update).values =
      insert.values ++ update.operands.flatMap Operand.values := by
  unfold onConflict
  split
  · next empty => rw [Overwrite.operands_of_isEmpty empty, List.flatMap_nil, Statement.append]
  · rw [← update.overwriteValues_eq, Statement.append]

theorem onDuplicate_values (insert : Statement) (update : Overwrite) :
    (g.onDuplicate insert update).values =
      insert.values ++ update.operands.flatMap Operand.values := by
  unfold onDuplicate
  split
  · next empty => rw [Overwrite.operands_of_isEmpty empty, List.flatMap_nil, List.append_nil]
  · rw [← update.overwriteValues_eq, Statement.append]

theorem upsert_values (records : List Record) (key : List String) (update : Overwrite) :
    (g.upsert q (.ofRecords records) key update).values =
      (RowSet.cells records ++ g.overwritten update).flatMap Operand.values := by
  have inserted (verb : String) := g.writeRows_values q verb records
  rw [List.flatMap_append]
  unfold upsert overwritten
  cases g.dialect with
  | mysql => exact (g.onDuplicate_values _ update).trans (congrArg (· ++ _) (inserted _))
  | postgres | sqlite =>
    exact (g.onConflict_values _ key update).trans (congrArg (· ++ _) (inserted _))
  | hana | generic => exact (inserted _).trans (List.append_nil _).symm

theorem overwritten_withKeywords (update : Overwrite) :
    g.overwritten update.withKeywords = (g.overwritten update).map Operand.asKeyword := by
  unfold overwritten
  cases g.dialect with
  | mysql | postgres | sqlite => exact update.operands_withKeywords
  | generic | hana => rfl

/-- An upsert depends on what overwrites a row no more than the dialect writes of it. -/
theorem upsert_withKeywords (data : RowSet) (key : List String) {update : Overwrite}
    (none : ∀ operand ∈ g.overwritten update, ¬ operand.isDefault) :
    g.upsert q data key update.withKeywords = g.upsert q data key update := by
  revert none
  unfold overwritten upsert
  cases g.dialect with
  | mysql | postgres | sqlite =>
    intro none
    rw [Overwrite.withKeywords_eq_self none]
  | generic | hana => exact fun _ => rfl

end Grammar

/-! ### Where defaults are what they should be -/

section Same

variable {d : Dialect} {g : Grammar} {q : Query}

/-- Records without defaults fill the same rows with keywords. -/
theorem RowSet.ofRecords_keyed {records : List Record}
    (none : ∀ operand ∈ cells records, ¬ operand.isDefault) :
    ofRecords (records.map Record.withKeywords) = ofRecords records :=
  (ofRecords_withKeywords records).trans (withKeywords_eq_self none)

/-- A statement that binds the values of the cells is the one with keywords only where no cell is a
default. -/
theorem rows_same_iff {write : RowSet → Statement} (values : ∀ records,
      (write (.ofRecords records)).values = (RowSet.cells records).flatMap Operand.values)
    (records : List Record) :
    (write (.ofRecords records)).Same d (write (.ofRecords (records.map Record.withKeywords))) ↔
      ∀ operand ∈ RowSet.cells records, ¬ operand.isDefault := by
  have keyed := values (records.map Record.withKeywords)
  rw [RowSet.cells_withKeywords] at keyed
  refine @Statement.same_iff d _ _ _ [] [] ?_ ?_ fun none => ?_
  · rw [values, List.nil_append, List.append_nil]
  · rw [keyed, List.nil_append, List.append_nil]
  · rw [RowSet.ofRecords_keyed none]

theorem insertGetId_same_iff (record : Record) (sequence : Option String) :
    (g.insertGetId q record sequence).Same d (g.insertGetId q record.withKeywords sequence) ↔
      ∀ operand ∈ RowSet.cells [record], ¬ operand.isDefault := by
  have keyed := g.insertGetId_values q record.withKeywords sequence
  rw [← List.map_singleton, RowSet.cells_withKeywords] at keyed
  refine @Statement.same_iff d _ _ _ [] [] ?_ ?_ fun none => ?_
  · rw [g.insertGetId_values, List.nil_append, List.append_nil]
  · rw [keyed, List.nil_append, List.append_nil]
  · have data : RowSet.mk record.withKeywords.columns
          [record.withKeywords.row record.withKeywords.columns] =
        ⟨record.columns, [record.row record.columns]⟩ :=
      @RowSet.ofRecords_keyed [record] none
    rw [Grammar.insertGetId, Grammar.insertGetId, data]

theorem update_same_iff (record : Record) :
    (g.update q record).Same d (g.update q record.withKeywords) ↔
      ∀ operand ∈ record.operands, ¬ operand.isDefault := by
  obtain ⟨front, behind, values⟩ := g.update_values q
  refine @Statement.same_iff d _ _ _ front behind ?_ ?_ fun none => ?_
  · rw [values, record.values_eq_operands]
  · rw [values, record.withKeywords.values_eq_operands, record.operands_withKeywords]
  · rw [Record.withKeywords_eq_self none]

theorem upsert_same_iff (records : List Record) (key : List String) (update : Overwrite) :
    (g.upsert q (.ofRecords records) key update).Same d
        (g.upsert q (.ofRecords (records.map Record.withKeywords)) key update.withKeywords) ↔
      ∀ operand ∈ RowSet.cells records ++ g.overwritten update, ¬ operand.isDefault := by
  refine @Statement.same_iff d _ _ _ [] [] ?_ ?_ fun none => ?_
  · rw [g.upsert_values, List.nil_append, List.append_nil]
  · rw [g.upsert_values, RowSet.cells_withKeywords, g.overwritten_withKeywords, List.map_append,
      List.nil_append, List.append_nil]
  · obtain ⟨inserted, overwritten⟩ := List.forall_mem_append.mp none
    rw [RowSet.ofRecords_keyed inserted, g.upsert_withKeywords q _ key overwritten]

end Same

/-- Statements that write bind defaults like other values, so that each has its place, but they are
what they should be, with the keyword DEFAULT in the place of each default, exactly where there is
no default among the cells and assignments they write. -/
theorem defaults_bound_iff (b : Builder) (records : List Record) (record : Record)
    (key : List String) (update : Overwrite) (sequence : Option String) :
    let d := b.grammar.dialect
    let keyed := records.map Record.withKeywords
    let cells := RowSet.cells records
    (b.query.Coherent → b.query.Everywhere Query.FragmentsExact →
      (∀ r ∈ records, r.Sound) → record.Sound → update.Sound →
      (b.insertStatement records).Numbered d ∧ (b.insertOrIgnoreStatement records).Numbered d ∧
      (b.insertGetIdStatement record sequence).Numbered d ∧ (b.updateStatement record).Numbered d ∧
      (b.upsertStatement records key update).Numbered d) ∧
    ((b.insertStatement records).Same d (b.insertStatement keyed) ↔
      ∀ operand ∈ cells, ¬ operand.isDefault) ∧
    ((b.insertOrIgnoreStatement records).Same d (b.insertOrIgnoreStatement keyed) ↔
      ∀ operand ∈ cells, ¬ operand.isDefault) ∧
    ((b.insertGetIdStatement record sequence).Same d
        (b.insertGetIdStatement record.withKeywords sequence) ↔
      ∀ operand ∈ RowSet.cells [record], ¬ operand.isDefault) ∧
    ((b.updateStatement record).Same d (b.updateStatement record.withKeywords) ↔
      ∀ operand ∈ record.operands, ¬ operand.isDefault) ∧
    ((b.upsertStatement records key update).Same d
        (b.upsertStatement keyed key update.withKeywords) ↔
      ∀ operand ∈ cells ++ b.grammar.overwritten update, ¬ operand.isDefault) := by
  intro d keyed cells
  refine ⟨?_, ?_, ?_, ?_, ?_, ?_⟩
  · intro coherent counted sound set overwritten
    have accounted : b.query.Accounted b.grammar := (coherent.and counted).accounted
    have rows := RowSet.ofRecords_sound sound
    refine ⟨?_, ?_, ?_, ?_, ?_⟩
    · exact (Grammar.carries_insert b.query rows).numbered
    · exact (Grammar.carries_insertOrIgnore b.query rows).numbered
    · exact (Grammar.carries_insertGetId b.query set sequence).numbered
    · exact (Grammar.carries_update accounted set).numbered
    · exact (Grammar.upsert_binds rows (overwritten.orInserted _ key) b.query key).numbered
  · exact rows_same_iff (b.grammar.writeRows_values b.query "insert into") records
  · exact rows_same_iff (b.grammar.insertOrIgnore_values b.query) records
  · exact insertGetId_same_iff record sequence
  · exact update_same_iff record
  · have columns : (RowSet.ofRecords keyed).columns = (RowSet.ofRecords records).columns := by
      rw [RowSet.ofRecords_withKeywords, RowSet.withKeywords]
    rw [Builder.upsertStatement, Builder.upsertStatement, columns, update.orInserted_withKeywords,
      upsert_same_iff, Grammar.overwritten, update.operands_orInserted]
    rfl

/-- Sets one column to its default and one to a value. -/
def mixedRecord : Record := ⟨[("a", .value .default), ("b", .value (.bool true))]⟩

theorem mixedRecord_sound : mixedRecord.Sound := by
  intro field member s inside
  rcases List.mem_cons.mp member with rfl | later
  · exact absurd inside List.not_mem_nil
  · rw [List.mem_singleton.mp later] at inside
    exact absurd inside List.not_mem_nil

/-- An upsert that inserts a default and overwrites with one has a place for either, and is not what
it should be. -/
theorem defaults_bound_iff_mixed :
    let b : Builder := { grammar := ⟨.postgres, "app_"⟩, query := activeUsers }
    let s := b.upsertStatement [mixedRecord] ["b"] (.values mixedRecord)
    (activeUsers.Coherent ∧ activeUsers.Everywhere Query.FragmentsExact ∧ mixedRecord.Sound) ∧
      s.Numbered .postgres ∧
      ¬ s.Same .postgres (b.upsertStatement [mixedRecord.withKeywords] ["b"]
        (.values mixedRecord.withKeywords)) := by
  intro b s
  have all := defaults_bound_iff b [mixedRecord] mixedRecord ["b"] (.values mixedRecord) none
  have sound : ∀ r ∈ [mixedRecord], r.Sound := List.forall_mem_singleton.mpr mixedRecord_sound
  have overwritten : (Overwrite.values mixedRecord).Sound := mixedRecord_sound
  have numbered :=
    all.1 activeUsers_coherent activeUsers_fragments sound mixedRecord_sound overwritten
  refine ⟨⟨activeUsers_coherent, activeUsers_fragments, mixedRecord_sound⟩, numbered.2.2.2.2, ?_⟩
  intro same
  exact all.2.2.2.2.2.mp same (.value .default) List.mem_cons_self rfl

/-- A default that is inserted gets a placeholder and is bound, where the keyword should stand. -/
theorem default_sent_as_value :
    let b : Builder := { grammar := ⟨.mysql, ""⟩, query := activeUsers }
    let s := b.insertStatement [mixedRecord]
    let keyed := b.insertStatement [mixedRecord.withKeywords]
    s.sql .mysql = "insert into \x60users\x60 (\x60a\x60, \x60b\x60) values (?,?)" ∧
      s.values = [.default, .bool true] ∧
      keyed.sql .mysql = "insert into \x60users\x60 (\x60a\x60, \x60b\x60) values (DEFAULT,?)" ∧
      keyed.values = [.bool true] ∧ ¬ s.Same .mysql keyed := by
  have bound : ([.default, .bool true] : List Value) ≠ [.bool true] := by simp
  exact ⟨by decide +kernel, rfl, by decide +kernel, rfl, fun same => bound same.2⟩

end Sqlwright
