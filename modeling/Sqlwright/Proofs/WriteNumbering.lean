import Sqlwright.Query.Compile
import Sqlwright.Proofs.SelectNumbering

/-!
Numbering of the statements that write. Each statement lists its values in the order in which it
writes their places: the source, joins, new values, conditions and ordering where the dialect writes
them directly, the new values before the whole choice of rows where it writes by row id, and the
inserted rows before what overwrites them.
-/

namespace Sqlwright

/-- The places of a statement are numbered from one on and stand for its values. -/
def Statement.Numbered (s : Statement) (d : Dialect) : Prop :=
  Binds d 0 s.pieces s.values ∧
    (d = .postgres → markTexts d (stretchesFrom d 0 s.pieces) =
      (List.range' 1 s.values.length).map fun number => "$" ++ toString number)

theorem Binds.numbered {s : Statement} {d : Dialect} (binds : Binds d 0 s.pieces s.values) :
    s.Numbered d :=
  ⟨binds, binds.markTexts_eq⟩

theorem Carries.numbered {s : Statement} {d : Dialect}
    (carries : Carries d s.pieces (s.values.map some)) : s.Numbered d :=
  (carries.binds 0).numbered

/-! ### Operands that are written -/

/-- The queries of an operand are coherent and declare the places of their fragments. -/
def Operand.Sound (operand : Operand) : Prop :=
  ∀ s ∈ operand.subqueries, s.Coherent ∧ s.Everywhere Query.FragmentsExact

def Record.Sound (record : Record) : Prop := ∀ field ∈ record.fields, field.2.Sound

def Overwrite.Sound : Overwrite → Prop
  | .columns _ => True
  | .values record => record.Sound

variable {g : Grammar}

theorem Operand.Sound.carries {operand : Operand} (sound : operand.Sound) :
    Carries g.dialect (operand.pieces g) (operand.values.map some) :=
  operand.carries fun s member => ((sound s member).1.and (sound s member).2).accounted.carried

theorem Record.row_sound {record : Record} (sound : record.Sound) (columns : List String) :
    ∀ operand ∈ record.row columns, operand.Sound := by
  intro operand member
  obtain ⟨column, _, same⟩ := List.mem_map.mp member
  subst same
  cases found : record.fields.find? (·.1 = column) with
  | none => simp [Record.get?, found, Operand.Sound, Operand.subqueries]
  | some field =>
    simpa [Record.get?, found] using sound field (List.mem_of_find?_eq_some found)

theorem RowSet.ofRecords_sound {records : List Record} (sound : ∀ record ∈ records, record.Sound) :
    ∀ row ∈ (RowSet.ofRecords records).rows, ∀ operand ∈ row, operand.Sound := by
  intro row member
  cases records with
  | nil => exact absurd member List.not_mem_nil
  | cons first rest =>
    obtain ⟨record, present, same⟩ := List.mem_map.mp member
    subst same
    exact Record.row_sound (sound record present) first.columns

namespace Grammar

theorem carries_assignments {record : Record} (sound : record.Sound) :
    Carries g.dialect (g.assignments record) (record.values.map some) := by
  have each (field : String × Operand) (member : field ∈ record.fields) :
      Carries g.dialect (g.assignment field) (field.2.values.map some) :=
    (sound field member).carries.text.after (g.column_fixed field.1)
  rw [Record.values, List.map_flatMap]
  exact .join each

theorem carries_operandList {row : List Operand} (sound : ∀ operand ∈ row, operand.Sound) :
    Carries g.dialect (g.operandList row) ((row.flatMap Operand.values).map some) := by
  rw [operandList, Operand.parts_eq_map, List.map_flatMap]
  exact .join fun operand member => (sound operand member).carries

/-! ### Insert -/

theorem writeTable_fixed (g : Grammar) (q : Query) : Fixed (g.writeTable q) := g.table_fixed _

theorem carries_rowPieces {rows : List (List Operand)}
    (sound : ∀ row ∈ rows, ∀ operand ∈ row, operand.Sound) :
    Carries g.dialect (g.rowPieces rows) ((rows.flatten.flatMap Operand.values).map some) := by
  have slots : (rows.flatten.flatMap Operand.values).map some =
      rows.flatMap fun row => (row.flatMap Operand.values).map some := by
    rw [List.map_flatMap, List.flatten_eq_flatMap, List.flatMap_assoc]
    simp only [id_eq, List.map_flatMap]
  have tuples : Carries g.dialect (.text "values " ::
      joinPieces ", " (rows.map fun row => parenthesised (g.operandList row)))
      ((rows.flatten.flatMap Operand.values).map some) := by
    rw [slots]
    refine Carries.text (.join fun row member => ?_)
    exact (carries_operandList (sound row member)).parenthesised
  have union : Carries g.dialect (joinPieces " union all "
      (rows.map fun row => .text "select " :: g.operandList row ++ [.text " from dummy"]))
      ((rows.flatten.flatMap Operand.values).map some) := by
    rw [slots]
    exact .join fun row member =>
      (carries_operandList (sound row member)).text.before Fixed.nil.text
  unfold rowPieces
  split
  · exact tuples
  · exact union
  · exact tuples

theorem carries_writeRows (verb : String) (q : Query) {data : RowSet}
    (sound : ∀ row ∈ data.rows, ∀ operand ∈ row, operand.Sound) :
    Carries g.dialect (g.writeRows verb q data).pieces
      ((g.writeRows verb q data).values.map some) := by
  have target : Fixed (.text (verb ++ " ") :: g.writeTable q) := (g.writeTable_fixed q).text
  unfold writeRows
  split
  · exact (target.append Fixed.nil.text).carries g.dialect
  · have columns := (g.columnList_fixed data.columns).parenthesised
    exact (carries_rowPieces sound).text.after (target.append columns.text)

/-! ### Update and delete -/

section Write

variable {q : Query}

theorem carries_writeSource (accounted : q.Accounted g) :
    Carries g.dialect (g.writeSource q) (q.bound.source.map some) := by
  refine Carries.fill ?_ accounted.fit.source
  unfold writeSource
  cases found : q.source with
  | none => exact Fixed.nil.carries g.dialect
  | some source =>
    have inner := source.carries fun s member =>
      accounted.subs s (by simp [Query.subqueries, found, member])
    simpa using inner

theorem writeTarget_fixed (g : Grammar) (q : Query) : Fixed (g.writeTarget q) := by
  unfold writeTarget
  split
  · exact Source.table_fixed g _ _
  · exact g.writeTable_fixed q

/-- Ordering and limit of a write, where it has them. -/
theorem carries_ordering (accounted : q.Accounted g) (ordered : Bool) :
    Carries g.dialect
      (sentence (if ordered then [g.orderClause q.orders, g.dialect.limitClause q.limit q.offset]
        else []))
      ((if ordered then q.bound.order else []).map some) := by
  cases ordered with
  | false => exact .sentence_nil _
  | true =>
    have order := accounted.orders
    have limit := (g.dialect.limitClause_fixed q.limit q.offset).carries g.dialect
    simpa using order.sentence (limit.sentence (.sentence_nil _))

theorem carries_plainUpdate (accounted : q.Accounted g) {record : Record} (sound : record.Sound) :
    Carries g.dialect (g.plainUpdate q record).pieces
      ((g.plainUpdate q record).values.map some) := by
  have source := carries_writeSource accounted
  have wheres := accounted.wheres "where "
  have written : Carries g.dialect (g.plainUpdate q record).pieces
      (q.bound.source.map some ++ record.values.map some ++
        (q.bound.condition.map some ++ [])) :=
    (source.text.append (carries_assignments sound).text).sentence
      (wheres.sentence (.sentence_nil _))
  simpa [Grammar.plainUpdate] using written

theorem carries_plainDelete (accounted : q.Accounted g) (ordered : Bool) :
    Carries g.dialect (g.plainDelete q ordered).pieces
      ((g.plainDelete q ordered).values.map some) := by
  have source := carries_writeSource accounted
  have wheres := accounted.wheres "where "
  have written : Carries g.dialect (g.plainDelete q ordered).pieces
      (q.bound.source.map some ++ (q.bound.condition.map some ++
        (if ordered then q.bound.order else []).map some)) :=
    source.text.sentence (wheres.sentence (carries_ordering accounted ordered))
  simpa [Grammar.plainDelete] using written

theorem carries_joinedUpdate (accounted : q.Accounted g) {record : Record} (sound : record.Sound) :
    Carries g.dialect (g.joinedUpdate q record).pieces
      ((g.joinedUpdate q record).values.map some) := by
  have source := carries_writeSource accounted
  have joins := (g.joinClause_fixed q.joins).carries g.dialect
  have wheres := accounted.wheres "where "
  have written : Carries g.dialect (g.joinedUpdate q record).pieces
      (q.bound.source.map some ++ ([] ++ (record.values.map some ++ (q.bound.condition.map some ++
        (if q.joins.isEmpty then q.bound.order else []).map some)))) :=
    source.text.sentence (joins.sentence ((carries_assignments sound).text.sentence
      (wheres.sentence (carries_ordering accounted q.joins.isEmpty))))
  simpa [Grammar.joinedUpdate, accounted.fit.join] using written

theorem carries_joinedDelete (accounted : q.Accounted g) {source : Source}
    (found : q.source = some source) : Carries g.dialect (g.joinedDelete q source).pieces
      ((g.joinedDelete q source).values.map some) := by
  have target : Fixed (g.deleteTarget q source) := by
    unfold deleteTarget
    split
    · exact .cons (segment_fixed _) .nil
    · exact g.writeTable_fixed q
  have whole : g.writeSource q = source.pieces g := by simp [writeSource, found]
  have inner := carries_writeSource accounted
  rw [whole] at inner
  have joins := (g.joinClause_fixed q.joins).carries g.dialect
  have wheres := accounted.wheres "where "
  have written : Carries g.dialect (g.joinedDelete q source).pieces
      (q.bound.source.map some ++ ([] ++ (q.bound.condition.map some ++ []))) :=
    (inner.text.after target.text).sentence (joins.sentence (wheres.sentence (.sentence_nil _)))
  simpa [Grammar.joinedDelete, accounted.fit.join] using written

/-- The choice of row ids keeps every clause of a query but its select list. -/
theorem rowIdQuery_accounted (accounted : q.Accounted g) (rowId : String) :
    (rowIdQuery q rowId).Accounted g where
  fit :=
    { select := .nil
      join := accounted.fit.join
      condition := accounted.fit.condition
      group := accounted.fit.group
      having := accounted.fit.having
      order := accounted.fit.order
      source := accounted.fit.source }
  counted := by
    intro fragment member
    apply accounted.counted fragment
    simp only [rowIdQuery, Query.fragments, List.flatMap_cons, List.flatMap_nil,
      Selection.fragments, List.append_nil, List.nil_append] at member
    simpa [Query.fragments] using .inr (by simpa using member)
  subs := by
    intro s member
    apply accounted.subs s
    simp only [rowIdQuery, Query.subqueries, List.flatMap_cons, List.flatMap_nil,
      Selection.subqueries, List.append_nil, List.nil_append] at member
    simpa [Query.subqueries] using .inr (by simpa using member)

theorem carries_rowIdChoice (accounted : q.Accounted g) (rowId : String) :
    Carries g.dialect (g.rowIdChoice q rowId) ((rowIdQuery q rowId).values.map some) := by
  have choice := (rowIdQuery_accounted accounted rowId).carried.parenthesised
  have name : Fixed [segment rowId] := .cons (segment_fixed rowId) .nil
  exact (choice.text.after name).text

theorem carries_updateByRowId (accounted : q.Accounted g) {record : Record} (sound : record.Sound)
    (rowId : String) :
    Carries g.dialect (g.updateByRowId q record rowId).pieces
      ((g.updateByRowId q record rowId).values.map some) := by
  have set : Carries g.dialect
      (.text "update " :: g.writeTarget q ++ .text " set " :: g.assignments record)
      (record.values.map some) :=
    (carries_assignments sound).text.after (g.writeTarget_fixed q).text
  have written := set.append (carries_rowIdChoice accounted rowId)
  rw [← List.map_append] at written
  exact written

theorem carries_deleteByRowId (accounted : q.Accounted g) (rowId : String) :
    Carries g.dialect (g.deleteByRowId q rowId).pieces
      ((g.deleteByRowId q rowId).values.map some) :=
  (carries_rowIdChoice accounted rowId).after (g.writeTarget_fixed q).text

theorem carries_update (accounted : q.Accounted g) {record : Record} (sound : record.Sound) :
    Carries g.dialect (g.update q record).pieces ((g.update q record).values.map some) := by
  unfold update
  split
  · exact carries_joinedUpdate accounted sound
  · split
    · exact carries_updateByRowId accounted sound _
    · exact carries_plainUpdate accounted sound
  · exact carries_plainUpdate accounted sound

theorem carries_delete (accounted : q.Accounted g) :
    Carries g.dialect (g.delete q).pieces ((g.delete q).values.map some) := by
  unfold delete
  split
  · split
    · rename_i source found
      split
      · exact carries_plainDelete accounted true
      · exact carries_joinedDelete accounted found
    · exact carries_plainDelete accounted true
  · split
    · exact carries_deleteByRowId accounted _
    · exact carries_plainDelete accounted false
  · exact carries_plainDelete accounted false

/-- An aggregate keeps the clauses of a query but its select list, its ordering and its paging. -/
theorem forAggregate_accounted (accounted : q.Accounted g) : q.forAggregate.Accounted g where
  fit :=
    { select := .nil
      join := accounted.fit.join
      condition := accounted.fit.condition
      group := accounted.fit.group
      having := accounted.fit.having
      order := .nil
      source := accounted.fit.source }
  counted := by
    intro fragment member
    apply accounted.counted fragment
    simp only [Query.forAggregate, Query.fragments, List.flatMap_nil, List.append_nil,
      List.nil_append] at member
    simp only [Query.fragments, List.mem_append] at member ⊢
    exact .inl (member.imp .inr id)
  subs := by
    intro s member
    apply accounted.subs s
    simp only [Query.forAggregate, Query.subqueries, List.flatMap_nil, List.nil_append] at member
    simp only [Query.subqueries, List.append_assoc, List.mem_append] at member ⊢
    exact .inr member

/-- A fixed select list in front of the clauses that an aggregate keeps. -/
theorem carries_forAggregate (accounted : q.Accounted g) {head : List Piece} (fixed : Fixed head) :
    Carries g.dialect (Outline.pieces ⟨head, (q.forAggregate.outline g).clauses⟩)
      (q.forAggregate.values.map some) := by
  have kept := forAggregate_accounted accounted
  have values : q.forAggregate.values = q.forAggregate.bound.source ++
      q.forAggregate.bound.condition ++ q.forAggregate.bound.having ++
        q.forAggregate.bound.order := by
    have select : q.forAggregate.bound.select = [] := rfl
    simp [Query.values, Bindings.all, select, kept.fit.join, kept.fit.group]
  have whole := (fixed.carries g.dialect).sentence kept.clauses
  rw [List.nil_append, ← values] at whole
  exact whole

theorem carries_aggregate (accounted : q.Accounted g) (function column : String) :
    Carries g.dialect (q.aggregate g function column).pieces
      ((q.aggregate g function column).values.map some) := by
  refine carries_forAggregate accounted ((Fixed.append (Fixed.append ?_ ?_) Fixed.nil.text))
  · refine Fixed.text (Fixed.text ?_)
    generalize (q.distinct && _) = counts
    cases counts with
    | false => exact .nil
    | true => exact Fixed.nil.text
  · split
    · exact Fixed.nil.text
    · exact g.column_fixed column

/-! ### Upsert -/

theorem carries_insert (q : Query) {data : RowSet}
    (sound : ∀ row ∈ data.rows, ∀ operand ∈ row, operand.Sound) :
    Carries g.dialect (g.insert q data).pieces ((g.insert q data).values.map some) :=
  carries_writeRows _ q sound

/-- Fixed text behind a statement leaves its values as they are. -/
theorem carries_append {s : Statement} {pieces : List Piece}
    (carries : Carries g.dialect s.pieces (s.values.map some)) (fixed : Fixed pieces) :
    Carries g.dialect (s.append pieces []).pieces ((s.append pieces []).values.map some) := by
  have written := carries.before fixed
  simpa [Statement.append] using written

/-- What overwrites a row is numbered behind the inserted values. -/
theorem binds_overwrite {update : Overwrite} (sound : update.Sound) (inserted : Nat)
    {incoming : String → List Piece} (fixed : ∀ name, Fixed (incoming name)) :
    Binds g.dialect inserted (g.overwritePieces inserted incoming update)
      (overwriteValues update) := by
  cases update with
  | columns names => exact (Fixed.join_map fun name _ => fixed name).binds g.dialect inserted
  | values record =>
    have start := Binds.renumber g.dialect inserted
    exact start.append ((carries_assignments sound).binds _)

/-- An insert with a clause for colliding rows behind it. -/
theorem binds_collision {insert : Statement} {update : Overwrite} {target : List Piece}
    {incoming : String → List Piece}
    (carries : Carries g.dialect insert.pieces (insert.values.map some)) (sound : update.Sound)
    (fixed : ∀ name, Fixed (incoming name)) (opening : Fixed target) (verb : String) :
    Binds g.dialect 0
      (insert.pieces ++
        (target ++ .text verb :: g.overwritePieces insert.values.length incoming update))
      (insert.values ++ overwriteValues update) := by
  have word : Fixed [Piece.text verb] := Fixed.nil.text
  have overwritten := (word.binds g.dialect _).append
    (binds_overwrite sound insert.values.length fixed)
  have clause := (opening.binds g.dialect insert.values.length).append overwritten
  refine (carries.binds 0).append ?_
  rw [Nat.zero_add]
  exact clause

theorem onConflict_binds {insert : Statement} {update : Overwrite}
    (carries : Carries g.dialect insert.pieces (insert.values.map some)) (sound : update.Sound)
    (key : List String) :
    Binds g.dialect 0 (g.onConflict insert key update).pieces
      (g.onConflict insert key update).values := by
  have target : Fixed (.text " on conflict " :: parenthesised (g.columnList key)) :=
    (g.columnList_fixed key).parenthesised.text
  have incoming (name : String) : Fixed (g.fromExcluded name) :=
    (g.column_fixed name).append
      (.text (.cons (segment_fixed _) (.text (.cons (segment_fixed _) .nil))))
  unfold onConflict
  split
  · exact (carries_append carries (target.append Fixed.nil.text)).binds 0
  · exact binds_collision carries sound incoming target _

theorem onDuplicate_binds {insert : Statement} {update : Overwrite}
    (carries : Carries g.dialect insert.pieces (insert.values.map some)) (sound : update.Sound) :
    Binds g.dialect 0 (g.onDuplicate insert update).pieces
      (g.onDuplicate insert update).values := by
  have incoming (name : String) : Fixed (g.fromValues name) :=
    ((g.column_fixed name).append (g.column_fixed name).text).append Fixed.nil.text
  unfold onDuplicate
  split
  · exact carries.binds 0
  · exact binds_collision carries sound incoming .nil _

theorem upsert_binds {data : RowSet} {update : Overwrite}
    (rows : ∀ row ∈ data.rows, ∀ operand ∈ row, operand.Sound) (sound : update.Sound)
    (q : Query) (key : List String) :
    Binds g.dialect 0 (g.upsert q data key update).pieces (g.upsert q data key update).values := by
  have insert := carries_insert (g := g) q rows
  unfold upsert
  split
  · exact onDuplicate_binds insert sound
  · exact onConflict_binds insert sound key
  · exact onConflict_binds insert sound key
  · exact (carries_writeRows "upsert" q rows).binds 0
  · exact insert.binds 0

theorem truncate_binds (q : Query) :
    ∀ s ∈ g.truncate q, Binds g.dialect 0 s.pieces s.values := by
  intro s member
  have table := g.writeTable_fixed q
  unfold truncate at member
  split at member
  · rw [List.mem_singleton.mp member]
    exact (table.text.append Fixed.nil.text).binds g.dialect 0
  · rcases List.mem_cons.mp member with same | later
    · rw [same]
      exact table.text.binds g.dialect 0
    · rw [List.mem_singleton.mp later]
      have counter : Fixed [Piece.text "delete from sqlite_sequence where name = "] :=
        Fixed.nil.text
      exact (counter.binds g.dialect 0).append (.place g.dialect _ _)
  all_goals
    rw [List.mem_singleton.mp member]
    exact table.text.binds g.dialect 0

end Write

theorem carries_insertOrIgnore (q : Query) {data : RowSet}
    (sound : ∀ row ∈ data.rows, ∀ operand ∈ row, operand.Sound) :
    Carries g.dialect (g.insertOrIgnore q data).pieces
      ((g.insertOrIgnore q data).values.map some) := by
  unfold insertOrIgnore
  split
  · exact carries_writeRows _ q sound
  · exact carries_writeRows _ q sound
  · exact carries_append (carries_insert q sound) Fixed.nil.text
  · exact carries_insert q sound
  · exact carries_insert q sound

theorem carries_insertGetId (q : Query) {record : Record} (sound : record.Sound)
    (sequence : Option String) :
    Carries g.dialect (g.insertGetId q record sequence).pieces
      ((g.insertGetId q record sequence).values.map some) := by
  have rows : ∀ row ∈ [record.row record.columns], ∀ operand ∈ row, operand.Sound := by
    intro row member
    rw [List.mem_singleton.mp member]
    exact Record.row_sound sound record.columns
  have insert : Carries g.dialect (g.insert q ⟨record.columns, [record.row record.columns]⟩).pieces
      ((g.insert q ⟨record.columns, [record.row record.columns]⟩).values.map some) :=
    carries_insert q rows
  unfold insertGetId
  split
  · exact carries_append insert (g.column_fixed _).text
  · exact insert

theorem carries_insertUsing (q : Query) (columns : List String) {source : Query}
    (accounted : source.Accounted g) :
    Carries g.dialect (g.insertUsing q columns source).pieces
      ((g.insertUsing q columns source).values.map some) := by
  have target : Fixed (.text "insert into " :: g.writeTable q ++
      .text " " :: parenthesised (g.columnList columns)) :=
    (g.writeTable_fixed q).text.append (g.columnList_fixed columns).parenthesised.text
  exact accounted.carried.text.after target

end Grammar

/-- Aggregates and all statements that write number their places one by one and list the values of
the places in that order. -/
theorem writes_numbered (b : Builder) (coherent : b.query.Coherent)
    (counted : b.query.Everywhere Query.FragmentsExact) {records : List Record}
    (sound : ∀ record ∈ records, record.Sound) {record : Record} (set : record.Sound)
    {update : Overwrite} (overwritten : update.Sound) {source : Query} (chosen : source.Coherent)
    (spelled : source.Everywhere Query.FragmentsExact) (function column : String)
    (columns key : List String) (sequence : Option String) :
    (b.aggregateStatement function column).Numbered b.grammar.dialect ∧
      (b.insertStatement records).Numbered b.grammar.dialect ∧
      (b.insertOrIgnoreStatement records).Numbered b.grammar.dialect ∧
      (b.insertGetIdStatement record sequence).Numbered b.grammar.dialect ∧
      (b.insertUsingStatement columns source).Numbered b.grammar.dialect ∧
      (b.updateStatement record).Numbered b.grammar.dialect ∧
      b.deleteStatement.Numbered b.grammar.dialect ∧
      (b.upsertStatement records key update).Numbered b.grammar.dialect ∧
      ∀ s ∈ b.truncateStatements, s.Numbered b.grammar.dialect := by
  have accounted : b.query.Accounted b.grammar := (coherent.and counted).accounted
  have rows := RowSet.ofRecords_sound sound
  refine ⟨?_, ?_, ?_, ?_, ?_, ?_, ?_, ?_, ?_⟩
  · exact (Grammar.carries_aggregate accounted function column).numbered
  · exact (Grammar.carries_insert b.query rows).numbered
  · exact (Grammar.carries_insertOrIgnore b.query rows).numbered
  · exact (Grammar.carries_insertGetId b.query set sequence).numbered
  · exact (Grammar.carries_insertUsing b.query columns (chosen.and spelled).accounted).numbered
  · exact (Grammar.carries_update accounted set).numbered
  · exact (Grammar.carries_delete accounted).numbered
  · refine (Grammar.upsert_binds rows ?_ b.query key).numbered
    unfold Overwrite.orInserted
    split
    · trivial
    · exact overwritten
  · exact fun s member => (Grammar.truncate_binds b.query s member).numbered

/-- A record that sets one column to a value and one to a query. -/
def countedRecord : Record := ⟨[("a", .value (.bool false)), ("b", .sub activeUsers)]⟩

theorem countedRecord_sound : countedRecord.Sound := by
  intro field member s inside
  have same : s = activeUsers := by
    rcases List.mem_cons.mp member with first | later
    · subst first
      exact absurd inside List.not_mem_nil
    · rw [List.mem_singleton.mp later] at inside
      exact List.mem_singleton.mp inside
  subst same
  exact ⟨activeUsers_coherent, activeUsers_fragments⟩

/-- The upsert of two counted records numbers the values it overwrites with behind those it
inserts. -/
theorem writes_numbered_layered :
    (layeredQuery.Coherent ∧ layeredQuery.Everywhere Query.FragmentsExact) ∧
      countedRecord.Sound ∧ (activeUsers.Coherent ∧ activeUsers.Everywhere Query.FragmentsExact) ∧
      (Builder.upsertStatement { grammar := ⟨.postgres, "app_"⟩, query := layeredQuery }
        [countedRecord, countedRecord] ["a"] (.values countedRecord)).Numbered .postgres := by
  have each : ∀ record ∈ [countedRecord, countedRecord], record.Sound := by
    simpa using countedRecord_sound
  have overwritten : (Overwrite.values countedRecord).Sound := countedRecord_sound
  have all := writes_numbered { grammar := ⟨.postgres, "app_"⟩, query := layeredQuery }
    layeredQuery_coherent layeredQuery_fragments each countedRecord_sound overwritten
    activeUsers_coherent activeUsers_fragments "count" "*" ["a", "b"] ["a"] none
  exact ⟨⟨layeredQuery_coherent, layeredQuery_fragments⟩, countedRecord_sound,
    ⟨activeUsers_coherent, activeUsers_fragments⟩, all.2.2.2.2.2.2.2.1⟩

end Sqlwright
