import Sqlwright.Query.Compile
import Sqlwright.Proofs.ValueExchange

/-!
Exchanging the values that are written. Records, upsert assignments and queries that differ only in
bound values give writes that differ only in bound values.
-/

namespace Sqlwright

variable {R : Value → Value → Prop} {g : Grammar}

/-! ### Records and rows -/

/-- Records with the same columns whose operands differ by an exchange of values. -/
def Record.Alike (R : Value → Value → Prop) (record other : Record) : Prop :=
  List.Forall₂ (fun field twin => field.1 = twin.1 ∧ field.2.Alike R twin.2)
    record.fields other.fields

inductive Overwrite.Alike (R : Value → Value → Prop) : Overwrite → Overwrite → Prop where
  | columns (names : List String) : Overwrite.Alike R (.columns names) (.columns names)
  | values {record other : Record} (records : record.Alike R other) :
      Overwrite.Alike R (.values record) (.values other)

structure RowSet.Alike (R : Value → Value → Prop) (data other : RowSet) : Prop where
  columns : data.columns = other.columns
  rows : List.Forall₂ (List.Forall₂ (Operand.Alike R)) data.rows other.rows

namespace Record

variable {record other : Record}

theorem Alike.columns (alike : record.Alike R other) : record.columns = other.columns := by
  unfold Record.Alike at alike
  unfold Record.columns
  generalize record.fields = fields at alike ⊢
  generalize other.fields = twins at alike ⊢
  induction alike with
  | nil => rfl
  | cons head _ ih => rw [List.map_cons, List.map_cons, head.1, ih]

theorem Alike.values (alike : record.Alike R other) : Exchanged R record.values other.values :=
  List.rel_flatMap alike fun _ _ fields => Operand.Alike.values fields.2

theorem Alike.get? (alike : record.Alike R other) (column : String) :
    Option.Rel (Operand.Alike R) (record.get? column) (other.get? column) := by
  unfold Record.Alike at alike
  unfold Record.get?
  generalize record.fields = fields at alike ⊢
  generalize other.fields = twins at alike ⊢
  induction alike with
  | nil => exact .none
  | cons head _ ih =>
    rw [List.find?_cons, List.find?_cons, head.1]
    split
    · exact .some head.2
    · exact ih

/-- A missing cell is NULL in both records. -/
theorem Alike.row (exchange : Exchange R) (alike : record.Alike R other) (columns : List String) :
    List.Forall₂ (Operand.Alike R) (record.row columns) (other.row columns) := by
  refine List.forall₂_map_left_iff.mpr (List.forall₂_map_right_iff.mpr ?_)
  refine List.forall₂_same.mpr fun column _ => ?_
  have cells := alike.get? column
  generalize record.get? column = cell at cells ⊢
  generalize other.get? column = twin at cells ⊢
  cases cells with
  | none => exact .value exchange.null
  | some operands => exact operands

end Record

namespace RowSet

variable {data other : RowSet}

theorem ofRecords_alike (exchange : Exchange R) {records others : List Record}
    (alike : List.Forall₂ (Record.Alike R) records others) :
    (ofRecords records).Alike R (ofRecords others) := by
  cases alike with
  | nil => exact ⟨rfl, .nil⟩
  | cons head tail =>
    refine ⟨head.columns, ?_⟩
    rw [ofRecords, ofRecords, head.columns]
    refine .cons (head.row exchange _) ?_
    refine List.forall₂_map_left_iff.mpr (List.forall₂_map_right_iff.mpr ?_)
    exact tail.imp fun _ _ records => records.row exchange _

theorem Alike.isEmpty_eq (alike : data.Alike R other) : data.isEmpty = other.isEmpty := by
  rw [isEmpty, isEmpty, alike.columns, isEmpty_eq_of_forall₂ alike.rows]

theorem Alike.values (alike : data.Alike R other) : Exchanged R data.values other.values :=
  Operand.list_values_alike (List.rel_flatten alike.rows)

end RowSet

theorem Statement.Alike.append {s t : Statement} (alike : s.Alike R t) {pieces others : List Piece}
    {values more : List Value} (written : PiecesAlike R pieces others)
    (exchanged : Exchanged R values more) :
    (s.append pieces values).Alike R (t.append others more) :=
  ⟨alike.pieces.append written, List.rel_append alike.values exchanged⟩

/-! ### What a write takes from a query -/

namespace Grammar

variable {q r : Query} {record other : Record}

theorem writeTable_eq (alike : q.Alike R r) : g.writeTable q = g.writeTable r := by
  obtain ⟨⟩ := q
  cases alike with
  | intro sources =>
    cases sources with
    | none => rfl
    | some same =>
      cases same with
      | table => rfl
      | sub => rfl

theorem writeTarget_eq (alike : q.Alike R r) : g.writeTarget q = g.writeTarget r := by
  have table := writeTable_eq (g := g) alike
  obtain ⟨⟩ := q
  cases alike with
  | intro sources =>
    cases sources with
    | none => exact table
    | some same =>
      cases same with
      | table => rfl
      | sub => exact table

theorem writeSource_alike (alike : q.Alike R r) :
    PiecesAlike R (g.writeSource q) (g.writeSource r) := by
  obtain ⟨⟩ := q
  cases alike with
  | intro sources =>
    cases sources with
    | none => exact .nil
    | some same => exact Source.pieces_alike same

theorem whereClause_alike (alike : q.Alike R r) :
    PiecesAlike R (g.whereClause q) (g.whereClause r) := by
  cases alike with
  | intro _ _ conditions =>
    exact Linked.clause_alike conditions (Linked.first_alike conditions).1 _

theorem rowIdQuery_alike (alike : q.Alike R r) (rowId : String) :
    (rowIdQuery q rowId).Alike R (rowIdQuery r rowId) := by
  obtain ⟨⟩ := q
  cases alike with
  | intro sources _ conditions choices bindings =>
    have name (text : String) :
        List.Forall₂ (Selection.Alike R) [.column text] [.column text] :=
      .cons (.column text) .nil
    cases sources with
    | none => exact .intro .none (name _) conditions choices { bindings with select := .nil }
    | some same =>
      have kept := Option.Rel.some same
      cases same with
      | table => exact .intro kept (name _) conditions choices { bindings with select := .nil }
      | sub => exact .intro kept (name _) conditions choices { bindings with select := .nil }

theorem assignments_alike (alike : record.Alike R other) :
    PiecesAlike R (g.assignments record) (g.assignments other) := by
  refine PiecesAlike.join_map alike fun field twin fields => ?_
  unfold assignment
  rw [fields.1]
  exact (Operand.pieces_alike fields.2).text.after _

/-! ### Insert -/

theorem operandList_alike {row twin : List Operand}
    (alike : List.Forall₂ (Operand.Alike R) row twin) :
    PiecesAlike R (g.operandList row) (g.operandList twin) :=
  .join (Operand.parts_alike alike)

theorem rowPieces_alike {rows others : List (List Operand)}
    (alike : List.Forall₂ (List.Forall₂ (Operand.Alike R)) rows others) :
    PiecesAlike R (g.rowPieces rows) (g.rowPieces others) := by
  have tuples : PiecesAlike R
      (.text "values " :: joinPieces ", " (rows.map fun row => parenthesised (g.operandList row)))
      (.text "values " ::
        joinPieces ", " (others.map fun row => parenthesised (g.operandList row))) :=
    (PiecesAlike.join_map alike fun _ _ cells => (operandList_alike cells).parenthesised).text
  have union : PiecesAlike R
      (joinPieces " union all "
        (rows.map fun row => .text "select " :: g.operandList row ++ [.text " from dummy"]))
      (joinPieces " union all "
        (others.map fun row => .text "select " :: g.operandList row ++ [.text " from dummy"])) :=
    .join_map alike fun _ _ cells => (operandList_alike cells).text.before _
  unfold rowPieces
  cases g.dialect with
  | hana =>
    cases alike with
    | nil => exact union
    | cons _ tail =>
      cases tail with
      | nil => exact tuples
      | cons _ _ => exact union
  | generic | mysql | postgres | sqlite => exact tuples

theorem writeRows_alike (verb : String) (alike : q.Alike R r) {data twins : RowSet}
    (rows : data.Alike R twins) :
    (g.writeRows verb q data).Alike R (g.writeRows verb r twins) := by
  unfold writeRows
  rw [writeTable_eq alike, rows.isEmpty_eq, rows.columns]
  split
  · exact ⟨.refl _, .nil⟩
  · exact ⟨(rowPieces_alike rows.rows).text.after _, rows.values⟩

theorem insert_alike (alike : q.Alike R r) {data twins : RowSet} (rows : data.Alike R twins) :
    (g.insert q data).Alike R (g.insert r twins) :=
  writeRows_alike _ alike rows

theorem insertOrIgnore_alike (alike : q.Alike R r) {data twins : RowSet}
    (rows : data.Alike R twins) :
    (g.insertOrIgnore q data).Alike R (g.insertOrIgnore r twins) := by
  unfold insertOrIgnore
  split
  · exact writeRows_alike _ alike rows
  · exact writeRows_alike _ alike rows
  · exact (insert_alike alike rows).append (.refl _) .nil
  · exact insert_alike alike rows
  · exact insert_alike alike rows

theorem insertGetId_alike (exchange : Exchange R) (alike : q.Alike R r)
    (records : record.Alike R other) (sequence : Option String) :
    (g.insertGetId q record sequence).Alike R (g.insertGetId r other sequence) := by
  have rows : RowSet.Alike R ⟨record.columns, [record.row record.columns]⟩
      ⟨other.columns, [other.row other.columns]⟩ := by
    rw [records.columns]
    exact ⟨rfl, .cons (records.row exchange _) .nil⟩
  unfold insertGetId
  split
  · exact (insert_alike alike rows).append (.refl _) .nil
  · exact insert_alike alike rows

theorem insertUsing_alike (alike : q.Alike R r) (columns : List String) {source twin : Query}
    (sources : source.Alike R twin) :
    (g.insertUsing q columns source).Alike R (g.insertUsing r columns twin) := by
  unfold insertUsing
  rw [writeTable_eq alike]
  exact ⟨(Query.outline_alike sources).pieces.text.after _, sources.values⟩

/-! ### Update and delete -/

theorem plainUpdate_alike (alike : q.Alike R r) (records : record.Alike R other) :
    (g.plainUpdate q record).Alike R (g.plainUpdate r other) := by
  have source := writeSource_alike (g := g) alike
  have wheres := whereClause_alike (g := g) alike
  have set := assignments_alike (g := g) records
  cases alike with
  | intro _ _ _ _ bindings =>
    exact ⟨.sentence (.cons (source.text.append set.text) (.cons wheres .nil)),
      List.rel_append (List.rel_append bindings.source records.values) bindings.condition⟩

theorem plainDelete_alike (alike : q.Alike R r) (ordered : Bool) :
    (g.plainDelete q ordered).Alike R (g.plainDelete r ordered) := by
  have source := writeSource_alike (g := g) alike
  have wheres := whereClause_alike (g := g) alike
  cases alike with
  | intro _ _ _ _ bindings =>
    have front := List.rel_append bindings.source bindings.condition
    cases ordered with
    | false => exact ⟨.sentence (.cons source.text (.cons wheres .nil)), List.rel_append front .nil⟩
    | true =>
      exact ⟨.sentence (.cons source.text (.cons wheres (PiecesAlike.refl_clauses _))),
        List.rel_append front bindings.order⟩

theorem joinedUpdate_alike (alike : q.Alike R r) (records : record.Alike R other) :
    (g.joinedUpdate q record).Alike R (g.joinedUpdate r other) := by
  have source := writeSource_alike (g := g) alike
  have wheres := whereClause_alike (g := g) alike
  have set := assignments_alike (g := g) records
  cases alike with
  | intro _ _ _ _ bindings =>
    have front := List.rel_append (List.rel_append bindings.source bindings.join) records.values
    refine ⟨.sentence (.cons source.text (.cons (.refl _) (.cons set.text
      (.cons wheres (PiecesAlike.refl_clauses _))))), ?_⟩
    refine List.rel_append (List.rel_append front bindings.condition) ?_
    show Exchanged R (if _ then _ else _) (if _ then _ else _)
    split
    · exact bindings.order
    · exact .nil

theorem deleteTarget_eq (alike : q.Alike R r) {source twin : Source}
    (sources : source.Alike R twin) : g.deleteTarget q source = g.deleteTarget r twin := by
  unfold deleteTarget
  rw [writeTable_eq alike]
  cases sources with
  | table | sub => rfl

theorem joinedDelete_alike (alike : q.Alike R r) {source twin : Source}
    (sources : source.Alike R twin) :
    (g.joinedDelete q source).Alike R (g.joinedDelete r twin) := by
  have target := deleteTarget_eq (g := g) alike sources
  have wheres := whereClause_alike (g := g) alike
  have written := Source.pieces_alike (g := g) sources
  unfold joinedDelete
  rw [target]
  cases alike with
  | intro _ _ _ _ bindings =>
    exact ⟨.sentence (.cons (written.text.after _) (.cons (.refl _) (.cons wheres .nil))),
      List.rel_append (List.rel_append bindings.source bindings.join) bindings.condition⟩

theorem rowIdChoice_alike (alike : q.Alike R r) (rowId : String) :
    PiecesAlike R (g.rowIdChoice q rowId) (g.rowIdChoice r rowId) := by
  have choice := (Query.outline_alike (g := g) (rowIdQuery_alike alike rowId)).pieces
  exact (choice.parenthesised.text.after [_]).text

theorem updateByRowId_alike (alike : q.Alike R r) (records : record.Alike R other)
    (rowId : String) :
    (g.updateByRowId q record rowId).Alike R (g.updateByRowId r other rowId) := by
  have set := assignments_alike (g := g) records
  have choice := rowIdChoice_alike (g := g) alike rowId
  unfold updateByRowId
  rw [writeTarget_eq alike]
  exact ⟨(set.text.after _).append choice,
    List.rel_append records.values (rowIdQuery_alike alike rowId).values⟩

theorem deleteByRowId_alike (alike : q.Alike R r) (rowId : String) :
    (g.deleteByRowId q rowId).Alike R (g.deleteByRowId r rowId) := by
  unfold deleteByRowId
  rw [writeTarget_eq alike]
  exact ⟨(rowIdChoice_alike alike rowId).after _, (rowIdQuery_alike alike rowId).values⟩

theorem needsRowId_eq (alike : q.Alike R r) : needsRowId q = needsRowId r := by
  cases alike with
  | intro => rfl

theorem update_alike (alike : q.Alike R r) (records : record.Alike R other) :
    (g.update q record).Alike R (g.update r other) := by
  unfold update
  rw [needsRowId_eq alike]
  split
  · exact joinedUpdate_alike alike records
  · split
    · exact updateByRowId_alike alike records _
    · exact plainUpdate_alike alike records
  · exact plainUpdate_alike alike records

/-- MySQL deletes from a joined source by its name, and orders what it deletes otherwise. -/
theorem mysqlDelete_alike (alike : q.Alike R r) :
    (match q.source with
      | some source => if q.joins.isEmpty then g.plainDelete q true else g.joinedDelete q source
      | none => g.plainDelete q true).Alike R
    (match r.source with
      | some source => if r.joins.isEmpty then g.plainDelete r true else g.joinedDelete r source
      | none => g.plainDelete r true) := by
  have plain := plainDelete_alike (g := g) alike true
  have joined {source twin : Source} (sources : source.Alike R twin) :=
    joinedDelete_alike (g := g) alike sources
  obtain ⟨⟩ := q
  cases alike with
  | intro sources =>
    cases sources with
    | none => exact plain
    | some same =>
      show Statement.Alike R (if _ then _ else _) (if _ then _ else _)
      split
      · exact plain
      · exact joined same

theorem delete_alike (alike : q.Alike R r) : (g.delete q).Alike R (g.delete r) := by
  unfold delete
  rw [needsRowId_eq alike]
  split
  · exact mysqlDelete_alike alike
  · split
    · exact deleteByRowId_alike alike _
    · exact plainDelete_alike alike false
  · exact plainDelete_alike alike false

/-! ### Upsert -/

variable {update twin : Overwrite}

theorem overwrite_isEmpty_eq (alike : update.Alike R twin) : update.isEmpty = twin.isEmpty := by
  cases alike with
  | columns => rfl
  | values records => exact isEmpty_eq_of_forall₂ records

theorem orInserted_alike (alike : update.Alike R twin) (inserted key : List String) :
    (update.orInserted inserted key).Alike R (twin.orInserted inserted key) := by
  unfold Overwrite.orInserted
  rw [overwrite_isEmpty_eq alike]
  split
  · exact .columns _
  · exact alike

theorem overwriteValues_alike (alike : update.Alike R twin) :
    Exchanged R (overwriteValues update) (overwriteValues twin) := by
  cases alike with
  | columns => exact .nil
  | values records => exact records.values

theorem overwritePieces_alike (alike : update.Alike R twin) (inserted : Nat)
    (incoming : String → List Piece) :
    PiecesAlike R (g.overwritePieces inserted incoming update)
      (g.overwritePieces inserted incoming twin) := by
  cases alike with
  | columns => exact .refl _
  | values records => exact .cons (.same _) (assignments_alike records)

theorem onConflict_alike {insert other : Statement} (inserts : insert.Alike R other)
    (alike : update.Alike R twin) (key : List String) :
    (g.onConflict insert key update).Alike R (g.onConflict other key twin) := by
  unfold onConflict
  rw [overwrite_isEmpty_eq alike, inserts.values.length_eq]
  split
  · exact inserts.append (.refl _) .nil
  · exact inserts.append ((overwritePieces_alike alike _ _).text.after _)
      (overwriteValues_alike alike)

theorem onDuplicate_alike {insert other : Statement} (inserts : insert.Alike R other)
    (alike : update.Alike R twin) :
    (g.onDuplicate insert update).Alike R (g.onDuplicate other twin) := by
  unfold onDuplicate
  rw [overwrite_isEmpty_eq alike, inserts.values.length_eq]
  split
  · exact inserts
  · exact inserts.append (overwritePieces_alike alike _ _).text (overwriteValues_alike alike)

theorem upsert_alike (alike : q.Alike R r) {data twins : RowSet} (rows : data.Alike R twins)
    (key : List String) (updates : update.Alike R twin) :
    (g.upsert q data key update).Alike R (g.upsert r twins key twin) := by
  have insert := insert_alike (g := g) alike rows
  unfold upsert
  split
  · exact onDuplicate_alike insert updates
  · exact onConflict_alike insert updates key
  · exact onConflict_alike insert updates key
  · exact writeRows_alike _ alike rows
  · exact insert

end Grammar

end Sqlwright
