import Sqlwright.Proofs.FirstAppearances
import Sqlwright.Proofs.WriteNumbering

/-!
The rows that inserts write. A record is what its sets leave: a column for each name, in the order
in which the names first appear, with the operand that was set last. The rows of several records
stand in the order of the records under the columns of the first one, and the text of every cell is
that of its operand behind the places of the cells before it.
-/

namespace Sqlwright

/-! ### What sets leave of a record -/

namespace Record

/-- The columns that are set, in the order in which they are first set. -/
def firstSet (sets : List (String × Operand)) : List String := (sets.map (·.1)).eraseDups

/-- The operand that was set last for a column; NULL where it was never set. -/
def lastSet (sets : List (String × Operand)) (column : String) : Operand :=
  ((sets.reverse.find? (·.1 = column)).map (·.2)).getD (.value .null)

variable (r : Record) (column : String) (value : Operand)

theorem columns_set : (r.set column value).columns =
    if column ∈ r.columns then r.columns else r.columns ++ [column] := by
  rw [set, columns, columns]
  induction r.fields with
  | nil => simp [setField]
  | cons field rest ih =>
    rw [setField]
    by_cases same : field.1 = column
    · simp [same]
    · rw [if_neg same, List.map_cons, List.map_cons, ih]
      by_cases later : column ∈ rest.map (·.1)
      · rw [if_pos later, if_pos (List.mem_cons_of_mem _ later)]
      · have absent : column ∉ field.1 :: rest.map (·.1) :=
          List.not_mem_cons_of_ne_of_not_mem (Ne.symm same) later
        rw [if_neg later, if_neg absent, List.cons_append]

theorem get?_set (other : String) : (r.set column value).get? other =
    if column = other then some value else r.get? other := by
  rw [set, get?, get?]
  induction r.fields with
  | nil => by_cases same : column = other <;> simp [setField, same]
  | cons field rest ih =>
    rw [setField]
    by_cases here : field.1 = column
    · by_cases same : column = other <;> simp [here, same]
    · rw [if_neg here]
      by_cases wanted : field.1 = other
      · have apart : column ≠ other := fun same => here (wanted.trans same.symm)
        simp [wanted, apart]
      · rw [List.find?_cons_of_neg (by simpa using wanted), ih,
          List.find?_cons_of_neg (by simpa using wanted)]

theorem ofList_concat (sets : List (String × Operand)) (last : String × Operand) :
    ofList (sets ++ [last]) = (ofList sets).set last.1 last.2 :=
  List.foldl_concat ..

theorem columns_ofList (sets : List (String × Operand)) :
    (ofList sets).columns = firstSet sets := by
  -- From the end: the last set meets the record that all sets before it leave.
  induction sets using List.reverseRecOn with
  | nil => rfl
  | append_singleton sets last ih =>
    rw [ofList_concat, columns_set, ih, firstSet, firstSet, List.map_append, List.map_singleton,
      eraseDups_concat]
    simp only [List.mem_eraseDups]

theorem get?_ofList (sets : List (String × Operand)) (column : String) :
    (ofList sets).get? column = (sets.reverse.find? (·.1 = column)).map (·.2) := by
  induction sets using List.reverseRecOn with
  | nil => rfl
  | append_singleton sets last ih =>
    rw [ofList_concat, get?_set, ih, List.reverse_concat]
    by_cases same : last.1 = column <;> simp [same]

/-- A row holds for each column what was set last for it. -/
theorem row_ofList (sets : List (String × Operand)) (columns : List String) :
    (ofList sets).row columns = columns.map (lastSet sets) :=
  List.map_congr_left fun column _ => by rw [get?_ofList, lastSet]

end Record

/-- The rows of records that are set one by one, under the columns of the first of them. -/
def rowsOfSets (first : List (String × Operand)) (rest : List (List (String × Operand))) :
    List (List Operand) :=
  (first :: rest).map fun sets => (Record.firstSet first).map (Record.lastSet sets)

theorem RowSet.ofRecords_ofList (first : List (String × Operand))
    (rest : List (List (String × Operand))) :
    RowSet.ofRecords ((first :: rest).map Record.ofList) =
      ⟨Record.firstSet first, rowsOfSets first rest⟩ := by
  rw [List.map_cons, RowSet.ofRecords, Record.columns_ofList, ← List.map_cons, List.map_map]
  congr 1
  exact List.map_congr_left fun sets _ => Record.row_ofList sets _

/-! ### The text of cells -/

namespace Grammar

variable (g : Grammar)

theorem renderFrom_columnList (offset : Nat) (columns : List String) :
    renderFrom g.dialect offset (g.columnList columns) =
      Text.join ", " (columns.map fun column => render g.dialect (g.column column)) := by
  rw [columnList, renderFrom_joinPieces, textsFrom_fixed, List.map_map]
  · rfl
  · intro part member
    obtain ⟨column, _, rfl⟩ := List.mem_map.mp member
    exact g.column_fixed column

/-- The texts of cells, row by row, behind `offset` places. -/
def cellTexts (offset : Nat) : List (List Operand) → List (List String)
  | [] => []
  | row :: rest =>
    textsFrom g.dialect offset (row.map (Operand.pieces g)) ::
      cellTexts (advanceAll offset (row.flatMap (Operand.pieces g))) rest

end Grammar

/-- Rows of cells as an insert lists them: a tuple each, or on HANA a SELECT each where there are
several. -/
def Dialect.rowsText (d : Dialect) (rows : List (List String)) : String :=
  if d = .hana ∧ rows.length ≠ 1 then
    Text.join " union all "
      (rows.map fun cells => "select " ++ Text.join "," cells ++ " from dummy")
  else "values " ++ Text.join ", " (rows.map fun cells => "(" ++ Text.join "," cells ++ ")")

namespace Grammar

variable (g : Grammar)

theorem length_cellTexts (offset : Nat) (rows : List (List Operand)) :
    (g.cellTexts offset rows).length = rows.length := by
  induction rows generalizing offset with
  | nil => rfl
  | cons row rest ih => rw [cellTexts, List.length_cons, List.length_cons, ih]

/-- Rows between words, with a separator between neighbours. -/
theorem renderFrom_rows (sep before behind : String) (offset : Nat) (rows : List (List Operand)) :
    renderFrom g.dialect offset
        (joinPieces sep (rows.map fun row => .text before :: g.operandList row ++ [.text behind])) =
      Text.join sep ((g.cellTexts offset rows).map fun cells =>
        before ++ Text.join "," cells ++ behind) := by
  rw [renderFrom_joinPieces]
  congr 1
  -- The words around a row write no places, so the next row starts behind the cells of this one.
  induction rows generalizing offset with
  | nil => rfl
  | cons row rest ih =>
    have list : g.operandList row = joinPieces "," (row.map (Operand.pieces g)) := by
      rw [operandList, Operand.parts_eq_map]
    have text : renderFrom g.dialect offset (.text before :: g.operandList row ++ [.text behind]) =
        before ++ Text.join "," (textsFrom g.dialect offset (row.map (Operand.pieces g))) ++
          behind := by
      rw [list, renderFrom_append, renderFrom, ← renderFrom_joinPieces]
      simp only [Piece.render, Piece.advance, renderFrom, String.append_empty]
    have places : advanceAll offset (.text before :: g.operandList row ++ [.text behind]) =
        advanceAll offset (row.flatMap (Operand.pieces g)) := by
      rw [list, List.flatMap_def, ← advanceAll_joinPieces offset ","]
      simp [advanceAll, Piece.advance]
    rw [List.map_cons, textsFrom, cellTexts, List.map_cons, text, places, ih]

theorem renderFrom_rowPieces (offset : Nat) (rows : List (List Operand)) :
    renderFrom g.dialect offset (g.rowPieces rows) =
      g.dialect.rowsText (g.cellTexts offset rows) := by
  have tuples : renderFrom g.dialect offset (.text "values " ::
      joinPieces ", " (rows.map fun row => parenthesised (g.operandList row))) =
      "values " ++ Text.join ", " ((g.cellTexts offset rows).map fun cells =>
        "(" ++ Text.join "," cells ++ ")") :=
    congrArg ("values " ++ ·) (g.renderFrom_rows ", " "(" ")" offset rows)
  unfold rowPieces Dialect.rowsText
  rw [length_cellTexts]
  split
  · rw [if_neg (by simp)]
    exact tuples
  · next hana several =>
    rw [if_pos ⟨hana, fun one => (List.length_eq_one_iff.mp one).elim several⟩]
    exact g.renderFrom_rows " union all " "select " " from dummy" offset _
  · next apart _ =>
    rw [if_neg fun both => apart both.1]
    exact tuples

/-- A statement that writes rows under columns: a verb and the table stand in front of them, a
clause of its own values may stand behind them. -/
structure WritesRows (q : Query) (columns : List String) (rows : List (List Operand))
    (verb clause : String) (more : List Value) (s : Statement) : Prop where
  text : s.sql g.dialect =
    verb ++ " " ++ render g.dialect (g.writeTable q) ++ " (" ++
      Text.join ", " (columns.map fun column => render g.dialect (g.column column)) ++ ") " ++
        g.dialect.rowsText (g.cellTexts 0 rows) ++ clause
  values : s.values = rows.flatten.flatMap Operand.values ++ more

variable {g : Grammar} {q : Query} {columns : List String} {rows : List (List Operand)}
  {verb clause : String} {more : List Value} {s : Statement}

theorem writeRows_writesRows (verb : String) (q : Query) (named : columns ≠ [])
    (filled : rows ≠ []) :
    g.WritesRows q columns rows verb "" [] (g.writeRows verb q ⟨columns, rows⟩) := by
  have written : g.writeRows verb q ⟨columns, rows⟩ =
      ⟨.text (verb ++ " ") :: g.writeTable q ++ .text " " :: parenthesised (g.columnList columns) ++
        .text " " :: g.rowPieces rows, rows.flatten.flatMap Operand.values⟩ := by
    rw [writeRows, if_neg (by simp [RowSet.isEmpty, named, filled])]
    rfl
  have table : Fixed (.text (verb ++ " ") :: g.writeTable q) := (g.writeTable_fixed q).text
  have header : Fixed (.text " " :: parenthesised (g.columnList columns)) :=
    (g.columnList_fixed columns).parenthesised.text
  have list : renderFrom g.dialect 0 (.text " " :: parenthesised (g.columnList columns)) =
      " (" ++ Text.join ", " (columns.map fun column => render g.dialect (g.column column)) ++
        ")" := by
    rw [← g.renderFrom_columnList 0, parenthesised, List.cons_append, renderFrom, renderFrom,
      renderFrom_append, ← String.append_assoc, ← String.append_assoc]
    rfl
  have values : renderFrom g.dialect 0 (.text " " :: g.rowPieces rows) =
      " " ++ g.dialect.rowsText (g.cellTexts 0 rows) :=
    congrArg (" " ++ ·) (g.renderFrom_rowPieces 0 rows)
  rw [written]
  refine ⟨?_, (List.append_nil _).symm⟩
  rw [Statement.sql, render, renderFrom_append, renderFrom_append, (table.append header).advance,
    table.advance, list, values]
  simp only [renderFrom, Piece.render, Piece.advance, render, String.append_assoc,
    String.append_empty]
  rfl

/-- What stands behind a statement becomes part of its clause. -/
theorem WritesRows.append (writes : g.WritesRows q columns rows verb clause more s)
    (pieces : List Piece) (values : List Value) :
    g.WritesRows q columns rows verb
      (clause ++ renderFrom g.dialect (advanceAll 0 s.pieces) pieces) (more ++ values)
      (s.append pieces values) where
  text := by
    rw [Statement.sql, Statement.append, render, renderFrom_append, ← render, ← Statement.sql,
      writes.text, String.append_assoc]
  values := by rw [Statement.append, writes.values, List.append_assoc]

end Grammar

/-- What stands behind the rows of an insert: nothing, or what is done about rows that are already
there. -/
def IsCollisionClause (clause : String) (more : List Value) : Prop :=
  clause = "" ∧ more = [] ∨
    ∃ opening ∈ [" on conflict ", " on duplicate key update "], ∃ tail, clause = opening ++ tail

namespace Grammar

variable {g : Grammar} {q : Query} {columns : List String} {rows : List (List Operand)}

theorem WritesRows.collision {verb : String} {s : Statement}
    (writes : g.WritesRows q columns rows verb "" [] s) {opening : String}
    (listed : opening ∈ [" on conflict ", " on duplicate key update "]) (pieces : List Piece)
    (values : List Value) :
    ∃ clause more, IsCollisionClause clause more ∧
      g.WritesRows q columns rows verb clause more (s.append (.text opening :: pieces) values) := by
  have behind := writes.append (.text opening :: pieces) values
  rw [renderFrom, String.empty_append, List.nil_append] at behind
  exact ⟨_, _, .inr ⟨opening, listed, _, rfl⟩, behind⟩

theorem onConflict_writesRows {verb : String} {s : Statement}
    (writes : g.WritesRows q columns rows verb "" [] s) (key : List String) (update : Overwrite) :
    ∃ clause more, IsCollisionClause clause more ∧
      g.WritesRows q columns rows verb clause more (g.onConflict s key update) := by
  unfold onConflict
  split
  all_goals exact writes.collision (by simp) _ _

theorem onDuplicate_writesRows {verb : String} {s : Statement}
    (writes : g.WritesRows q columns rows verb "" [] s) (update : Overwrite) :
    ∃ clause more, IsCollisionClause clause more ∧
      g.WritesRows q columns rows verb clause more (g.onDuplicate s update) := by
  unfold onDuplicate
  split
  · exact ⟨"", [], .inl ⟨rfl, rfl⟩, writes⟩
  · exact writes.collision (by simp) _ _

theorem upsert_writesRows (named : columns ≠ []) (filled : rows ≠ []) (key : List String)
    (update : Overwrite) :
    ∃ verb ∈ ["insert into", "upsert"], ∃ clause more, IsCollisionClause clause more ∧
      g.WritesRows q columns rows verb clause more (g.upsert q ⟨columns, rows⟩ key update) := by
  have writes (verb : String) := g.writeRows_writesRows verb q named filled
  unfold upsert
  split
  · exact ⟨"insert into", by simp, onDuplicate_writesRows (writes _) update⟩
  · exact ⟨"insert into", by simp, onConflict_writesRows (writes _) key update⟩
  · exact ⟨"insert into", by simp, onConflict_writesRows (writes _) key update⟩
  · exact ⟨"upsert", by simp, "", [], .inl ⟨rfl, rfl⟩, writes _⟩
  · exact ⟨"insert into", by simp, "", [], .inl ⟨rfl, rfl⟩, writes _⟩

theorem insertOrIgnore_writesRows (named : columns ≠ []) (filled : rows ≠ []) :
    ∃ verb ∈ ["insert into", "insert ignore into", "insert or ignore into"],
      ∃ clause ∈ ["", " on conflict do nothing"],
        g.WritesRows q columns rows verb clause [] (g.insertOrIgnore q ⟨columns, rows⟩) := by
  have writes (verb : String) := g.writeRows_writesRows verb q named filled
  unfold insertOrIgnore
  split
  · exact ⟨"insert ignore into", by simp, "", by simp, writes _⟩
  · exact ⟨"insert or ignore into", by simp, "", by simp, writes _⟩
  · have behind := (writes "insert into").append [.text " on conflict do nothing"] []
    rw [renderFrom, renderFrom, String.empty_append, String.append_empty] at behind
    exact ⟨"insert into", by simp, " on conflict do nothing", by simp, behind⟩
  · exact ⟨"insert into", by simp, "", by simp, writes _⟩
  · exact ⟨"insert into", by simp, "", by simp, writes _⟩

end Grammar

/-- Inserts of records that are set one by one write a row for each record, in their order, with a
cell for each column of the first record, in the order in which it is first set: the operand that
the record sets last for the column, or a bound NULL. The values of the rows are those of the cells,
row by row. -/
theorem rows_written (b : Builder) {first : List (String × Operand)} (filled : first ≠ [])
    (rest : List (List (String × Operand))) (key : List String) (update : Overwrite) :
    let records := (first :: rest).map Record.ofList
    let writes := b.grammar.WritesRows b.query (Record.firstSet first) (rowsOfSets first rest)
    writes "insert into" "" [] (b.insertStatement records) ∧
      (∃ verb ∈ ["insert into", "insert ignore into", "insert or ignore into"],
        ∃ clause ∈ ["", " on conflict do nothing"],
          writes verb clause [] (b.insertOrIgnoreStatement records)) ∧
      ∃ verb ∈ ["insert into", "upsert"], ∃ clause more, IsCollisionClause clause more ∧
        writes verb clause more (b.upsertStatement records key update) := by
  intro records writes
  have data : RowSet.ofRecords records = ⟨Record.firstSet first, rowsOfSets first rest⟩ :=
    RowSet.ofRecords_ofList first rest
  have named : Record.firstSet first ≠ [] := by
    obtain ⟨set, more, rfl⟩ := List.exists_cons_of_ne_nil filled
    simp [Record.firstSet, List.eraseDups_cons]
  have some : rowsOfSets first rest ≠ [] := List.cons_ne_nil _ _
  refine ⟨?_, ?_, ?_⟩
  · rw [Builder.insertStatement, data]
    exact b.grammar.writeRows_writesRows _ b.query named some
  · rw [Builder.insertOrIgnoreStatement, data]
    exact Grammar.insertOrIgnore_writesRows named some
  · rw [Builder.upsertStatement, data]
    exact Grammar.upsert_writesRows named some key _

/-- Sets one column twice and another to a query. -/
def resetFields : List (String × Operand) :=
  [("a", .value (.bool false)), ("b", .sub activeUsers), ("a", .raw "now()")]

/-- Sets a column of its own, and of those of `resetFields` the second one only. -/
def gappedFields : List (String × Operand) :=
  [("c", .column "d"), ("b", .value (.bool false)), ("b", .value (.bool true))]

/-- The second record binds NULL for the column it lacks, behind the value of the query that the
first one sets. -/
theorem rows_written_gapped :
    resetFields ≠ [] ∧
      let b : Builder := { grammar := ⟨.hana, "app_"⟩, query := activeUsers }
      let s := b.insertStatement ([resetFields, gappedFields].map Record.ofList)
      s.sql .hana = "insert into \"app_users\" (\"a\", \"b\") " ++
          "select now(),(select * from \"app_users\" where \"active\" = ?) from dummy union all " ++
          "select ?,? from dummy" ∧
        s.values = [.bool true, .null, .bool true] := by
  have filled : resetFields ≠ [] := List.cons_ne_nil _ _
  have written := (rows_written { grammar := ⟨.hana, "app_"⟩, query := activeUsers } filled
    [gappedFields] ["a"] (.columns [])).1
  exact ⟨filled, written.text.trans (by decide +kernel), written.values.trans rfl⟩

end Sqlwright
