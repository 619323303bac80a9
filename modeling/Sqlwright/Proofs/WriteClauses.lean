import Sqlwright.Query.Write

/-!
Which clauses of a query reach its UPDATE and DELETE. A write keeps the rows of its query when the
joins, the condition and the paging are its own clauses, or when they stand in a choice of rows by
their ids. Of the writes that are not reported only those lose a clause that MySQL should start at
an offset. A choice by row ids is a whole SELECT, so it takes the grouping along; every other write
leaves the grouping behind.
-/

namespace Sqlwright

theorem joinPieces_ends (sep : String) (parts : List (List Piece)) (last : List Piece) :
    ∃ front, joinPieces sep (parts ++ [last]) = front ++ last := by
  induction parts with
  | nil => exact ⟨[], rfl⟩
  | cons part rest ih =>
    obtain ⟨front, same⟩ := ih
    cases rest with
    | nil => exact ⟨part ++ [.text sep], by simp [joinPieces]⟩
    | cons next others =>
      refine ⟨part ++ .text sep :: front, ?_⟩
      simpa [joinPieces] using same

/-- A sentence ends in its last clause. -/
theorem sentence_ends (clauses : List (List Piece)) {last : List Piece} (written : last ≠ []) :
    ∃ front, sentence (clauses ++ [last]) = front ++ last := by
  have kept : ([last].filter fun clause => !clause.isEmpty) = [last] := by simpa using written
  rw [sentence, List.filter_append, kept]
  exact joinPieces_ends " " _ last

@[simp] theorem Dialect.limitClause_none (d : Dialect) : d.limitClause none none = [] := by
  cases d <;> rfl

@[simp] theorem Dialect.offsetClause_none (d : Dialect) : d.offsetClause none = [] := by
  cases d <;> rfl

namespace Grammar

variable {g : Grammar} {q : Query}

/-! ### Joins and paging -/

/-- A statement that works on the rows of a query and on no others. Natively it has the joins, the
condition and the paging of the query as its last clauses, the new values between them, and it is
ordered as the query is where rows are counted. By row ids it has one condition, that the row is
among those of the query with all its clauses. -/
inductive KeepsRows (g : Grammar) (q : Query) (s : Statement) : Prop
  | native (verb fields order : List Piece)
      (ordered : q.limit.isSome || q.offset.isSome → order = g.orderClause q.orders)
      (written : s.pieces = sentence
        [verb, g.joinClause q.joins, fields, g.whereClause q, order,
          g.dialect.limitClause q.limit q.offset, g.dialect.offsetClause q.offset])
  | byRowId (verb : List Piece) (rowId reference : String)
      (identified : g.dialect.rowId? = some rowId)
      (written : s.pieces = verb ++ .text " where " :: segment rowId :: .text " in " ::
        parenthesised
          (Outline.pieces ⟨.text "select " :: g.column reference, (q.outline g).clauses⟩))

/-- The rows of a query are to be counted from an offset, in a dialect that limits its writes but
cannot start them at an offset. -/
def dropsOffset (g : Grammar) (q : Query) : Bool :=
  g.dialect = .mysql && q.joins.isEmpty && q.offset.isSome

theorem needsRowId_eq_false_iff :
    needsRowId q = false ↔ q.joins = [] ∧ q.limit = none ∧ q.offset = none := by
  simp [needsRowId, and_assoc]

/-- What is written without joins and paging keeps the rows of a query that has neither. -/
theorem KeepsRows.of_plain {s : Statement} (plain : needsRowId q = false) (verb : List Piece)
    (written : s.pieces = sentence [verb, g.whereClause q]) : g.KeepsRows q s := by
  obtain ⟨joins, limit, offset⟩ := needsRowId_eq_false_iff.mp plain
  refine .native verb [] [] (by simp [limit, offset]) ?_
  simpa [joins, limit, offset, joinClause, joinPieces, sentence, List.filter_cons] using written

theorem plainUpdate_keepsRows (record : Record) (plain : needsRowId q = false) :
    g.KeepsRows q (g.plainUpdate q record) :=
  .of_plain plain (.text "update " :: g.writeSource q ++ .text " set " :: g.assignments record) rfl

theorem plainDelete_keepsRows (plain : needsRowId q = false) :
    g.KeepsRows q (g.plainDelete q false) :=
  .of_plain plain (.text "delete from " :: g.writeSource q) rfl

theorem rowIdQuery_pieces (g : Grammar) (q : Query) (rowId : String) :
    ∃ reference, (rowIdQuery q rowId).pieces g =
      Outline.pieces ⟨.text "select " :: g.column reference, (q.outline g).clauses⟩ := by
  cases q
  exact ⟨_, rfl⟩

theorem rowIdChoice_keepsRows {s : Statement} {rowId : String}
    (identified : g.dialect.rowId? = some rowId) (verb : List Piece)
    (written : s.pieces = verb ++ g.rowIdChoice q rowId) : g.KeepsRows q s := by
  obtain ⟨reference, chosen⟩ := rowIdQuery_pieces g q rowId
  refine .byRowId verb rowId reference identified ?_
  rw [written, rowIdChoice, chosen]

theorem offsetClause_mysql (count : Nat) :
    Dialect.mysql.offsetClause (some count) = [.text ("offset " ++ toString count)] := rfl

theorem limitClause_mysql (limit : Option Nat) (offset : Nat) :
    ∃ count, Dialect.mysql.limitClause limit (some offset) = [.text ("limit " ++ count)] := by
  cases limit with
  | none => exact ⟨_, rfl⟩
  | some count => exact ⟨toString count, rfl⟩

theorem dropsOffset_eq_true_iff : g.dropsOffset q = true ↔
    g.dialect = .mysql ∧ q.joins = [] ∧ ∃ offset, q.offset = some offset := by
  simp [dropsOffset, and_assoc, Option.isSome_iff_exists]

/-- A statement of MySQL that ends in its limit keeps no offset. -/
theorem not_keepsRows_of_limit {s : Statement} (dropped : g.dropsOffset q = true)
    (clauses : List (List Piece))
    (written : s.pieces = sentence (clauses ++ [g.dialect.limitClause q.limit q.offset])) :
    ¬ g.KeepsRows q s := by
  obtain ⟨mysql, _, offset, started⟩ := dropsOffset_eq_true_iff.mp dropped
  obtain ⟨count, limited⟩ := limitClause_mysql q.limit offset
  rw [mysql, started, limited] at written
  obtain ⟨front, ends⟩ := sentence_ends clauses (List.cons_ne_nil _ _)
  rw [ends] at written
  intro kept
  cases kept with
  | native verb fields order _ whole =>
    rw [mysql, started, offsetClause_mysql] at whole
    obtain ⟨other, starts⟩ := sentence_ends
      [verb, g.joinClause q.joins, fields, g.whereClause q, order,
        Dialect.mysql.limitClause q.limit (some offset)]
      (List.cons_ne_nil (Piece.text ("offset " ++ toString offset)) [])
    -- the last piece of the statement would be both a limit and an offset
    have last := written.symm.trans (whole.trans starts)
    have same := (List.append_inj' last rfl).2
    simp [String.ext_iff] at same
  | byRowId _ _ _ identified => simp [mysql, Dialect.rowId?] at identified

theorem dropsOffset_eq_false_of_other (other : g.dialect ≠ .mysql) : g.dropsOffset q = false := by
  simp [dropsOffset, other]

/-- What an unreported joined write of MySQL has besides its joins. -/
theorem unpaged_of_joined (mysql : g.dialect = .mysql) (reported : g.writeLimit? q = none)
    (joined : q.joins ≠ []) : q.limit = none ∧ q.offset = none := by
  have plain : (q.limit = none ∧ q.offset = none) ∧ q.orders = [] := by
    simpa [writeLimit?, mysql, joined] using reported
  exact plain.1

/-- The generic dialect reports every write that is not plain. -/
theorem plain_of_unreported (generic : g.dialect = .generic) (reported : g.writeLimit? q = none) :
    needsRowId q = false := by
  rw [needsRowId_eq_false_iff]
  simpa [writeLimit?, generic] using reported

/-- A dialect without row ids is MySQL or the generic one. -/
theorem generic_of_rowId?_eq_none (other : g.dialect ≠ .mysql) (none : g.dialect.rowId? = none) :
    g.dialect = .generic := by
  cases dialect : g.dialect <;> simp_all [Dialect.rowId?]

/-- Without joins MySQL orders and limits a write, but cannot start it behind the first row. -/
theorem keepsRows_limited_iff {s : Statement} (mysql : g.dialect = .mysql) (alone : q.joins = [])
    (verb fields : List Piece)
    (written : s.pieces = sentence [verb, fields, g.whereClause q, g.orderClause q.orders,
      g.dialect.limitClause q.limit q.offset]) :
    g.KeepsRows q s ↔ g.dropsOffset q = false := by
  cases dropped : g.dropsOffset q with
  | true =>
    have lost := not_keepsRows_of_limit dropped
      [verb, fields, g.whereClause q, g.orderClause q.orders] written
    simp [lost]
  | false =>
    have first : q.offset = none := by simpa [dropsOffset, mysql, alone] using dropped
    have kept : g.KeepsRows q s := by
      refine .native verb fields (g.orderClause q.orders) (fun _ => rfl) ?_
      simpa [alone, first, joinClause, joinPieces, sentence, List.filter_cons] using written
    simp [kept]

/-- A joined write of MySQL has neither order nor paging, and if it is not reported then its query
has none either. -/
theorem keepsRows_joined_iff {s : Statement} (mysql : g.dialect = .mysql)
    (reported : g.writeLimit? q = none) (joined : q.joins ≠ []) (verb fields : List Piece)
    (written : s.pieces = sentence [verb, g.joinClause q.joins, fields, g.whereClause q]) :
    g.KeepsRows q s ↔ g.dropsOffset q = false := by
  obtain ⟨limit, offset⟩ := unpaged_of_joined mysql reported joined
  have kept : g.KeepsRows q s := by
    refine .native verb fields [] (by simp [limit, offset]) ?_
    simpa [limit, offset, sentence, List.filter_cons] using written
  simp [kept, dropsOffset, joined]

/-- The writes of the dialects with row ids. -/
theorem keepsRows_of_rowId {chosen plain : Statement} {rowId : String}
    (identified : g.dialect.rowId? = some rowId) (verb : List Piece)
    (written : chosen.pieces = verb ++ g.rowIdChoice q rowId)
    (otherwise : needsRowId q = false → g.KeepsRows q plain) :
    g.KeepsRows q (if needsRowId q then chosen else plain) := by
  cases needs : needsRowId q with
  | true => simpa using rowIdChoice_keepsRows identified verb written
  | false => simpa using otherwise needs

theorem update_keepsRows_iff (record : Record) (reported : g.writeLimit? q = none) :
    g.KeepsRows q (g.update q record) ↔ g.dropsOffset q = false := by
  unfold update
  split
  case h_1 mysql =>
    by_cases alone : q.joins = []
    · refine keepsRows_limited_iff mysql alone (.text "update " :: g.writeSource q)
        (.text "set " :: g.assignments record) ?_
      simp [joinedUpdate, alone, joinClause, joinPieces, sentence, List.filter_cons]
    · refine keepsRows_joined_iff mysql reported alone (.text "update " :: g.writeSource q)
        (.text "set " :: g.assignments record) ?_
      simp [joinedUpdate, alone]
  case h_2 rowId identified other =>
    have kept : g.KeepsRows q (if needsRowId q then g.updateByRowId q record rowId
        else g.plainUpdate q record) :=
      keepsRows_of_rowId identified
        (.text "update " :: g.writeTarget q ++ .text " set " :: g.assignments record) rfl
        (plainUpdate_keepsRows record)
    simp [kept, dropsOffset_eq_false_of_other other]
  case h_3 unidentified other =>
    have generic := generic_of_rowId?_eq_none other unidentified
    have kept : g.KeepsRows q (g.plainUpdate q record) :=
      plainUpdate_keepsRows record (plain_of_unreported generic reported)
    simp [kept, dropsOffset_eq_false_of_other other]

theorem delete_keepsRows_iff {source : Source} (sourced : q.source = some source)
    (reported : g.writeLimit? q = none) :
    g.KeepsRows q (g.delete q) ↔ g.dropsOffset q = false := by
  unfold delete
  split
  case h_1 mysql =>
    rw [sourced]
    by_cases alone : q.joins = []
    · refine keepsRows_limited_iff mysql alone (.text "delete from " :: g.writeSource q) [] ?_
      simp [plainDelete, alone, sentence, List.filter_cons]
    · refine keepsRows_joined_iff mysql reported alone
        (.text "delete " :: g.deleteTarget q source ++ .text " from " :: source.pieces g) [] ?_
      simp [joinedDelete, alone, sentence, List.filter_cons]
  case h_2 rowId identified other =>
    have kept : g.KeepsRows q (if needsRowId q then g.deleteByRowId q rowId
        else g.plainDelete q false) :=
      keepsRows_of_rowId identified (.text "delete from " :: g.writeTarget q) rfl
        plainDelete_keepsRows
    simp [kept, dropsOffset_eq_false_of_other other]
  case h_3 unidentified other =>
    have generic := generic_of_rowId?_eq_none other unidentified
    have kept : g.KeepsRows q (g.plainDelete q false) :=
      plainDelete_keepsRows (plain_of_unreported generic reported)
    simp [kept, dropsOffset_eq_false_of_other other]

end Grammar

/-- An unreported write keeps the joins, the limit and the offset of its query exactly if MySQL does
not have to start it at an offset; otherwise neither the UPDATE nor the DELETE keeps the offset. -/
theorem writes_keep_rows_iff (g : Grammar) (q : Query) (record : Record) {name : String}
    {label : Option String} (table : q.source = some (.table name label))
    (reported : g.writeLimit? q = none) :
    (g.KeepsRows q (g.update q record) ↔ g.dropsOffset q = false) ∧
      (g.KeepsRows q (g.delete q) ↔ g.dropsOffset q = false) :=
  ⟨Grammar.update_keepsRows_iff record reported, Grammar.delete_keepsRows_iff table reported⟩

/-- A page of a joined table. -/
def pagedJoin : Query where
  source := some (.table "users" (some "u"))
  joins := [⟨.inner, "posts", [⟨.and, "u.id", "=", "posts.user_id"⟩]⟩]
  limit := some 5
  offset := some 10

/-- PostgreSQL chooses the rows of a page of a joined table by their ids. -/
theorem writes_keep_paged_join :
    (⟨.postgres, ""⟩ : Grammar).writeLimit? pagedJoin = none ∧
      (⟨.postgres, ""⟩ : Grammar).KeepsRows pagedJoin
        ((⟨.postgres, ""⟩ : Grammar).update pagedJoin ⟨[("seen", .value (.bool true))]⟩) ∧
      (⟨.postgres, ""⟩ : Grammar).KeepsRows pagedJoin
        ((⟨.postgres, ""⟩ : Grammar).delete pagedJoin) := by
  have reported : (⟨.postgres, ""⟩ : Grammar).writeLimit? pagedJoin = none := rfl
  obtain ⟨update, delete⟩ := writes_keep_rows_iff ⟨.postgres, ""⟩ pagedJoin
    ⟨[("seen", .value (.bool true))]⟩ rfl reported
  exact ⟨reported, update.mpr rfl, delete.mpr rfl⟩

/-- A page of a table. -/
def pagedTable : Query where
  source := some (.table "logs" none)
  limit := some 5
  offset := some 10

/-- MySQL deletes and updates the first rows of a table in place of those behind an offset, and does
not report it. -/
theorem offset_lost_unreported :
    (⟨.mysql, ""⟩ : Grammar).writeLimit? pagedTable = none ∧
      (⟨.mysql, ""⟩ : Grammar).delete pagedTable =
        (⟨.mysql, ""⟩ : Grammar).delete { pagedTable with offset := none } ∧
      ¬ (⟨.mysql, ""⟩ : Grammar).KeepsRows pagedTable
        ((⟨.mysql, ""⟩ : Grammar).delete pagedTable) ∧
      ¬ (⟨.mysql, ""⟩ : Grammar).KeepsRows pagedTable
        ((⟨.mysql, ""⟩ : Grammar).update pagedTable ⟨[("seen", .value (.bool true))]⟩) := by
  refine ⟨rfl, rfl, fun kept => ?_, fun kept => ?_⟩
  · have same := (Grammar.delete_keepsRows_iff rfl rfl).mp kept
    cases same
  · have same := (Grammar.update_keepsRows_iff _ rfl).mp kept
    cases same

/-! ### Grouping -/

namespace Query

/-- A query without its grouping, the values bound there included. -/
def ungrouped (q : Query) : Query :=
  { q with groups := [], havings := [], bound := { q.bound with group := [], having := [] } }

/-- A query with one more condition on its groups, which binds a value. -/
def withHaving (q : Query) : Query :=
  { q with
    havings := q.havings ++ [.mk .and (.raw "count(*) > ?" 1)]
    bound := { q.bound with having := q.bound.having ++ [.int 1] } }

end Query

namespace Grammar

variable {g : Grammar} {q : Query}

/-- A write that sends the same text and values for all queries that differ in their grouping
alone. -/
def IgnoresGrouping (g : Grammar) (q : Query) (write : Query → Statement) : Prop :=
  ∀ r : Query, r.ungrouped = q.ungrouped →
    (write r).sql g.dialect = (write q).sql g.dialect ∧ (write r).values = (write q).values

/-- The rows of a write are chosen by their ids. -/
def choosesRows (g : Grammar) (q : Query) : Bool := g.dialect.rowId?.isSome && needsRowId q

theorem choosesRows_eq_true_iff : g.choosesRows q = true ↔
    (∃ rowId, g.dialect.rowId? = some rowId) ∧ needsRowId q = true := by
  simp [choosesRows, Option.isSome_iff_exists]

theorem choosesRows_ungrouped (q : Query) : g.choosesRows q.ungrouped = g.choosesRows q := rfl

theorem needsRowId_of_direct {rowId : String} (direct : g.choosesRows q = false)
    (identified : g.dialect.rowId? = some rowId) : needsRowId q = false := by
  simpa [choosesRows, identified] using direct

theorem update_ungrouped (record : Record) (direct : g.choosesRows q = false) :
    g.update q.ungrouped record = g.update q record := by
  unfold update
  split
  case h_1 => rfl
  case h_2 rowId identified _ =>
    have ungrouped : needsRowId q.ungrouped = false := needsRowId_of_direct direct identified
    simp only [needsRowId_of_direct direct identified, ungrouped, Bool.false_eq_true, if_false]
    rfl
  case h_3 => rfl

theorem delete_ungrouped (direct : g.choosesRows q = false) :
    g.delete q.ungrouped = g.delete q := by
  unfold delete
  split
  case h_1 => rfl
  case h_2 rowId identified _ =>
    have ungrouped : needsRowId q.ungrouped = false := needsRowId_of_direct direct identified
    simp only [needsRowId_of_direct direct identified, ungrouped, Bool.false_eq_true, if_false]
    rfl
  case h_3 => rfl

theorem IgnoresGrouping.of_direct {write : Query → Statement} (direct : g.choosesRows q = false)
    (ungrouped : ∀ r, g.choosesRows r = false → write r.ungrouped = write r) :
    g.IgnoresGrouping q write := by
  intro r same
  have other : g.choosesRows r = false := by
    rw [← choosesRows_ungrouped, same, choosesRows_ungrouped, direct]
  have equal : write r = write q := by
    rw [← ungrouped r other, same, ungrouped q direct]
  exact ⟨congrArg (·.sql g.dialect) equal, congrArg Statement.values equal⟩

theorem update_of_chosen {rowId : String} (record : Record)
    (identified : g.dialect.rowId? = some rowId) (needs : needsRowId q = true) :
    g.update q record = g.updateByRowId q record rowId := by
  cases dialect : g.dialect <;> simp_all [update, Dialect.rowId?]

theorem delete_of_chosen {rowId : String} (identified : g.dialect.rowId? = some rowId)
    (needs : needsRowId q = true) : g.delete q = g.deleteByRowId q rowId := by
  cases dialect : g.dialect <;> simp_all [delete, Dialect.rowId?]

/-- A choice of rows binds the values of the grouping, so a further condition on the groups shows in
what is sent. -/
theorem not_ignoresGrouping {write : Query → Statement} {rowId : String} (front : List Value)
    (chosen : ∀ r, needsRowId r = needsRowId q →
      (write r).values = front ++ (rowIdQuery r rowId).values) :
    ¬ g.IgnoresGrouping q write := by
  intro ignores
  have same := (ignores q.withHaving rfl).2
  rw [chosen q rfl, chosen q.withHaving rfl] at same
  have longer : (rowIdQuery q.withHaving rowId).values.length =
      (rowIdQuery q rowId).values.length + 1 := by
    simp [rowIdQuery, Query.values, Bindings.all, Query.withHaving]
    omega
  have lengths := congrArg List.length same
  simp only [List.length_append, longer] at lengths
  omega

theorem update_ignoresGrouping_iff (record : Record) :
    g.IgnoresGrouping q (g.update · record) ↔ g.choosesRows q = false := by
  cases chooses : g.choosesRows q with
  | true =>
    obtain ⟨⟨rowId, identified⟩, needs⟩ := choosesRows_eq_true_iff.mp chooses
    have kept : ¬ g.IgnoresGrouping q (g.update · record) :=
      not_ignoresGrouping record.values fun r alike => by
        rw [update_of_chosen record identified (alike.trans needs)]
        rfl
    simp [kept]
  | false =>
    have ignored : g.IgnoresGrouping q (g.update · record) :=
      .of_direct chooses fun r direct => update_ungrouped record direct
    simp [ignored]

theorem delete_ignoresGrouping_iff :
    g.IgnoresGrouping q g.delete ↔ g.choosesRows q = false := by
  cases chooses : g.choosesRows q with
  | true =>
    obtain ⟨⟨rowId, identified⟩, needs⟩ := choosesRows_eq_true_iff.mp chooses
    have kept : ¬ g.IgnoresGrouping q g.delete :=
      not_ignoresGrouping [] fun r alike => by
        rw [delete_of_chosen identified (alike.trans needs)]
        rfl
    simp [kept]
  | false =>
    have ignored : g.IgnoresGrouping q g.delete :=
      .of_direct chooses fun r direct => delete_ungrouped direct
    simp [ignored]

end Grammar

/-- Grouping stays out of an UPDATE and of a DELETE exactly where the rows are not chosen by their
ids. -/
theorem writes_ignore_grouping_iff (g : Grammar) (q : Query) (record : Record) :
    (g.IgnoresGrouping q (g.update · record) ↔ g.choosesRows q = false) ∧
      (g.IgnoresGrouping q g.delete ↔ g.choosesRows q = false) :=
  ⟨Grammar.update_ignoresGrouping_iff record, Grammar.delete_ignoresGrouping_iff⟩

/-- PostgreSQL deletes other rows of a page where its query has a condition on groups. -/
theorem having_reaches_delete :
    pagedTable.withHaving.ungrouped = pagedTable.ungrouped ∧
      ((⟨.postgres, ""⟩ : Grammar).delete pagedTable.withHaving).values = [.int 1] ∧
      ((⟨.postgres, ""⟩ : Grammar).delete pagedTable).values = [] ∧
      ¬ (⟨.postgres, ""⟩ : Grammar).IgnoresGrouping pagedTable
        (⟨.postgres, ""⟩ : Grammar).delete := by
  refine ⟨rfl, rfl, rfl, fun ignores => ?_⟩
  have same := (ignores pagedTable.withHaving rfl).2
  cases same

end Sqlwright
