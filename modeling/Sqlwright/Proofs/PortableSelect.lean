import Sqlwright.Proofs.NameReading
import Sqlwright.Proofs.SelectTokens

/-!
SELECTs that are the same in every dialect. A dialect decides about parts of dates, locks, paging
and the missing source, and about nothing else that a SELECT is written with. A query that needs
none of these at any depth has the same pieces in all dialects, so the dialects write one and the
same row of tokens.
-/

namespace Sqlwright

/-! ### Queries without dialect -/

mutual

/-- No part of a date is compared, also not within a group. -/
def Condition.Undated : Condition → Prop
  | .datePart _ _ _ _ => False
  | .group conditions => Linked.Undated conditions
  | .compare _ _ _ | .compareSub _ _ _ | .columns _ _ _ | .null _ _ | .between _ _ _ _
  | .among _ _ _ | .amongSub _ _ _ | .exists _ _ | .raw _ _ => True

def Linked.Undated : List Linked → Prop
  | [] => True
  | .mk _ condition :: rest => condition.Undated ∧ Linked.Undated rest

end

/-- A query that has a source and leaves nothing to the dialect, queries inside it aside. -/
structure Query.Portable (q : Query) : Prop where
  source : q.source.isSome
  wheres : Linked.Undated q.wheres
  havings : Linked.Undated q.havings
  limit : q.limit = none
  offset : q.offset = none
  lock : q.lock = none

/-! ### Clauses under two grammars -/

/-- A query that has the same pieces under two grammars. -/
def Query.SamePieces (g h : Grammar) (q : Query) : Prop := q.pieces g = q.pieces h

variable {g h : Grammar}

theorem Query.SamePieces.nested {q : Query} (alike : q.SamePieces g h) :
    (q.outline g).pieces = (q.outline h).pieces :=
  alike

namespace Grammar

variable (same : g.tablePrefix = h.tablePrefix)
include same

theorem column_congr : g.column = h.column := by
  funext reference
  rw [g.column_eq, h.column_eq, same]

theorem table_congr : g.table = h.table := by
  funext reference
  rw [g.table_eq, h.table_eq, same]

theorem columnList_congr : g.columnList = h.columnList := by
  funext references
  rw [g.columnList_eq, h.columnList_eq, same]

theorem comparison_congr : g.comparison = h.comparison := by
  funext first operator second
  rw [comparison, comparison, column_congr same]

theorem joinPiece_congr : g.joinPiece = h.joinPiece := by
  have conditions : g.joinConditions = h.joinConditions := by
    funext conditions
    cases conditions with
    | nil => rfl
    | cons c rest => rw [joinConditions, joinConditions, comparison_congr same]
  funext join
  rw [joinPiece, joinPiece, table_congr same, conditions]

theorem orderingPieces_congr : g.orderingPieces = h.orderingPieces := by
  funext entry
  cases entry with
  | column name direction => rw [orderingPieces, orderingPieces, column_congr same]
  | raw sql places => rfl

end Grammar

theorem Operand.pieces_congr (same : g.tablePrefix = h.tablePrefix) (operand : Operand)
    (subs : ∀ s ∈ operand.subqueries, s.SamePieces g h) : operand.pieces g = operand.pieces h := by
  cases operand with
  | value v | raw sql => rfl
  | column name => rw [Operand.pieces, Operand.pieces, Grammar.column_congr same]
  | sub query =>
    rw [Operand.pieces, Operand.pieces, (subs query List.mem_cons_self).nested]

mutual

theorem Condition.pieces_congr (same : g.tablePrefix = h.tablePrefix) (condition : Condition)
    (undated : condition.Undated) (subs : ∀ s ∈ condition.subqueries, s.SamePieces g h) :
    condition.pieces g = condition.pieces h := by
  have columns := Grammar.column_congr same
  match condition with
  | .compare column operator value =>
    rw [Condition.pieces, Condition.pieces, columns, Operand.pieces_congr same value subs]
  | .compareSub query operator value =>
    have inner := (subs query List.mem_cons_self).nested
    have right := Operand.pieces_congr same value fun s member =>
      subs s (List.mem_cons_of_mem _ member)
    rw [Condition.pieces, Condition.pieces, inner, right]
  | .columns first operator second =>
    rw [Condition.pieces, Condition.pieces, Grammar.comparison_congr same]
  | .null column negated => rw [Condition.pieces, Condition.pieces, columns]
  | .between column low high negated =>
    have left := Operand.pieces_congr same low fun s member =>
      subs s (List.mem_append_left _ member)
    have right := Operand.pieces_congr same high fun s member =>
      subs s (List.mem_append_right _ member)
    rw [Condition.pieces, Condition.pieces, columns, left, right]
  | .among column [] negated => rfl
  | .among column (value :: values) negated =>
    have each (operand : Operand) (member : operand ∈ value :: values) :
        operand.pieces g = operand.pieces h :=
      Operand.pieces_congr same operand fun s inside =>
        subs s (List.mem_flatMap.mpr ⟨operand, member, inside⟩)
    have parts := List.map_congr_left each
    rw [Condition.pieces, Condition.pieces, columns, Operand.parts_eq_map, Operand.parts_eq_map,
      ← List.map_cons, ← List.map_cons, parts]
  | .amongSub column query negated =>
    rw [Condition.pieces, Condition.pieces, columns, (subs query List.mem_cons_self).nested]
  | .exists query negated =>
    rw [Condition.pieces, Condition.pieces, (subs query List.mem_cons_self).nested]
  | .raw sql places => rfl
  | .group conditions =>
    rw [Condition.pieces, Condition.pieces, (Linked.pieces_congr same conditions undated subs).1]
  | .datePart part column operator value => exact undated.elim

theorem Linked.pieces_congr (same : g.tablePrefix = h.tablePrefix) (conditions : List Linked)
    (undated : Linked.Undated conditions)
    (subs : ∀ s ∈ Linked.subqueries conditions, s.SamePieces g h) :
    Linked.first g conditions = Linked.first h conditions ∧
      Linked.others g conditions = Linked.others h conditions := by
  match conditions with
  | [] => exact ⟨rfl, rfl⟩
  | .mk link condition :: rest =>
    have head := Condition.pieces_congr same condition undated.1
      fun s member => subs s (List.mem_append_left _ member)
    have tail := (Linked.pieces_congr same rest undated.2
      fun s member => subs s (List.mem_append_right _ member)).2
    rw [Linked.first, Linked.first, Linked.others, Linked.others, head, tail]
    exact ⟨rfl, rfl⟩

end

theorem Linked.clause_congr (same : g.tablePrefix = h.tablePrefix) (keyword : String)
    {conditions : List Linked} (undated : Linked.Undated conditions)
    (subs : ∀ s ∈ Linked.subqueries conditions, s.SamePieces g h) :
    Linked.clause g keyword conditions = Linked.clause h keyword conditions := by
  rw [Linked.clause_eq, Linked.clause_eq, (Linked.pieces_congr same conditions undated subs).1]

theorem Selection.pieces_congr (same : g.tablePrefix = h.tablePrefix) (entry : Selection)
    (subs : ∀ s ∈ entry.subqueries, s.SamePieces g h) : entry.pieces g = entry.pieces h := by
  cases entry with
  | column reference => rw [Selection.pieces, Selection.pieces, Grammar.column_congr same]
  | raw sql places => rfl
  | sub query label =>
    rw [Selection.pieces, Selection.pieces, (subs query List.mem_cons_self).nested]

theorem Source.pieces_congr (same : g.tablePrefix = h.tablePrefix) (source : Source)
    (subs : ∀ s ∈ source.subqueries, s.SamePieces g h) : source.pieces g = source.pieces h := by
  cases source with
  | table name label =>
    cases label with
    | none => rw [Source.pieces, Source.pieces, Grammar.table_congr same]
    | some label =>
      rw [Source.pieces, Source.pieces, Grammar.table_congr same, Grammar.tableSegment,
        Grammar.tableSegment, same]
  | sub query label =>
    rw [Source.pieces, Source.pieces, (subs query List.mem_cons_self).nested]

namespace Query

/-- A portable query around queries with the same pieces has the same pieces. -/
theorem Portable.samePieces {q : Query} (portable : q.Portable)
    (same : g.tablePrefix = h.tablePrefix) (subs : ∀ s ∈ q.subqueries, s.SamePieces g h) :
    q.SamePieces g h := by
  obtain ⟨origin, there⟩ := Option.isSome_iff_exists.mp portable.source
  have source : Source.clause g q.source = Source.clause h q.source := by
    have inner := Source.pieces_congr same origin fun s member => subs s (by
      simp [subqueries, there, member])
    rw [there, Source.clause, Source.clause, inner]
  have columns : Selection.parts g q.columns = Selection.parts h q.columns := by
    rw [Selection.parts_eq_map, Selection.parts_eq_map]
    refine List.map_congr_left fun entry member => ?_
    refine Selection.pieces_congr same entry fun s inside => ?_
    have listed := List.mem_flatMap.mpr ⟨entry, member, inside⟩
    exact subs s (by simp [subqueries, listed])
  have wheres := Linked.clause_congr same "where " portable.wheres fun s member =>
    subs s (by simp [subqueries, member])
  have havings := Linked.clause_congr same "having " portable.havings fun s member =>
    subs s (by simp [subqueries, member])
  have paging (d : Dialect) : d.limitClause none none = [] ∧ d.offsetClause none = [] ∧
      d.lockClause none = [] := by
    cases d <;> exact ⟨rfl, rfl, rfl⟩
  have outline : q.outline g = q.outline h := by
    rw [outline_eq, outline_eq, portable.limit, portable.offset, portable.lock, source, columns,
      wheres, havings, Grammar.joinClause, Grammar.joinClause, Grammar.joinPiece_congr same,
      Grammar.groupClause, Grammar.groupClause, Grammar.columnList_congr same, Grammar.orderClause,
      Grammar.orderClause, Grammar.orderingPieces_congr same, (paging g.dialect).1,
      (paging g.dialect).2.1, (paging g.dialect).2.2, (paging h.dialect).1, (paging h.dialect).2.1,
      (paging h.dialect).2.2]
  exact congrArg Outline.pieces outline

/-- A query that is portable at every depth has the same pieces in every dialect. -/
theorem Everywhere.samePieces {q : Query} (portable : q.Everywhere Portable)
    (same : g.tablePrefix = h.tablePrefix) : q.SamePieces g h := by
  induction portable with
  | intro here _ ih => exact here.samePieces same ih

end Query

/-- The tokens of a SELECT under a table prefix, as the generic dialect has them. -/
def Query.tokens (q : Query) (tablePrefix : String) : List Token :=
  Token.ofPieces 0 (q.pieces ⟨.generic, tablePrefix⟩)

/-- Every dialect writes a query that is portable at every depth as the same tokens: the dialects
differ in the quotes around identifiers and in the style of placeholders. Places are numbered in
order, and one by one where every fragment has as many marks as it declares. -/
theorem select_written_alike (tablePrefix : String) {q : Query}
    (portable : q.Everywhere Query.Portable) :
    (∀ d : Dialect,
        (q.select ⟨d, tablePrefix⟩).sql d = Token.writtenAll d (q.tokens tablePrefix)) ∧
      (Token.numbers (q.tokens tablePrefix)).Pairwise (· < ·) ∧
      (q.Everywhere Query.FragmentsExact →
        Token.numbers (q.tokens tablePrefix) =
          List.range' 1 (placesOf (q.pieces ⟨.generic, tablePrefix⟩)).length) := by
  have anyway : Meets (fun _ _ => True) (q.pieces ⟨.generic, tablePrefix⟩) :=
    (portable.mono fun _ _ _ _ => trivial).pieces_meet
  refine ⟨fun d => ?_, (Token.numbers_increase anyway 0).1, fun counted => ?_⟩
  · have same : q.pieces ⟨d, tablePrefix⟩ = q.pieces ⟨.generic, tablePrefix⟩ :=
      portable.samePieces rfl
    rw [Query.select, Statement.sql, render, same]
    exact Token.writtenAll_ofPieces d 0 _
  · exact Token.numbers_ofPieces counted.pieces_meet 0

theorem activeUsers_portable : activeUsers.Everywhere Query.Portable := by
  refine .intro ⟨rfl, ⟨trivial, trivial⟩, trivial, rfl, rfl, rfl⟩ ?_
  simp [activeUsers, Query.subqueries, Source.subqueries, Linked.subqueries, Condition.subqueries,
    Operand.subqueries]

theorem layeredQuery_portable : layeredQuery.Everywhere Query.Portable := by
  refine .intro ⟨rfl, ⟨⟨trivial, trivial, trivial⟩, trivial⟩, trivial, rfl, rfl, rfl⟩ ?_
  rw [layeredQuery_subqueries]
  simpa using activeUsers_portable

/-- A query with a raw entry, a query as source, one in a group and a raw ordering has seven
places. -/
theorem select_written_alike_layered :
    layeredQuery.Everywhere Query.Portable ∧
      (∀ d : Dialect,
        (layeredQuery.select ⟨d, "app_"⟩).sql d =
          Token.writtenAll d (layeredQuery.tokens "app_")) ∧
      Token.numbers (layeredQuery.tokens "app_") = [1, 2, 3, 4, 5, 6, 7] := by
  obtain ⟨alike, -, numbered⟩ := select_written_alike "app_" layeredQuery_portable
  refine ⟨layeredQuery_portable, alike, ?_⟩
  rw [numbered layeredQuery_fragments]
  decide +kernel

end Sqlwright
