import Sqlwright.Query.Write
import Sqlwright.Proofs.Numbering

/-!
Clauses without places. Names, joins, groups, paging and locks are fixed text: whatever follows them
is numbered as if they were not there.
-/

namespace Sqlwright

/-- Pieces that write no places. -/
def Fixed (pieces : List Piece) : Prop := ∀ piece ∈ pieces, piece.IsFixed

namespace Fixed

variable {front back : List Piece}

theorem nil : Fixed [] := fun _ member => absurd member List.not_mem_nil

theorem cons {piece : Piece} (head : piece.IsFixed) (tail : Fixed back) :
    Fixed (piece :: back) := by
  intro other member
  rcases List.mem_cons.mp member with same | later
  · exact same ▸ head
  · exact tail other later

theorem text {s : String} (tail : Fixed back) : Fixed (.text s :: back) := tail.cons trivial

theorem append (first : Fixed front) (second : Fixed back) : Fixed (front ++ back) := by
  intro piece member
  rcases List.mem_append.mp member with left | right
  · exact first piece left
  · exact second piece right

theorem parenthesised (inner : Fixed front) : Fixed (parenthesised front) :=
  parenthesised_forall trivial trivial inner

theorem flatMap {α : Type} {f : α → List Piece} {items : List α}
    (each : ∀ item ∈ items, Fixed (f item)) : Fixed (items.flatMap f) := by
  intro piece member
  obtain ⟨item, present, inside⟩ := List.mem_flatMap.mp member
  exact each item present piece inside

theorem join_map {α : Type} {sep : String} {f : α → List Piece} {items : List α}
    (each : ∀ item ∈ items, Fixed (f item)) : Fixed (joinPieces sep (items.map f)) :=
  joinPieces_map_forall trivial each

theorem sentence {clauses : List (List Piece)} (each : ∀ clause ∈ clauses, Fixed clause) :
    Fixed (sentence clauses) :=
  sentence_forall trivial each

end Fixed

namespace Grammar

variable (g : Grammar)

theorem segment_fixed (s : String) : (segment s).IsFixed := by
  unfold segment
  split <;> trivial

theorem dotted_fixed {segments : List Piece} (each : Fixed segments) : Fixed (dotted segments) :=
  Fixed.join_map fun piece member => .cons (each piece member) .nil

theorem columnSegments_fixed (segments : List String) : Fixed (g.columnSegments segments) := by
  fun_induction columnSegments g segments with
  | case1 => exact .nil
  | case2 column => exact .cons (segment_fixed _) .nil
  | case3 table column => exact .cons (segment_fixed _) (.cons (segment_fixed _) .nil)
  | case4 qualifier rest _ _ ih => exact ih.cons (segment_fixed _)

theorem tableSegments_fixed (segments : List String) : Fixed (g.tableSegments segments) := by
  fun_induction tableSegments g segments with
  | case1 => exact .nil
  | case2 table => exact .cons (segment_fixed _) .nil
  | case3 qualifier rest _ ih => exact ih.cons (segment_fixed _)

theorem column_fixed (reference : String) : Fixed (g.column reference) :=
  (dotted_fixed (g.columnSegments_fixed _)).append
    (.flatMap fun _ _ => .text (.cons (segment_fixed _) .nil))

theorem table_fixed (reference : String) : Fixed (g.table reference) :=
  (dotted_fixed (g.tableSegments_fixed _)).append
    (.flatMap fun _ _ => .text (.cons (segment_fixed _) .nil))

theorem columnList_fixed (references : List String) : Fixed (g.columnList references) :=
  .join_map fun reference _ => g.column_fixed reference

theorem comparison_fixed (first operator second : String) :
    Fixed (g.comparison first operator second) :=
  (g.column_fixed first).append ((g.column_fixed second).text)

theorem joinConditions_fixed (conditions : List JoinCondition) :
    Fixed (g.joinConditions conditions) := by
  cases conditions with
  | nil => exact .nil
  | cons c rest =>
    exact (g.comparison_fixed _ _ _).append
      (.flatMap fun _ _ => (g.comparison_fixed _ _ _).text)

theorem joinPiece_fixed (join : Join) : Fixed (g.joinPiece join) := by
  unfold joinPiece
  refine ((g.table_fixed join.table).text).append ?_
  split
  · exact .nil
  · exact (g.joinConditions_fixed _).text

theorem joinClause_fixed (joins : List Join) : Fixed (g.joinClause joins) :=
  .join_map fun join _ => g.joinPiece_fixed join

theorem groupClause_fixed (groups : List String) : Fixed (g.groupClause groups) := by
  unfold groupClause
  split
  · exact .nil
  · exact (g.columnList_fixed groups).text

end Grammar

namespace Dialect

variable (d : Dialect)

private theorem word_fixed (s : String) : Fixed [Piece.text s] := Fixed.nil.text

theorem limitClause_fixed (limit offset : Option Nat) : Fixed (d.limitClause limit offset) := by
  unfold limitClause
  split
  · apply Fixed.sentence
    intro clause member
    rcases List.mem_cons.mp member with same | later
    · subst same
      cases offset with
      | none => exact .nil
      | some n => exact word_fixed _
    · rw [List.mem_singleton.mp later]
      cases limit with
      | none => exact .nil
      | some n => exact word_fixed _
  · split
    · exact word_fixed _
    · exact word_fixed _
    · exact .nil

theorem offsetClause_fixed (offset : Option Nat) : Fixed (d.offsetClause offset) := by
  unfold offsetClause
  split
  · exact .nil
  · exact word_fixed _
  · exact .nil

theorem lockClause_fixed (lock : Option Lock) : Fixed (d.lockClause lock) := by
  unfold lockClause
  split <;> first | exact .nil | exact word_fixed _

theorem emptySource_fixed : Fixed d.emptySource := by
  unfold emptySource
  split
  · exact word_fixed _
  · exact .nil

end Dialect

theorem Source.table_fixed (g : Grammar) (name : String) (label : Option String) :
    Fixed ((Source.table name label).pieces g) := by
  cases label with
  | none =>
    rw [Source.pieces]
    exact g.table_fixed name
  | some label =>
    rw [Source.pieces]
    exact (g.table_fixed name).append (.text (.cons (Grammar.segment_fixed _) .nil))

/-- Fixed pieces bind nothing. -/
theorem Fixed.binds {pieces : List Piece} (fixed : Fixed pieces) (d : Dialect) (offset : Nat) :
    Binds d offset pieces [] := by
  induction pieces with
  | nil => exact .nil d offset
  | cons piece rest ih =>
    have head := Binds.fixed (fixed piece List.mem_cons_self) d offset
    exact head.append (ih fun other member => fixed other (List.mem_cons_of_mem _ member))

theorem Fixed.advance {pieces : List Piece} (fixed : Fixed pieces) (offset : Nat) :
    advanceAll offset pieces = offset :=
  (fixed.binds .generic offset).advance

/-- Fixed text does not depend on the places before it. -/
theorem Fixed.text_eq {pieces : List Piece} (fixed : Fixed pieces) (d : Dialect) (offset : Nat) :
    renderFrom d offset pieces = render d pieces := by
  induction pieces generalizing offset with
  | nil => rfl
  | cons piece rest ih =>
    obtain ⟨first, later⟩ := List.forall_mem_cons.mp fixed
    rw [render, renderFrom, renderFrom, ih later, ih later]
    cases piece with
    | text s | name s | literal s => rfl
    | fragment sql places | place value | renumber count => exact first.elim

theorem textsFrom_fixed {parts : List (List Piece)} (fixed : ∀ part ∈ parts, Fixed part)
    (d : Dialect) (offset : Nat) : textsFrom d offset parts = parts.map (render d) := by
  induction parts generalizing offset with
  | nil => rfl
  | cons part rest ih =>
    obtain ⟨first, later⟩ := List.forall_mem_cons.mp fixed
    rw [textsFrom, first.text_eq, ih later, List.map_cons]

end Sqlwright
