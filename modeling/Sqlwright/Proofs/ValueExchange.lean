import Mathlib.Data.List.Forall2
import Sqlwright.Query.Select

/-!
Exchanging bound values. Two queries are alike when they differ only in bound values that may stand
for each other. Alike queries are written with the same text: a value leaves a place behind and
nothing else.
-/

namespace Sqlwright

/-- A relation by which bound values are exchanged keeps NULL apart from all other values. -/
structure Exchange (R : Value → Value → Prop) : Prop where
  null : R .null .null
  isNull : ∀ {v w}, R v w → v.isNull = w.isNull

variable {R : Value → Value → Prop}

/-- Lists of values that are exchanged position by position. -/
abbrev Exchanged (R : Value → Value → Prop) : List Value → List Value → Prop := List.Forall₂ R

/-- Bindings that differ by an exchange of values in each section. -/
structure Bindings.Alike (R : Value → Value → Prop) (b c : Bindings) : Prop where
  select : Exchanged R b.select c.select
  source : Exchanged R b.source c.source
  join : Exchanged R b.join c.join
  condition : Exchanged R b.condition c.condition
  group : Exchanged R b.group c.group
  having : Exchanged R b.having c.having
  order : Exchanged R b.order c.order

mutual

/-- Operands that differ by an exchange of values. -/
inductive Operand.Alike (R : Value → Value → Prop) : Operand → Operand → Prop where
  | value {v w : Value} (exchanged : R v w) : Operand.Alike R (.value v) (.value w)
  | raw (sql : String) : Operand.Alike R (.raw sql) (.raw sql)
  | column (name : String) : Operand.Alike R (.column name) (.column name)
  | sub {q r : Query} (queries : Query.Alike R q r) : Operand.Alike R (.sub q) (.sub r)

inductive Selection.Alike (R : Value → Value → Prop) : Selection → Selection → Prop where
  | column (reference : String) : Selection.Alike R (.column reference) (.column reference)
  | raw (sql : String) (places : Nat) : Selection.Alike R (.raw sql places) (.raw sql places)
  | sub {q r : Query} (queries : Query.Alike R q r) (label : String) :
      Selection.Alike R (.sub q label) (.sub r label)

inductive Source.Alike (R : Value → Value → Prop) : Source → Source → Prop where
  | table (name : String) (label : Option String) :
      Source.Alike R (.table name label) (.table name label)
  | sub {q r : Query} (queries : Query.Alike R q r) (label : String) :
      Source.Alike R (.sub q label) (.sub r label)

inductive Condition.Alike (R : Value → Value → Prop) : Condition → Condition → Prop where
  | compare (column operator : String) {v w : Operand} (values : Operand.Alike R v w) :
      Condition.Alike R (.compare column operator v) (.compare column operator w)
  | compareSub {q r : Query} (queries : Query.Alike R q r) (operator : String) {v w : Operand}
      (values : Operand.Alike R v w) :
      Condition.Alike R (.compareSub q operator v) (.compareSub r operator w)
  | columns (first operator second : String) :
      Condition.Alike R (.columns first operator second) (.columns first operator second)
  | null (column : String) (negated : Bool) :
      Condition.Alike R (.null column negated) (.null column negated)
  | between (column : String) {low high low' high' : Operand} (lows : Operand.Alike R low low')
      (highs : Operand.Alike R high high') (negated : Bool) :
      Condition.Alike R (.between column low high negated) (.between column low' high' negated)
  | among (column : String) {vs ws : List Operand} (values : List.Forall₂ (Operand.Alike R) vs ws)
      (negated : Bool) : Condition.Alike R (.among column vs negated) (.among column ws negated)
  | amongSub (column : String) {q r : Query} (queries : Query.Alike R q r) (negated : Bool) :
      Condition.Alike R (.amongSub column q negated) (.amongSub column r negated)
  | exists {q r : Query} (queries : Query.Alike R q r) (negated : Bool) :
      Condition.Alike R (.exists q negated) (.exists r negated)
  | raw (sql : String) (places : Nat) : Condition.Alike R (.raw sql places) (.raw sql places)
  | group {conditions others : List Linked}
      (inner : List.Forall₂ (Linked.Alike R) conditions others) :
      Condition.Alike R (.group conditions) (.group others)
  | datePart (part : DatePart) (column operator : String) {v w : Operand}
      (values : Operand.Alike R v w) :
      Condition.Alike R (.datePart part column operator v) (.datePart part column operator w)

inductive Linked.Alike (R : Value → Value → Prop) : Linked → Linked → Prop where
  | mk (link : Connective) {condition other : Condition}
      (conditions : Condition.Alike R condition other) :
      Linked.Alike R (.mk link condition) (.mk link other)

/-- Queries that differ by an exchange of values, in their clauses and in their sections. Their
issues are left out. -/
inductive Query.Alike (R : Value → Value → Prop) : Query → Query → Prop where
  | intro {q : Query} {source : Option Source} {columns : List Selection}
      {wheres havings : List Linked} {bound : Bindings} {issues : List Issue}
      (sources : Option.Rel (Source.Alike R) q.source source)
      (selections : List.Forall₂ (Selection.Alike R) q.columns columns)
      (conditions : List.Forall₂ (Linked.Alike R) q.wheres wheres)
      (choices : List.Forall₂ (Linked.Alike R) q.havings havings)
      (bindings : Bindings.Alike R q.bound bound) :
      Query.Alike R q { q with source, columns, wheres, havings, bound, issues }

end

theorem isEmpty_eq_of_forall₂ {α β : Type} {A : α → β → Prop} {items : List α} {others : List β}
    (alike : List.Forall₂ A items others) : items.isEmpty = others.isEmpty := by
  cases alike with
  | nil => rfl
  | cons _ _ => rfl

/-! ### Pieces -/

/-- Pieces that differ at most in the value of a place. -/
inductive Piece.Alike (R : Value → Value → Prop) : Piece → Piece → Prop where
  | same (piece : Piece) : Piece.Alike R piece piece
  | place {v w : Value} (exchanged : R v w) : Piece.Alike R (.place v) (.place w)

abbrev PiecesAlike (R : Value → Value → Prop) : List Piece → List Piece → Prop :=
  List.Forall₂ (Piece.Alike R)

namespace PiecesAlike

variable {front back others more : List Piece}

theorem refl (pieces : List Piece) : PiecesAlike R pieces pieces :=
  List.forall₂_same.mpr fun piece _ => .same piece

theorem refl_clauses (clauses : List (List Piece)) : List.Forall₂ (PiecesAlike R) clauses clauses :=
  List.forall₂_same.mpr fun clause _ => refl clause

theorem append (first : PiecesAlike R front others) (second : PiecesAlike R back more) :
    PiecesAlike R (front ++ back) (others ++ more) :=
  List.rel_append first second

theorem after (second : PiecesAlike R back more) (pieces : List Piece) :
    PiecesAlike R (pieces ++ back) (pieces ++ more) :=
  (refl pieces).append second

theorem before (first : PiecesAlike R front others) (pieces : List Piece) :
    PiecesAlike R (front ++ pieces) (others ++ pieces) :=
  first.append (refl pieces)

theorem text {s : String} (rest : PiecesAlike R back more) :
    PiecesAlike R (.text s :: back) (.text s :: more) :=
  .cons (.same _) rest

theorem parenthesised (inner : PiecesAlike R front others) :
    PiecesAlike R (parenthesised front) (parenthesised others) :=
  (inner.before _).text

theorem join {sep : String} {parts rest : List (List Piece)}
    (alike : List.Forall₂ (PiecesAlike R) parts rest) :
    PiecesAlike R (joinPieces sep parts) (joinPieces sep rest) := by
  induction alike with
  | nil => exact .nil
  | cons head tail ih =>
    cases tail with
    | nil => exact head
    | cons next after => exact head.append ih.text

theorem join_map {α : Type} {A : α → α → Prop} {sep : String} {write : α → List Piece}
    {items others : List α} (alike : List.Forall₂ A items others)
    (each : ∀ item other, A item other → PiecesAlike R (write item) (write other)) :
    PiecesAlike R (joinPieces sep (items.map write)) (joinPieces sep (others.map write)) := by
  refine join (List.forall₂_map_left_iff.mpr (List.forall₂_map_right_iff.mpr ?_))
  exact alike.imp each

theorem sentence {clauses rest : List (List Piece)}
    (alike : List.Forall₂ (PiecesAlike R) clauses rest) :
    PiecesAlike R (sentence clauses) (sentence rest) := by
  refine join ?_
  induction alike with
  | nil => exact .nil
  | cons head _ ih =>
    rw [List.filter_cons, List.filter_cons, isEmpty_eq_of_forall₂ head]
    split
    · exact .cons head ih
    · exact ih

/-- Places are numbered whatever stands at them, so alike pieces have one text. -/
theorem renderFrom_eq (alike : PiecesAlike R front others) (d : Dialect) (offset : Nat) :
    renderFrom d offset front = renderFrom d offset others := by
  induction alike generalizing offset with
  | nil => rfl
  | cons head _ ih =>
    cases head with
    | same piece => rw [renderFrom, renderFrom, ih]
    | place exchanged =>
      rw [renderFrom, renderFrom, ih]
      rfl

end PiecesAlike

/-! ### Clauses and queries -/

variable {g : Grammar}

theorem Dialect.datePart_alike (d : Dialect) (part : DatePart) (column : List Piece)
    (operator : String) {value other : List Piece} (values : PiecesAlike R value other) :
    PiecesAlike R (d.datePart part column operator value)
      (d.datePart part column operator other) := by
  cases d with
  | mysql => exact (values.text.after column).text
  | hana => exact (values.text.after column).text
  | sqlite => exact (((values.text.after column).text).after [_]).text.before _
  | postgres =>
    cases part with
    | date | time => exact values.text.after column
    | year | month | day => exact values.text.after _
  | generic =>
    cases part with
    | date | time => exact (values.text.after column).text
    | year | month | day => exact values.text.after _

/-- Outlines whose parts differ at most in the values of places. -/
structure Outline.Alike (R : Value → Value → Prop) (o other : Outline) : Prop where
  head : PiecesAlike R o.head other.head
  clauses : List.Forall₂ (PiecesAlike R) o.clauses other.clauses

theorem Outline.Alike.pieces {o other : Outline} (alike : o.Alike R other) :
    PiecesAlike R o.pieces other.pieces :=
  .sentence (.cons alike.head alike.clauses)

theorem Linked.clause_alike {conditions others : List Linked}
    (alike : List.Forall₂ (Linked.Alike R) conditions others)
    (written : PiecesAlike R (Linked.first g conditions) (Linked.first g others))
    (keyword : String) :
    PiecesAlike R (Linked.clause g keyword conditions) (Linked.clause g keyword others) := by
  rw [Linked.clause_eq, Linked.clause_eq]
  cases alike with
  | nil => exact .nil
  | cons _ _ => exact written.text

mutual

theorem Operand.pieces_alike {operand other : Operand} (alike : operand.Alike R other) :
    PiecesAlike R (operand.pieces g) (other.pieces g) := by
  cases alike with
  | value exchanged =>
    rw [Operand.pieces, Operand.pieces]
    exact .cons (.place exchanged) .nil
  | raw | column => exact .refl _
  | sub queries =>
    rw [Operand.pieces, Operand.pieces]
    exact (Query.outline_alike queries).pieces.parenthesised
termination_by structural operand

theorem Operand.parts_alike {operands others : List Operand}
    (alike : List.Forall₂ (Operand.Alike R) operands others) :
    List.Forall₂ (PiecesAlike R) (Operand.parts g operands) (Operand.parts g others) := by
  cases alike with
  | nil => exact .nil
  | cons head tail =>
    rw [Operand.parts, Operand.parts]
    exact .cons (Operand.pieces_alike head) (Operand.parts_alike tail)
termination_by structural operands

theorem Selection.pieces_alike {entry other : Selection} (alike : entry.Alike R other) :
    PiecesAlike R (entry.pieces g) (other.pieces g) := by
  cases alike with
  | column | raw => exact .refl _
  | sub queries label =>
    rw [Selection.pieces, Selection.pieces]
    exact (Query.outline_alike queries).pieces.parenthesised.before _
termination_by structural entry

theorem Selection.parts_alike {columns others : List Selection}
    (alike : List.Forall₂ (Selection.Alike R) columns others) :
    List.Forall₂ (PiecesAlike R) (Selection.parts g columns) (Selection.parts g others) := by
  cases alike with
  | nil => exact .nil
  | cons head tail =>
    rw [Selection.parts, Selection.parts]
    exact .cons (Selection.pieces_alike head) (Selection.parts_alike tail)
termination_by structural columns

theorem Source.pieces_alike {source other : Source} (alike : source.Alike R other) :
    PiecesAlike R (source.pieces g) (other.pieces g) := by
  cases alike with
  | table => exact .refl _
  | sub queries label =>
    rw [Source.pieces, Source.pieces]
    exact (Query.outline_alike queries).pieces.parenthesised.before _
termination_by structural source

theorem Source.clause_alike {source other : Option Source}
    (alike : Option.Rel (Source.Alike R) source other) :
    PiecesAlike R (Source.clause g source) (Source.clause g other) := by
  cases alike with
  | none => exact .refl _
  | some sources =>
    rw [Source.clause, Source.clause]
    exact (Source.pieces_alike sources).text
termination_by structural source

theorem Condition.pieces_alike {condition other : Condition} (alike : condition.Alike R other) :
    PiecesAlike R (condition.pieces g) (other.pieces g) := by
  cases alike with
  | compare column operator values =>
    rw [Condition.pieces, Condition.pieces]
    exact (Operand.pieces_alike values).text.after _
  | compareSub queries operator values =>
    rw [Condition.pieces, Condition.pieces]
    exact (Query.outline_alike queries).pieces.parenthesised.append
      (Operand.pieces_alike values).text
  | columns | null | raw => exact .refl _
  | between column lows highs negated =>
    rw [Condition.pieces, Condition.pieces]
    exact ((Operand.pieces_alike lows).text.after _).append (Operand.pieces_alike highs).text
  | among column values negated =>
    cases values with
    | nil => exact .refl _
    | cons head tail =>
      rw [Condition.pieces, Condition.pieces]
      have list : List.Forall₂ (PiecesAlike R) (_ :: _) (_ :: _) :=
        .cons (Operand.pieces_alike head) (Operand.parts_alike tail)
      exact (PiecesAlike.join list).parenthesised.text.after _
  | amongSub column queries negated =>
    rw [Condition.pieces, Condition.pieces]
    exact (Query.outline_alike queries).pieces.parenthesised.text.after _
  | «exists» queries negated =>
    rw [Condition.pieces, Condition.pieces]
    exact (Query.outline_alike queries).pieces.parenthesised.text
  | group inner =>
    rw [Condition.pieces, Condition.pieces]
    exact (Linked.first_alike inner).1.parenthesised
  | datePart part column operator values =>
    rw [Condition.pieces, Condition.pieces]
    exact g.dialect.datePart_alike part _ operator (Operand.pieces_alike values)
termination_by structural condition

theorem Linked.first_alike {conditions others : List Linked}
    (alike : List.Forall₂ (Linked.Alike R) conditions others) :
    PiecesAlike R (Linked.first g conditions) (Linked.first g others) ∧
      PiecesAlike R (Linked.others g conditions) (Linked.others g others) := by
  cases alike with
  | nil => exact ⟨.refl _, .refl _⟩
  | cons head tail =>
    cases head with
    | mk link conditions =>
      have written := (Condition.pieces_alike conditions).append (Linked.first_alike tail).2
      rw [Linked.first, Linked.first, Linked.others, Linked.others]
      exact ⟨written, written.text⟩
termination_by structural conditions

theorem Query.outline_alike {query other : Query} (alike : query.Alike R other) :
    (query.outline g).Alike R (other.outline g) := by
  match query, alike with
  | ⟨source, columns, _, _, wheres, _, havings, _, _, _, _, _, _⟩,
      @Query.Alike.intro _ _ source' columns' wheres' havings' _ _ sources selections conditions
        choices _ =>
    have origin : PiecesAlike R (Source.clause g source) (Source.clause g source') :=
      Source.clause_alike sources
    have list : List.Forall₂ (PiecesAlike R) (Selection.parts g columns)
        (Selection.parts g columns') := Selection.parts_alike selections
    have kept := Linked.clause_alike conditions (Linked.first_alike conditions).1 "where "
    have chosen := Linked.clause_alike choices (Linked.first_alike choices).1 "having "
    rw [Query.outline, Query.outline]
    constructor
    · cases selections with
      | nil => exact .refl _
      | cons _ _ => exact (PiecesAlike.join list).text
    · exact .cons origin (.cons (.refl _) (.cons kept (.cons (.refl _)
        (.cons chosen (PiecesAlike.refl_clauses _)))))
termination_by structural query

end

/-! ### Values and statements -/

namespace Bindings.Alike

variable {b c : Bindings}

theorem refl_empty : Bindings.Alike R {} {} := ⟨.nil, .nil, .nil, .nil, .nil, .nil, .nil⟩

theorem all (alike : b.Alike R c) : Exchanged R b.all c.all := by
  have front := List.rel_append (List.rel_append alike.select alike.source) alike.join
  have middle := List.rel_append (List.rel_append front alike.condition) alike.group
  exact List.rel_append (List.rel_append middle alike.having) alike.order

theorem add (alike : b.Alike R c) {values others : List Value}
    (exchanged : Exchanged R values others) (target : Section) :
    (b.add values target).Alike R (c.add others target) := by
  cases target with
  | select => exact { alike with select := List.rel_append alike.select exchanged }
  | source => exact { alike with source := List.rel_append alike.source exchanged }
  | join => exact { alike with join := List.rel_append alike.join exchanged }
  | condition => exact { alike with condition := List.rel_append alike.condition exchanged }
  | group => exact { alike with group := List.rel_append alike.group exchanged }
  | having => exact { alike with having := List.rel_append alike.having exchanged }
  | order => exact { alike with order := List.rel_append alike.order exchanged }

end Bindings.Alike

/-- Statements that differ by an exchange of values, in their places and in the list of values. -/
structure Statement.Alike (R : Value → Value → Prop) (s t : Statement) : Prop where
  pieces : PiecesAlike R s.pieces t.pieces
  values : Exchanged R s.values t.values

theorem Statement.Alike.sql_eq {s t : Statement} (alike : s.Alike R t) (d : Dialect) :
    s.sql d = t.sql d :=
  alike.pieces.renderFrom_eq d 0

theorem Query.Alike.values {q r : Query} (alike : q.Alike R r) :
    Exchanged R q.values r.values := by
  cases alike with
  | intro _ _ _ _ bindings => exact bindings.all

theorem Operand.Alike.values {operand other : Operand} (alike : operand.Alike R other) :
    Exchanged R operand.values other.values := by
  cases alike with
  | value exchanged => exact .cons exchanged .nil
  | raw | column => exact .nil
  | sub queries => exact queries.values

theorem Operand.list_values_alike {operands others : List Operand}
    (alike : List.Forall₂ (Operand.Alike R) operands others) :
    Exchanged R (operands.flatMap Operand.values) (others.flatMap Operand.values) :=
  List.rel_flatMap alike fun _ _ values => values.values

namespace Query

variable {q r : Query}

theorem select_alike (alike : q.Alike R r) : (q.select g).Alike R (r.select g) :=
  ⟨(outline_alike alike).pieces, alike.values⟩

theorem exists_alike (alike : q.Alike R r) : (q.exists? g).Alike R (r.exists? g) := by
  have inner := (outline_alike (g := g) alike).pieces
  unfold exists?
  split
  · exact ⟨(inner.parenthesised.before _).text, alike.values⟩
  · exact ⟨(inner.parenthesised.before _).text, alike.values⟩

theorem forAggregate_alike (alike : q.Alike R r) : q.forAggregate.Alike R r.forAggregate := by
  cases alike with
  | intro sources _ conditions choices bindings =>
    exact .intro sources .nil conditions choices { bindings with select := .nil, order := .nil }

theorem aggregate_alike (alike : q.Alike R r) (function column : String) :
    (q.aggregate g function column).Alike R (r.aggregate g function column) := by
  have kept := forAggregate_alike alike
  have clauses := (outline_alike (g := g) kept).clauses
  have distinct : q.distinct = r.distinct := by
    cases alike with
    | intro => rfl
  unfold aggregate
  rw [distinct]
  exact ⟨.sentence (.cons (.refl _) clauses), kept.values⟩

end Query

end Sqlwright
