import Sqlwright.Proofs.BuilderTrace
import Sqlwright.Proofs.ValueExchange

/-!
Exchanging values while a query is built. Every step takes alike builders to alike builders:
building looks at a value only to tell NULL apart, and at a text only in front of the last cell of a
condition row.
-/

namespace Sqlwright

variable {R : Value → Value → Prop}

/-! ### Queries -/

namespace Query.Alike

variable {q r : Query}

theorem empty : Query.Alike R {} {} := .intro .none .nil .nil .nil .refl_empty

theorem group (alike : q.Alike R r) :
    Query.Alike R { source := q.source } { source := r.source } := by
  cases alike with
  | intro sources => exact .intro sources .nil .nil .nil .refl_empty

theorem report (alike : q.Alike R r) (found others : List Issue) :
    Query.Alike R { q with issues := q.issues ++ found }
      { r with issues := r.issues ++ others } := by
  cases alike with
  | intro sources selections conditions choices bindings =>
    exact .intro sources selections conditions choices bindings

theorem table (alike : q.Alike R r) (name : String) :
    Query.Alike R { q with source := some (.ofTable name) }
      { r with source := some (.ofTable name) } := by
  obtain ⟨plain, label, same⟩ := Source.ofTable_table name
  have sources : Source.Alike R (.ofTable name) (.ofTable name) := same ▸ .table plain label
  cases alike with
  | intro _ selections conditions choices bindings =>
    exact .intro (.some sources) selections conditions choices bindings

theorem fromQuery (alike : q.Alike R r) {sub other : Query} (queries : sub.Alike R other)
    (label : String) : Query.Alike R
      { q with source := some (.sub sub label), bound := { q.bound with source := sub.values } }
      { r with
        source := some (.sub other label), bound := { r.bound with source := other.values } } := by
  cases alike with
  | intro _ selections conditions choices bindings =>
    exact .intro (.some (.sub queries label)) selections conditions choices
      { bindings with source := queries.values }

theorem clearSelect (alike : q.Alike R r) : Query.Alike R
    { q with columns := [], bound := { q.bound with select := [] } }
    { r with columns := [], bound := { r.bound with select := [] } } := by
  cases alike with
  | intro sources _ conditions choices bindings =>
    exact .intro sources .nil conditions choices { bindings with select := .nil }

theorem selectColumns (alike : q.Alike R r) (names : List String) : Query.Alike R
    { q with columns := q.columns ++ names.map .column }
    { r with columns := r.columns ++ names.map .column } := by
  have added : List.Forall₂ (Selection.Alike R) (names.map .column) (names.map .column) := by
    refine List.forall₂_map_left_iff.mpr (List.forall₂_map_right_iff.mpr ?_)
    exact List.forall₂_same.mpr fun name _ => .column name
  cases alike with
  | intro sources selections conditions choices bindings =>
    exact .intro sources (List.rel_append selections added) conditions choices bindings

theorem addSelection (alike : q.Alike R r) {entry other : Selection} (entries : entry.Alike R other)
    {values more : List Value} (exchanged : Exchanged R values more) :
    (({ q with columns := q.columns ++ [entry] } : Query).bind values .select).Alike R
      (({ r with columns := r.columns ++ [other] } : Query).bind more .select) := by
  cases alike with
  | intro sources selections conditions choices bindings =>
    exact .intro sources (List.rel_append selections (.cons entries .nil)) conditions choices
      (bindings.add exchanged .select)

theorem addCondition (alike : q.Alike R r) (link : Connective) {condition other : Condition}
    (same : condition.Alike R other) {values more : List Value}
    (exchanged : Exchanged R values more) :
    (({ q with wheres := q.wheres ++ [.mk link condition] } : Query).bind values .condition).Alike R
      (({ r with wheres := r.wheres ++ [.mk link other] } : Query).bind more .condition) := by
  cases alike with
  | intro sources selections conditions choices bindings =>
    exact .intro sources selections (List.rel_append conditions (.cons (.mk link same) .nil))
      choices (bindings.add exchanged .condition)

theorem addHaving (alike : q.Alike R r) (link : Connective) {condition other : Condition}
    (same : condition.Alike R other) {values more : List Value}
    (exchanged : Exchanged R values more) :
    (({ q with havings := q.havings ++ [.mk link condition] } : Query).bind values .having).Alike R
      (({ r with havings := r.havings ++ [.mk link other] } : Query).bind more .having) := by
  cases alike with
  | intro sources selections conditions choices bindings =>
    exact .intro sources selections conditions
      (List.rel_append choices (.cons (.mk link same) .nil)) (bindings.add exchanged .having)

theorem addOrdering (alike : q.Alike R r) (entry : Ordering) {values more : List Value}
    (exchanged : Exchanged R values more) :
    (({ q with orders := q.orders ++ [entry] } : Query).bind values .order).Alike R
      (({ r with orders := r.orders ++ [entry] } : Query).bind more .order) := by
  cases alike with
  | intro sources selections conditions choices bindings =>
    exact .intro sources selections conditions choices (bindings.add exchanged .order)

/-- Changes to clauses without values, the same in both queries. -/
theorem settings (alike : q.Alike R r) (distinct : Bool → Bool) (joins : List Join → List Join)
    (groups : List String → List String) (limit offset : Option Nat → Option Nat)
    (lock : Option Lock → Option Lock) : Query.Alike R
    { q with
      distinct := distinct q.distinct, joins := joins q.joins, groups := groups q.groups
      limit := limit q.limit, offset := offset q.offset, lock := lock q.lock }
    { r with
      distinct := distinct r.distinct, joins := joins r.joins, groups := groups r.groups
      limit := limit r.limit, offset := offset r.offset, lock := lock r.lock } := by
  cases alike with
  | intro sources selections conditions choices bindings =>
    exact .intro sources selections conditions choices bindings

end Query.Alike

/-- Rows whose last cells are alike; the cells in front of them hold the same texts, if any. -/
inductive RowAlike {α : Type} (text? : α → Option String) (A : α → α → Prop) :
    List α → List α → Prop where
  | empty : RowAlike text? A [] []
  | last {v w : α} (cells : A v w) : RowAlike text? A [v] [w]
  | front {a b v w : α} {row other : List α} (texts : text? a = text? b)
      (rest : RowAlike text? A (v :: row) (w :: other)) :
      RowAlike text? A (a :: v :: row) (b :: w :: other)

/-! ### Builders -/

/-- Builders of one grammar whose queries differ by an exchange of values. -/
structure Builder.Alike (R : Value → Value → Prop) (b c : Builder) : Prop where
  grammar : b.grammar = c.grammar
  query : b.query.Alike R c.query

theorem Operand.Alike.isNull_eq (exchange : Exchange R) {operand other : Operand}
    (alike : operand.Alike R other) : operand.isNull = other.isNull := by
  cases alike with
  | @value v w exchanged =>
    have same := exchange.isNull exchanged
    cases v <;> cases w <;> first | rfl | cases same
  | raw | column | sub => rfl

namespace Builder.Alike

variable {b c : Builder}

theorem fresh (alike : b.Alike R c) : b.fresh.Alike R c.fresh := ⟨alike.grammar, .empty⟩

theorem report (alike : b.Alike R c) (issue other : Issue) :
    (b.report issue).Alike R (c.report other) :=
  ⟨alike.grammar, alike.query.report [issue] [other]⟩

theorem addCondition (alike : b.Alike R c) (link : Connective) {condition other : Condition}
    (same : condition.Alike R other) {values more : List Value}
    (exchanged : Exchanged R values more) :
    (b.addCondition link condition values).Alike R (c.addCondition link other more) :=
  ⟨alike.grammar, alike.query.addCondition link same exchanged⟩

theorem operator (alike : b.Alike R c) (symbol : String) :
    (b.operator symbol).1 = (c.operator symbol).1 ∧
      (b.operator symbol).2.Alike R (c.operator symbol).2 := by
  simp only [Builder.operator, alike.grammar]
  split
  · exact ⟨rfl, alike⟩
  · exact ⟨rfl, alike.report _ _⟩

/-- Both builders repair an operator alike and write the same one into their conditions. -/
theorem repaired (alike : b.Alike R c) (link : Connective) (symbol : String)
    {condition other : String → Condition}
    (same : ∀ written, (condition written).Alike R (other written)) {values more : List Value}
    (exchanged : Exchanged R values more) :
    ((b.operator symbol).2.addCondition link (condition (b.operator symbol).1) values).Alike R
      ((c.operator symbol).2.addCondition link (other (c.operator symbol).1) more) := by
  obtain ⟨written, later⟩ := alike.operator symbol
  rw [written]
  exact later.addCondition link (same _) exchanged

theorem whereNull (alike : b.Alike R c) (link : Connective) (column : String) (negated : Bool) :
    (b.whereNull link column negated).Alike R (c.whereNull link column negated) :=
  alike.addCondition link (.null column negated) .nil

theorem whereCompare (exchange : Exchange R) (alike : b.Alike R c) (link : Connective)
    (column symbol : String) {value other : Operand} (values : value.Alike R other) :
    (b.whereCompare link column symbol value).Alike R
      (c.whereCompare link column symbol other) := by
  obtain ⟨written, later⟩ := alike.operator symbol
  rw [whereCompare_eq, whereCompare_eq, written, values.isNull_eq exchange]
  split
  · exact later.whereNull link column _
  · exact later.addCondition link (.compare column _ values) values.values

theorem addGroup (alike : b.Alike R c) (link : Connective) {child other : Query}
    (children : child.Alike R other) : (b.addGroup link child).Alike R (c.addGroup link other) := by
  have later := alike.query.report child.issues other.issues
  unfold Builder.addGroup
  cases children with
  | intro _ _ conditions _ bindings =>
    rw [isEmpty_eq_of_forall₂ conditions]
    split
    · exact ⟨alike.grammar, later⟩
    · exact ⟨alike.grammar, later.addCondition link (.group conditions) bindings.condition⟩

theorem freshGroup (alike : b.Alike R c) : b.freshGroup.Alike R c.freshGroup :=
  ⟨alike.grammar, alike.query.group⟩

/-- Only the last cell of a row is bound. -/
theorem whereRow (exchange : Exchange R) (alike : b.Alike R c) {row other : List Operand}
    (rows : RowAlike Operand.text? (Operand.Alike R) row other) :
    (b.whereRow row).Alike R (c.whereRow other) := by
  cases rows with
  | empty => exact alike.report _ _
  | last => exact alike.report _ _
  | @front column twin v w _ _ texts rest =>
    cases rest with
    | last cells =>
      unfold Builder.whereRow
      simp only [texts]
      split
      · exact alike.whereCompare exchange .and _ "=" cells
      · exact alike.report _ _
    | front operators rest =>
      cases rest with
      | last cells =>
        unfold Builder.whereRow
        simp only [texts, operators]
        split
        · exact alike.whereCompare exchange .and _ _ cells
        · exact alike.report _ _
      | front => exact alike.report _ _

/-- Steps that keep builders alike keep them alike through two lists of alike items. -/
theorem foldl {α : Type} {A : α → α → Prop} (step : Builder → α → Builder)
    (each : ∀ (b c : Builder) (item other : α), b.Alike R c → A item other →
      (step b item).Alike R (step c other))
    (alike : b.Alike R c) {items others : List α} (same : List.Forall₂ A items others) :
    (items.foldl step b).Alike R (others.foldl step c) := by
  induction same generalizing b c with
  | nil => exact alike
  | cons head _ ih => exact ih (each b c _ _ alike head)

theorem whereRows (exchange : Exchange R) (alike : b.Alike R c) (link : Connective)
    {rows others : List (List Operand)}
    (same : List.Forall₂ (RowAlike Operand.text? (Operand.Alike R)) rows others) :
    (b.whereRows link rows).Alike R (c.whereRows link others) :=
  have children : (rows.foldl Builder.whereRow b.freshGroup).Alike R
      (others.foldl Builder.whereRow c.freshGroup) :=
    foldl Builder.whereRow (fun _ _ _ _ later cells => later.whereRow exchange cells)
      alike.freshGroup same
  alike.addGroup link children.query

theorem whereColumns (alike : b.Alike R c) (link : Connective) (first symbol second : String) :
    (b.whereColumns link first symbol second).Alike R
      (c.whereColumns link first symbol second) :=
  alike.repaired link symbol (fun written => .columns first written second) .nil

theorem whereColumnRow (alike : b.Alike R c) (row : List String) :
    (b.whereColumnRow row).Alike R (c.whereColumnRow row) := by
  unfold Builder.whereColumnRow
  split
  · exact alike.whereColumns _ _ _ _
  · exact alike.whereColumns _ _ _ _
  · exact alike.report _ _

theorem whereColumnRows (alike : b.Alike R c) (rows : List (List String)) :
    (b.whereColumnRows rows).Alike R (c.whereColumnRows rows) := by
  have children : (rows.foldl Builder.whereColumnRow b.freshGroup).Alike R
      (rows.foldl Builder.whereColumnRow c.freshGroup) :=
    foldl Builder.whereColumnRow (fun _ _ _ _ later same => same ▸ later.whereColumnRow _)
      alike.freshGroup (List.forall₂_same.mpr fun _ _ => rfl)
  exact alike.addGroup .and children.query

theorem whereQueryCompare (alike : b.Alike R c) {sub other : Query} (queries : sub.Alike R other)
    (symbol : String) {v w : Operand} (values : v.Alike R w) :
    (b.whereQueryCompare sub symbol v).Alike R (c.whereQueryCompare other symbol w) :=
  alike.repaired .and symbol (fun written => .compareSub queries written values)
    (List.rel_append queries.values values.values)

theorem whereRaw (alike : b.Alike R c) (link : Connective) (sql : String)
    {values others : List Value} (exchanged : Exchanged R values others) :
    (b.whereRaw link sql values).Alike R (c.whereRaw link sql others) := by
  unfold Builder.whereRaw
  rw [exchanged.length_eq]
  exact alike.addCondition link (.raw sql _) exchanged

theorem whereBetween (alike : b.Alike R c) (link : Connective) (column : String)
    {ends others : List Operand} (same : List.Forall₂ (Operand.Alike R) ends others)
    (negated : Bool) :
    (b.whereBetween link column ends negated).Alike R
      (c.whereBetween link column others negated) := by
  cases same with
  | nil => exact alike.report _ _
  | cons low rest =>
    cases rest with
    | nil => exact alike.report _ _
    | cons high _ =>
      exact alike.addCondition link (.between column low high negated)
        (List.rel_append low.values high.values)

theorem whereAmong (alike : b.Alike R c) (link : Connective) (column : String)
    {values others : List Operand} (same : List.Forall₂ (Operand.Alike R) values others)
    (negated : Bool) :
    (b.whereAmong link column values negated).Alike R
      (c.whereAmong link column others negated) :=
  alike.addCondition link (.among column same negated) (Operand.list_values_alike same)

theorem whereDatePart (alike : b.Alike R c) (link : Connective) (part : DatePart)
    (column symbol : String) {v w : Operand} (values : v.Alike R w) :
    (b.whereDatePart link part column symbol v).Alike R
      (c.whereDatePart link part column symbol w) :=
  alike.repaired link symbol (fun written => .datePart part column written values) values.values

/-! ### Source, select list and the other clauses -/

theorem fromQuery (alike : b.Alike R c) {sub other : Query} (queries : sub.Alike R other)
    (label : String) : (b.fromQuery sub label).Alike R (c.fromQuery other label) :=
  ⟨alike.grammar, alike.query.fromQuery queries label⟩

theorem addSelection (alike : b.Alike R c) {entry other : Selection} (entries : entry.Alike R other)
    {values more : List Value} (exchanged : Exchanged R values more) :
    (b.addSelection entry values).Alike R (c.addSelection other more) :=
  ⟨alike.grammar, alike.query.addSelection entries exchanged⟩

theorem selectRaw (alike : b.Alike R c) (sql : String) {values others : List Value}
    (exchanged : Exchanged R values others) :
    (b.selectRaw sql values).Alike R (c.selectRaw sql others) := by
  unfold Builder.selectRaw
  rw [exchanged.length_eq]
  exact alike.addSelection (.raw sql _) exchanged

theorem addHaving (alike : b.Alike R c) (link : Connective) {condition other : Condition}
    (same : condition.Alike R other) {values more : List Value}
    (exchanged : Exchanged R values more) :
    (b.addHaving link condition values).Alike R (c.addHaving link other more) :=
  ⟨alike.grammar, alike.query.addHaving link same exchanged⟩

theorem having (alike : b.Alike R c) (link : Connective) (column symbol : String) {v w : Operand}
    (values : v.Alike R w) :
    (b.having link column symbol v).Alike R (c.having link column symbol w) := by
  obtain ⟨written, later⟩ := alike.operator symbol
  have condition : Condition.Alike R (.compare column (b.operator symbol).1 v)
      (.compare column (c.operator symbol).1 w) := by
    rw [written]
    exact .compare column _ values
  exact later.addHaving link condition values.values

theorem havingRaw (alike : b.Alike R c) (sql : String) {values others : List Value}
    (exchanged : Exchanged R values others) :
    (b.havingRaw sql values).Alike R (c.havingRaw sql others) := by
  unfold Builder.havingRaw
  rw [exchanged.length_eq]
  exact alike.addHaving .and (.raw sql _) exchanged

theorem addOrdering (alike : b.Alike R c) (entry : Ordering) {values others : List Value}
    (exchanged : Exchanged R values others) :
    (b.addOrdering entry values).Alike R (c.addOrdering entry others) :=
  ⟨alike.grammar, alike.query.addOrdering entry exchanged⟩

theorem orderByRaw (alike : b.Alike R c) (sql : String) {values others : List Value}
    (exchanged : Exchanged R values others) :
    (b.orderByRaw sql values).Alike R (c.orderByRaw sql others) := by
  unfold Builder.orderByRaw
  rw [exchanged.length_eq]
  exact alike.addOrdering _ exchanged

theorem orderBy (alike : b.Alike R c) (column direction : String) :
    (b.orderBy column direction).Alike R (c.orderBy column direction) := by
  unfold Builder.orderBy
  split
  · exact alike.addOrdering _ .nil
  · exact (alike.report _ _).addOrdering _ .nil

theorem addJoin (alike : b.Alike R c) (join : Join) : (b.addJoin join).Alike R (c.addJoin join) :=
  ⟨alike.grammar, alike.query.settings id (· ++ [join]) id id id id⟩

theorem join (alike : b.Alike R c) (kind : JoinKind) (table first symbol second : String) :
    (b.join kind table first symbol second).Alike R (c.join kind table first symbol second) := by
  obtain ⟨written, later⟩ := alike.operator symbol
  have same : (b.operator symbol).2.addJoin
      ⟨kind, table, [⟨.and, first, (b.operator symbol).1, second⟩]⟩ =
        b.join kind table first symbol second := rfl
  rw [← same, written]
  exact later.addJoin _

end Builder.Alike

end Sqlwright
