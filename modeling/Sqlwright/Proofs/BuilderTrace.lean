import Sqlwright.Query.Call
import Sqlwright.Proofs.Coherence

/-!
What building does to a query. `Query.Evolves` has one constructor for each way in which a step
changes a query, together with what the step guarantees about the entry it adds; every call is
traced by it. Properties of all queries that can be built follow by induction over the trace.
Steps write joins and select entries of their own and take in what callers hand over ready-made; the
trace keeps the two apart.
-/

namespace Sqlwright

mutual

/-- The operators that a condition is written with, also inside a group. -/
def Condition.operators : Condition → List String
  | .compare _ operator _ | .compareSub _ operator _ | .columns _ operator _
  | .datePart _ _ operator _ => [operator]
  | .null _ _ | .between _ _ _ _ | .among _ _ _ | .amongSub _ _ _ | .exists _ _ | .raw _ _ => []
  | .group conditions => Linked.operators conditions

def Linked.operators : List Linked → List String
  | [] => []
  | .mk _ condition :: rest => condition.operators ++ Linked.operators rest

end

/-- All columns are compared by operators that the dialect knows. -/
def Join.Known (g : Grammar) (join : Join) : Prop :=
  ∀ condition ∈ join.conditions, g.isOperator condition.operator

theorem Source.ofTable_table (text : String) :
    ∃ name label, Source.ofTable text = .table name label := by
  unfold Source.ofTable
  split
  · exact ⟨_, _, rfl⟩
  · exact ⟨_, _, rfl⟩

/-- What callers hand over ready-made: a join, or SQL for the select list that declares its number
of places and comes without values. -/
inductive Handed where
  | join (join : Join)
  | entry (sql : String) (places : Nat)

/-- The values that come with a select entry: they stand in its slots, or there are none because the
entry was handed over. -/
inductive Selection.Brings (given : Handed → Prop) : Selection → List Value → Prop where
  | filled {entry : Selection} {values : List Value} (fits : Fits entry.slots values) :
      Brings given entry values
  | handed {sql : String} {places : Nat} (allowed : given (.entry sql places)) :
      Brings given (.raw sql places) []

/-- The steps that lead from one query to another, where `given` holds of what callers hand over.
Queries that are taken in were built from nothing; the conditions of a group were built on the
source of the query they are added to. -/
inductive Query.Evolves (g : Grammar) (given : Handed → Prop) : Query → Query → Prop where
  | refl (q : Query) : Evolves g given q q
  | trans {q r s : Query} (first : Evolves g given q r) (second : Evolves g given r s) :
      Evolves g given q s
  | reset (q : Query) : Evolves g given q {}
  | report (q : Query) (found : List Issue) :
      Evolves g given q { q with issues := q.issues ++ found }
  | table (q : Query) (name : String) : Evolves g given q { q with source := some (.ofTable name) }
  | fromQuery (q : Query) {sub : Query} (label : String) (built : Evolves g given {} sub) :
      Evolves g given q
        { q with source := some (.sub sub label), bound := { q.bound with source := sub.values } }
  | clearSelect (q : Query) :
      Evolves g given q { q with columns := [], bound := { q.bound with select := [] } }
  | addSelection (q : Query) {entry : Selection} {values : List Value}
      (built : ∀ s ∈ entry.subqueries, Evolves g given {} s) (brings : entry.Brings given values) :
      Evolves g given q (({ q with columns := q.columns ++ [entry] } : Query).bind values .select)
  | addCondition (q : Query) (link : Connective) {condition : Condition} {values : List Value}
      (built : ∀ s ∈ condition.subqueries, Evolves g given {} s)
      (fits : Fits condition.slots values)
      (known : ∀ operator ∈ condition.operators, g.isOperator operator) :
      Evolves g given q
        (({ q with wheres := q.wheres ++ [.mk link condition] } : Query).bind values .condition)
  | addGroup (q : Query) (link : Connective) {child : Query}
      (grown : Evolves g given { source := q.source } child) (filled : child.wheres ≠ []) :
      Evolves g given q
        (({ q with wheres := q.wheres ++ [.mk link (.group child.wheres)] } : Query).bind
          child.bound.condition .condition)
  | addHaving (q : Query) (link : Connective) {condition : Condition} {values : List Value}
      (built : ∀ s ∈ condition.subqueries, Evolves g given {} s)
      (fits : Fits condition.slots values)
      (known : ∀ operator ∈ condition.operators, g.isOperator operator) :
      Evolves g given q
        (({ q with havings := q.havings ++ [.mk link condition] } : Query).bind values .having)
  | addOrdering (q : Query) {entry : Ordering} {values : List Value}
      (fits : Fits entry.slots values) :
      Evolves g given q (({ q with orders := q.orders ++ [entry] } : Query).bind values .order)
  | addJoin (q : Query) {join : Join} (allowed : join.Known g ∨ given (.join join)) :
      Evolves g given q { q with joins := q.joins ++ [join] }
  | groupBy (q : Query) (names : List String) :
      Evolves g given q { q with groups := q.groups ++ names }
  | distinct (q : Query) : Evolves g given q { q with distinct := true }
  | limit (q : Query) (rows : Nat) : Evolves g given q { q with limit := some rows }
  | offset (q : Query) (rows : Nat) : Evolves g given q { q with offset := some rows }
  | lock (q : Query) (mode : Lock) : Evolves g given q { q with lock := some mode }

/-- A query that steps build from nothing. -/
def Query.Built (g : Grammar) (given : Handed → Prop) (q : Query) : Prop :=
  Query.Evolves g given {} q

/-- The queries of an operand are built. -/
def Operand.Built (g : Grammar) (given : Handed → Prop) (operand : Operand) : Prop :=
  ∀ s ∈ operand.subqueries, s.Built g given

/-- A builder keeps its grammar, and steps lead from its query to the later one. -/
structure Builder.Evolves (given : Handed → Prop) (b later : Builder) : Prop where
  grammar : later.grammar = b.grammar
  query : Query.Evolves b.grammar given b.query later.query

section Steps

variable {given : Handed → Prop}

namespace Builder

theorem Evolves.refl (b : Builder) : b.Evolves given b := ⟨rfl, .refl b.query⟩

theorem Evolves.trans {b later last : Builder} (first : b.Evolves given later)
    (second : later.Evolves given last) : b.Evolves given last where
  grammar := second.grammar.trans first.grammar
  query := first.query.trans (first.grammar ▸ second.query)

/-- Steps that evolve a builder of one grammar evolve it through a whole list. -/
theorem foldl_evolves {α : Type} {g : Grammar} {step : Builder → α → Builder} {items : List α}
    (each : ∀ item ∈ items, ∀ b : Builder, b.grammar = g → b.Evolves given (step b item))
    (b : Builder) (same : b.grammar = g) : b.Evolves given (items.foldl step b) := by
  induction items generalizing b with
  | nil => exact .refl b
  | cons item rest ih =>
    have head := each item List.mem_cons_self b same
    have tail := ih (fun other member => each other (List.mem_cons_of_mem _ member)) (step b item)
      (head.grammar.trans same)
    exact head.trans tail

theorem isOperator_eq (g : Grammar) : g.isOperator "=" = true := by
  have trimmed : (Text.trim "=").toLower = "=" := by decide +kernel
  unfold Grammar.isOperator
  rw [trimmed]
  cases g.dialect <;> decide

variable {b : Builder}

theorem report_evolves (b : Builder) (issue : Issue) : b.Evolves given (b.report issue) :=
  ⟨rfl, .report b.query [issue]⟩

/-- The repaired operator is one of the dialect; repairing it only reports. -/
theorem operator_spec (b : Builder) (symbol : String) :
    b.grammar.isOperator (b.operator symbol).1 ∧ b.Evolves given (b.operator symbol).2 := by
  by_cases known : b.grammar.isOperator (Text.trim symbol)
  · simp only [operator, known, if_true]
    exact ⟨trivial, .refl b⟩
  · simp only [operator, known]
    exact ⟨isOperator_eq b.grammar, b.report_evolves _⟩

/-! ### Conditions -/

theorem addCondition_evolves (b : Builder) (link : Connective) {condition : Condition}
    {values : List Value} (built : ∀ s ∈ condition.subqueries, s.Built b.grammar given)
    (fits : Fits condition.slots values)
    (known : ∀ operator ∈ condition.operators, b.grammar.isOperator operator) :
    b.Evolves given (b.addCondition link condition values) :=
  ⟨rfl, .addCondition b.query link built fits known⟩

theorem whereNull_evolves (b : Builder) (link : Connective) (column : String) (negated : Bool) :
    b.Evolves given (b.whereNull link column negated) :=
  b.addCondition_evolves link (List.forall_mem_nil _) .nil
    (List.forall_mem_nil _)

/-- A condition on one repaired operator, added after the repair. -/
theorem repaired_evolves (b : Builder) (symbol : String) (link : Connective)
    {condition : Condition} {values : List Value}
    (built : ∀ s ∈ condition.subqueries, s.Built b.grammar given)
    (fits : Fits condition.slots values)
    (written : condition.operators = [(b.operator symbol).1]) :
    b.Evolves given ((b.operator symbol).2.addCondition link condition values) := by
  obtain ⟨known, repaired⟩ := b.operator_spec symbol
  refine repaired.trans (addCondition_evolves _ link ?_ fits ?_)
  · rw [repaired.grammar]
    exact built
  · intro operator member
    rw [written] at member
    rw [List.mem_singleton.mp member, repaired.grammar]
    exact known

theorem whereCompare_eq (b : Builder) (link : Connective) (column symbol : String)
    (value : Operand) : b.whereCompare link column symbol value =
      if value.isNull && equalities.contains (b.operator symbol).1 then
        (b.operator symbol).2.whereNull link column ((b.operator symbol).1 != "=")
      else
        (b.operator symbol).2.addCondition link (.compare column (b.operator symbol).1 value)
          value.values :=
  rfl

theorem whereCompare_evolves (link : Connective) (column symbol : String) {value : Operand}
    (built : value.Built b.grammar given) :
    b.Evolves given (b.whereCompare link column symbol value) := by
  rw [whereCompare_eq]
  split
  · exact (b.operator_spec symbol).2.trans (whereNull_evolves _ link column _)
  · exact b.repaired_evolves symbol link built (fits_map_some _) rfl

/-- A child grown on the source of a builder is added to it as a group. -/
theorem addGroup_evolves (link : Connective) {child : Query}
    (grown : Query.Evolves b.grammar given { source := b.query.source } child) :
    b.Evolves given (b.addGroup link child) := by
  have reported : Query.Evolves b.grammar given b.query
      { b.query with issues := b.query.issues ++ child.issues } := .report b.query child.issues
  unfold addGroup
  split
  · exact ⟨rfl, reported⟩
  · rename_i filled
    exact ⟨rfl, reported.trans (.addGroup _ link grown (by simpa using filled))⟩

theorem whereRow_evolves (b : Builder) {row : List Operand}
    (built : ∀ operand ∈ row, operand.Built b.grammar given) :
    b.Evolves given (b.whereRow row) := by
  unfold whereRow
  split
  · split
    · exact whereCompare_evolves _ _ _ (built _ (by simp))
    · exact b.report_evolves _
  · split
    · exact whereCompare_evolves _ _ _ (built _ (by simp))
    · exact b.report_evolves _
  · exact b.report_evolves _

theorem whereRows_evolves (link : Connective) {rows : List (List Operand)}
    (built : ∀ row ∈ rows, ∀ operand ∈ row, operand.Built b.grammar given) :
    b.Evolves given (b.whereRows link rows) := by
  have children : b.freshGroup.Evolves given (rows.foldl whereRow b.freshGroup) := by
    refine foldl_evolves (g := b.grammar) (fun row member child same => ?_) _ rfl
    exact child.whereRow_evolves fun operand inside => same ▸ built row member operand inside
  exact addGroup_evolves link children.query

theorem whereQueryCompare_evolves {sub : Query} (symbol : String) {value : Operand}
    (built : sub.Built b.grammar given) (operand : value.Built b.grammar given) :
    b.Evolves given (b.whereQueryCompare sub symbol value) := by
  refine b.repaired_evolves symbol .and ?_ ?_ rfl
  · intro s member
    rcases List.mem_cons.mp member with same | inside
    · exact same ▸ built
    · exact operand s inside
  · exact (fits_map_some _).append (fits_map_some _)

theorem whereColumns_evolves (b : Builder) (link : Connective) (first symbol second : String) :
    b.Evolves given (b.whereColumns link first symbol second) :=
  b.repaired_evolves symbol link (List.forall_mem_nil _) .nil rfl

theorem whereColumnRow_evolves (b : Builder) (row : List String) :
    b.Evolves given (b.whereColumnRow row) := by
  unfold whereColumnRow
  split
  · exact b.whereColumns_evolves _ _ _ _
  · exact b.whereColumns_evolves _ _ _ _
  · exact b.report_evolves _

theorem whereColumnRows_evolves (b : Builder) (rows : List (List String)) :
    b.Evolves given (b.whereColumnRows rows) := by
  have children : b.freshGroup.Evolves given (rows.foldl whereColumnRow b.freshGroup) :=
    foldl_evolves (fun row _ child _ => child.whereColumnRow_evolves row) _ rfl
  exact addGroup_evolves .and children.query

/-- A condition without an operator from the caller. -/
theorem plainCondition_evolves (link : Connective) {condition : Condition} {values : List Value}
    (built : ∀ s ∈ condition.subqueries, s.Built b.grammar given)
    (fits : Fits condition.slots values)
    (plain : condition.operators = []) :
    b.Evolves given (b.addCondition link condition values) := by
  refine b.addCondition_evolves link built fits fun operator member => ?_
  rw [plain] at member
  exact absurd member List.not_mem_nil

theorem whereRaw_evolves (b : Builder) (link : Connective) (sql : String) (values : List Value) :
    b.Evolves given (b.whereRaw link sql values) :=
  plainCondition_evolves link (List.forall_mem_nil _)
    (fits_replicate_none_iff.mpr rfl) rfl

theorem whereBetween_evolves (link : Connective) (column : String) {ends : List Operand}
    (negated : Bool) (built : ∀ operand ∈ ends, operand.Built b.grammar given) :
    b.Evolves given (b.whereBetween link column ends negated) := by
  unfold whereBetween
  split
  · rename_i low high _
    refine plainCondition_evolves link ?_ ((fits_map_some _).append (fits_map_some _)) rfl
    intro s member
    rcases List.mem_append.mp member with inside | inside
    · exact built low (by simp) s inside
    · exact built high (by simp) s inside
  · exact b.report_evolves _

theorem whereAmong_evolves (link : Connective) (column : String) {values : List Operand}
    (negated : Bool) (built : ∀ operand ∈ values, operand.Built b.grammar given) :
    b.Evolves given (b.whereAmong link column values negated) := by
  refine plainCondition_evolves link ?_ (fits_map_some _) rfl
  intro s member
  obtain ⟨operand, present, inside⟩ := List.mem_flatMap.mp member
  exact built operand present s inside

theorem whereAmongQuery_evolves (column : String) {sub : Query} (negated : Bool)
    (built : sub.Built b.grammar given) : b.Evolves given (b.whereAmongQuery column sub negated) :=
  plainCondition_evolves .and (List.forall_mem_singleton.mpr built)
    (fits_map_some _) rfl

theorem whereExists_evolves (link : Connective) {sub : Query} (negated : Bool)
    (built : sub.Built b.grammar given) : b.Evolves given (b.whereExists link sub negated) :=
  plainCondition_evolves link (List.forall_mem_singleton.mpr built)
    (fits_map_some _) rfl

theorem whereDatePart_evolves (link : Connective) (part : DatePart) (column symbol : String)
    {value : Operand} (built : value.Built b.grammar given) :
    b.Evolves given (b.whereDatePart link part column symbol value) :=
  b.repaired_evolves symbol link built (fits_map_some _) rfl

/-! ### Source, select list and the other clauses -/

theorem fromQuery_evolves {sub : Query} (label : String) (built : sub.Built b.grammar given) :
    b.Evolves given (b.fromQuery sub label) :=
  ⟨rfl, .fromQuery b.query label built⟩

theorem addSelection_evolves {entry : Selection} {values : List Value}
    (built : ∀ s ∈ entry.subqueries, s.Built b.grammar given) (brings : entry.Brings given values) :
    b.Evolves given (b.addSelection entry values) :=
  ⟨rfl, .addSelection b.query built brings⟩

theorem selectRaw_evolves (b : Builder) (sql : String) (values : List Value) :
    b.Evolves given (b.selectRaw sql values) :=
  addSelection_evolves (List.forall_mem_nil _) (.filled (fits_replicate_none_iff.mpr rfl))

theorem selectQuery_evolves {sub : Query} (label : String) (built : sub.Built b.grammar given) :
    b.Evolves given (b.selectQuery sub label) :=
  addSelection_evolves (List.forall_mem_singleton.mpr built) (.filled (fits_map_some _))

/-- Columns are added one by one, none of them with values. -/
theorem selectColumns_evolves (b : Builder) (list : String) :
    b.Evolves given (b.selectColumns list) := by
  have each (names : List String) (q : Query) : Query.Evolves b.grammar given q
      { q with columns := q.columns ++ names.map .column } := by
    induction names generalizing q with
    | nil =>
      rw [List.map_nil, List.append_nil]
      cases q
      exact .refl _
    | cons name rest ih =>
      have column : Query.Evolves b.grammar given q
          { q with columns := q.columns ++ [.column name] } := by
        have none : ∀ s ∈ (Selection.column name).subqueries, Query.Evolves b.grammar given {} s :=
          List.forall_mem_nil _
        simpa [Query.bind, Bindings.add] using Query.Evolves.addSelection q none (.filled .nil)
      simpa using column.trans (ih { q with columns := q.columns ++ [.column name] })
  exact ⟨rfl, each (Text.commaList list) b.query⟩

theorem join_evolves (b : Builder) (kind : JoinKind) (table first symbol second : String) :
    b.Evolves given (b.join kind table first symbol second) := by
  obtain ⟨known, repaired⟩ := b.operator_spec symbol
  refine repaired.trans ⟨rfl, .addJoin _ (.inl ?_)⟩
  rw [repaired.grammar]
  exact List.forall_mem_singleton.mpr known

theorem having_evolves (link : Connective) (column symbol : String) {value : Operand}
    (built : value.Built b.grammar given) :
    b.Evolves given (b.having link column symbol value) := by
  obtain ⟨known, repaired⟩ := b.operator_spec symbol
  refine repaired.trans ⟨rfl, .addHaving _ link ?_ (fits_map_some _) ?_⟩
  · rw [repaired.grammar]
    exact built
  · intro operator member
    rw [List.mem_singleton.mp member, repaired.grammar]
    exact known

theorem havingRaw_evolves (b : Builder) (sql : String) (values : List Value) :
    b.Evolves given (b.havingRaw sql values) :=
  ⟨rfl, .addHaving b.query .and (List.forall_mem_nil _)
    (fits_replicate_none_iff.mpr rfl) (List.forall_mem_nil _)⟩

theorem addOrdering_evolves (b : Builder) {entry : Ordering} {values : List Value}
    (fits : Fits entry.slots values) : b.Evolves given (b.addOrdering entry values) :=
  ⟨rfl, .addOrdering b.query fits⟩

theorem orderBy_evolves (b : Builder) (column direction : String) :
    b.Evolves given (b.orderBy column direction) := by
  unfold orderBy
  split
  · exact b.addOrdering_evolves .nil
  · exact (b.report_evolves _).trans (addOrdering_evolves _ .nil)

end Builder

end Steps

/-! ### Calls -/

mutual

/-- What a call hands over ready-made, also inside its groups and queries. -/
def Call.handed : Call → List Handed
  | .joinWith join => [.join join]
  | .fromSub calls _ | .selectSub calls _ | .compareSub _ _ calls | .amongSub _ calls _
  | .exists _ calls _ | .group _ calls => Call.allHanded calls
  | .subCompare calls _ value => Call.allHanded calls ++ value.handed
  | .select items | .addSelect items => Item.allHanded items
  | .compare _ _ _ value | .datePart _ _ _ _ value | .having _ _ _ value => value.handed
  | .rows _ cells => Arg.rowsHanded cells
  | .between _ _ args _ | .among _ _ args _ => Arg.allHanded args
  | .branch condition yes no =>
    if condition then Call.allHanded yes else Call.allHanded no
  | _ => []

def Call.allHanded : List Call → List Handed
  | [] => []
  | call :: rest => call.handed ++ Call.allHanded rest

def Arg.handed : Arg → List Handed
  | .sub calls => Call.allHanded calls
  | _ => []

def Arg.allHanded : List Arg → List Handed
  | [] => []
  | arg :: rest => arg.handed ++ Arg.allHanded rest

def Arg.rowsHanded : List (List Arg) → List Handed
  | [] => []
  | row :: rest => Arg.allHanded row ++ Arg.rowsHanded rest

def Item.handed : Item → List Handed
  | .columns _ => []
  | .raw sql places => [.entry sql places]
  | .sub calls _ => Call.allHanded calls

def Item.allHanded : List Item → List Handed
  | [] => []
  | item :: rest => item.handed ++ Item.allHanded rest

end

section Calls

variable {given : Handed → Prop}

mutual

theorem Call.run_evolves (call : Call) (b : Builder)
    (handed : ∀ ready ∈ call.handed, given ready) : b.Evolves given (call.run b) := by
  match call with
  | .table name => exact ⟨rfl, .table b.query name⟩
  | .fromSub calls label =>
    exact Builder.fromQuery_evolves label (Call.runAll_evolves calls b.fresh handed).query
  | .select items =>
    have cleared : b.Evolves given b.clearSelect := ⟨rfl, .clearSelect b.query⟩
    exact cleared.trans (Item.addAll_evolves items b.clearSelect handed)
  | .addSelect items => exact Item.addAll_evolves items b handed
  | .selectRaw sql values => exact b.selectRaw_evolves sql values
  | .selectSub calls label =>
    exact Builder.selectQuery_evolves label (Call.runAll_evolves calls b.fresh handed).query
  | .distinct => exact ⟨rfl, .distinct b.query⟩
  | .compare link column operator value =>
    exact Builder.whereCompare_evolves link column operator (Arg.operand_built value b handed)
  | .compareSub column operator calls =>
    have built : (Operand.sub (Call.runAll calls b.fresh).query).Built b.grammar given :=
      List.forall_mem_singleton.mpr (Call.runAll_evolves calls b.fresh handed).query
    exact Builder.whereCompare_evolves .and column operator built
  | .subCompare calls operator value =>
    obtain ⟨inner, outer⟩ := List.forall_mem_append.mp handed
    exact Builder.whereQueryCompare_evolves operator (Call.runAll_evolves calls b.fresh inner).query
      (Arg.operand_built value b outer)
  | .group link calls =>
    exact Builder.addGroup_evolves link (Call.runAll_evolves calls b.freshGroup handed).query
  | .rows link rows =>
    exact Builder.whereRows_evolves link (Arg.operandRows_built rows b handed)
  | .columns link first operator second => exact b.whereColumns_evolves link first operator second
  | .columnRows rows => exact b.whereColumnRows_evolves rows
  | .nulls link columns negated =>
    exact Builder.foldl_evolves (fun column _ b _ => b.whereNull_evolves link column negated) b rfl
  | .raw link sql values => exact b.whereRaw_evolves link sql values
  | .between link column ends negated =>
    exact Builder.whereBetween_evolves link column negated (Arg.operands_built ends b handed)
  | .among link column values negated =>
    exact Builder.whereAmong_evolves link column negated (Arg.operands_built values b handed)
  | .amongSub column calls negated =>
    exact Builder.whereAmongQuery_evolves column negated
      (Call.runAll_evolves calls b.fresh handed).query
  | .exists link calls negated =>
    exact Builder.whereExists_evolves link negated (Call.runAll_evolves calls b.fresh handed).query
  | .datePart link part column operator value =>
    exact Builder.whereDatePart_evolves link part column operator (Arg.operand_built value b handed)
  | .branch condition yes no =>
    cases condition with
    | true => exact Call.runAll_evolves yes b handed
    | false => exact Call.runAll_evolves no b handed
  | .join kind table first operator second => exact b.join_evolves kind table first operator second
  | .crossJoin table => exact ⟨rfl, .addJoin b.query (.inl (List.forall_mem_nil _))⟩
  | .joinWith join =>
    exact ⟨rfl, .addJoin b.query (.inr (List.forall_mem_singleton.mp handed))⟩
  | .groupBy lists => exact ⟨rfl, .groupBy b.query _⟩
  | .having link column operator value =>
    exact Builder.having_evolves link column operator (Arg.operand_built value b handed)
  | .havingRaw sql values => exact b.havingRaw_evolves sql values
  | .orderBy column direction => exact b.orderBy_evolves column direction
  | .orderByRaw sql values => exact b.addOrdering_evolves (fits_replicate_none_iff.mpr rfl)
  | .limit rows => exact ⟨rfl, .limit b.query rows⟩
  | .offset rows => exact ⟨rfl, .offset b.query rows⟩
  | .forPage page perPage => exact ⟨rfl, .trans (.offset b.query _) (.limit _ perPage)⟩
  | .lock mode => exact ⟨rfl, .lock b.query mode⟩
  | .strict flag => exact ⟨rfl, .refl b.query⟩
  | .reset => exact ⟨rfl, .reset b.query⟩
termination_by structural call

theorem Call.runAll_evolves (calls : List Call) (b : Builder)
    (handed : ∀ ready ∈ Call.allHanded calls, given ready) :
    b.Evolves given (Call.runAll calls b) := by
  match calls with
  | [] => exact .refl b
  | call :: rest =>
    obtain ⟨head, tail⟩ := List.forall_mem_append.mp handed
    exact (Call.run_evolves call b head).trans (Call.runAll_evolves rest (call.run b) tail)
termination_by structural calls

theorem Arg.operand_built (arg : Arg) (b : Builder)
    (handed : ∀ ready ∈ arg.handed, given ready) : (arg.operand b).Built b.grammar given := by
  match arg with
  | .value _ | .raw _ | .column _ => exact List.forall_mem_nil _
  | .sub calls =>
    exact List.forall_mem_singleton.mpr (Call.runAll_evolves calls b.fresh handed).query
termination_by structural arg

theorem Arg.operands_built (args : List Arg) (b : Builder)
    (handed : ∀ ready ∈ Arg.allHanded args, given ready) :
    ∀ operand ∈ Arg.operands args b, operand.Built b.grammar given := by
  match args with
  | [] => exact List.forall_mem_nil _
  | arg :: rest =>
    obtain ⟨head, tail⟩ := List.forall_mem_append.mp handed
    intro operand member
    rcases List.mem_cons.mp member with same | later
    · exact same ▸ Arg.operand_built arg b head
    · exact Arg.operands_built rest b tail operand later
termination_by structural args

theorem Arg.operandRows_built (rows : List (List Arg)) (b : Builder)
    (handed : ∀ ready ∈ Arg.rowsHanded rows, given ready) :
    ∀ row ∈ Arg.operandRows rows b, ∀ operand ∈ row, operand.Built b.grammar given := by
  match rows with
  | [] => exact List.forall_mem_nil _
  | row :: rest =>
    obtain ⟨head, tail⟩ := List.forall_mem_append.mp handed
    intro operands member
    rcases List.mem_cons.mp member with same | later
    · exact same ▸ Arg.operands_built row b head
    · exact Arg.operandRows_built rest b tail operands later
termination_by structural rows

theorem Item.add_evolves (item : Item) (b : Builder)
    (handed : ∀ ready ∈ item.handed, given ready) : b.Evolves given (item.add b) := by
  match item with
  | .columns list => exact b.selectColumns_evolves list
  | .raw sql places =>
    have brings : Selection.Brings given (.raw sql places) [] :=
      .handed (List.forall_mem_singleton.mp handed)
    exact Builder.addSelection_evolves (List.forall_mem_nil _) brings
  | .sub calls label =>
    exact Builder.selectQuery_evolves label (Call.runAll_evolves calls b.fresh handed).query
termination_by structural item

theorem Item.addAll_evolves (items : List Item) (b : Builder)
    (handed : ∀ ready ∈ Item.allHanded items, given ready) :
    b.Evolves given (Item.addAll items b) := by
  match items with
  | [] => exact .refl b
  | item :: rest =>
    obtain ⟨head, tail⟩ := List.forall_mem_append.mp handed
    exact (Item.add_evolves item b head).trans (Item.addAll_evolves rest (item.add b) tail)
termination_by structural items

end

end Calls

/-- Whatever calls build is built by steps from nothing, and all that it takes in ready-made is
theirs. -/
theorem Call.build_built (g : Grammar) (calls : List Call) :
    (Call.build g calls).Built g (· ∈ Call.allHanded calls) :=
  (Call.runAll_evolves calls { grammar := g } fun _ member => member).query

/-! ### Queries inside built queries -/

namespace Query

variable {g : Grammar} {given : Handed → Prop} {P : Query → Prop}

/-- Steps keep a property of all built queries at every depth inside a query: what they take in was
built from nothing. -/
theorem Evolves.inside (holds : ∀ s : Query, s.Built g given → P s) {q r : Query}
    (evolves : Query.Evolves g given q r) (start : ∀ s ∈ q.subqueries, s.Everywhere P) :
    ∀ s ∈ r.subqueries, s.Everywhere P := by
  -- the start of a query that is taken in is empty, so the induction speaks of all of its inside
  have taken {sub : Query} (built : Query.Evolves g given {} sub)
      (ih : (∀ s ∈ ({} : Query).subqueries, s.Everywhere P) →
        ∀ s ∈ sub.subqueries, s.Everywhere P) : sub.Everywhere P :=
    .intro (holds sub built) (ih (List.forall_mem_nil _))
  induction evolves with
  | refl | report | addOrdering | addJoin | groupBy | distinct | limit | offset | lock =>
    exact start
  | trans _ _ ih more => exact more (ih start)
  | reset => exact List.forall_mem_nil _
  | table q name =>
    intro s member
    obtain ⟨plain, label, same⟩ := Source.ofTable_table name
    apply start s
    simp only [subqueries, Option.toList_some, List.flatMap_singleton, same, Source.subqueries,
      List.append_nil, List.mem_append] at member ⊢
    grind
  | clearSelect q =>
    intro s member
    apply start s
    simp only [subqueries, List.flatMap_nil, List.nil_append, List.mem_append] at member ⊢
    grind
  | @fromQuery q sub label built ih =>
    intro s member
    have origin : s ∈ q.subqueries ∨ s = sub := by
      simp only [subqueries, Option.toList_some, List.flatMap_singleton, Source.subqueries,
        List.mem_append, List.mem_singleton] at member ⊢
      grind
    rcases origin with old | same
    · exact start s old
    · exact same ▸ taken built ih
  | @addSelection q entry values built brings ih =>
    intro s member
    have origin : s ∈ q.subqueries ∨ s ∈ entry.subqueries := by
      simp only [subqueries, Query.bind, List.flatMap_append, List.flatMap_singleton,
        List.mem_append] at member ⊢
      grind
    rcases origin with old | new
    · exact start s old
    · exact taken (built s new) (ih s new)
  | @addCondition q link condition values built fits known ih
  | @addHaving q link condition values built fits known ih =>
    intro s member
    have origin : s ∈ q.subqueries ∨ s ∈ condition.subqueries := by
      simp only [subqueries, Query.bind, Linked.subqueries_append, Linked.subqueries,
        List.append_nil, List.mem_append] at member ⊢
      grind
    rcases origin with old | new
    · exact start s old
    · exact taken (built s new) (ih s new)
  | @addGroup q link child grown filled ih =>
    intro s member
    have origin : s ∈ q.subqueries ∨ s ∈ child.subqueries := by
      simp only [subqueries, Query.bind, Linked.subqueries_append, Linked.subqueries,
        Condition.subqueries, List.append_nil, List.mem_append] at member ⊢
      grind
    rcases origin with old | new
    · exact start s old
    · refine ih (fun t source => start t ?_) s new
      simp only [subqueries, Linked.subqueries, List.flatMap_nil, List.nil_append,
        List.append_nil, List.mem_append] at source ⊢
      grind

/-- A property of all queries that steps build holds at every depth of each of them. -/
theorem Built.everywhere (holds : ∀ s : Query, s.Built g given → P s) {q : Query}
    (built : q.Built g given) : q.Everywhere P :=
  .intro (holds q built) (built.inside holds (List.forall_mem_nil _))

end Query

end Sqlwright
