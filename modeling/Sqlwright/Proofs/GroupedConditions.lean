import Sqlwright.Proofs.TidyQueries

/-!
Groups of conditions. A call that groups conditions builds them on a child and adds what the child
recorded as one group, or nothing where it recorded no condition. So calls without raw SQL keep
queries tidy, whatever their children skip, drop or discard, and the parentheses of their SELECT
match.
-/

namespace Sqlwright

/-! ### Steps -/

/-- A tidy query stays one as long as no clause with SQL in it changes. -/
theorem Query.Tidy.of_eq {g : Grammar} {q r : Query} (tidy : q.Tidy g)
    (same : (r.columns, r.source, r.joins, r.wheres, r.havings, r.orders) =
      (q.columns, q.source, q.joins, q.wheres, q.havings, q.orders)) : r.Tidy g := by
  cases r
  cases tidy with
  | intro columns source joins wheres havings orders =>
    obtain ⟨rfl, rfl, rfl, rfl, rfl, rfl⟩ : _ ∧ _ ∧ _ ∧ _ ∧ _ ∧ _ := by simpa using same
    exact .intro columns source joins wheres havings orders

theorem Query.Tidy.empty (g : Grammar) : Query.Tidy g {} :=
  .intro (List.forall_mem_nil _) (fun _ given => absurd given (by simp)) (List.forall_mem_nil _)
    (List.forall_mem_nil _) (List.forall_mem_nil _) (List.forall_mem_nil _)

/-- A builder of the grammar whose query is tidy. -/
structure Builder.Tidy (g : Grammar) (b : Builder) : Prop where
  grammar : b.grammar = g
  query : b.query.Tidy g

namespace Builder.Tidy

variable {g : Grammar} {b : Builder}

theorem fresh (tidy : b.Tidy g) : b.fresh.Tidy g := ⟨tidy.grammar, .empty g⟩

/-- A child of a group starts on the source of its builder. -/
theorem freshGroup (tidy : b.Tidy g) : b.freshGroup.Tidy g := by
  refine ⟨tidy.grammar, ?_⟩
  cases tidy.query with
  | intro _ source _ _ _ _ =>
    exact .intro (List.forall_mem_nil _) source (List.forall_mem_nil _) (List.forall_mem_nil _)
      (List.forall_mem_nil _) (List.forall_mem_nil _)

theorem report (tidy : b.Tidy g) (issue : Issue) : (b.report issue).Tidy g :=
  ⟨tidy.grammar, tidy.query.of_eq rfl⟩

/-- The repaired operator is one of the dialect. -/
theorem operator (tidy : b.Tidy g) (symbol : String) :
    g.isOperator (b.operator symbol).1 ∧ (b.operator symbol).2.Tidy g := by
  obtain ⟨known, -⟩ : b.grammar.isOperator (b.operator symbol).1 ∧
    b.Evolves (fun _ => True) (b.operator symbol).2 := b.operator_spec symbol
  refine ⟨tidy.grammar ▸ known, ?_⟩
  simp only [Builder.operator]
  split
  · exact tidy
  · exact tidy.report _

theorem addCondition (tidy : b.Tidy g) (link : Connective) {condition : Condition}
    (added : condition.Tidy g) (values : List Value) :
    (b.addCondition link condition values).Tidy g := by
  refine ⟨tidy.grammar, ?_⟩
  cases tidy.query with
  | intro columns source joins wheres havings orders =>
    refine .intro columns source joins (List.forall_mem_append.mpr ⟨wheres, ?_⟩) havings orders
    exact List.forall_mem_singleton.mpr (.mk link added)

theorem whereNull (tidy : b.Tidy g) (link : Connective) (column : String) (negated : Bool) :
    (b.whereNull link column negated).Tidy g :=
  tidy.addCondition link (.null column negated) []

theorem whereCompare (tidy : b.Tidy g) (link : Connective) (column symbol : String)
    {value : Operand} (right : value.Tidy g) :
    (b.whereCompare link column symbol value).Tidy g := by
  obtain ⟨known, repaired⟩ := tidy.operator symbol
  rw [Builder.whereCompare_eq]
  split
  · exact repaired.whereNull link column _
  · exact repaired.addCondition link (.compare column known right) _

/-- The conditions of a child are added as a group only if there are any. -/
theorem addGroup (tidy : b.Tidy g) (link : Connective) {child : Query} (grown : child.Tidy g) :
    (b.addGroup link child).Tidy g := by
  have reported : (b.edit fun q => { q with issues := q.issues ++ child.issues }).Tidy g :=
    ⟨tidy.grammar, tidy.query.of_eq rfl⟩
  unfold Builder.addGroup
  split
  · exact reported
  · next some =>
    have filled : child.wheres ≠ [] := by simpa using some
    cases grown with
    | intro _ _ _ wheres _ _ => exact reported.addCondition link (.group filled wheres) _

theorem foldl {α : Type} {step : Builder → α → Builder} {items : List α} (tidy : b.Tidy g)
    (each : ∀ item ∈ items, ∀ b : Builder, b.Tidy g → (step b item).Tidy g) :
    (items.foldl step b).Tidy g :=
  List.foldlRecOn items step tidy fun b tidy item member => each item member b tidy

theorem whereRow (tidy : b.Tidy g) {row : List Operand} (each : ∀ operand ∈ row, operand.Tidy g) :
    (b.whereRow row).Tidy g := by
  unfold Builder.whereRow
  split
  · split
    · exact tidy.whereCompare _ _ _ (each _ (by simp))
    · exact tidy.report _
  · split
    · exact tidy.whereCompare _ _ _ (each _ (by simp))
    · exact tidy.report _
  · exact tidy.report _

/-- The rows that a child can read are its conditions; the others are reported. -/
theorem rows (tidy : b.Tidy g) {rows : List (List Operand)}
    (each : ∀ row ∈ rows, ∀ operand ∈ row, operand.Tidy g) :
    (rows.foldl Builder.whereRow b.freshGroup).Tidy g :=
  tidy.freshGroup.foldl fun row member _ child => child.whereRow (each row member)

theorem whereQueryCompare (tidy : b.Tidy g) {sub : Query} (left : sub.Tidy g) (symbol : String)
    {value : Operand} (right : value.Tidy g) : (b.whereQueryCompare sub symbol value).Tidy g := by
  obtain ⟨known, repaired⟩ := tidy.operator symbol
  exact repaired.addCondition .and (.compareSub left known right) _

theorem whereColumns (tidy : b.Tidy g) (link : Connective) (first symbol second : String) :
    (b.whereColumns link first symbol second).Tidy g := by
  obtain ⟨known, repaired⟩ := tidy.operator symbol
  exact repaired.addCondition link (.columns first second known) []

theorem columnRows (tidy : b.Tidy g) (rows : List (List String)) :
    (rows.foldl Builder.whereColumnRow b.freshGroup).Tidy g := by
  refine tidy.freshGroup.foldl fun row _ child childTidy => ?_
  unfold Builder.whereColumnRow
  split
  · exact childTidy.whereColumns _ _ _ _
  · exact childTidy.whereColumns _ _ _ _
  · exact childTidy.report _

theorem whereBetween (tidy : b.Tidy g) (link : Connective) (column : String)
    {ends : List Operand} (negated : Bool) (each : ∀ operand ∈ ends, operand.Tidy g) :
    (b.whereBetween link column ends negated).Tidy g := by
  unfold Builder.whereBetween
  split
  · exact tidy.addCondition link (.between column negated (each _ (by simp)) (each _ (by simp))) _
  · exact tidy.report _

theorem whereDatePart (tidy : b.Tidy g) (link : Connective) (part : DatePart)
    (column symbol : String) {value : Operand} (right : value.Tidy g) :
    (b.whereDatePart link part column symbol value).Tidy g := by
  obtain ⟨known, repaired⟩ := tidy.operator symbol
  exact repaired.addCondition link (.datePart part column known right) _

/-- Another source takes the place of the one that was there, whatever it binds. -/
theorem setSource (tidy : b.Tidy g) {source : Source} (given : source.Tidy g)
    (bound : Bindings → Bindings) :
    (b.edit fun q => { q with source := some source, bound := bound q.bound }).Tidy g := by
  refine ⟨tidy.grammar, ?_⟩
  cases tidy.query with
  | intro columns _ joins wheres havings orders =>
    refine .intro columns (fun other same => ?_) joins wheres havings orders
    cases same
    exact given

theorem table (tidy : b.Tidy g) (name : String) : (b.table name).Tidy g := by
  obtain ⟨plain, label, same⟩ := Source.ofTable_table name
  exact tidy.setSource (same ▸ .table plain label) id

theorem fromQuery (tidy : b.Tidy g) {sub : Query} (inner : sub.Tidy g) (label : String) :
    (b.fromQuery sub label).Tidy g :=
  tidy.setSource (.sub inner label) fun bound => { bound with source := sub.values }

theorem clearSelect (tidy : b.Tidy g) : b.clearSelect.Tidy g := by
  refine ⟨tidy.grammar, ?_⟩
  cases tidy.query with
  | intro _ source joins wheres havings orders =>
    exact .intro (List.forall_mem_nil _) source joins wheres havings orders

/-- Entries are added to the select list, whatever they bind. -/
theorem addSelections (tidy : b.Tidy g) {entries : List Selection}
    (each : ∀ entry ∈ entries, entry.Tidy g) (bound : Bindings → Bindings) :
    (b.edit fun q =>
      { q with columns := q.columns ++ entries, bound := bound q.bound }).Tidy g := by
  refine ⟨tidy.grammar, ?_⟩
  cases tidy.query with
  | intro columns source joins wheres havings orders =>
    have all := List.forall_mem_append.mpr ⟨columns, each⟩
    exact .intro all source joins wheres havings orders

theorem selectColumns (tidy : b.Tidy g) (list : String) : (b.selectColumns list).Tidy g :=
  tidy.addSelections (List.forall_mem_map.mpr fun name _ => .column name) id

theorem selectQuery (tidy : b.Tidy g) {sub : Query} (inner : sub.Tidy g) (label : String) :
    (b.selectQuery sub label).Tidy g :=
  tidy.addSelections (List.forall_mem_singleton.mpr (.sub inner label))
    fun bound => bound.add sub.values .select

theorem addJoin (tidy : b.Tidy g) {join : Join} (known : join.Known g) :
    (b.addJoin join).Tidy g := by
  refine ⟨tidy.grammar, ?_⟩
  cases tidy.query with
  | intro columns source joins wheres havings orders =>
    refine .intro columns source (List.forall_mem_append.mpr ⟨joins, ?_⟩) wheres havings orders
    exact List.forall_mem_singleton.mpr known

theorem join (tidy : b.Tidy g) (kind : JoinKind) (table first symbol second : String) :
    (b.join kind table first symbol second).Tidy g := by
  obtain ⟨known, repaired⟩ := tidy.operator symbol
  exact repaired.addJoin (List.forall_mem_singleton.mpr known)

theorem having (tidy : b.Tidy g) (link : Connective) (column symbol : String) {value : Operand}
    (right : value.Tidy g) : (b.having link column symbol value).Tidy g := by
  obtain ⟨known, repaired⟩ := tidy.operator symbol
  refine ⟨repaired.grammar, ?_⟩
  cases repaired.query with
  | intro columns source joins wheres havings orders =>
    refine .intro columns source joins wheres (List.forall_mem_append.mpr ⟨havings, ?_⟩) orders
    exact List.forall_mem_singleton.mpr (.mk link (.compare column known right))

theorem orderBy (tidy : b.Tidy g) (column direction : String) :
    (b.orderBy column direction).Tidy g := by
  have ordered {b : Builder} (tidy : b.Tidy g) (direction : Direction) :
      (b.addOrdering (.column column direction) []).Tidy g := by
    refine ⟨tidy.grammar, ?_⟩
    cases tidy.query with
    | intro columns source joins wheres havings orders =>
      refine .intro columns source joins wheres havings (List.forall_mem_append.mpr ⟨orders, ?_⟩)
      exact List.forall_mem_singleton.mpr Bool.false_ne_true
  unfold Builder.orderBy
  split
  · exact ordered tidy _
  · exact ordered (tidy.report _) _

end Builder.Tidy

/-! ### Calls -/

mutual

/-- A call that hands over no SQL to be written as it is, also inside its groups and queries, and
no join with an operator that the dialect does not know. -/
def Call.Plain (g : Grammar) : Call → Prop
  | .selectRaw _ _ | .raw _ _ _ | .havingRaw _ _ | .orderByRaw _ _ => False
  | .joinWith join => join.Known g
  | .fromSub calls _ | .selectSub calls _ | .compareSub _ _ calls | .amongSub _ calls _
  | .exists _ calls _ | .group _ calls => Call.AllPlain g calls
  | .subCompare calls _ value => Call.AllPlain g calls ∧ value.Plain g
  | .select items | .addSelect items => Item.AllPlain g items
  | .compare _ _ _ value | .datePart _ _ _ _ value | .having _ _ _ value => value.Plain g
  | .rows _ cells => Arg.RowsPlain g cells
  | .between _ _ args _ | .among _ _ args _ => Arg.AllPlain g args
  | .branch condition yes no => if condition then Call.AllPlain g yes else Call.AllPlain g no
  | _ => True

def Call.AllPlain (g : Grammar) : List Call → Prop
  | [] => True
  | call :: rest => call.Plain g ∧ Call.AllPlain g rest

def Arg.Plain (g : Grammar) : Arg → Prop
  | .raw _ => False
  | .sub calls => Call.AllPlain g calls
  | .value _ | .column _ => True

def Arg.AllPlain (g : Grammar) : List Arg → Prop
  | [] => True
  | arg :: rest => arg.Plain g ∧ Arg.AllPlain g rest

def Arg.RowsPlain (g : Grammar) : List (List Arg) → Prop
  | [] => True
  | row :: rest => Arg.AllPlain g row ∧ Arg.RowsPlain g rest

def Item.Plain (g : Grammar) : Item → Prop
  | .raw _ _ => False
  | .sub calls _ => Call.AllPlain g calls
  | .columns _ => True

def Item.AllPlain (g : Grammar) : List Item → Prop
  | [] => True
  | item :: rest => item.Plain g ∧ Item.AllPlain g rest

end

/-- The child on which a call builds a group of conditions, with the connective in front of it. -/
def Call.child? : Call → Builder → Option (Connective × Query)
  | .group link calls, b => some (link, (Call.runAll calls b.freshGroup).query)
  | .rows link cells, b =>
    some (link, ((Arg.operandRows cells b).foldl Builder.whereRow b.freshGroup).query)
  | .columnRows cells, b => some (.and, (cells.foldl Builder.whereColumnRow b.freshGroup).query)
  | _, _ => none

section Calls

variable {g : Grammar}

mutual

theorem Call.run_tidy (call : Call) {b : Builder} (tidy : b.Tidy g) (plain : call.Plain g) :
    (call.run b).Tidy g := by
  match call with
  | .table name => exact tidy.table name
  | .fromSub calls label =>
    exact tidy.fromQuery (Call.runAll_tidy calls tidy.fresh plain).query label
  | .select items => exact Item.addAll_tidy items tidy.clearSelect plain
  | .addSelect items => exact Item.addAll_tidy items tidy plain
  | .selectRaw sql values => exact plain.elim
  | .selectSub calls label =>
    exact tidy.selectQuery (Call.runAll_tidy calls tidy.fresh plain).query label
  | .distinct => exact ⟨tidy.grammar, tidy.query.of_eq rfl⟩
  | .compare link column operator value =>
    exact tidy.whereCompare link column operator (Arg.operand_tidy value tidy plain)
  | .compareSub column operator calls =>
    exact tidy.whereCompare .and column operator
      (.sub (Call.runAll_tidy calls tidy.fresh plain).query)
  | .subCompare calls operator value =>
    exact tidy.whereQueryCompare (Call.runAll_tidy calls tidy.fresh plain.1).query operator
      (Arg.operand_tidy value tidy plain.2)
  | .group link calls =>
    exact tidy.addGroup link (Call.runAll_tidy calls tidy.freshGroup plain).query
  | .rows link rows =>
    exact tidy.addGroup link (tidy.rows (Arg.operandRows_tidy rows tidy plain)).query
  | .columns link first operator second => exact tidy.whereColumns link first operator second
  | .columnRows rows => exact tidy.addGroup .and (tidy.columnRows rows).query
  | .nulls link columns negated =>
    exact tidy.foldl fun column _ _ tidy => tidy.whereNull link column negated
  | .raw link sql values => exact plain.elim
  | .between link column ends negated =>
    exact tidy.whereBetween link column negated (Arg.operands_tidy ends tidy plain)
  | .among link column values negated =>
    exact tidy.addCondition link (.among column negated (Arg.operands_tidy values tidy plain)) _
  | .amongSub column calls negated =>
    exact tidy.addCondition .and
      (.amongSub column negated (Call.runAll_tidy calls tidy.fresh plain).query) _
  | .exists link calls negated =>
    exact tidy.addCondition link
      (.exists negated (Call.runAll_tidy calls tidy.fresh plain).query) _
  | .datePart link part column operator value =>
    exact tidy.whereDatePart link part column operator (Arg.operand_tidy value tidy plain)
  | .branch condition yes no =>
    cases condition with
    | true => exact Call.runAll_tidy yes tidy plain
    | false => exact Call.runAll_tidy no tidy plain
  | .join kind table first operator second => exact tidy.join kind table first operator second
  | .crossJoin table => exact tidy.addJoin (List.forall_mem_nil _)
  | .joinWith join => exact tidy.addJoin plain
  | .groupBy lists => exact ⟨tidy.grammar, tidy.query.of_eq rfl⟩
  | .having link column operator value =>
    exact tidy.having link column operator (Arg.operand_tidy value tidy plain)
  | .havingRaw sql values => exact plain.elim
  | .orderBy column direction => exact tidy.orderBy column direction
  | .orderByRaw sql values => exact plain.elim
  | .limit rows | .offset rows | .forPage page perPage | .lock mode | .strict flag =>
    exact ⟨tidy.grammar, tidy.query.of_eq rfl⟩
  | .reset => exact tidy.fresh
termination_by structural call

theorem Call.runAll_tidy (calls : List Call) {b : Builder} (tidy : b.Tidy g)
    (plain : Call.AllPlain g calls) : (Call.runAll calls b).Tidy g := by
  match calls with
  | [] => exact tidy
  | call :: rest => exact Call.runAll_tidy rest (Call.run_tidy call tidy plain.1) plain.2
termination_by structural calls

theorem Arg.operand_tidy (arg : Arg) {b : Builder} (tidy : b.Tidy g) (plain : arg.Plain g) :
    (arg.operand b).Tidy g := by
  match arg with
  | .value v => exact .value v
  | .raw sql => exact plain.elim
  | .column name => exact .column name
  | .sub calls => exact .sub (Call.runAll_tidy calls tidy.fresh plain).query
termination_by structural arg

theorem Arg.operands_tidy (args : List Arg) {b : Builder} (tidy : b.Tidy g)
    (plain : Arg.AllPlain g args) : ∀ operand ∈ Arg.operands args b, operand.Tidy g := by
  match args with
  | [] => exact List.forall_mem_nil _
  | arg :: rest =>
    exact List.forall_mem_cons.mpr
      ⟨Arg.operand_tidy arg tidy plain.1, Arg.operands_tidy rest tidy plain.2⟩
termination_by structural args

theorem Arg.operandRows_tidy (rows : List (List Arg)) {b : Builder} (tidy : b.Tidy g)
    (plain : Arg.RowsPlain g rows) :
    ∀ row ∈ Arg.operandRows rows b, ∀ operand ∈ row, operand.Tidy g := by
  match rows with
  | [] => exact List.forall_mem_nil _
  | row :: rest =>
    exact List.forall_mem_cons.mpr
      ⟨Arg.operands_tidy row tidy plain.1, Arg.operandRows_tidy rest tidy plain.2⟩
termination_by structural rows

theorem Item.add_tidy (item : Item) {b : Builder} (tidy : b.Tidy g) (plain : item.Plain g) :
    (item.add b).Tidy g := by
  match item with
  | .columns list => exact tidy.selectColumns list
  | .raw sql places => exact plain.elim
  | .sub calls label =>
    exact tidy.selectQuery (Call.runAll_tidy calls tidy.fresh plain).query label
termination_by structural item

theorem Item.addAll_tidy (items : List Item) {b : Builder} (tidy : b.Tidy g)
    (plain : Item.AllPlain g items) : (Item.addAll items b).Tidy g := by
  match items with
  | [] => exact tidy
  | item :: rest => exact Item.addAll_tidy rest (Item.add_tidy item tidy plain.1) plain.2
termination_by structural items

end

end Calls

/-- A call that groups conditions adds those of its child, in parentheses. -/
theorem Call.run_eq_addGroup {call : Call} {b : Builder} {link : Connective} {child : Query}
    (grouped : call.child? b = some (link, child)) : call.run b = b.addGroup link child := by
  cases call with
  | group | rows | columnRows =>
    cases grouped
    rfl
  | _ => cases grouped

theorem Call.child?_tidy {g : Grammar} {call : Call} {b : Builder} {link : Connective}
    {child : Query} (tidy : b.Tidy g) (plain : call.Plain g)
    (grouped : call.child? b = some (link, child)) : child.Tidy g := by
  cases call with
  | group link calls =>
    cases grouped
    exact (Call.runAll_tidy calls tidy.freshGroup plain).query
  | rows link cells =>
    cases grouped
    exact (tidy.rows (Arg.operandRows_tidy cells tidy plain)).query
  | columnRows cells =>
    cases grouped
    exact (tidy.columnRows cells).query
  | _ => cases grouped

theorem Builder.addGroup_conditions (b : Builder) (link : Connective) (child : Query) :
    (b.addGroup link child).query.wheres =
        b.query.wheres ++ (if child.wheres = [] then [] else [.mk link (.group child.wheres)]) ∧
      (b.addGroup link child).query.havings = b.query.havings := by
  unfold addGroup
  by_cases empty : child.wheres = []
  · simp only [empty, List.isEmpty_nil, if_true, List.append_nil]
    exact ⟨rfl, rfl⟩
  · have some : child.wheres.isEmpty = false := by simpa using empty
    simp only [some, empty, if_false, Bool.false_eq_true]
    exact ⟨rfl, rfl⟩

/-! ### Builders that calls lead to -/

/-- The builders that calls without raw SQL lead to, those of groups and of queries inside others
included. -/
inductive Builder.Reached (g : Grammar) : Builder → Prop where
  | start (connection : Option Connection) (isStrict : Bool) :
      Reached g { grammar := g, connection, isStrict }
  | called {b : Builder} (reached : Reached g b) {call : Call} (plain : call.Plain g) :
      Reached g (call.run b)
  | inner {b : Builder} (reached : Reached g b) : Reached g b.fresh
  | child {b : Builder} (reached : Reached g b) : Reached g b.freshGroup

namespace Builder.Reached

variable {g : Grammar} {b : Builder}

theorem runAll (reached : b.Reached g) {calls : List Call} (plain : Call.AllPlain g calls) :
    (Call.runAll calls b).Reached g := by
  induction calls generalizing b with
  | nil => exact reached
  | cons call rest ih => exact ih (reached.called plain.1) plain.2

/-- Every builder that can be reached has a tidy query. -/
theorem tidy (reached : b.Reached g) : b.Tidy g := by
  induction reached with
  | start connection isStrict => exact ⟨rfl, .empty g⟩
  | called _ plain ih => exact Call.run_tidy _ ih plain
  | inner _ ih => exact ih.fresh
  | child _ ih => exact ih.freshGroup

end Builder.Reached

/-- Outside quotes the parentheses of a SELECT without raw SQL match, and none are empty: no front
of it closes more than it opens, it closes as many as it opens, and `()` stands in quotes alone. A
call that groups conditions adds what its child recorded as one group, whose text is not empty and
closes just what it opens, and it adds no condition if the child recorded none. -/
theorem parentheses_match {g : Grammar} {b : Builder} (reached : b.Reached g) :
    g.dialect.ParenthesesMatch ((b.query.select g).sql g.dialect) ∧
      ∀ call : Call, call.Plain g → ∀ link child, call.child? b = some (link, child) →
        (call.run b).query.havings = b.query.havings ∧
        (child.wheres = [] → (call.run b).query.wheres = b.query.wheres) ∧
        (child.wheres ≠ [] →
          (call.run b).query.wheres = b.query.wheres ++ [.mk link (.group child.wheres)] ∧
          ∀ offset, ∃ inside ≠ "", g.dialect.ParenthesesMatch inside ∧
            renderFrom g.dialect offset ((Condition.group child.wheres).pieces g) =
              "(" ++ inside ++ ")") := by
  have tidy := reached.tidy
  refine ⟨tidy.query.phrase.parenthesesMatch 0, fun call plain link child grouped => ?_⟩
  obtain ⟨wheres, havings⟩ := b.addGroup_conditions link child
  rw [Call.run_eq_addGroup grouped]
  refine ⟨havings, fun empty => ?_, fun filled => ⟨?_, fun offset => ?_⟩⟩
  · rw [wheres, if_pos empty, List.append_nil]
  · rw [wheres, if_neg filled]
  · have conditions : Phrase g.dialect (Linked.first g child.wheres) := by
      cases Call.child?_tidy tidy plain grouped with
      | intro _ _ _ each _ _ =>
        exact Linked.first_phrase filled fun linked member => (each linked member).phrase
    refine ⟨_, conditions.renderFrom_ne_empty offset, conditions.parenthesesMatch offset, ?_⟩
    rw [Condition.pieces, renderFrom_parenthesised]

/-- A builder whose first group drops a group that is empty and records one condition, and whose
second group discards what it recorded. -/
def groupingBuilder : Builder :=
  Call.runAll
    [.table "t", .group .and [.group .or [], .nulls .and ["a"] false],
      .group .or [.nulls .and ["b"] true, .reset]]
    { grammar := ⟨.mysql, ""⟩ }

/-- Of the two groups one is written; rows that cannot be read add no further one, and a condition
in a group adds one. -/
theorem parentheses_match_grouping :
    groupingBuilder.Reached ⟨.mysql, ""⟩ ∧
      groupingBuilder.query.wheres = [.mk .and (.group [.mk .and (.null "a" false)])] ∧
      Dialect.ParenthesesMatch .mysql
        ((groupingBuilder.query.select ⟨.mysql, ""⟩).sql .mysql) ∧
      ((Call.columnRows [["c"]]).run groupingBuilder).query.wheres =
        groupingBuilder.query.wheres ∧
      ((Call.group .or [.nulls .and ["c"] false]).run groupingBuilder).query.wheres =
        groupingBuilder.query.wheres ++ [.mk .or (.group [.mk .and (.null "c" false)])] := by
  have start : Builder.Reached ⟨.mysql, ""⟩ { grammar := ⟨.mysql, ""⟩ } := .start none false
  have reached : groupingBuilder.Reached ⟨.mysql, ""⟩ := by
    refine start.runAll ?_
    simp [Call.AllPlain, Call.Plain]
  obtain ⟨matched, groups⟩ := parentheses_match reached
  have plain : Call.Plain ⟨.mysql, ""⟩ (.group .or [.nulls .and ["c"] false]) := by
    simp [Call.Plain, Call.AllPlain]
  obtain ⟨-, none, -⟩ := groups (.columnRows [["c"]]) trivial .and _ rfl
  obtain ⟨-, -, some⟩ := groups _ plain .or _ rfl
  exact ⟨reached, rfl, matched, none rfl, (some (List.cons_ne_nil _ _)).1⟩

end Sqlwright
