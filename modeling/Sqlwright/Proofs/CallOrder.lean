import Sqlwright.Query.Compile
import Sqlwright.Proofs.ClauseLocality

/-!
The order of builder calls. A call addresses the clauses that its name says, whatever the calls
inside it address in their own queries, and calls that address different clauses give the same
statements in either order.
-/

namespace Sqlwright

/-! ### The clauses of calls -/

namespace Clause

/-- All clauses. -/
def all : List Clause :=
  [.source, .select, .join, .condition, .group, .having, .order, .paging, .lock]

theorem mem_all (k : Clause) : k ∈ all := by cases k <;> decide

end Clause

mutual

/-- The clauses of its builder that a call addresses. A branch addresses those of the calls that are
performed; discarding addresses all. -/
def Call.clauses : Call → List Clause
  | .table _ | .fromSub _ _ => [.source]
  | .select _ | .addSelect _ | .selectRaw _ _ | .selectSub _ _ | .distinct => [.select]
  | .compare _ _ _ _ | .compareSub _ _ _ | .subCompare _ _ _ | .group _ _ | .rows _ _
  | .columns _ _ _ _ | .columnRows _ | .nulls _ _ _ | .raw _ _ _ | .between _ _ _ _
  | .among _ _ _ _ | .amongSub _ _ _ | .exists _ _ _ | .datePart _ _ _ _ _ => [.condition]
  | .branch condition yes no => if condition then Call.clausesAll yes else Call.clausesAll no
  | .join _ _ _ _ _ | .crossJoin _ | .joinWith _ => [.join]
  | .groupBy _ => [.group]
  | .having _ _ _ _ | .havingRaw _ _ => [.having]
  | .orderBy _ _ | .orderByRaw _ _ => [.order]
  | .limit _ | .offset _ | .forPage _ _ => [.paging]
  | .lock _ => [.lock]
  | .strict _ => []
  | .reset => Clause.all

def Call.clausesAll : List Call → List Clause
  | [] => []
  | call :: rest => call.clauses ++ Call.clausesAll rest

end

open Builder (Confined Settled)

mutual

theorem Arg.operand_settled (arg : Arg) : Settled arg.operand := by
  intro b c alike
  cases arg with
  | value | raw | column => rfl
  | sub calls =>
    have query := (Call.runAll_confined calls).settled_fresh alike
    exact congrArg Operand.sub query

theorem Arg.operands_settled (args : List Arg) : Settled (Arg.operands args) := by
  intro b c alike
  cases args with
  | nil => rfl
  | cons arg rest =>
    rw [Arg.operands, Arg.operands, Arg.operand_settled arg alike, Arg.operands_settled rest alike]

theorem Arg.operandRows_settled (rows : List (List Arg)) : Settled (Arg.operandRows rows) := by
  intro b c alike
  cases rows with
  | nil => rfl
  | cons row rest =>
    rw [Arg.operandRows, Arg.operandRows, Arg.operands_settled row alike,
      Arg.operandRows_settled rest alike]

theorem Item.add_confined (item : Item) : Confined [.select] item.add := by
  cases item with
  | columns list => exact Builder.selectColumns_confined list
  | raw sql places => exact Builder.addSelection_confined (.raw sql places) []
  | sub calls label =>
    exact .reading (fun sub b => b.selectQuery sub label) (Call.runAll_confined calls).settled_fresh
      fun sub => Builder.addSelection_confined (.sub sub label) sub.values

theorem Item.addAll_confined (items : List Item) : Confined [.select] (Item.addAll items) := by
  cases items with
  | nil => exact Confined.keep.mono (List.nil_subset _)
  | cons item rest => exact (Item.add_confined item).andThen (Item.addAll_confined rest)

/-- A call is confined to the clauses it addresses. -/
theorem Call.run_confined (call : Call) : Confined call.clauses call.run := by
  cases call with
  | table name => exact Builder.table_confined name
  | fromSub calls label =>
    exact .reading (fun sub b => b.fromQuery sub label) (Call.runAll_confined calls).settled_fresh
      fun sub => Builder.fromQuery_confined sub label
  | select items => exact Builder.clearSelect_confined.andThen (Item.addAll_confined items)
  | addSelect items => exact Item.addAll_confined items
  | selectRaw sql values => exact Builder.addSelection_confined (.raw sql values.length) values
  | selectSub calls label =>
    exact .reading (fun sub b => b.selectQuery sub label) (Call.runAll_confined calls).settled_fresh
      fun sub => Builder.addSelection_confined (.sub sub label) sub.values
  | distinct => exact Builder.distinct_confined
  | compare link column operator value =>
    exact .reading (fun operand b => b.whereCompare link column operator operand)
      (Arg.operand_settled value) (Builder.whereCompare_confined link column operator)
  | compareSub column operator calls =>
    exact .reading (fun sub b => b.whereCompare .and column operator (.sub sub))
      (Call.runAll_confined calls).settled_fresh
      fun sub => Builder.whereCompare_confined .and column operator (.sub sub)
  | subCompare calls operator value =>
    have each (sub : Query) : Confined [.condition] fun b =>
        b.whereQueryCompare sub operator (value.operand b) :=
      .reading (fun operand b => b.whereQueryCompare sub operator operand)
        (Arg.operand_settled value) (Builder.whereQueryCompare_confined sub operator)
    exact .reading (fun sub b => b.whereQueryCompare sub operator (value.operand b))
      (Call.runAll_confined calls).settled_fresh each
  | group link calls => exact Builder.grouped_confined link (Call.runAll_confined calls)
  | rows link rows =>
    exact .reading (fun operands b => b.whereRows link operands) (Arg.operandRows_settled rows)
      (Builder.whereRows_confined link)
  | columns link first operator second =>
    exact Builder.whereColumns_confined link first operator second
  | columnRows rows => exact Builder.whereColumnRows_confined rows
  | nulls link columns negated =>
    have each (column : String) : Confined [.condition] fun b => b.whereNull link column negated :=
      Builder.addCondition_confined link (.null column negated) []
    exact .foldl each columns
  | raw link sql values => exact Builder.addCondition_confined link (.raw sql values.length) values
  | between link column ends negated =>
    exact .reading (fun operands b => b.whereBetween link column operands negated)
      (Arg.operands_settled ends)
      fun operands => Builder.whereBetween_confined link column operands negated
  | among link column values negated =>
    exact .reading (fun operands b => b.whereAmong link column operands negated)
      (Arg.operands_settled values)
      fun operands => Builder.addCondition_confined link (.among column operands negated) _
  | amongSub column calls negated =>
    exact .reading (fun sub b => b.whereAmongQuery column sub negated)
      (Call.runAll_confined calls).settled_fresh
      fun sub => Builder.addCondition_confined .and (.amongSub column sub negated) sub.values
  | «exists» link calls negated =>
    exact .reading (fun sub b => b.whereExists link sub negated)
      (Call.runAll_confined calls).settled_fresh
      fun sub => Builder.addCondition_confined link (.exists sub negated) sub.values
  | datePart link part column operator value =>
    exact .reading (fun operand b => b.whereDatePart link part column operator operand)
      (Arg.operand_settled value) (Builder.whereDatePart_confined link part column operator)
  | branch condition yes no =>
    cases condition with
    | true => exact Call.runAll_confined yes
    | false => exact Call.runAll_confined no
  | join kind table first operator second =>
    exact Builder.join_confined kind table first operator second
  | crossJoin table => exact Builder.addJoin_confined _
  | joinWith join => exact Builder.addJoin_confined join
  | groupBy lists => exact Builder.groupBy_confined lists
  | having link column operator value =>
    exact .reading (fun operand b => b.having link column operator operand)
      (Arg.operand_settled value) (Builder.having_confined link column operator)
  | havingRaw sql values => exact Builder.addHaving_confined .and (.raw sql values.length) values
  | orderBy column direction => exact Builder.orderBy_confined column direction
  | orderByRaw sql values => exact Builder.addOrdering_confined (.raw sql values.length) values
  | limit rows => exact Builder.limit_confined rows
  | offset rows => exact Builder.offset_confined rows
  | forPage page perPage => exact Builder.forPage_confined page perPage
  | lock mode => exact Builder.lock_confined mode
  | strict flag => exact Builder.strict_confined flag
  | reset => exact Builder.reset_confined Clause.mem_all

theorem Call.runAll_confined (calls : List Call) :
    Confined (Call.clausesAll calls) (Call.runAll calls) := by
  cases calls with
  | nil => exact .keep
  | cons call rest => exact (Call.runAll_confined rest).comp (Call.run_confined call)

end

/-! ### Statements -/

namespace Query

/-- A query on the clauses of another one is that one with other issues. -/
theorem eq_reissued {q r : Query} (same : ∀ k, q.only k = r.only k) :
    q = { r with issues := q.issues } := by
  have clauses (k : Clause) : q.only k = ({ r with issues := q.issues } : Query).only k := by
    rw [same k]
    cases k <;> rfl
  exact eq_of_only clauses rfl

variable (q : Query) (found : List Issue) (g : Grammar)

theorem select_reissued : ({ q with issues := found } : Query).select g = q.select g := by
  cases q
  rfl

theorem exists_reissued : ({ q with issues := found } : Query).exists? g = q.exists? g := by
  cases q
  rfl

theorem aggregate_reissued (function column : String) :
    ({ q with issues := found } : Query).aggregate g function column =
      q.aggregate g function column := by
  cases q
  rfl

theorem update_reissued (record : Record) :
    g.update { q with issues := found } record = g.update q record := by
  cases q
  rfl

theorem delete_reissued : g.delete { q with issues := found } = g.delete q := by
  cases q
  rfl

end Query

namespace Builder

/-- A statement as it is sent: its text in the dialect of the builder and its values. -/
def sent (b : Builder) (s : Statement) : String × List Value := (b.text s, s.values)

/-- Builders that send the same text and values to read, to aggregate, to ask for rows, to update
and to delete. -/
structure SameStatements (b c : Builder) : Prop where
  select : b.sent b.select = c.sent c.select
  aggregate : ∀ function column : String,
    b.sent (b.aggregateStatement function column) = c.sent (c.aggregateStatement function column)
  exist : b.sent b.existsStatement = c.sent c.existsStatement
  update : ∀ record : Record, b.sent (b.updateStatement record) = c.sent (c.updateStatement record)
  delete : b.sent b.deleteStatement = c.sent c.deleteStatement

theorem sent_congr {b c : Builder} (grammar : b.grammar = c.grammar) {s t : Statement}
    (same : s = t) : b.sent s = c.sent t := by
  unfold sent text
  rw [grammar, same]

/-- Statements are written from the clauses alone. -/
theorem sameStatements_of_clauses {b c : Builder} (grammar : b.grammar = c.grammar)
    (same : ∀ k, b.query.only k = c.query.only k) : b.SameStatements c := by
  have query := Query.eq_reissued same
  constructor
  · apply sent_congr grammar
    rw [select, select, query, grammar, Query.select_reissued]
  · intro function column
    apply sent_congr grammar
    rw [aggregateStatement, aggregateStatement, query, grammar, Query.aggregate_reissued]
  · apply sent_congr grammar
    rw [existsStatement, existsStatement, query, grammar, Query.exists_reissued]
  · intro record
    apply sent_congr grammar
    rw [updateStatement, updateStatement, query, grammar, Query.update_reissued]
  · apply sent_congr grammar
    rw [deleteStatement, deleteStatement, query, grammar, Query.delete_reissued]

end Builder

/-- Calls that address different clauses can change places anywhere in a chain of calls: in every
dialect and from every builder, the statements are the same. -/
theorem clause_order_irrelevant (b : Builder) (first second : Call)
    (apart : ∀ k ∈ first.clauses, k ∉ second.clauses) (rest : List Call) :
    (Call.runAll (first :: second :: rest) b).SameStatements
      (Call.runAll (second :: first :: rest) b) := by
  have one := Call.run_confined first
  have two := Call.run_confined second
  have after := Call.runAll_confined rest
  have grammars : (second.run (first.run b)).grammar = (first.run (second.run b)).grammar := by
    rw [one.grammar, two.grammar, one.grammar, two.grammar]
  apply Builder.sameStatements_of_clauses
  · rw [Call.runAll, Call.runAll, Call.runAll, Call.runAll, after.grammar, after.grammar, grammars]
  · intro k
    have swapped : (second.run (first.run b)).query.only k =
        (first.run (second.run b)).query.only k := one.commute two apart b k
    exact after.inside grammars swapped

/-- A group whose calls also name a source and a query with values. -/
def activeGroup : Call :=
  .group .or [.table "archive", .compare .and "name" "like" (.value (.text "a%")),
    .exists .and [.table "orders", .raw .and "total > ?" [.int 5]] false]

/-- A source that is a query with a group of its own. -/
def recentUsers : Call :=
  .fromSub [.table "users", .group .and [.compare .and "age" ">" (.value (.int 18))]] "u"

/-- The group was to be on the table that was named before, and is added before or after the source
becomes a query; paging follows. -/
theorem clause_order_irrelevant_group_source :
    (∀ k ∈ activeGroup.clauses, k ∉ recentUsers.clauses) ∧
    (Call.runAll [activeGroup, recentUsers, .forPage 2 10]
      (({ grammar := ⟨.postgres, "app_"⟩ } : Builder).table "people as p")).SameStatements
    (Call.runAll [recentUsers, activeGroup, .forPage 2 10]
      (({ grammar := ⟨.postgres, "app_"⟩ } : Builder).table "people as p")) := by
  have apart : ∀ k ∈ activeGroup.clauses, k ∉ recentUsers.clauses := by decide
  exact ⟨apart, clause_order_irrelevant _ activeGroup recentUsers apart [.forPage 2 10]⟩

/-- Within one clause the order shows. -/
example :
    let text (calls : List Call) : String :=
      ((Call.build ⟨.sqlite, ""⟩ calls).select ⟨.sqlite, ""⟩).sql .sqlite
    text [.orderBy "a" "asc", .orderBy "b" "asc"] ≠
      text [.orderBy "b" "asc", .orderBy "a" "asc"] := by
  decide +kernel

end Sqlwright
