import Sqlwright.Query.Call

/-!
Which clauses a step of building reads and writes. `Query.only` is what a query holds of one clause,
values and all. A step is confined to some clauses when it leaves the others as they are and makes
something of a clause that depends on that clause and on the grammar alone. Steps that are confined
to different clauses can change places.
-/

namespace Sqlwright

/-- The clauses that builder calls address. The select list says whether rows are distinct, and
paging is the limit with the offset. -/
inductive Clause where
  | source
  | select
  | join
  | condition
  | group
  | having
  | order
  | paging
  | lock
  deriving DecidableEq, Repr

namespace Query

/-- The query with one clause alone: its entries and the values bound in its section. -/
def only (q : Query) : Clause → Query
  | .source => { source := q.source, bound := { source := q.bound.source } }
  | .select =>
    { columns := q.columns, distinct := q.distinct, bound := { select := q.bound.select } }
  | .join => { joins := q.joins, bound := { join := q.bound.join } }
  | .condition => { wheres := q.wheres, bound := { condition := q.bound.condition } }
  | .group => { groups := q.groups, bound := { group := q.bound.group } }
  | .having => { havings := q.havings, bound := { having := q.bound.having } }
  | .order => { orders := q.orders, bound := { order := q.bound.order } }
  | .paging => { limit := q.limit, offset := q.offset }
  | .lock => { lock := q.lock }

/-- The query with one clause taken over from another query. -/
def graft (q part : Query) : Clause → Query
  | .source =>
    { q with source := part.source, bound := { q.bound with source := part.bound.source } }
  | .select =>
    { q with
      columns := part.columns, distinct := part.distinct
      bound := { q.bound with select := part.bound.select } }
  | .join => { q with joins := part.joins, bound := { q.bound with join := part.bound.join } }
  | .condition =>
    { q with wheres := part.wheres, bound := { q.bound with condition := part.bound.condition } }
  | .group => { q with groups := part.groups, bound := { q.bound with group := part.bound.group } }
  | .having =>
    { q with havings := part.havings, bound := { q.bound with having := part.bound.having } }
  | .order => { q with orders := part.orders, bound := { q.bound with order := part.bound.order } }
  | .paging => { q with limit := part.limit, offset := part.offset }
  | .lock => { q with lock := part.lock }

theorem only_graft_self (q part : Query) (c : Clause) : (q.graft part c).only c = part.only c := by
  cases c <;> rfl

theorem only_graft_of_ne (q part : Query) {c k : Clause} (other : k ≠ c) :
    (q.graft part c).only k = q.only k := by
  revert other
  cases c <;> cases k <;> simp [graft, only]

theorem graft_issues (q part : Query) (c : Clause) : (q.graft part c).issues = q.issues := by
  cases c <;> rfl

/-- A query is its clauses and its issues. -/
theorem eq_of_only {q r : Query} (same : ∀ k, q.only k = r.only k) (issues : q.issues = r.issues) :
    q = r := by
  have source := same .source
  have select := same .select
  have joins := same .join
  have wheres := same .condition
  have groups := same .group
  have havings := same .having
  have orders := same .order
  have paging := same .paging
  have lock := same .lock
  obtain ⟨_, _, _, _, _, _, _, _, _, _, _, ⟨_, _, _, _, _, _, _⟩, _⟩ := q
  obtain ⟨_, _, _, _, _, _, _, _, _, _, _, ⟨_, _, _, _, _, _, _⟩, _⟩ := r
  simp_all [only]

/-- What a group takes from the query in which its conditions were built. -/
def conditions (q : Query) : Query := { q.only .condition with issues := q.issues }

end Query

namespace Builder

/-- The step keeps the grammar and the clauses outside the list. What it makes of a clause depends
on that clause and the grammar, and what it reports on the grammar. -/
structure Confined (clauses : List Clause) (step : Builder → Builder) : Prop where
  grammar : ∀ b, (step b).grammar = b.grammar
  outside : ∀ b, ∀ k ∉ clauses, (step b).query.only k = b.query.only k
  inside : ∀ {b c : Builder}, b.grammar = c.grammar → ∀ {k}, b.query.only k = c.query.only k →
    (step b).query.only k = (step c).query.only k
  issues : ∀ {b c : Builder}, b.grammar = c.grammar → b.query.issues = c.query.issues →
    (step b).query.issues = (step c).query.issues

/-- What is read off a builder depends on its grammar alone. -/
def Settled {α : Type} (read : Builder → α) : Prop :=
  ∀ ⦃b c : Builder⦄, b.grammar = c.grammar → read b = read c

namespace Confined

variable {ks ls : List Clause} {f g : Builder → Builder}

theorem keep : Confined [] fun b => b where
  grammar _ := rfl
  outside _ _ _ := rfl
  inside _ _ same := same
  issues _ same := same

theorem mono (confined : Confined ks f) (within : ks ⊆ ls) : Confined ls f where
  grammar := confined.grammar
  outside b k absent := confined.outside b k fun member => absent (within member)
  inside := confined.inside
  issues := confined.issues

/-- One step after another. -/
theorem comp (second : Confined ls g) (first : Confined ks f) :
    Confined (ks ++ ls) fun b => g (f b) where
  grammar b := (second.grammar (f b)).trans (first.grammar b)
  outside b k absent := by
    rw [List.mem_append, not_or] at absent
    exact (second.outside (f b) k absent.2).trans (first.outside b k absent.1)
  inside {b c} alike {k} same := by
    have grammars : (f b).grammar = (f c).grammar := by
      rw [first.grammar, first.grammar, alike]
    exact second.inside grammars (first.inside alike same)
  issues {b c} alike same := by
    have grammars : (f b).grammar = (f c).grammar := by
      rw [first.grammar, first.grammar, alike]
    exact second.issues grammars (first.issues alike same)

/-- One step after another, in the same clauses. -/
theorem andThen (first : Confined ks f) (second : Confined ks g) :
    Confined ks fun b => g (f b) :=
  (second.comp first).mono (List.append_subset.mpr ⟨List.Subset.refl ks, List.Subset.refl ks⟩)

/-- A step with an argument that is read off the builder. -/
theorem reading {α : Type} (step : α → Builder → Builder) {read : Builder → α}
    (settled : Settled read) (each : ∀ a, Confined ks (step a)) :
    Confined ks fun b => step (read b) b where
  grammar b := (each (read b)).grammar b
  outside b := (each (read b)).outside b
  inside {b c} alike {k} same := by
    rw [settled alike]
    exact (each (read c)).inside alike same
  issues {b c} alike same := by
    rw [settled alike]
    exact (each (read c)).issues alike same

/-- One of two steps, chosen by what the grammar says. -/
theorem ite {condition : Builder → Bool} (settled : Settled condition) (yes : Confined ks f)
    (no : Confined ks g) : Confined ks fun b => if condition b then f b else g b := by
  refine .reading (fun holds b => if holds then f b else g b) settled fun holds => ?_
  cases holds with
  | true => exact yes
  | false => exact no

theorem foldl {α : Type} {step : Builder → α → Builder}
    (each : ∀ a, Confined ks fun b => step b a) (items : List α) :
    Confined ks fun b => items.foldl step b := by
  induction items with
  | nil => exact keep.mono (List.nil_subset ks)
  | cons item rest ih => exact (each item).andThen ih

/-- A change that comes from one clause and goes into that clause. -/
theorem edit {c : Clause} {change : Query → Query}
    (within : ∀ q : Query, change q = q.graft (change (q.only c)) c) :
    Confined [c] fun b => b.edit change where
  grammar _ := rfl
  outside b k absent := by
    have other : k ≠ c := List.ne_of_not_mem_cons absent
    change (change b.query).only k = b.query.only k
    rw [within, Query.only_graft_of_ne _ _ other]
  inside {b d} _ {k} same := by
    change (change b.query).only k = (change d.query).only k
    rw [within b.query, within d.query]
    by_cases here : k = c
    · subst here
      rw [Query.only_graft_self, Query.only_graft_self, same]
    · rw [Query.only_graft_of_ne _ _ here, Query.only_graft_of_ne _ _ here, same]
  issues {b d} _ same := by
    change (change b.query).issues = (change d.query).issues
    rw [within b.query, within d.query, Query.graft_issues, Query.graft_issues, same]

/-- Steps that are confined to different clauses can change places. -/
theorem commute (first : Confined ks f) (second : Confined ls g) (apart : ∀ k ∈ ks, k ∉ ls)
    (b : Builder) (k : Clause) : (g (f b)).query.only k = (f (g b)).query.only k := by
  by_cases member : k ∈ ks
  · have absent := apart k member
    calc
      (g (f b)).query.only k = (f b).query.only k := second.outside (f b) k absent
      _ = (f (g b)).query.only k :=
        first.inside (second.grammar b).symm (second.outside b k absent).symm
  · calc
      (g (f b)).query.only k = (g b).query.only k :=
        second.inside (first.grammar b) (first.outside b k member)
      _ = (f (g b)).query.only k := (first.outside (g b) k member).symm

/-- What is built from nothing depends on the grammar alone. -/
theorem settled_fresh (confined : Confined ks f) : Settled fun b => (f b.fresh).query := by
  intro b c alike
  have clauses (k : Clause) : (f b.fresh).query.only k = (f c.fresh).query.only k :=
    confined.inside (b := b.fresh) (c := c.fresh) alike rfl
  exact Query.eq_of_only clauses (confined.issues (b := b.fresh) (c := c.fresh) alike rfl)

/-- The conditions of a group depend on the grammar alone, whatever source the group is on. -/
theorem settled_freshGroup (confined : Confined ks f) :
    Settled fun b => (f b.freshGroup).query.conditions := by
  intro b c alike
  -- the children start on different sources, but on the same conditions, none
  have conditions : (f b.freshGroup).query.only .condition =
      (f c.freshGroup).query.only .condition :=
    confined.inside (b := b.freshGroup) (c := c.freshGroup) alike rfl
  have issues : (f b.freshGroup).query.issues = (f c.freshGroup).query.issues :=
    confined.issues (b := b.freshGroup) (c := c.freshGroup) alike rfl
  change (f b.freshGroup).query.conditions = (f c.freshGroup).query.conditions
  unfold Query.conditions
  rw [conditions, issues]

end Confined

/-! ### The steps of building -/

variable {ks : List Clause}

theorem handOver_confined (found : List Issue) :
    Confined [] fun b => b.edit fun q => { q with issues := q.issues ++ found } where
  grammar _ := rfl
  outside _ k _ := by cases k <;> rfl
  inside {b c} _ {k} same := by cases k <;> exact same
  issues {b c} _ same := congrArg (· ++ found) same

theorem report_confined (issue : Issue) : Confined ks fun b => b.report issue :=
  (handOver_confined [issue]).mono (List.nil_subset ks)

theorem operator_settled (symbol : String) : Settled fun b => (b.operator symbol).1 := by
  intro b c alike
  simp only [operator, alike]
  split <;> rfl

theorem operator_confined (symbol : String) : Confined [] fun b => (b.operator symbol).2 := by
  have known : Settled fun b => b.grammar.isOperator (Text.trim symbol) :=
    fun b c alike => congrArg (·.isOperator (Text.trim symbol)) alike
  have branches : (fun b : Builder => (b.operator symbol).2) = fun b =>
      if b.grammar.isOperator (Text.trim symbol) then b
      else b.report (.unknownOperator (Text.trim symbol)) := by
    funext b
    simp only [operator]
    split <;> rfl
  rw [branches]
  exact .ite known .keep (report_confined _)

/-- A step that goes on with a repaired operator. -/
theorem Confined.repaired (symbol : String) (next : String → Builder → Builder)
    (each : ∀ written, Confined ks (next written)) :
    Confined ks fun b => next (b.operator symbol).1 (b.operator symbol).2 := by
  have repair : Confined ks fun b => (b.operator symbol).2 :=
    (operator_confined symbol).mono (List.nil_subset ks)
  exact .reading (fun written b => next written (b.operator symbol).2) (operator_settled symbol)
    fun written => repair.andThen (each written)

theorem table_confined (name : String) : Confined [.source] fun b => b.table name :=
  .edit fun _ => rfl

theorem fromQuery_confined (sub : Query) (label : String) :
    Confined [.source] fun b => b.fromQuery sub label :=
  .edit fun _ => rfl

theorem clearSelect_confined : Confined [.select] fun b => b.clearSelect := .edit fun _ => rfl

theorem addSelection_confined (entry : Selection) (values : List Value) :
    Confined [.select] fun b => b.addSelection entry values :=
  .edit fun _ => rfl

theorem selectColumns_confined (list : String) :
    Confined [.select] fun b => b.selectColumns list :=
  .edit fun _ => rfl

theorem distinct_confined : Confined [.select] fun b => b.distinct := .edit fun _ => rfl

theorem addCondition_confined (link : Connective) (condition : Condition) (values : List Value) :
    Confined [.condition] fun b => b.addCondition link condition values :=
  .edit fun _ => rfl

theorem whereCompare_confined (link : Connective) (column symbol : String) (value : Operand) :
    Confined [.condition] fun b => b.whereCompare link column symbol value := by
  let next (written : String) (b : Builder) : Builder :=
    if value.isNull && equalities.contains written then b.whereNull link column (written != "=")
    else b.addCondition link (.compare column written value) value.values
  have each (written : String) : Confined [.condition] (next written) := by
    unfold next
    split
    · exact addCondition_confined link _ _
    · exact addCondition_confined link _ _
  exact .repaired symbol next each

theorem whereQueryCompare_confined (sub : Query) (symbol : String) (value : Operand) :
    Confined [.condition] fun b => b.whereQueryCompare sub symbol value :=
  .repaired symbol _ fun written => addCondition_confined .and (.compareSub sub written value) _

theorem whereColumns_confined (link : Connective) (first symbol second : String) :
    Confined [.condition] fun b => b.whereColumns link first symbol second :=
  .repaired symbol _ fun written => addCondition_confined link (.columns first written second) []

theorem whereDatePart_confined (link : Connective) (part : DatePart) (column symbol : String)
    (value : Operand) :
    Confined [.condition] fun b => b.whereDatePart link part column symbol value :=
  .repaired symbol _ fun written =>
    addCondition_confined link (.datePart part column written value) value.values

theorem whereBetween_confined (link : Connective) (column : String) (ends : List Operand)
    (negated : Bool) : Confined [.condition] fun b => b.whereBetween link column ends negated := by
  unfold whereBetween
  split
  · exact addCondition_confined link _ _
  · exact report_confined _

theorem whereRow_confined (row : List Operand) : Confined [.condition] fun b => b.whereRow row := by
  unfold whereRow
  split
  · split
    · exact whereCompare_confined .and _ _ _
    · exact report_confined _
  · split
    · exact whereCompare_confined .and _ _ _
    · exact report_confined _
  · exact report_confined _

theorem whereColumnRow_confined (row : List String) :
    Confined [.condition] fun b => b.whereColumnRow row := by
  unfold whereColumnRow
  split
  · exact whereColumns_confined .and _ _ _
  · exact whereColumns_confined .and _ _ _
  · exact report_confined _

theorem addGroup_confined (link : Connective) (child : Query) :
    Confined [.condition] fun b => b.addGroup link child := by
  have handed : Confined [.condition] fun b =>
      b.edit fun q => { q with issues := q.issues ++ child.issues } :=
    (handOver_confined child.issues).mono (List.nil_subset _)
  unfold addGroup
  split
  · exact handed
  · exact handed.andThen (addCondition_confined link (.group child.wheres) child.bound.condition)

/-- A group built by a confined step. Of the child only conditions and issues are taken, so the
source that it starts with has no influence. -/
theorem grouped_confined (link : Connective) {child : Builder → Builder}
    (confined : Confined ks child) :
    Confined [.condition] fun b => b.addGroup link (child b.freshGroup).query := by
  have taken : Confined [.condition] fun b =>
      b.addGroup link (child b.freshGroup).query.conditions :=
    .reading (fun taken b => b.addGroup link taken) confined.settled_freshGroup
      (addGroup_confined link)
  exact taken

theorem whereRows_confined (link : Connective) (rows : List (List Operand)) :
    Confined [.condition] fun b => b.whereRows link rows :=
  grouped_confined link (.foldl whereRow_confined rows)

theorem whereColumnRows_confined (rows : List (List String)) :
    Confined [.condition] fun b => b.whereColumnRows rows :=
  grouped_confined .and (.foldl whereColumnRow_confined rows)

theorem addJoin_confined (join : Join) : Confined [.join] fun b => b.addJoin join :=
  .edit fun _ => rfl

theorem join_confined (kind : JoinKind) (table first symbol second : String) :
    Confined [.join] fun b => b.join kind table first symbol second :=
  .repaired symbol _ fun written => addJoin_confined ⟨kind, table, [⟨.and, first, written, second⟩]⟩

theorem groupBy_confined (lists : List String) : Confined [.group] fun b => b.groupBy lists :=
  .edit fun _ => rfl

theorem addHaving_confined (link : Connective) (condition : Condition) (values : List Value) :
    Confined [.having] fun b => b.addHaving link condition values :=
  .edit fun _ => rfl

theorem having_confined (link : Connective) (column symbol : String) (value : Operand) :
    Confined [.having] fun b => b.having link column symbol value :=
  .repaired symbol _ fun written =>
    addHaving_confined link (.compare column written value) value.values

theorem addOrdering_confined (entry : Ordering) (values : List Value) :
    Confined [.order] fun b => b.addOrdering entry values :=
  .edit fun _ => rfl

theorem orderBy_confined (column direction : String) :
    Confined [.order] fun b => b.orderBy column direction := by
  unfold orderBy
  split
  · exact addOrdering_confined _ _
  · exact (report_confined _).andThen (addOrdering_confined _ _)

theorem limit_confined (rows : Nat) : Confined [.paging] fun b => b.limit rows :=
  .edit fun _ => rfl

theorem offset_confined (rows : Nat) : Confined [.paging] fun b => b.offset rows :=
  .edit fun _ => rfl

theorem forPage_confined (page perPage : Nat) :
    Confined [.paging] fun b => b.forPage page perPage :=
  (offset_confined _).andThen (limit_confined perPage)

theorem lock_confined (mode : Lock) : Confined [.lock] fun b => b.lock mode := .edit fun _ => rfl

theorem strict_confined (flag : Bool) : Confined [] fun b => b.strict flag where
  grammar _ := rfl
  outside _ _ _ := rfl
  inside _ _ same := same
  issues _ same := same

/-- Discarding everything touches every clause. -/
theorem reset_confined {all : List Clause} (every : ∀ k, k ∈ all) :
    Confined all fun b => b.reset where
  grammar _ := rfl
  outside _ k absent := absurd (every k) absent
  inside _ _ _ := rfl
  issues _ _ := rfl

end Builder

end Sqlwright
