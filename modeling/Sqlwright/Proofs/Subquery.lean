import Sqlwright.Query.Basic

/-!
Queries inside queries. `subqueries` lists those that stand directly in the clauses of a query, also
within groups of conditions, and `Query.Everywhere` says that a property holds of a query and of all
queries inside it, at every depth. Its induction is the induction over the depth of a query.
-/

namespace Sqlwright

def Operand.subqueries : Operand → List Query
  | .sub query => [query]
  | .value _ | .raw _ | .column _ => []

def Selection.subqueries : Selection → List Query
  | .sub query _ => [query]
  | .column _ | .raw _ _ => []

def Source.subqueries : Source → List Query
  | .sub query _ => [query]
  | .table _ _ => []

mutual

def Condition.subqueries : Condition → List Query
  | .compare _ _ value => value.subqueries
  | .compareSub query _ value => query :: value.subqueries
  | .columns _ _ _ | .null _ _ | .raw _ _ => []
  | .between _ low high _ => low.subqueries ++ high.subqueries
  | .among _ values _ => values.flatMap Operand.subqueries
  | .amongSub _ query _ => [query]
  | .exists query _ => [query]
  | .group conditions => Linked.subqueries conditions
  | .datePart _ _ _ value => value.subqueries

def Linked.subqueries : List Linked → List Query
  | [] => []
  | .mk _ condition :: rest => condition.subqueries ++ Linked.subqueries rest

end

namespace Query

/-- The queries that stand directly in the clauses of a query. -/
def subqueries (q : Query) : List Query :=
  q.columns.flatMap Selection.subqueries ++ q.source.toList.flatMap Source.subqueries ++
    Linked.subqueries q.wheres ++ Linked.subqueries q.havings

/-- A property of a query and of all queries inside it, at every depth. -/
inductive Everywhere (P : Query → Prop) : Query → Prop where
  | intro {q : Query} (here : P q) (inside : ∀ s ∈ q.subqueries, Everywhere P s) : Everywhere P q

namespace Everywhere

variable {P Q : Query → Prop} {q : Query}

theorem here (all : q.Everywhere P) : P q := by
  cases all with
  | intro here _ => exact here

theorem inside (all : q.Everywhere P) : ∀ s ∈ q.subqueries, s.Everywhere P := by
  cases all with
  | intro _ inside => exact inside

theorem mono (weaken : ∀ q, P q → Q q) (all : q.Everywhere P) : q.Everywhere Q := by
  induction all with
  | intro here _ ih => exact .intro (weaken _ here) ih

theorem and (first : q.Everywhere P) (second : q.Everywhere Q) :
    q.Everywhere fun q => P q ∧ Q q := by
  induction first with
  | intro here _ ih =>
    exact .intro ⟨here, second.here⟩ fun s member => ih s member (second.inside s member)

end Everywhere

end Query

theorem Linked.subqueries_append (front back : List Linked) :
    Linked.subqueries (front ++ back) = Linked.subqueries front ++ Linked.subqueries back := by
  induction front with
  | nil => rfl
  | cons linked rest ih =>
    cases linked with
    | mk link condition => simp [Linked.subqueries, ih]

end Sqlwright
