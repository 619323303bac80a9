import Mathlib.Data.List.Forall2
import Sqlwright.Proofs.Subquery

/-!
Coherent queries. An entry of a clause brings a list of slots, one for each place it is written
with: a known value, or an open slot where a raw fragment takes whichever value it was given. A
query is coherent when each of its binding sections fits the slots of its clause, at every depth.
-/

namespace Sqlwright

/-- Values that stand in slots, position by position; an open slot takes any value. -/
def Fits (slots : List (Option Value)) (values : List Value) : Prop :=
  List.Forall₂ (fun slot value => ∀ known, slot = some known → value = known) slots values

namespace Fits

variable {front back : List (Option Value)} {values more : List Value}

theorem nil : Fits [] [] := List.Forall₂.nil

theorem append (first : Fits front values) (second : Fits back more) :
    Fits (front ++ back) (values ++ more) :=
  List.rel_append first second

theorem split (fits : Fits (front ++ back) values) :
    ∃ first second, values = first ++ second ∧ Fits front first ∧ Fits back second := by
  induction front generalizing values with
  | nil => exact ⟨[], values, rfl, .nil, fits⟩
  | cons slot rest ih =>
    cases fits with
    | cons head tail =>
      obtain ⟨first, second, same, left, right⟩ := ih tail
      subst same
      exact ⟨_ :: first, second, rfl, .cons head left, right⟩

end Fits

theorem fits_nil_iff {values : List Value} : Fits [] values ↔ values = [] :=
  List.forall₂_nil_left_iff

theorem fits_map_some_iff {known values : List Value} :
    Fits (known.map some) values ↔ values = known := by
  induction known generalizing values with
  | nil => exact fits_nil_iff
  | cons value rest ih =>
    constructor
    · intro fits
      cases fits with
      | cons head tail => rw [head value rfl, ih.mp tail]
    · intro same
      subst same
      exact .cons (fun known found => Option.some.inj found) (ih.mpr rfl)

theorem fits_map_some (values : List Value) : Fits (values.map some) values :=
  fits_map_some_iff.mpr rfl

/-- Open slots take any values of their number. -/
theorem fits_replicate_none_iff {count : Nat} {values : List Value} :
    Fits (List.replicate count none) values ↔ values.length = count := by
  induction count generalizing values with
  | zero => simpa [List.length_eq_zero_iff] using fits_nil_iff
  | succ count ih =>
    cases values with
    | nil =>
      constructor
      · intro fits
        cases fits
      · intro length
        cases length
    | cons value rest =>
      constructor
      · intro fits
        cases fits with
        | cons _ tail => simpa using ih.mp tail
      · intro length
        exact .cons (fun known absurd => by cases absurd) (ih.mpr (by simpa using length))

/-! ### Slots of the clauses -/

def Selection.slots : Selection → List (Option Value)
  | .column _ => []
  | .raw _ places => List.replicate places none
  | .sub query _ => query.values.map some

def Source.slots : Source → List (Option Value)
  | .table _ _ => []
  | .sub query _ => query.values.map some

def Ordering.slots : Ordering → List (Option Value)
  | .column _ _ => []
  | .raw _ places => List.replicate places none

mutual

/-- A group brings what its own conditions bring. -/
def Condition.slots : Condition → List (Option Value)
  | .compare _ _ value => value.values.map some
  | .compareSub query _ value => query.values.map some ++ value.values.map some
  | .columns _ _ _ | .null _ _ => []
  | .between _ low high _ => low.values.map some ++ high.values.map some
  | .among _ values _ => (values.flatMap Operand.values).map some
  | .amongSub _ query _ => query.values.map some
  | .exists query _ => query.values.map some
  | .raw _ places => List.replicate places none
  | .group conditions => Linked.slots conditions
  | .datePart _ _ _ value => value.values.map some

def Linked.slots : List Linked → List (Option Value)
  | [] => []
  | .mk _ condition :: rest => condition.slots ++ Linked.slots rest

end

theorem Linked.slots_append (front back : List Linked) :
    Linked.slots (front ++ back) = Linked.slots front ++ Linked.slots back := by
  induction front with
  | nil => rfl
  | cons linked rest ih =>
    cases linked with
    | mk link condition => simp [Linked.slots, ih]

/-! ### Coherence -/

namespace Query

/-- The sections of all clauses but the select list and the source fit them; joins and groups bind
nothing. -/
structure RestFits (q : Query) : Prop where
  join : q.bound.join = []
  condition : Fits (Linked.slots q.wheres) q.bound.condition
  group : q.bound.group = []
  having : Fits (Linked.slots q.havings) q.bound.having
  order : Fits (q.orders.flatMap Ordering.slots) q.bound.order

/-- The sections of all clauses but the source fit them. -/
structure ClausesFit (q : Query) : Prop extends RestFits q where
  select : Fits (q.columns.flatMap Selection.slots) q.bound.select

/-- Each section of a query fits its clause. -/
structure SectionsFit (q : Query) : Prop extends ClausesFit q where
  source : Fits (q.source.toList.flatMap Source.slots) q.bound.source

/-- Each section fits its clause in a query and in all queries inside it. -/
def Coherent (q : Query) : Prop := q.Everywhere SectionsFit

end Query

end Sqlwright
