import Sqlwright.Proofs.BuilderTrace

/-!
Known operators. A statement writes operators as its query holds them, so a query may hold none that
its dialect does not let through. Whatever steps write themselves keeps to this at every depth. A
join that a caller hands over is taken in as it is, and its operators are nowhere looked at.
-/

namespace Sqlwright

theorem Linked.operators_append (front back : List Linked) :
    Linked.operators (front ++ back) = Linked.operators front ++ Linked.operators back := by
  induction front with
  | nil => rfl
  | cons linked rest ih =>
    cases linked with
    | mk link condition => simp [Linked.operators, ih]

/-- A further condition adds its own operators. -/
theorem Linked.operators_concat (front : List Linked) (link : Connective) (condition : Condition) :
    Linked.operators (front ++ [.mk link condition]) =
      Linked.operators front ++ condition.operators := by
  simp [Linked.operators_append, Linked.operators]

namespace Query

/-- All conditions of a query, also those in groups, are written with operators of the dialect. -/
structure ConditionsKnown (g : Grammar) (q : Query) : Prop where
  wheres : ∀ operator ∈ Linked.operators q.wheres, g.isOperator operator
  havings : ∀ operator ∈ Linked.operators q.havings, g.isOperator operator

/-- All conditions and joins of a query are written with operators of the dialect. -/
structure OperatorsKnown (g : Grammar) (q : Query) : Prop extends ConditionsKnown g q where
  joins : ∀ join ∈ q.joins, join.Known g

variable {g : Grammar} {given : Handed → Prop}

theorem ConditionsKnown.empty {source : Option Source} : ConditionsKnown g { source } :=
  ⟨List.forall_mem_nil _, List.forall_mem_nil _⟩

/-- Steps add conditions with operators of the dialect only. -/
theorem Evolves.conditionsKnown {q r : Query} (evolves : Query.Evolves g given q r)
    (start : q.ConditionsKnown g) : r.ConditionsKnown g := by
  induction evolves with
  | refl | report | table | fromQuery | clearSelect | addSelection | addOrdering | addJoin
  | groupBy | distinct | limit | offset | lock =>
    exact { start with }
  | trans _ _ ih more => exact more (ih start)
  | reset => exact .empty
  | addCondition q link built fits known =>
    refine ⟨?_, start.havings⟩
    rw [bind, Linked.operators_concat]
    exact List.forall_mem_append.mpr ⟨start.wheres, known⟩
  | addGroup q link grown filled ih =>
    refine ⟨?_, start.havings⟩
    rw [bind, Linked.operators_concat]
    exact List.forall_mem_append.mpr ⟨start.wheres, (ih .empty).wheres⟩
  | addHaving q link built fits known =>
    refine ⟨start.wheres, ?_⟩
    rw [bind, Linked.operators_concat]
    exact List.forall_mem_append.mpr ⟨start.havings, known⟩

/-- A join of a query is written with operators of the dialect or was handed over. -/
theorem Evolves.joinsKnown {q r : Query} (evolves : Query.Evolves g given q r)
    (start : ∀ join ∈ q.joins, join.Known g ∨ given (.join join)) :
    ∀ join ∈ r.joins, join.Known g ∨ given (.join join) := by
  induction evolves with
  | trans _ _ ih more => exact more (ih start)
  | reset => exact List.forall_mem_nil _
  | addJoin q allowed =>
    exact List.forall_mem_append.mpr ⟨start, List.forall_mem_singleton.mpr allowed⟩
  | _ => exact start

end Query

def Handed.join? : Handed → Option Join
  | .join ready => some ready
  | .entry _ _ => none

/-- The joins that calls hand over ready-made, also inside their groups and queries. -/
def Call.allGivenJoins (calls : List Call) : List Join :=
  (Call.allHanded calls).filterMap Handed.join?

theorem Call.mem_allGivenJoins {calls : List Call} {join : Join} :
    join ∈ Call.allGivenJoins calls ↔ Handed.join join ∈ Call.allHanded calls := by
  rw [Call.allGivenJoins, List.mem_filterMap]
  constructor
  · rintro ⟨ready, member, found⟩
    cases ready with
    | join other =>
      cases found
      exact member
    | entry sql places => cases found
  · exact fun member => ⟨.join join, member, rfl⟩

/-- In whatever calls build, conditions are written with operators of the dialect at every depth, as
are the joins that no caller handed over. All operators are of the dialect exactly when those of the
joins that were handed over and kept are. -/
theorem build_operators_known_iff (g : Grammar) (calls : List Call) :
    (Call.build g calls).Everywhere (fun q => q.ConditionsKnown g ∧
        ∀ join ∈ q.joins, join.Known g ∨ join ∈ Call.allGivenJoins calls) ∧
      ((Call.build g calls).Everywhere (Query.OperatorsKnown g) ↔
        (Call.build g calls).Everywhere fun q =>
          ∀ join ∈ q.joins, join ∈ Call.allGivenJoins calls → join.Known g) := by
  have kept : (Call.build g calls).Everywhere fun q => q.ConditionsKnown g ∧
      ∀ join ∈ q.joins, join.Known g ∨ join ∈ Call.allGivenJoins calls := by
    refine (Call.build_built g calls).everywhere fun s built => ⟨?_, ?_⟩
    · exact Query.Evolves.conditionsKnown built .empty
    · simp only [Call.mem_allGivenJoins]
      exact Query.Evolves.joinsKnown built (List.forall_mem_nil _)
  refine ⟨kept, fun known => ?_, fun handed => ?_⟩
  · exact known.mono fun q here join member _ => here.joins join member
  · refine (kept.and handed).mono fun q both => { both.1.1 with joins := fun join member => ?_ }
    rcases both.1.2 join member with known | given
    · exact known
    · exact both.2 join member given

/-- A join on a comparison by an operator that no dialect lets through. -/
def uncheckedJoin : Join :=
  ⟨.inner, "posts", [⟨.and, "users.id", "= 0 or 1 =", "posts.user_id"⟩]⟩

/-- A join that is handed over keeps an operator that the dialect does not let through. -/
theorem build_operator_unknown :
    ¬ (Call.build ⟨.mysql, ""⟩ [.table "users", .joinWith uncheckedJoin]).Everywhere
      (Query.OperatorsKnown ⟨.mysql, ""⟩) := by
  intro known
  have unlisted : Grammar.isOperator ⟨.mysql, ""⟩ "= 0 or 1 =" = false := by decide +kernel
  have kept : (Call.build ⟨.mysql, ""⟩ [.table "users", .joinWith uncheckedJoin]).joins =
      [uncheckedJoin] := rfl
  have taken : uncheckedJoin.Known ⟨.mysql, ""⟩ :=
    known.here.joins uncheckedJoin (kept ▸ List.mem_singleton_self _)
  have listed := taken _ (List.mem_singleton_self _)
  rw [unlisted] at listed
  cases listed

end Sqlwright
