import Sqlwright.Proofs.BlueprintLookups

/-!
Properties along runs of calls. Where it is known of each call exactly when it keeps a property, the
property holds of every blueprint on the way exactly when each call keeps it on the blueprint that
it is performed on.
-/

namespace Sqlwright

/-- Where building starts: with an empty blueprint, or with the listings of a catalog that are as
`listed` says. -/
inductive Table.Started (listed : List Column → List Index → Prop) : Table → Prop where
  | empty (name : String) : Started listed { name }
  | catalog {name : String} {schema : Option String} {columns : List Column} {indexes : List Index}
      {t : Table} (fit : listed columns indexes)
      (found : ofCatalog name schema columns indexes = .ok t) : Started listed t

theorem Table.Started.indexed {listed : List Column → List Index → Prop} {t : Table}
    (started : Started listed t) : t.Indexed := by
  cases started with
  | empty name => exact ⟨fun _ => rfl, fun _ => rfl⟩
  | catalog fit found => exact ofCatalog_indexed found

namespace TableCall

section Prefixes

variable {first : TableCall} {rest : List TableCall}

theorem forall_done_cons {holds : List TableCall → Prop} :
    (∀ done, done <+: first :: rest → holds done) ↔
      holds [] ∧ ∀ done, done <+: rest → holds (first :: done) := by
  constructor
  · intro always
    exact ⟨always [] List.nil_prefix, fun done within =>
      always (first :: done) ((List.prefix_cons_inj first).mpr within)⟩
  · rintro ⟨start, later⟩ done within
    cases done with
    | nil => exact start
    | cons before done =>
      obtain ⟨rfl, inside⟩ := List.cons_prefix_cons.mp within
      exact later done inside

theorem forall_call_nil {keeps : List TableCall → TableCall → Prop} :
    ∀ done call, done ++ [call] <+: [] → keeps done call := by
  intro done call within
  simp at within

theorem forall_call_cons {keeps : List TableCall → TableCall → Prop} :
    (∀ done call, done ++ [call] <+: first :: rest → keeps done call) ↔
      keeps [] first ∧ ∀ done call, done ++ [call] <+: rest → keeps (first :: done) call := by
  constructor
  · intro each
    exact ⟨each [] first ⟨rest, rfl⟩, fun done call within =>
      each (first :: done) call ((List.prefix_cons_inj first).mpr within)⟩
  · rintro ⟨start, later⟩ done call within
    cases done with
    | nil =>
      obtain ⟨rfl, -⟩ := List.cons_prefix_cons.mp within
      exact start
    | cons before done =>
      obtain ⟨rfl, inside⟩ := List.cons_prefix_cons.mp within
      exact later done call inside

end Prefixes

/-- A property that every call keeps exactly under its own condition, given an invariant, holds on
the whole way of a run exactly when the condition of each call is met where it is performed. -/
theorem always_iff {I P : Table → Prop} {keeps : TableCall → Table → Prop}
    (invariant : ∀ (call : TableCall) t, I t → I (call.run t))
    (step : ∀ call t, I t → P t → (P (call.run t) ↔ keeps call t)) {t : Table} (start : I t)
    (holds : P t) (calls : List TableCall) :
    (∀ done, done <+: calls → P (runAll done t)) ↔
      ∀ done call, done ++ [call] <+: calls → keeps call (runAll done t) := by
  induction calls generalizing t with
  | nil =>
    refine iff_of_true (fun done within => ?_) forall_call_nil
    obtain rfl := List.prefix_nil.mp within
    exact holds
  | cons first rest ih =>
    rw [forall_done_cons, forall_call_cons]
    constructor
    · rintro ⟨-, later⟩
      have after : P (first.run t) := later [] List.nil_prefix
      exact ⟨(step first t start holds).mp after, (ih (invariant first t start) after).mp later⟩
    · rintro ⟨kept, later⟩
      have after : P (first.run t) := (step first t start holds).mpr kept
      exact ⟨holds, (ih (invariant first t start) after).mpr later⟩

end TableCall

end Sqlwright
