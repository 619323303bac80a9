import Sqlwright.Proofs.BuilderTrace

/-!
Coherence of built queries. Steps keep every section in step with its clause, with two exceptions. A
table that takes the place of a query leaves the values of the query behind, and SQL that a caller
hands over for the select list may declare places for which it brings no values. A built query is
coherent exactly when neither happened to any of the queries in it.
-/

namespace Sqlwright

/-! ### Select entries and their values -/

namespace Selection

variable {given : Handed → Prop} {entry : Selection} {values : List Value}
  {columns : List Selection} {parts : List (List Value)}

/-- An entry never brings more values than it has places. -/
theorem Brings.length_le (brings : entry.Brings given values) :
    values.length ≤ entry.slots.length := by
  cases brings with
  | filled fits => exact Nat.le_of_eq fits.length_eq.symm
  | handed => exact Nat.zero_le _

theorem Brings.fits (brings : entry.Brings given values)
    (filled : entry.slots.length ≤ values.length) : Fits entry.slots values := by
  cases brings with
  | filled fits => exact fits
  | @handed sql places allowed =>
    have none : places = 0 := by simpa [slots] using filled
    exact fits_replicate_none_iff.mpr none.symm

/-- Where no entry that is handed over declares a place, the values of all entries fit them. -/
theorem Brings.fits_of_no_places (free : ∀ sql places, given (.entry sql places) → places = 0)
    (brings : entry.Brings given values) : Fits entry.slots values := by
  refine brings.fits ?_
  cases brings with
  | filled fits => exact Nat.le_of_eq fits.length_eq
  | handed allowed => simp [slots, free _ _ allowed]

theorem length_flatten_le (each : List.Forall₂ (Brings given) columns parts) :
    parts.flatten.length ≤ (columns.flatMap slots).length := by
  induction each with
  | nil => exact Nat.le_refl _
  | cons head rest ih =>
    simp only [List.flatten_cons, List.flatMap_cons, List.length_append]
    exact Nat.add_le_add head.length_le ih

theorem fits_flatten (each : List.Forall₂ (fun entry => Fits entry.slots) columns parts) :
    Fits (columns.flatMap slots) parts.flatten := by
  induction each with
  | nil => exact .nil
  | cons head rest ih => exact head.append ih

/-- Entries bring as many values as they have places only if each of them does. -/
theorem forall₂_fits (each : List.Forall₂ (Brings given) columns parts)
    (filled : (columns.flatMap slots).length ≤ parts.flatten.length) :
    List.Forall₂ (fun entry => Fits entry.slots) columns parts := by
  induction each with
  | nil => exact .nil
  | cons head rest ih =>
    have first := head.length_le
    have others := length_flatten_le rest
    simp only [List.flatten_cons, List.flatMap_cons, List.length_append] at filled
    exact .cons (head.fits (by omega)) (ih (by omega))

end Selection

namespace Query

variable {g : Grammar} {given : Handed → Prop}

/-- The select section holds the values that came with the entries of the select list, in order. -/
def SelectKept (given : Handed → Prop) (q : Query) : Prop :=
  ∃ parts, List.Forall₂ (Selection.Brings given) q.columns parts ∧ q.bound.select = parts.flatten

/-- The entries of the select list have as many places as its section holds values. -/
def SelectFilled (q : Query) : Prop :=
  (q.columns.flatMap Selection.slots).length = q.bound.select.length

/-- The source section of a query on a query, or on nothing, fits its source. -/
def SourceKept (q : Query) : Prop :=
  match q.source with
  | none => q.bound.source = []
  | some (.table _ _) => True
  | some (.sub sub _) => q.bound.source = sub.values

/-- A query on a table binds nothing in its source section. -/
def SourceFresh (q : Query) : Prop :=
  ∀ name label, q.source = some (.table name label) → q.bound.source = []

/-! ### What steps keep -/

theorem RestFits.empty {source : Option Source} : RestFits { source } :=
  ⟨rfl, .nil, rfl, .nil, .nil⟩

/-- Whatever steps do, the sections of all clauses but the select list and the source fit them. -/
theorem Evolves.restFits {q r : Query} (evolves : Query.Evolves g given q r)
    (start : q.RestFits) : r.RestFits := by
  induction evolves with
  | refl | report | table | fromQuery | clearSelect | addSelection | addJoin | groupBy | distinct
  | limit | offset | lock =>
    exact { start with }
  | trans _ _ ih more => exact more (ih start)
  | reset => exact .empty
  | addCondition q link built fits known =>
    refine { start with condition := ?_ }
    simpa [bind, Bindings.add, Linked.slots_append, Linked.slots] using start.condition.append fits
  | addGroup q link grown filled ih =>
    refine { start with condition := ?_ }
    simpa [bind, Bindings.add, Linked.slots_append, Linked.slots, Condition.slots] using
      start.condition.append (ih .empty).condition
  | addHaving q link built fits known =>
    refine { start with having := ?_ }
    simpa [bind, Bindings.add, Linked.slots_append, Linked.slots] using start.having.append fits
  | addOrdering q fits =>
    refine { start with order := ?_ }
    simpa [bind, Bindings.add] using start.order.append fits

/-- Steps put values into the select section together with the entry that they come with. -/
theorem Evolves.selectKept {q r : Query} (evolves : Query.Evolves g given q r)
    (start : q.SelectKept given) : r.SelectKept given := by
  induction evolves with
  | trans _ _ ih more => exact more (ih start)
  | reset | clearSelect => exact ⟨[], .nil, rfl⟩
  | @addSelection q entry values built brings =>
    obtain ⟨parts, each, whole⟩ := start
    refine ⟨parts ++ [values], List.rel_append each (.cons brings .nil), ?_⟩
    simp [bind, Bindings.add, whole]
  | _ => exact start

/-- Only a table can be the source of a query whose source section does not fit. -/
theorem Evolves.sourceKept {q r : Query} (evolves : Query.Evolves g given q r)
    (start : q.SourceKept) : r.SourceKept := by
  induction evolves with
  | trans _ _ ih more => exact more (ih start)
  | table q name =>
    obtain ⟨plain, label, same⟩ := Source.ofTable_table name
    simp [SourceKept, same]
  | reset | fromQuery => exact rfl
  | _ => exact start

/-! ### Where sections fit -/

variable {q : Query}

theorem SelectKept.fits_iff (kept : q.SelectKept given) :
    Fits (q.columns.flatMap Selection.slots) q.bound.select ↔ q.SelectFilled := by
  refine ⟨fun fits => fits.length_eq, fun filled => ?_⟩
  obtain ⟨parts, each, whole⟩ := kept
  rw [SelectFilled, whole] at filled
  rw [whole]
  exact Selection.fits_flatten (Selection.forall₂_fits each (Nat.le_of_eq filled))

theorem SelectKept.filled (kept : q.SelectKept given)
    (free : ∀ sql places, given (.entry sql places) → places = 0) : q.SelectFilled := by
  refine kept.fits_iff.mp ?_
  obtain ⟨parts, each, whole⟩ := kept
  rw [whole]
  exact Selection.fits_flatten (each.imp fun _ _ brings => brings.fits_of_no_places free)

theorem source_fits_iff (kept : q.SourceKept) :
    Fits (q.source.toList.flatMap Source.slots) q.bound.source ↔ q.SourceFresh := by
  constructor
  · intro fits name label found
    simpa [found, Source.slots, fits_nil_iff] using fits
  · intro fresh
    cases found : q.source with
    | none => simpa [SourceKept, found, fits_nil_iff] using kept
    | some source =>
      cases source with
      | table name label => simpa [Source.slots, fits_nil_iff] using fresh name label found
      | sub sub label =>
        have held : q.bound.source = sub.values := by simpa [SourceKept, found] using kept
        simpa [Source.slots, held] using fits_map_some sub.values

/-- What steps keep of the sections of a query: whatever else goes wrong is in the select list or
the source. -/
structure SectionsKept (given : Handed → Prop) (q : Query) : Prop where
  rest : q.RestFits
  select : q.SelectKept given
  source : q.SourceKept

theorem Built.sectionsKept (built : q.Built g given) : q.SectionsKept given where
  rest := Evolves.restFits built .empty
  select := Evolves.selectKept built ⟨[], .nil, rfl⟩
  source := Evolves.sourceKept built rfl

theorem SectionsKept.sectionsFit_iff (kept : q.SectionsKept given) :
    q.SectionsFit ↔ q.SourceFresh ∧ q.SelectFilled := by
  constructor
  · intro fit
    exact ⟨(source_fits_iff kept.source).mp fit.source, kept.select.fits_iff.mp fit.select⟩
  · rintro ⟨fresh, filled⟩
    exact { kept.rest with
      select := kept.select.fits_iff.mpr filled
      source := (source_fits_iff kept.source).mpr fresh }

end Query

/-- In whatever calls build, at every depth, the select section holds what came with the entries of
the select list, and all other sections but those of sources fit their clauses. The query is
coherent exactly when no query in it on a table binds values in its source section and all select
lists have as many places as their sections hold values. So unless SQL with places of its own is
handed over for a select list, only sources are at stake. -/
theorem build_coherent_iff (g : Grammar) (calls : List Call) :
    (Call.build g calls).Everywhere (Query.SectionsKept (· ∈ Call.allHanded calls)) ∧
      ((Call.build g calls).Coherent ↔
        (Call.build g calls).Everywhere fun q => q.SourceFresh ∧ q.SelectFilled) ∧
      ((∀ sql places, Handed.entry sql places ∈ Call.allHanded calls → places = 0) →
        (Call.build g calls).Everywhere (fun q => q.ClausesFit ∧ q.SourceKept) ∧
          ((Call.build g calls).Coherent ↔ (Call.build g calls).Everywhere Query.SourceFresh)) := by
  have kept : (Call.build g calls).Everywhere (Query.SectionsKept (· ∈ Call.allHanded calls)) :=
    (Call.build_built g calls).everywhere fun s built => built.sectionsKept
  have coherent : (Call.build g calls).Coherent ↔
      (Call.build g calls).Everywhere fun q => q.SourceFresh ∧ q.SelectFilled := by
    constructor
    · exact fun fit => (kept.and fit).mono fun q both => both.1.sectionsFit_iff.mp both.2
    · exact fun whole => (kept.and whole).mono fun q both => both.1.sectionsFit_iff.mpr both.2
  refine ⟨kept, coherent, fun free => ⟨?_, coherent.trans ⟨?_, ?_⟩⟩⟩
  · refine kept.mono fun q here => ⟨{ here.rest with select := ?_ }, here.source⟩
    exact here.select.fits_iff.mpr (here.select.filled free)
  · exact fun whole => whole.mono fun q both => both.1
  · exact fun fresh => (kept.and fresh).mono fun q both => ⟨both.2, both.1.select.filled free⟩

/-- Calls that build a query on a table with a value. -/
def votedCalls : List Call := [.table "users", .raw .and "votes > ?" [.int 5]]

/-- Calls that build a query on that query and hand over SQL without places. -/
def countedCalls : List Call :=
  [.fromSub votedCalls "u", .select [.columns "name", .raw "now()"],
    .selectRaw "coalesce(a, ?)" [.int 1]]

theorem build_counted_coherent :
    (∀ sql places, Handed.entry sql places ∈ Call.allHanded countedCalls → places = 0) ∧
      (Call.build ⟨.mysql, ""⟩ countedCalls).Coherent := by
  obtain ⟨-, -, whole⟩ := build_coherent_iff ⟨.mysql, ""⟩ countedCalls
  have free : ∀ sql places,
      Handed.entry sql places ∈ Call.allHanded countedCalls → places = 0 := by
    simp [countedCalls, votedCalls, Call.allHanded, Call.handed, Item.allHanded, Item.handed]
  have bare : (Call.build ⟨.mysql, ""⟩ votedCalls).subqueries = [] := rfl
  have inner : (Call.build ⟨.mysql, ""⟩ countedCalls).subqueries =
      [Call.build ⟨.mysql, ""⟩ votedCalls] := rfl
  refine ⟨free, (whole free).2.mpr (.intro ?_ ?_)⟩
  · rintro name label ⟨⟩
  · rw [inner]
    refine List.forall_mem_singleton.mpr (.intro (fun _ _ _ => rfl) ?_)
    rw [bare]
    exact List.forall_mem_nil _

/-- A table that takes the place of a query with a value leaves the value behind. -/
theorem build_not_coherent : ¬ (Call.build ⟨.mysql, ""⟩
    [.fromSub [.table "users", .raw .and "votes > ?" [.int 5]] "u", .table "plain"]).Coherent := by
  intro coherent
  obtain ⟨name, label, same⟩ := Source.ofTable_table "plain"
  have fits : Fits ((some (Source.ofTable "plain")).toList.flatMap Source.slots) [Value.int 5] :=
    coherent.here.source
  rw [same] at fits
  cases fits

end Sqlwright
