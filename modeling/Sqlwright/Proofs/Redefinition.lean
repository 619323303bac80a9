import Sqlwright.Table.Named
import Mathlib.Data.List.Nodup

/-!
Entries that are defined again. From a list of definitions, in which a name may come more than
once, one may keep the first or the last of each name: a log that only adds new names keeps the
first ones, a list whose entries are put in place of those of their name keeps the last ones.
-/

namespace Sqlwright.Named

variable {α : Type} (key : α → String)

/-- The first entry of a name. -/
def first? (name : String) (entries : List α) : Option α := entries.find? fun e => key e = name

/-- The last entry of a name. -/
def last? (name : String) (entries : List α) : Option α := first? key name entries.reverse

/-- One entry for each name that is defined: the one that `pick` says. -/
structure Picked (pick : String → List α → Option α) (defined kept : List α) : Prop where
  distinct : (kept.map key).Nodup
  picked : ∀ e ∈ kept, pick (key e) defined = some e
  all : ∀ e ∈ defined, key e ∈ kept.map key

/-- The first definition of each name is kept. -/
abbrev Firsts : List α → List α → Prop := Picked key (first? key)

/-- The last definition of each name is kept. -/
abbrev Lasts : List α → List α → Prop := Picked key (last? key)

section Search

variable {key} {name : String} {entries : List α}

theorem first?_eq_some {e : α} (found : first? key name entries = some e) :
    e ∈ entries ∧ key e = name :=
  ⟨List.mem_of_find?_eq_some found, by simpa using List.find?_some found⟩

theorem last?_eq_some {e : α} (found : last? key name entries = some e) :
    e ∈ entries ∧ key e = name := by
  obtain ⟨member, named⟩ := first?_eq_some found
  exact ⟨List.mem_reverse.mp member, named⟩

theorem first?_concat (name : String) (entries : List α) (e : α) :
    first? key name (entries ++ [e]) =
      (first? key name entries).or (if key e = name then some e else none) := by
  rw [first?, List.find?_append]
  by_cases same : key e = name <;> simp [first?, same]

theorem last?_concat (name : String) (entries : List α) (e : α) :
    last? key name (entries ++ [e]) =
      if key e = name then some e else last? key name entries := by
  rw [last?, List.reverse_concat, first?, List.find?_cons]
  by_cases same : key e = name <;> simp [last?, first?, same]

theorem last?_cons (name : String) (entries : List α) (e : α) :
    last? key name (e :: entries) =
      (last? key name entries).or (if key e = name then some e else none) := by
  rw [last?, List.reverse_cons, first?_concat, last?]

theorem first?_eq_none_iff : first? key name entries = none ↔ name ∉ entries.map key := by
  simp [first?, List.mem_map]

theorem last?_eq_none_iff : last? key name entries = none ↔ name ∉ entries.map key := by
  rw [last?, first?_eq_none_iff, List.map_reverse, List.mem_reverse]

end Search

/-! ### One more definition -/

section Concat

variable {key} {pick : String → List α → Option α} {defined kept : List α} {e : α}

theorem Picked.concat_new (picked : Picked key pick defined kept) (fresh : key e ∉ kept.map key)
    (here : pick (key e) (defined ++ [e]) = some e)
    (other : ∀ name, key e ≠ name → pick name (defined ++ [e]) = pick name defined) :
    Picked key pick (defined ++ [e]) (kept ++ [e]) where
  distinct := by
    rw [List.map_append, List.map_singleton, ← List.concat_eq_append]
    exact picked.distinct.concat fresh
  picked d member := by
    rcases List.mem_append.mp member with old | new
    · have apart : key e ≠ key d := fun same => fresh (same ▸ List.mem_map_of_mem old)
      rw [other _ apart]
      exact picked.picked d old
    · obtain rfl := List.mem_singleton.mp new
      exact here
  all d member := by
    rw [List.map_append]
    rcases List.mem_append.mp member with old | new
    · exact List.mem_append_left _ (picked.all d old)
    · obtain rfl := List.mem_singleton.mp new
      exact List.mem_append_right _ (List.mem_singleton_self _)

/-- Where a name is new, no definition of it was picked before. -/
theorem Picked.undefined (picked : Picked key pick defined kept) {name : String}
    (fresh : name ∉ kept.map key) : name ∉ defined.map key := by
  intro member
  obtain ⟨d, inside, rfl⟩ := List.mem_map.mp member
  exact fresh (picked.all d inside)

theorem Firsts.concat_new (firsts : Firsts key defined kept) (fresh : key e ∉ kept.map key) :
    Firsts key (defined ++ [e]) (kept ++ [e]) := by
  refine Picked.concat_new firsts fresh ?_ fun name other => ?_
  · rw [first?_concat, first?_eq_none_iff.mpr (firsts.undefined fresh), if_pos rfl, Option.none_or]
  · rw [first?_concat, if_neg other, Option.or_none]

theorem Lasts.concat_new (lasts : Lasts key defined kept) (fresh : key e ∉ kept.map key) :
    Lasts key (defined ++ [e]) (kept ++ [e]) := by
  refine Picked.concat_new lasts fresh ?_ fun name other => ?_
  · rw [last?_concat, if_pos rfl]
  · rw [last?_concat, if_neg other]

/-- A name that is known keeps its first definition. -/
theorem Firsts.concat_known (firsts : Firsts key defined kept) (known : key e ∈ kept.map key) :
    Firsts key (defined ++ [e]) kept where
  distinct := firsts.distinct
  picked d member := by rw [first?_concat, firsts.picked d member, Option.some_or]
  all d member := by
    rcases List.mem_append.mp member with old | new
    · exact firsts.all d old
    · obtain rfl := List.mem_singleton.mp new
      exact known

/-- A definition in the place of the one of its name is the last one. -/
theorem Lasts.concat_known (lasts : Lasts key defined kept) {i : Nat}
    (known : (kept.map key)[i]? = some (key e)) :
    Lasts key (defined ++ [e]) (kept.set i e) := by
  have keys := map_set_eq known
  refine ⟨keys ▸ lasts.distinct, fun d member => ?_, fun d member => ?_⟩
  · rw [last?_concat]
    obtain ⟨j, held⟩ := List.mem_iff_getElem?.mp member
    rw [List.getElem?_set] at held
    by_cases here : i = j
    · obtain ⟨-, rfl⟩ : _ ∧ e = d := by simpa [here] using held
      rw [if_pos rfl]
    · rw [if_neg here] at held
      have there : (kept.map key)[j]? = some (key d) := by rw [List.getElem?_map, held]; rfl
      have apart : key e ≠ key d := by
        intro same
        have inside := (List.getElem?_eq_some_iff.mp known).1
        refine here ((List.getElem?_inj inside lasts.distinct).mp ?_)
        rw [known, there, same]
      rw [if_neg apart]
      exact lasts.picked d (List.mem_of_getElem? held)
  · rw [keys]
    rcases List.mem_append.mp member with old | new
    · exact lasts.all d old
    · obtain rfl := List.mem_singleton.mp new
      exact List.mem_of_getElem? known

end Concat

/-! ### What entries yield -/

section Yield

variable {key} {β : Type} {defined first last : List α}

/-- What is kept in a place is what is picked for its name. -/
theorem Picked.held {pick : String → List α → Option α} {kept : List α}
    (picked : Picked key pick defined kept) {i : Nat} {name : String}
    (named : (kept.map key)[i]? = some name) :
    ∃ e, kept[i]? = some e ∧ pick name defined = some e := by
  rw [List.getElem?_map] at named
  obtain ⟨e, held, rfl⟩ := Option.map_eq_some_iff.mp named
  exact ⟨e, held, picked.picked e (List.mem_of_getElem? held)⟩

/-- First and last definitions are shown alike exactly if they are for every name. -/
theorem map_eq_map_iff (firsts : Firsts key defined first) (lasts : Lasts key defined last)
    (aligned : first.map key = last.map key) (shown : α → β) :
    first.map shown = last.map shown ↔
      ∀ name a b, first? key name defined = some a → last? key name defined = some b →
        shown a = shown b := by
  constructor
  · intro alike name a b first? last?
    obtain ⟨defined, rfl⟩ := first?_eq_some first?
    obtain ⟨i, named⟩ := List.mem_iff_getElem?.mp (firsts.all a defined)
    obtain ⟨a', held, picked⟩ := firsts.held named
    obtain ⟨b', held', picked'⟩ := lasts.held (aligned ▸ named)
    obtain rfl := Option.some.inj (first?.symm.trans picked)
    obtain rfl := Option.some.inj (last?.symm.trans picked')
    have here := congrArg (fun entries : List β => entries[i]?) alike
    simpa [held, held'] using here
  · intro each
    refine List.ext_getElem? fun i => ?_
    rw [List.getElem?_map, List.getElem?_map]
    cases named : (first.map key)[i]? with
    | none =>
      have beyond : (last.map key)[i]? = none := aligned ▸ named
      rw [List.getElem?_map, Option.map_eq_none_iff] at named beyond
      rw [named, beyond]
    | some name =>
      obtain ⟨a, held, picked⟩ := firsts.held named
      obtain ⟨b, held', picked'⟩ := lasts.held (aligned ▸ named)
      rw [held, held', Option.map_some, Option.map_some, each name a b picked picked']

/-- Entries that are defined again later. -/
def superseded (key : α → String) : List α → List α
  | [] => []
  | e :: rest => if key e ∈ rest.map key then e :: superseded key rest else superseded key rest

/-- A definition that comes again is not the last one. -/
theorem Lasts.of_again {e : α} {rest : List α} (lasts : Lasts key (e :: rest) last)
    (again : key e ∈ rest.map key) : Lasts key rest last where
  distinct := lasts.distinct
  picked d member := by
    have picked := lasts.picked d member
    rw [last?_cons] at picked
    cases found : last? key (key d) rest with
    | some other => rwa [found, Option.some_or] at picked
    | none =>
      have absent := last?_eq_none_iff.mp found
      have apart : key e ≠ key d := fun same => absent (same ▸ again)
      rw [found, Option.none_or, if_neg apart] at picked
      cases picked
  all d member := lasts.all d (List.mem_cons_of_mem e member)

/-- A definition that does not come again is kept, and the others are those of the rest. -/
theorem Lasts.of_never {e : α} {rest : List α} (lasts : Lasts key (e :: rest) last)
    (never : key e ∉ rest.map key) :
    ∃ before after, last = before ++ e :: after ∧ Lasts key rest (before ++ after) := by
  obtain ⟨kept, member, named⟩ := List.mem_map.mp (lasts.all e List.mem_cons_self)
  have here := lasts.picked kept member
  rw [named, last?_cons, last?_eq_none_iff.mpr never, Option.none_or, if_pos rfl] at here
  obtain rfl := Option.some.inj here
  obtain ⟨before, after, rfl⟩ := List.append_of_mem member
  have distinct := lasts.distinct
  rw [List.map_append, List.map_cons, List.nodup_middle, List.nodup_cons,
    ← List.map_append] at distinct
  refine ⟨before, after, rfl, distinct.2, fun d member => ?_, fun d member => ?_⟩
  · have apart : key e ≠ key d := fun same => distinct.1 (same ▸ List.mem_map_of_mem member)
    have inside : d ∈ before ++ e :: after := by
      rcases List.mem_append.mp member with left | right
      · exact List.mem_append_left _ left
      · exact List.mem_append_right _ (List.mem_cons_of_mem e right)
    have picked := lasts.picked d inside
    rwa [last?_cons, if_neg apart, Option.or_none] at picked
  · have apart : key d ≠ key e := fun same => never (same ▸ List.mem_map_of_mem member)
    have known := lasts.all d (List.mem_cons_of_mem e member)
    simpa [apart] using known

/-- All definitions are the last ones and those that are defined again. -/
theorem Lasts.perm (lasts : Lasts key defined last) :
    defined.Perm (last ++ superseded key defined) := by
  induction defined generalizing last with
  | nil =>
    have empty : last = [] := List.eq_nil_iff_forall_not_mem.mpr fun e member => by
      have picked := lasts.picked e member
      cases picked
    rw [empty]
    exact List.Perm.nil
  | cons e rest ih =>
    rw [superseded]
    split
    · next again =>
      exact (List.Perm.cons e (ih (lasts.of_again again))).trans List.perm_middle.symm
    · next never =>
      obtain ⟨before, after, rfl, others⟩ := lasts.of_never never
      rw [List.append_assoc]
      exact (List.Perm.cons e (List.append_assoc .. ▸ ih others)).trans List.perm_middle.symm

theorem superseded_yield_iff (yield : α → Option β) (defined : List α) :
    (superseded key defined).filterMap yield = [] ↔
      defined.Pairwise fun earlier later => key earlier = key later → yield earlier = none := by
  induction defined with
  | nil => simp [superseded]
  | cons e rest ih =>
    rw [List.pairwise_cons, ← ih, superseded]
    split
    · next again =>
      obtain ⟨later, member, same⟩ := List.mem_map.mp again
      cases yielded : yield e with
      | none => simp [yielded]
      | some b =>
        rw [List.filterMap_cons, yielded]
        refine iff_of_false (List.cons_ne_nil _ _) fun both => ?_
        cases both.1 later member same.symm
    · next never =>
      have vacuous : ∀ later ∈ rest, key e = key later → yield e = none := fun later member same =>
        absurd (same ▸ List.mem_map_of_mem member) never
      rw [and_iff_right vacuous]

/-- The last definitions yield what all do exactly if no earlier one yields anything. -/
theorem Lasts.filterMap_perm_iff (lasts : Lasts key defined last) (yield : α → Option β) :
    (defined.filterMap yield).Perm (last.filterMap yield) ↔
      defined.Pairwise fun earlier later => key earlier = key later → yield earlier = none := by
  have all := lasts.perm.filterMap yield
  rw [List.filterMap_append] at all
  rw [← superseded_yield_iff]
  constructor
  · intro same
    have lengths := (same.symm.trans all).length_eq
    rw [List.length_append] at lengths
    exact List.eq_nil_of_length_eq_zero (by omega)
  · intro none
    rw [none, List.append_nil] at all
    exact all

end Yield

end Sqlwright.Named
