import Sqlwright.Query.Compile
import Sqlwright.Proofs.BuilderTrace
import Sqlwright.Proofs.NameReading
import Sqlwright.Proofs.QualifiedNames

/-!
Counters of emptied tables. On SQLite a table is emptied by a DELETE, and the counter of its keys is
taken back by a second statement that is bound to the name under which the table is stored. The
DELETE reads the name of the query as a reference; the bound name is that text as it stands, with
the table prefix in front. They agree exactly if there is nothing to be read in the text.
-/

namespace Sqlwright

namespace NameToken

/-- What an identifier or a star says. -/
def said? : NameToken → Option String
  | .ident s => some s
  | .star => some "*"
  | _ => none

/-- The last segment of a reference, its aliases aside. -/
def lastSegment? (tokens : List NameToken) : Option String :=
  (tokens.takeWhile (· ≠ .label)).getLast?.bind said?

end NameToken

/-- The stored name of the table that a DELETE empties, as the dialect reads it. -/
def emptiedTable? (d : Dialect) (sql : String) : Option String :=
  ((sql.toList.dropPrefix? "delete from ".toList).bind (NameToken.lex d)).bind
    NameToken.lastSegment?

/-- A name of a table alone: nothing in it is read as a qualifier or an alias, and no blanks stand
at its ends. -/
structure BareName (name : String) : Prop where
  unqualified : '.' ∉ name.toList
  unlabelled : Text.splitAlias? name.toList = none
  trimmed : Text.trimChars name.toList = name.toList

/-- What follows the last point of the name that a reference is read as. -/
def lastField (reference : String) : String :=
  let fields := Text.splitOn '.' (Text.trimChars (Text.Aliased.read reference.toList).base)
  .ofList (fields.getLast (Text.splitOn_ne_nil '.' _))

/-! ### Last segments -/

namespace NameToken

theorem said?_ofSegment (s : String) : (ofSegment s).said? = some s := by
  unfold ofSegment
  split
  · subst s
    rfl
  · rfl

theorem ofSegment_ne_label (s : String) : ofSegment s ≠ .label := by
  unfold ofSegment
  split <;> exact nofun

theorem prefixed_concat (tablePrefix : String) (front : List String) (last : String) :
    prefixed tablePrefix 0 (front ++ [last]) = front ++ [tablePrefix ++ last] := by
  induction front with
  | nil => simp [prefixed]
  | cons s rest ih =>
    rw [List.cons_append, Grammar.prefixed_cons (by simp), ih, List.cons_append]

/-- The last of several parts stands behind all the others and their separators. -/
theorem intercalate_concat (separator : NameToken) (front : List NameToken) (last : NameToken) :
    [separator].intercalate ((front ++ [last]).map fun token => [token]) =
      (front.flatMap fun token => [token, separator]) ++ [last] := by
  induction front with
  | nil => simp
  | cons token rest ih =>
    cases rest with
    | nil => simp
    | cons next more =>
      simp only [List.cons_append, List.map_cons] at ih ⊢
      rw [List.intercalate_cons_cons, ih]
      simp

/-- A name is cut into its last field and the fields in front. -/
theorem exists_fields_eq_concat (reference : String) : ∃ front : List String,
    Text.fields '.' (Text.trim (.ofList (Text.Aliased.read reference.toList).base)) =
      front ++ [lastField reference] := by
  have some := Text.splitOn_ne_nil '.' (Text.trimChars (Text.Aliased.read reference.toList).base)
  have cut := congrArg (List.map String.ofList) (List.dropLast_append_getLast some).symm
  rw [List.map_append] at cut
  exact ⟨_, by simpa [Text.fields, Text.trim, lastField] using cut⟩

/-- A table reference ends in its last field, with the table prefix in front. -/
theorem lastSegment?_ofTable (tablePrefix reference : String) :
    lastSegment? (ofTable tablePrefix reference) = some (tablePrefix ++ lastField reference) := by
  obtain ⟨front, fields⟩ := exists_fields_eq_concat reference
  have shown : ∀ token ∈ ((front.map ofSegment).flatMap fun token => [token, .point]) ++
      [ofSegment (tablePrefix ++ lastField reference)], decide (token ≠ .label) := by
    refine List.forall_mem_append.mpr ⟨fun token member => ?_, ?_⟩
    · obtain ⟨segment, inside, here⟩ := List.mem_flatMap.mp member
      obtain ⟨s, -, rfl⟩ := List.mem_map.mp inside
      rcases List.mem_pair.mp here with rfl | rfl
      · exact decide_eq_true (ofSegment_ne_label s)
      · rfl
    · exact List.forall_mem_singleton.mpr (decide_eq_true (ofSegment_ne_label _))
  have segments : (prefixed tablePrefix 0 (front ++ [lastField reference])).map
        (fun s => [ofSegment s]) =
      (front.map ofSegment ++ [ofSegment (tablePrefix ++ lastField reference)]).map
        fun token => [token] := by
    simp [prefixed_concat]
  rw [lastSegment?, ofTable, ofReference, fields, segments, intercalate_concat,
    List.takeWhile_append_of_pos shown]
  -- every alias has the word `as` in front
  have stopped (labels : List (List Char)) :
      (labels.flatMap fun name => [label, ofSegment (tablePrefix ++ .ofList name)]).takeWhile
        (· ≠ .label) = [] := by
    cases labels <;> rfl
  rw [stopped, List.append_nil, List.getLast?_concat, Option.bind_some, said?_ofSegment]

end NameToken

/-! ### Bare names -/

theorem lastField_mem (reference : String) :
    (lastField reference).toList ∈
      Text.splitOn '.' (Text.trimChars (Text.Aliased.read reference.toList).base) := by
  rw [lastField, String.toList_ofList]
  exact List.getLast_mem _

theorem lastField_of_bare {name : String} (bare : BareName name) : lastField name = name := by
  have read : Text.trimChars (Text.Aliased.read name.toList).base = name.toList := by
    rw [Text.read_of_none bare.unlabelled, bare.trimmed]
  have alone := lastField_mem name
  rw [read, Text.splitOn_free bare.unqualified, List.mem_singleton] at alone
  exact String.toList_injective alone

theorem sublist_of_mem_splitOn {sep : Char} {s field : List Char}
    (member : field ∈ Text.splitOn sep s) : field.Sublist s := by
  induction s generalizing field with
  | nil =>
    rw [List.mem_singleton.mp member]
  | cons c rest ih =>
    by_cases here : c = sep
    · rw [Text.splitOn, if_pos here] at member
      rcases List.mem_cons.mp member with rfl | later
      · exact List.nil_sublist _
      · exact (ih later).cons c
    · obtain ⟨first, more, shape⟩ := List.exists_cons_of_ne_nil (Text.splitOn_ne_nil sep rest)
      rw [Text.splitOn, if_neg here, shape] at member
      rcases List.mem_cons.mp member with rfl | later
      · exact (ih (shape ▸ List.mem_cons_self)).cons_cons c
      · exact (ih (shape ▸ List.mem_cons_of_mem first later)).cons c

/-- A name that is its own last field loses nothing when it is read. -/
theorem bare_of_lastField {name : String} (same : lastField name = name) : BareName name := by
  have inside := lastField_mem name
  rw [same] at inside
  have base := Text.base_sublist name.toList
  have trimmed : (Text.trimChars (Text.Aliased.read name.toList).base).Sublist
      (Text.Aliased.read name.toList).base :=
    (Text.trimRight_front _).sublist.trans (Text.trimLeft_sublist _)
  -- reading takes a part of the name at each step, and the last part is the whole name
  have field := sublist_of_mem_splitOn inside
  have read : (Text.Aliased.read name.toList).base = name.toList :=
    base.antisymm (field.trans trimmed)
  rw [read] at trimmed inside field
  refine ⟨Text.not_mem_of_mem_splitOn _ _ inside, ?_, trimmed.antisymm field⟩
  cases found : Text.splitAlias? name.toList with
  | none => rfl
  | some parts =>
    have shorter := Text.length_lt_of_splitAlias? found
    rw [Text.read_of_some found] at read
    have inner := (Text.base_sublist parts.1).length_le
    rw [read] at inner
    omega

theorem lastField_eq_iff (name : String) : lastField name = name ↔ BareName name :=
  ⟨bare_of_lastField, lastField_of_bare⟩

/-! ### Statements -/

theorem emptiedTable?_delete (g : Grammar) (reference : String) :
    emptiedTable? g.dialect (render g.dialect (.text "delete from " :: g.table reference)) =
      some (g.tablePrefix ++ lastField reference) := by
  have text : (render g.dialect (.text "delete from " :: g.table reference)).toList =
      "delete from ".toList ++ (render g.dialect (g.table reference)).toList :=
    String.toList_append
  have dropped : (render g.dialect (.text "delete from " :: g.table reference)).toList.dropPrefix?
      "delete from ".toList = some (render g.dialect (g.table reference)).toList :=
    List.dropPrefix?_eq_some_iff.mpr ⟨_, text, BEq.rfl⟩
  have lexed : NameToken.lex g.dialect (render g.dialect (g.table reference)).toList =
      some (NameToken.ofTable g.tablePrefix reference) := by
    rw [g.table_eq]
    exact (readsAs_pieces g.dialect (NameToken.ofReference_isChain _ _ _ reference)).lexed
  rw [emptiedTable?, dropped, Option.bind_some, lexed, Option.bind_some,
    NameToken.lastSegment?_ofTable]

/-- On SQLite the counter is taken back under the name of the query, with the table prefix. -/
theorem truncateStatements_sqlite (b : Builder) (sqlite : b.grammar.dialect = .sqlite)
    {text name : String} (called : (Source.ofTable text).tableName? = some name) :
    let stored := Value.text (b.grammar.tablePrefix ++ name)
    (b.table text).truncateStatements =
      [⟨.text "delete from " :: b.grammar.table name, []⟩,
       ⟨[.text "delete from sqlite_sequence where name = ", .place stored], [stored]⟩] := by
  have asked : (b.table text).query.tableName? = some name := called
  have kept : (b.table text).grammar = b.grammar := rfl
  rw [Builder.truncateStatements, Grammar.truncate, kept, sqlite, Grammar.writeTable, asked]
  rfl

/-- The counter of an emptied table is taken back exactly if the table is called by a bare name.
Then the reset is bound to the name under which the table that the DELETE empties is stored. It is
bound to another one if the name is qualified by a schema, if a further alias is left in it, or if
it is blank. -/
theorem counter_reset_iff (b : Builder) (sqlite : b.grammar.dialect = .sqlite) (text : String) :
    ∃ name emptied, ∃ delete reset : Statement,
      (Source.ofTable text).tableName? = some name ∧
      (b.table text).truncateStatements = [delete, reset] ∧
      emptiedTable? .sqlite (delete.sql .sqlite) = some emptied ∧ delete.values = [] ∧
      reset.sql .sqlite = "delete from sqlite_sequence where name = ?" ∧
      (reset.values = [.text emptied] ↔ BareName name) := by
  obtain ⟨name, label, source⟩ := Source.ofTable_table text
  have called : (Source.ofTable text).tableName? = some name := by
    rw [source]
    rfl
  have emptied := emptiedTable?_delete b.grammar name
  rw [sqlite] at emptied
  refine ⟨name, b.grammar.tablePrefix ++ lastField name, _, _, called,
    truncateStatements_sqlite b sqlite called, emptied, rfl, rfl, ?_⟩
  rw [← lastField_eq_iff]
  simp [eq_comm]

/-- The counter of a table with an alias and a prefix is taken back. -/
theorem counter_reset_users :
    let b : Builder := { grammar := ⟨.sqlite, "p_"⟩ }
    ∃ emptied, ∃ delete reset : Statement,
      (b.table "users as u").truncateStatements = [delete, reset] ∧
      emptiedTable? .sqlite (delete.sql .sqlite) = some emptied ∧
      reset.values = [.text emptied] := by
  intro b
  obtain ⟨name, emptied, delete, reset, called, statements, read, -, -, bound⟩ :=
    counter_reset_iff b rfl "users as u"
  have users : (Source.ofTable "users as u").tableName? = some "users" := by decide +kernel
  obtain rfl : "users" = name := Option.some.inj (users.symm.trans called)
  have bare : BareName "users" := ⟨by decide, by decide +kernel, by decide +kernel⟩
  exact ⟨emptied, delete, reset, statements, read, bound.mpr bare⟩

/-- A qualified table is emptied, and the counter of a table that is not there is taken back. -/
theorem counter_not_reset :
    let b : Builder := { grammar := ⟨.sqlite, "p_"⟩ }
    ((b.table "main.users").truncateStatements.map fun s => (s.sql .sqlite, s.values)) =
        [("delete from \x60main\x60.\x60p_users\x60", []),
         ("delete from sqlite_sequence where name = ?", [.text "p_main.users"])] ∧
      emptiedTable? .sqlite "delete from \x60main\x60.\x60p_users\x60" = some "p_users" := by
  intro b
  have called : (Source.ofTable "main.users").tableName? = some "main.users" := by decide +kernel
  have emptied : render .sqlite (.text "delete from " :: b.grammar.table "main.users") =
      "delete from \x60main\x60.\x60p_users\x60" := by decide +kernel
  rw [truncateStatements_sqlite b rfl called, List.map_cons, Statement.sql, emptied]
  exact ⟨rfl, by decide +kernel⟩

end Sqlwright
