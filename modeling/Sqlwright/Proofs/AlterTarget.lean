import Sqlwright.Proofs.AlterBatch
import Sqlwright.Proofs.LogOwnership
import Sqlwright.Schema

/-!
Which table an alteration changes. The blueprint that is found for a name is called by the part of
it behind the last point, and every statement of the log names the table by the blueprint. So a
table in the schema that is looked in is altered under the name that was asked for, and a table in
a schema of its own is not: its statements go to a table of that name in the current schema.
-/

namespace Sqlwright

/-! ### Asking -/

/-- A session that does nothing but ask, with what holds of its result. -/
def Session.Asks {α : Type} (session : Session α) (post : α → Prop) : Prop :=
  ∀ past, ∃ result asked, (ExceptT.run session).run past = (result, past ++ asked) ∧
    (∀ request ∈ asked, request.verb = .query) ∧ ∀ a, result = .ok a → post a

namespace Session.Asks

variable {α β : Type}

theorem pure {post : α → Prop} {a : α} (holds : post a) :
    Session.Asks (Pure.pure a : Session α) post := by
  intro past
  refine ⟨.ok a, [], by simp; rfl, List.forall_mem_nil _, ?_⟩
  rintro _ ⟨⟩
  exact holds

theorem throw {post : α → Prop} (fault : Fault) :
    Session.Asks (throw fault : Session α) post := by
  intro past
  refine ⟨.error fault, [], by simp; rfl, List.forall_mem_nil _, ?_⟩
  rintro _ ⟨⟩

theorem bind {first : Session α} {next : α → Session β} {middle : α → Prop} {post : β → Prop}
    (asks : first.Asks middle) (later : ∀ a, middle a → (next a).Asks post) :
    Session.Asks (first >>= next) post := by
  intro past
  obtain ⟨result, asked, run, queries, holds⟩ := asks past
  cases result with
  | error fault =>
    refine ⟨.error fault, asked, ?_, queries, ?_⟩
    · rw [ExceptT.run_bind, StateT.run_bind, run]
      rfl
    · rintro _ ⟨⟩
  | ok a =>
    obtain ⟨result, more, run', queries', holds'⟩ := later a (holds a rfl) (past ++ asked)
    refine ⟨result, asked ++ more, ?_, List.forall_mem_append.mpr ⟨queries, queries'⟩, holds'⟩
    rw [ExceptT.run_bind, StateT.run_bind, run, ← List.append_assoc]
    exact run'

theorem mapM {step : α → Session β} (each : ∀ a, (step a).Asks fun _ => True) (items : List α) :
    Session.Asks (items.mapM step) fun _ => True := by
  induction items with
  | nil => exact pure trivial
  | cons item rest ih =>
    rw [List.mapM_cons]
    exact (each item).bind fun _ _ => ih.bind fun _ _ => pure trivial

end Session.Asks

namespace Schema

variable (s : Schema) (name : String)

theorem query_asks (statement : Statement) : (s.query statement).Asks fun _ => True := by
  intro past
  have run := Connection.run_send .query s.connection.query (statement.sql s.grammar.dialect)
    statement.values past
  exact ⟨_, _, run, List.forall_mem_singleton.mpr rfl, fun _ _ => trivial⟩

theorem hasTable_asks : (s.hasTable name).Asks fun _ => True :=
  (s.query_asks _).bind fun _ _ => .pure trivial

theorem withLabels_asks (schema : String) (c : Column) :
    (s.withLabels schema c).Asks fun _ => True := by
  simp only [withLabels]
  split
  · exact (s.query_asks _).bind fun _ _ => .pure trivial
  · exact .pure trivial

theorem columns_asks : (s.columns name).Asks fun _ => True :=
  (s.query_asks _).bind fun _ _ => .mapM (s.withLabels_asks _) _

theorem indexes_asks : (s.indexes name).Asks fun _ => True :=
  (s.query_asks _).bind fun _ _ => .pure trivial

/-- Finding a table only asks, and the blueprint it gives is called by the last part of the name. -/
theorem table_asks :
    (s.table name).Asks fun found => found.name = unqualified name ∧ found.Owned := by
  refine (s.hasTable_asks name).bind fun there _ => ?_
  cases there with
  | false => exact .throw _
  | true =>
    refine (s.columns_asks name).bind fun columns _ => ?_
    refine (s.indexes_asks name).bind fun indexes _ => ?_
    cases built : Table.ofCatalog (unqualified name)
        (some (s.grammar.splitName s.name name).1) columns indexes with
    | error fault => exact .throw fault
    | ok found =>
      have listed := Table.Extended.ofCatalog built
      have fresh (schema : Option String) :
          Table.Owned { name := unqualified name, schema } := List.forall_mem_nil _
      exact .pure ⟨listed.name, (fresh _).extended listed⟩

end Schema

/-! ### Sending -/

namespace Grammar

variable {g : Grammar} {c : Connection} {t : Table}

/-- The statements that a command is written as, none where it cannot be written. -/
def statementsOf (g : Grammar) (t : Table) (command : Command) : List (List Piece) :=
  (g.alterStatements t command.change).toOption.getD []

theorem Sent.exists_sent {past later : List Request} {statements : List (List Piece)}
    {outcome : Except Fault Unit} (run : Sent g c past statements later outcome) :
    ∃ sent, later = past ++ sent.map g.request ∧ sent ⊆ statements := by
  induction run with
  | done past => exact ⟨[], (List.append_nil past).symm, List.Subset.refl _⟩
  | @accepted past later statement rest outcome count answer run ih =>
    obtain ⟨sent, rfl, inside⟩ := ih
    exact ⟨statement :: sent, by simp, List.cons_subset_cons statement inside⟩
  | @refused past statement rest fault answer =>
    exact ⟨[statement], rfl, List.cons_subset_cons statement (List.nil_subset rest)⟩

theorem Carried.exists_sent {past later : List Request} {command : Command}
    {outcome : Except Fault Unit} (carried : Carried g c t past command.change later outcome) :
    ∃ sent, later = past ++ sent.map g.request ∧ sent ⊆ g.statementsOf t command := by
  cases carried with
  | unwritten refused => exact ⟨[], (List.append_nil past).symm, List.nil_subset _⟩
  | written ready sent =>
    obtain ⟨sent, rest, inside⟩ := sent.exists_sent
    refine ⟨sent, rest, ?_⟩
    rwa [statementsOf, ready]

/-- Whatever a log sends is a statement of one of its commands. -/
theorem Replayed.exists_sent {past later : List Request} {log : List Command}
    {outcomes : List (Except Fault Unit)} (replayed : Replayed g c t past log later outcomes) :
    ∃ sent, later = past ++ sent.map g.request ∧ sent ⊆ log.flatMap (g.statementsOf t) := by
  induction replayed with
  | done past => exact ⟨[], (List.append_nil past).symm, List.nil_subset _⟩
  | next carried replayed ih =>
    obtain ⟨first, rfl, inside⟩ := carried.exists_sent
    obtain ⟨others, rfl, later⟩ := ih
    refine ⟨first ++ others, by simp, ?_⟩
    rw [List.flatMap_cons]
    exact List.append_subset.mpr
      ⟨List.Subset.trans inside (List.subset_append_left _ _),
        List.Subset.trans later (List.subset_append_right _ _)⟩

theorem statementsOf_addresses (g : Grammar) (owned : t.Owned) {command : Command}
    (logged : command ∈ t.commands) {statement : List Piece}
    (written : statement ∈ g.statementsOf t.withoutCommands command) :
    Addresses (g.table t.name) statement := by
  unfold statementsOf at written
  cases ready : g.alterStatements t.withoutCommands command.change with
  | error fault =>
    rw [ready] at written
    cases written
  | ok statements =>
    rw [ready] at written
    exact g.alterStatements_addresses (t := t.withoutCommands) (owned command logged) ready written

end Grammar

/-- What an alteration asks and sends. -/
structure Schema.Alters (s : Schema) (name : String) (calls : Table → List TableCall)
    (past asked : List Request) (sent : List (List Piece)) : Prop where
  /-- What is asked to find the table. -/
  found : ∃ result, (ExceptT.run (s.table name)).run past = (result, past ++ asked) ∧
    ∀ statement ∈ sent, ∃ t, result = .ok t ∧
      ∃ command ∈ (TableCall.runAll (calls t) t).commands,
        statement ∈ s.grammar.statementsOf (TableCall.runAll (calls t) t).withoutCommands command
  queries : ∀ request ∈ asked, request.verb = .query
  /-- All that is sent behind what is asked. -/
  requests : ((ExceptT.run (s.alterTable name calls)).run past).2 =
    past ++ asked ++ sent.map s.grammar.request

theorem Schema.alters_of_fault {s : Schema} {name : String} {past asked : List Request}
    {fault : Fault} (run : (ExceptT.run (s.table name)).run past = (.error fault, past ++ asked))
    (queries : ∀ request ∈ asked, request.verb = .query) (calls : Table → List TableCall) :
    s.Alters name calls past asked [] := by
  refine ⟨⟨.error fault, run, List.forall_mem_nil _⟩, queries, ?_⟩
  rw [alterTable, ExceptT.run_bind, StateT.run_bind, run, List.map_nil, List.append_nil]
  rfl

/-- A table that is found is altered by statements of the log that the calls lead to. -/
theorem Schema.alters_found {s : Schema} {name : String} {past asked : List Request} {found : Table}
    (run : (ExceptT.run (s.table name)).run past = (.ok found, past ++ asked))
    (queries : ∀ request ∈ asked, request.verb = .query) (calls : Table → List TableCall) :
    ∃ sent, s.Alters name calls past asked sent := by
  have whole : ((ExceptT.run (s.alterTable name calls)).run past).2 =
      ((s.grammar.alter s.connection (TableCall.runAll (calls found) found)).run
        (past ++ asked)).2 := by
    rw [alterTable, ExceptT.run_bind, StateT.run_bind, run]
    rfl
  obtain ⟨later, outcomes, replayed, altered⟩ :=
    Grammar.run_alter s.grammar s.connection (TableCall.runAll (calls found) found) (past ++ asked)
  obtain ⟨sent, rfl, inside⟩ := replayed.exists_sent
  refine ⟨sent, ⟨.ok found, run, fun statement member => ⟨found, rfl, ?_⟩⟩, queries, ?_⟩
  · exact List.mem_flatMap.mp (inside member)
  · rw [whole, altered]

/-- Statements that address a table by the last part of a name address it by the whole name exactly
if the name has no other part, or if they address no table at all. -/
theorem addresses_iff (g : Grammar) {name : String} {sent : List (List Piece)}
    (each : ∀ statement ∈ sent, Addresses (g.table (unqualified name)) statement) :
    (∀ statement ∈ sent, Addresses (g.table name) statement) ↔
      '.' ∉ name.toList ∨ ∀ statement ∈ sent, addressed? statement = none := by
  constructor
  · intro asNamed
    by_cases free : '.' ∉ name.toList
    · exact .inl free
    · refine .inr fun statement member => ?_
      by_contra there
      obtain ⟨ref, there⟩ := Option.ne_none_iff_exists'.mp there
      have short := each statement member ref there
      have long := asNamed statement member ref there
      exact free ((table_unqualified_iff g name).mp (short.symm.trans long))
  · rintro (free | nowhere) statement member
    · rw [← (table_unqualified_iff g name).mpr free]
      exact each statement member
    · exact addresses_of_none (nowhere statement member)

/-- All that an alteration sends behind its questions names the table by the last part of the name
that was asked for. So it is the table that was asked for exactly where the name has no other part
or where no statement names a table. -/
theorem alter_addresses_unqualified (s : Schema) (name : String)
    (calls : Table → List TableCall) (past : List Request) :
    ∃ asked sent, s.Alters name calls past asked sent ∧
      (∀ statement ∈ sent, Addresses (s.grammar.table (unqualified name)) statement) ∧
      ((∀ statement ∈ sent, Addresses (s.grammar.table name) statement) ↔
        '.' ∉ name.toList ∨ ∀ statement ∈ sent, addressed? statement = none) := by
  obtain ⟨result, asked, run, queries, holds⟩ := s.table_asks name past
  cases result with
  | error fault =>
    have nothing : ∀ statement ∈ ([] : List (List Piece)),
        Addresses (s.grammar.table (unqualified name)) statement := List.forall_mem_nil _
    exact ⟨asked, [], Schema.alters_of_fault run queries calls, nothing, addresses_iff _ nothing⟩
  | ok found =>
    obtain ⟨called, owned⟩ := holds found rfl
    obtain ⟨sent, alters⟩ := Schema.alters_found run queries calls
    have each : ∀ statement ∈ sent,
        Addresses (s.grammar.table (unqualified name)) statement := by
      intro statement member
      obtain ⟨result, again, written⟩ := alters.found
      obtain ⟨t, rfl, command, logged, inside⟩ := written statement member
      rw [run] at again
      cases again
      rw [← called, ← Table.runAll_name (calls found) found]
      exact s.grammar.statementsOf_addresses (owned.runAll (calls found)) logged inside
    exact ⟨asked, sent, alters, each, addresses_iff _ each⟩

/-- A server that lists one table without columns and carries out every statement. -/
def listingServer : Connection where
  dialect := .mysql
  query past _ _ := .ok (if past.isEmpty then [⟨["name"], [.text "users"]⟩] else [])
  execute _ _ _ := .ok 1
  insert _ _ _ := .ok 1

def blogSchema : Schema := ⟨⟨.mysql, ""⟩, listingServer, "blog"⟩

/-- The table of another schema is found, and then a table of the current schema is altered. -/
theorem alter_loses_schema :
    ∃ asked,
      ((ExceptT.run (blogSchema.alterTable "app.users" fun _ => [.dropColumns ["a"]])).run []).2 =
        asked ++ [⟨.execute, "ALTER TABLE `users` DROP COLUMN `a`", []⟩] ∧
      render .mysql (blogSchema.grammar.table "app.users") = "`app`.`users`" := by
  have text : render .mysql (blogSchema.grammar.alterDropColumn { name := "users" } "a") =
      "ALTER TABLE `users` DROP COLUMN `a`" := by decide +kernel
  obtain ⟨asked, found⟩ : ∃ asked, (ExceptT.run (blogSchema.table "app.users")).run [] =
      (.ok { name := "users", schema := some "app" }, asked) := ⟨_, rfl⟩
  refine ⟨asked, ?_, by decide +kernel⟩
  rw [Schema.alterTable, ExceptT.run_bind, StateT.run_bind, found, ← text]
  rfl

end Sqlwright
