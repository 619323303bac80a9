import Sqlwright.Proofs.AlterRun
import Sqlwright.Proofs.LogPrepending

/-!
Altering in one batch and in two. Commands are written against the blueprint as it is in the end,
and two kinds of them look at more of it than its name: a rename looks for its new name, and on
Postgres an index looks at the types of its columns. Where later calls leave alone what earlier
commands look at, it does not matter whether the log is carried out in between.
-/

namespace Sqlwright

/-! ### What commands look at -/

/-- What Postgres makes of an index. -/
inductive IndexPlan where
  /-- There is no order on JSON. -/
  | skipped
  | plain
  /-- An index on one vector column, by a method and an operator class. -/
  | vector (column : String) (method : String × String)

/-- What Postgres makes of an index on the columns of a blueprint. -/
def Table.indexPlan (t : Table) (index : Index) : IndexPlan :=
  let columns := index.columns.filterMap t.column?
  if columns.any fun c => c.type.isJson then .skipped
  else
    match columns.find? fun c => c.type.isVector with
    | some column => .vector column.name (Grammar.vectorMethod column.type)
    | none => .plain

/-- What a change looks at in the columns is the same in two blueprints. -/
def Change.Settled (g : Grammar) (before after : Table) : Change → Prop
  | .renameColumn _ target => before.hasColumns [target] = after.hasColumns [target]
  | .createIndex index =>
    g.dialect = .postgres → index.kind ≠ .primary →
      before.indexPlan index = after.indexPlan index
  | _ => True

namespace Grammar

variable {g : Grammar} {before after : Table}

/-- The statement that a plan stands for. -/
def plannedIndex (g : Grammar) (table : String) (index : Index) : IndexPlan → Option (List Piece)
  | .skipped => none
  | .plain => some (g.plainIndex { name := table } index)
  | .vector column (method, operators) =>
    let options : List Piece :=
      if method = "vectors" then [.text " WITH (options=", .literal vectorOptions, .text ")"]
      else []
    some (.text "CREATE INDEX " :: segment (g.indexName table index.name) :: .text " ON " ::
      g.table table ++
      [.text (" USING " ++ method ++ " ("), segment column, .text (" " ++ operators ++ ")")] ++
      options)

theorem createIndex?_eq (t : Table) {index : Index} (dialect : g.dialect = .postgres)
    (apart : index.kind ≠ .primary) :
    g.createIndex? t index = g.plannedIndex t.name index (t.indexPlan index) := by
  simp only [createIndex?, apart, if_false, dialect, Table.indexPlan]
  split
  · rfl
  · cases (index.columns.filterMap t.column?).find? fun c => c.type.isVector <;> rfl

theorem plannedIndex_plain_ne {table : String} {index : Index} {column : String}
    {method : String × String} :
    g.plannedIndex table index .plain ≠ g.plannedIndex table index (.vector column method) := by
  intro same
  -- the pieces part behind the table: a blank there, the method here
  have parts : " " = " USING " ++ method.1 ++ " (" := by
    simp [plannedIndex, plainIndex] at same
    exact same.2.1
  simpa using congrArg String.toList parts

theorem plannedIndex_injective {table : String} {index : Index} {first second : IndexPlan}
    (same : g.plannedIndex table index first = g.plannedIndex table index second) :
    first = second := by
  cases first with
  | skipped => cases second <;> first | rfl | cases same
  | plain =>
    cases second with
    | skipped => cases same
    | plain => rfl
    | vector column method => exact absurd same plannedIndex_plain_ne
  | vector column method =>
    cases second with
    | skipped => cases same
    | plain => exact absurd same.symm plannedIndex_plain_ne
    | vector other otherMethod =>
      simp [plannedIndex] at same
      rw [segment_injective same.2.1, Prod.ext same.1 same.2.2.1]

theorem createIndex?_eq_iff (name : before.name = after.name) (index : Index) :
    g.createIndex? before index = g.createIndex? after index ↔
      (Change.createIndex index).Settled g before after := by
  by_cases primary : index.kind = .primary
  · simp [createIndex?, primary, Change.Settled]
  by_cases dialect : g.dialect = .postgres
  · rw [createIndex?_eq before dialect primary, createIndex?_eq after dialect primary, name]
    constructor
    · exact fun same _ _ => plannedIndex_injective same
    · exact fun settled => by rw [settled dialect primary]
  · have plain (t : Table) : g.createIndex? t index = some (g.plainIndex t index) := by
      unfold createIndex?
      rw [if_neg primary]
      cases held : g.dialect <;> first | rfl | exact absurd held dialect
    simp [plain, plainIndex, name, Change.Settled, dialect]

theorem alterRenameColumn_eq_iff (name : before.name = after.name) (source target : String) :
    g.alterRenameColumn before source target = g.alterRenameColumn after source target ↔
      (Change.renameColumn source target).Settled g before after := by
  simp only [alterRenameColumn, altering, alterTable, name, Change.Settled]
  cases before.hasColumns [target] <;> cases after.hasColumns [target] <;>
    cases g.dialect <;> simp

/-- A command is written alike against two blueprints of one name exactly if what it looks at in
their columns is the same. -/
theorem alterStatements_eq_iff (name : before.name = after.name) (change : Change) :
    g.alterStatements before change = g.alterStatements after change ↔
      change.Settled g before after := by
  cases change with
  | createIndex index =>
    rw [← createIndex?_eq_iff name index]
    simp only [alterStatements, Except.ok.injEq]
    cases g.createIndex? before index <;> cases g.createIndex? after index <;> simp
  | renameColumn source target => exact alterRenameColumn_eq_iff name source target
  | addColumn column =>
    simp [alterStatements, alterAddColumn, altering, alterTable, name, Change.Settled]
  | modifyColumn column =>
    simp [alterStatements, alterModifyColumn, postgresModifyColumn, altering, alterTable, name,
      Change.Settled]
  | dropColumn target =>
    simp [alterStatements, alterDropColumn, altering, alterTable, name, Change.Settled]
  | dropIndex target => simp [alterStatements, alterDropIndex, name, Change.Settled]
  | renameIndex source target =>
    simp [alterStatements, alterRenameIndex, altering, alterTable, name, Change.Settled]
  | createPrimary key =>
    simp [alterStatements, alterCreatePrimary, altering, alterTable, name, Change.Settled]
  | dropPrimary constraint =>
    simp [alterStatements, alterDropPrimary, altering, alterTable, name, Change.Settled]

end Grammar

/-! ### Servers that accept everything -/

/-- A server that carries out every statement. -/
def Connection.Accepts (c : Connection) : Prop :=
  ∀ (past : List Request) (sql : String) (values : List Value),
    ∃ count, c.execute past sql values = .ok count

namespace Grammar

variable {g : Grammar} {c : Connection} {t : Table}

/-- What the commands of a blueprint are written as: the statements of each, or why there are
none. -/
def written (g : Grammar) (t : Table) : List (Except Fault (List (List Piece))) :=
  t.commands.map fun command => g.alterStatements t.withoutCommands command.change

/-- The outcomes of the commands of a blueprint where everything that is sent is accepted. -/
def outcomes (g : Grammar) (t : Table) : List (Except Fault Unit) :=
  (g.written t).map fun command => command.map fun _ => ()

/-- The requests that send what a command is written as. -/
def requests (g : Grammar) : Except Fault (List (List Piece)) → List Request
  | .ok statements => statements.map g.request
  | .error _ => []

theorem Sent.of_accepts (accepts : c.Accepts) {past later : List Request}
    {statements : List (List Piece)} {outcome : Except Fault Unit}
    (sent : Sent g c past statements later outcome) :
    later = past ++ statements.map g.request ∧ outcome = .ok () := by
  induction sent with
  | done past => simp
  | accepted answer sent ih => simpa using ih
  | @refused past statement rest fault answer =>
    obtain ⟨count, accepted⟩ := accepts past (render g.dialect statement) []
    rw [answer] at accepted
    cases accepted

theorem Carried.of_accepts (accepts : c.Accepts) {past later : List Request} {change : Change}
    {outcome : Except Fault Unit} (carried : Carried g c t past change later outcome) :
    later = past ++ g.requests (g.alterStatements t change) ∧
      outcome = (g.alterStatements t change).map fun _ => () := by
  cases carried with
  | unwritten refused => simp [refused, requests, Except.map]
  | written ready sent =>
    obtain ⟨rfl, rfl⟩ := sent.of_accepts accepts
    simp [ready, requests, Except.map]

theorem Replayed.of_accepts (accepts : c.Accepts) {past later : List Request} {log : List Command}
    {outcomes : List (Except Fault Unit)} (replayed : Replayed g c t past log later outcomes) :
    later = past ++ log.flatMap (fun command => g.requests (g.alterStatements t command.change)) ∧
      outcomes = log.map fun command => (g.alterStatements t command.change).map fun _ => () := by
  induction replayed with
  | done past => simp
  | next carried replayed ih =>
    obtain ⟨rfl, rfl⟩ := carried.of_accepts accepts
    obtain ⟨rfl, rfl⟩ := ih
    simp

/-- Where everything is accepted, an alteration is what its commands are written as. -/
theorem run_alter_of_accepts (accepts : c.Accepts) (g : Grammar) (t : Table)
    (past : List Request) :
    (g.alter c t).run past =
      (applied t (g.outcomes t), past ++ (g.written t).flatMap g.requests) := by
  obtain ⟨later, outcomes, replayed, run⟩ := run_alter g c t past
  obtain ⟨rfl, rfl⟩ := replayed.of_accepts accepts
  rw [run]
  simp [written, outcomes, List.flatMap_map, Function.comp_def]

/-! ### One batch and two -/

theorem written_prepend (g : Grammar) (log : List Command) (t : Table) :
    g.written (t.prepend log) =
      (log.map fun command => g.alterStatements t.withoutCommands command.change) ++
        g.written t := by
  have same : (t.prepend log).withoutCommands = t.withoutCommands := rfl
  rw [written, same, Table.prepend, List.map_append, written]

theorem failed_append {log more : List Command} {outcomes others : List (Except Fault Unit)}
    (length : log.length = outcomes.length) :
    failed (log ++ more) (outcomes ++ others) = failed log outcomes ++ failed more others := by
  rw [failed, List.zip_append length, List.filterMap_append, failed, failed]

theorem heard_append {log more : List Command} {outcomes others : List (Except Fault Unit)}
    (length : log.length = outcomes.length) :
    heard (log ++ more) (outcomes ++ others) = heard log outcomes ++ heard more others := by
  rw [heard, List.zip_append length, List.filterMap_append, heard, heard]

/-- Records calls and alters, then records further calls on what is left and alters again. -/
def alterTwice (g : Grammar) (c : Connection) (t : Table) (first second : List TableCall) :
    StateM (List Request) (Applied × Applied) := do
  let once ← g.alter c (TableCall.runAll first t)
  let twice ← g.alter c (TableCall.runAll second once.table)
  return (once, twice)

theorem run_alterTwice (first second : List TableCall) (past : List Request) :
    (g.alterTwice c t first second).run past =
      let (once, middle) := (g.alter c (TableCall.runAll first t)).run past
      let (twice, later) := (g.alter c (TableCall.runAll second once.table)).run middle
      ((once, twice), later) := rfl

end Grammar

/-- The failures that an alteration reports. -/
def Applied.failures (a : Applied) : List (String × Fault) :=
  match a.outcome with
  | .error (.composite failures) => failures
  | _ => []

theorem Grammar.failures_applied (t : Table) (outcomes : List (Except Fault Unit)) :
    (applied t outcomes).failures = failed t.commands outcomes := by
  by_cases none : failed t.commands outcomes = [] <;> simp [applied, Applied.failures, none]

/-- An alteration in one batch sends the requests, reports the failures and leaves the blueprint of
two alterations. -/
structure SameEffect (whole : Applied × List Request)
    (parts : (Applied × Applied) × List Request) : Prop where
  requests : whole.2 = parts.2
  failures : whole.1.failures = parts.1.1.failures ++ parts.1.2.failures
  reports : whole.1.reports = parts.1.1.reports ++ parts.1.2.reports
  table : whole.1.table = parts.1.2.table

section Batches

variable (g : Grammar) (before : Table) {calls : List TableCall}

/-- Calls on top of a log leave the commands in it written as they are exactly if they leave alone
what those commands look at. -/
theorem written_runAll_iff (structural : ∀ call ∈ calls, call.IsStructural) :
    g.written (TableCall.runAll calls before) =
        g.written before ++ g.written (TableCall.runAll calls before.withoutCommands) ↔
      ∀ command ∈ before.commands,
        command.change.Settled g before (TableCall.runAll calls before) := by
  have whole := TableCall.runAll_eq_prepend structural before
  have name : before.withoutCommands.name =
      (TableCall.runAll calls before.withoutCommands).withoutCommands.name :=
    ((TableCall.runAll_records structural).name before.withoutCommands).symm
  rw [whole, Grammar.written_prepend, List.append_left_inj, Grammar.written, List.map_inj_left]
  refine forall₂_congr fun command _ => ?_
  rw [eq_comm, Grammar.alterStatements_eq_iff name]
  rfl

/-- Where commands are written as in two batches, a server that accepts everything sees no
difference. -/
theorem sameEffect_of_written {c : Connection} (accepts : c.Accepts) {t : Table}
    {first : List TableCall} (held : TableCall.runAll first t = before)
    (structural : ∀ call ∈ calls, call.IsStructural)
    (same : g.written (TableCall.runAll calls before) =
      g.written before ++ g.written (TableCall.runAll calls before.withoutCommands))
    (past : List Request) :
    SameEffect ((g.alter c (TableCall.runAll calls before)).run past)
      ((g.alterTwice c t first calls).run past) := by
  have whole := TableCall.runAll_eq_prepend structural before
  generalize TableCall.runAll calls before = after at whole same ⊢
  generalize rest_eq : TableCall.runAll calls before.withoutCommands = rest at whole same
  have log : after.commands = before.commands ++ rest.commands := by
    rw [whole]
    rfl
  have outcomes : g.outcomes after = g.outcomes before ++ g.outcomes rest := by
    rw [Grammar.outcomes, same, List.map_append, Grammar.outcomes, Grammar.outcomes]
  have length : before.commands.length = (g.outcomes before).length := by
    simp [Grammar.outcomes, Grammar.written]
  have once := Grammar.run_alter_of_accepts accepts g before past
  have twice := Grammar.run_alter_of_accepts accepts g rest
    (past ++ (g.written before).flatMap g.requests)
  have parts : (g.alterTwice c t first calls).run past =
      ((Grammar.applied before (g.outcomes before), Grammar.applied rest (g.outcomes rest)),
        past ++ (g.written before).flatMap g.requests ++ (g.written rest).flatMap g.requests) := by
    rw [Grammar.run_alterTwice, held, once]
    simp only [Grammar.applied, rest_eq, twice]
  rw [parts, Grammar.run_alter_of_accepts accepts g after past, same, outcomes]
  constructor
  case requests => simp
  case failures =>
    simp only [Grammar.failures_applied, log]
    exact Grammar.failed_append length
  case reports =>
    simp only [Grammar.applied, log]
    exact Grammar.heard_append length
  case table =>
    rw [whole]
    rfl

end Batches

/-- In one batch every command is written as in two exactly if later calls leave alone what the
commands of the first batch look at, and then a server that accepts everything sees no
difference between one alteration and two. -/
theorem batching_invisible_iff {c : Connection} (accepts : c.Accepts) (g : Grammar) (t : Table)
    (first : List TableCall) {second : List TableCall}
    (structural : ∀ call ∈ second, call.IsStructural) (past : List Request) :
    let before := TableCall.runAll first t
    let after := TableCall.runAll (first ++ second) t
    let settled := ∀ command ∈ before.commands, command.change.Settled g before after
    (g.written after =
        g.written before ++ g.written (TableCall.runAll second before.withoutCommands) ↔ settled) ∧
      (settled → SameEffect ((g.alter c after).run past)
        ((g.alterTwice c t first second).run past)) := by
  rw [TableCall.runAll_append]
  intro before after settled
  have written : g.written after =
      g.written before ++ g.written (TableCall.runAll second before.withoutCommands) ↔ settled :=
    written_runAll_iff g before structural
  refine ⟨written, fun held => ?_⟩
  exact sameEffect_of_written g before accepts rfl structural (written.mpr held) past

/-- A server that touches one row in every statement. -/
def acceptingServer : Connection where
  dialect := .mysql
  query _ _ _ := .ok []
  execute _ _ _ := .ok 1
  insert _ _ _ := .ok 1

theorem acceptingServer_accepts : acceptingServer.Accepts := fun _ _ _ => ⟨1, rfl⟩

/-- A table with one column. -/
def singleColumn : Table := { name := "users", columns := [{ name := "a", type := .text }] }

theorem batching_invisible_renamed :
    SameEffect
      ((Grammar.alter ⟨.mysql, ""⟩ acceptingServer
        (TableCall.runAll [.renameColumn "a" "b", .dropPrimary] singleColumn)).run [])
      ((Grammar.alterTwice ⟨.mysql, ""⟩ acceptingServer singleColumn [.renameColumn "a" "b"]
        [.dropPrimary]).run []) := by
  have structural : ∀ call ∈ [TableCall.dropPrimary], call.IsStructural :=
    List.forall_mem_singleton.mpr trivial
  refine (batching_invisible_iff acceptingServer_accepts ⟨.mysql, ""⟩ singleColumn
    [.renameColumn "a" "b"] structural []).2 ?_
  exact List.forall_mem_singleton.mpr rfl

/-- A column that is renamed twice in one batch counts as missing under its first new name. -/
theorem batching_seen_renamed_twice :
    ¬ SameEffect
      ((Grammar.alter ⟨.mysql, ""⟩ acceptingServer
        (TableCall.runAll ([.renameColumn "a" "b"] ++ [.renameColumn "b" "c"])
          singleColumn)).run [])
      ((Grammar.alterTwice ⟨.mysql, ""⟩ acceptingServer singleColumn [.renameColumn "a" "b"]
        [.renameColumn "b" "c"]).run []) := by
  intro same
  have failures := same.failures
  cases failures

end Sqlwright
