import Sqlwright.Ddl.Alter

/-!
Runs of an alteration. `Sent` says which statements of a command reach the server and `Replayed`
carries a record of requests through a log, command after command. The server may answer as it
likes, each time depending on all that was sent before, so every run is one of these.
-/

namespace Sqlwright

/-- A request is recorded whatever the server answers. -/
theorem Connection.run_send {α : Type} (verb : Verb)
    (answer : List Request → String → List Value → Except Fault α) (sql : String)
    (values : List Value) (past : List Request) :
    (ExceptT.run (send verb answer sql values)).run past =
      (answer past sql values, past ++ [⟨verb, sql, values⟩]) := by
  have asked (rest : List Request → Session α) :
      (ExceptT.run (get >>= rest : Session α)).run past =
        (ExceptT.run (rest past)).run past := rfl
  have recorded (later : List Request) (rest : PUnit → Session α) :
      (ExceptT.run (set later >>= rest : Session α)).run past =
        (ExceptT.run (rest ⟨⟩)).run later := rfl
  rw [send, asked, recorded]
  cases answer past sql values <;> rfl

/-- A session goes on behind what gave a result. -/
theorem Session.run_bind_ok {α β : Type} {first : Session α} {next : α → Session β}
    {past later : List Request} {a : α}
    (run : (ExceptT.run first).run past = (.ok a, later)) :
    (ExceptT.run (first >>= next)).run past = (ExceptT.run (next a)).run later := by
  rw [ExceptT.run_bind, StateT.run_bind, run]
  rfl

namespace Grammar

variable {g : Grammar} {c : Connection} {t : Table}

/-- The request that sends a statement without values. -/
def request (g : Grammar) (statement : List Piece) : Request :=
  ⟨.execute, render g.dialect statement, []⟩

/-- Statements are sent up to and including the first one that is refused. -/
inductive Sent (g : Grammar) (c : Connection) :
    List Request → List (List Piece) → List Request → Except Fault Unit → Prop where
  | done (past : List Request) : Sent g c past [] past (.ok ())
  | accepted {past later : List Request} {statement : List Piece} {rest : List (List Piece)}
      {outcome : Except Fault Unit} {count : Nat}
      (answer : c.execute past (render g.dialect statement) [] = .ok count)
      (sent : Sent g c (past ++ [g.request statement]) rest later outcome) :
      Sent g c past (statement :: rest) later outcome
  | refused {past : List Request} {statement : List Piece} {rest : List (List Piece)}
      {fault : Fault} (answer : c.execute past (render g.dialect statement) [] = .error fault) :
      Sent g c past (statement :: rest) (past ++ [g.request statement]) (.error fault)

/-- A change that cannot be written sends nothing; otherwise its statements are sent. -/
inductive Carried (g : Grammar) (c : Connection) (t : Table) :
    List Request → Change → List Request → Except Fault Unit → Prop where
  | unwritten {past : List Request} {change : Change} {fault : Fault}
      (refused : g.alterStatements t change = .error fault) :
      Carried g c t past change past (.error fault)
  | written {past later : List Request} {change : Change} {statements : List (List Piece)}
      {outcome : Except Fault Unit} (ready : g.alterStatements t change = .ok statements)
      (sent : Sent g c past statements later outcome) :
      Carried g c t past change later outcome

/-- The commands of a log are carried out one after the other, whatever becomes of each. -/
inductive Replayed (g : Grammar) (c : Connection) (t : Table) :
    List Request → List Command → List Request → List (Except Fault Unit) → Prop where
  | done (past : List Request) : Replayed g c t past [] past []
  | next {past middle later : List Request} {command : Command} {rest : List Command}
      {outcome : Except Fault Unit} {outcomes : List (Except Fault Unit)}
      (carried : Carried g c t past command.change middle outcome)
      (replayed : Replayed g c t middle rest later outcomes) :
      Replayed g c t past (command :: rest) later (outcome :: outcomes)

/-- What the watchers in a log hear of the outcomes of their commands. -/
def heard (log : List Command) (outcomes : List (Except Fault Unit)) : List Report :=
  (log.zip outcomes).filterMap fun entry =>
    entry.1.watcher.map fun label => ⟨label, faultOf? entry.2⟩

/-- The commands of a log that failed, by name and fault. -/
def failed (log : List Command) (outcomes : List (Except Fault Unit)) : List (String × Fault) :=
  (log.zip outcomes).filterMap fun entry =>
    (faultOf? entry.2).map fun fault => (entry.1.change.name, fault)

/-! ### One command -/

theorem run_runExecute (c : Connection) (sql : String) (values : List Value)
    (past : List Request) : (ExceptT.run (c.runExecute sql values)).run past =
      (c.execute past sql values, past ++ [⟨.execute, sql, values⟩]) :=
  Connection.run_send .execute c.execute sql values past

theorem run_send_cons (statement : List Piece) (rest : List (List Piece)) (past : List Request) :
    (ExceptT.run (g.send c (statement :: rest))).run past =
      match c.execute past (render g.dialect statement) [] with
      | .ok _ => (ExceptT.run (g.send c rest)).run (past ++ [g.request statement])
      | .error fault => (.error fault, past ++ [g.request statement]) := by
  have asked := run_runExecute c (render g.dialect statement) [] past
  rw [send, ExceptT.run_bind, StateT.run_bind, asked]
  cases c.execute past (render g.dialect statement) [] <;> rfl

theorem run_send (statements : List (List Piece)) (past : List Request) :
    ∃ later outcome, Sent g c past statements later outcome ∧
      (ExceptT.run (g.send c statements)).run past = (outcome, later) := by
  induction statements generalizing past with
  | nil => exact ⟨past, .ok (), .done past, rfl⟩
  | cons statement rest ih =>
    rw [run_send_cons]
    cases answer : c.execute past (render g.dialect statement) [] with
    | ok count =>
      obtain ⟨later, outcome, sent, run⟩ := ih (past ++ [g.request statement])
      exact ⟨later, outcome, .accepted answer sent, run⟩
    | error fault => exact ⟨_, .error fault, .refused answer, rfl⟩

theorem run_carryOut (change : Change) (past : List Request) :
    ∃ later outcome, Carried g c t past change later outcome ∧
      (ExceptT.run (g.carryOut c t change)).run past = (outcome, later) := by
  cases ready : g.alterStatements t change with
  | error fault =>
    refine ⟨past, .error fault, .unwritten ready, ?_⟩
    rw [carryOut, ready]
    rfl
  | ok statements =>
    obtain ⟨later, outcome, sent, run⟩ := run_send (g := g) (c := c) statements past
    refine ⟨later, outcome, .written ready sent, ?_⟩
    rw [carryOut, ready]
    exact run

/-! ### The log -/

theorem run_replay_cons (command : Command) (rest : List Command) (past : List Request) :
    (g.replay c t (command :: rest)).run past =
      let (outcome, middle) := (ExceptT.run (g.carryOut c t command.change)).run past
      let ((reports, failures), later) := (g.replay c t rest).run middle
      let fault := faultOf? outcome
      (((command.complete fault).2 ++ reports,
        (fault.toList.map fun fault => (command.change.name, fault)) ++ failures), later) := rfl

theorem heard_cons (command : Command) (rest : List Command) (outcome : Except Fault Unit)
    (outcomes : List (Except Fault Unit)) :
    heard (command :: rest) (outcome :: outcomes) =
      (command.complete (faultOf? outcome)).2 ++ heard rest outcomes := by
  unfold Command.complete
  cases watcher : command.watcher <;> simp [heard, watcher]

theorem failed_cons (command : Command) (rest : List Command) (outcome : Except Fault Unit)
    (outcomes : List (Except Fault Unit)) :
    failed (command :: rest) (outcome :: outcomes) =
      ((faultOf? outcome).toList.map fun fault => (command.change.name, fault)) ++
        failed rest outcomes := by
  cases outcome <;> simp [failed, faultOf?]

theorem run_replay (log : List Command) (past : List Request) :
    ∃ later outcomes, Replayed g c t past log later outcomes ∧
      (g.replay c t log).run past = ((heard log outcomes, failed log outcomes), later) := by
  induction log generalizing past with
  | nil => exact ⟨past, [], .done past, rfl⟩
  | cons command rest ih =>
    obtain ⟨middle, outcome, carried, first⟩ :=
      run_carryOut (g := g) (c := c) (t := t) command.change past
    obtain ⟨later, outcomes, replayed, others⟩ := ih middle
    refine ⟨later, outcome :: outcomes, .next carried replayed, ?_⟩
    rw [run_replay_cons, first, heard_cons, failed_cons]
    simp only [others]

/-- What an alteration comes to, given the outcomes of the commands in the log. -/
def applied (t : Table) (outcomes : List (Except Fault Unit)) : Applied where
  table := t.withoutCommands
  reports := heard t.commands outcomes
  outcome :=
    if (failed t.commands outcomes).isEmpty then .ok ()
    else .error (.composite (failed t.commands outcomes))

theorem run_alter (g : Grammar) (c : Connection) (t : Table) (past : List Request) :
    ∃ later outcomes, Replayed g c t.withoutCommands past t.commands later outcomes ∧
      (g.alter c t).run past = (applied t outcomes, later) := by
  have whole : (g.alter c t).run past =
      let ((reports, failures), later) := (g.replay c t.withoutCommands t.commands).run past
      (⟨t.withoutCommands, reports,
        if failures.isEmpty then .ok () else .error (.composite failures)⟩, later) := rfl
  obtain ⟨later, outcomes, replayed, run⟩ := run_replay (g := g) (c := c) t.commands past
  refine ⟨later, outcomes, replayed, ?_⟩
  rw [whole, run]
  rfl

theorem Replayed.length_eq {past later : List Request} {log : List Command}
    {outcomes : List (Except Fault Unit)} (replayed : Replayed g c t past log later outcomes) :
    outcomes.length = log.length := by
  induction replayed with
  | done => rfl
  | next _ _ ih => rw [List.length_cons, List.length_cons, ih]

/-- As many outcomes as commands are all good exactly if no command is listed as failed. -/
theorem failed_eq_nil_iff {log : List Command} {outcomes : List (Except Fault Unit)}
    (length : outcomes.length = log.length) :
    failed log outcomes = [] ↔ ∀ outcome ∈ outcomes, outcome = .ok () := by
  induction outcomes generalizing log with
  | nil => simp [failed]
  | cons outcome rest ih =>
    cases log with
    | nil => cases length
    | cons command others =>
      rw [failed_cons, List.append_eq_nil_iff, ih (by simpa using length), List.forall_mem_cons]
      cases outcome <;> simp [faultOf?]

theorem messages_eq_map (failures : List (String × Fault)) :
    Fault.messages failures = failures.map fun failure => failure.2.message := by
  induction failures with
  | nil => rfl
  | cons failure rest ih =>
    have first : Fault.messages (failure :: rest) =
        failure.2.message :: Fault.messages rest := rfl
    rw [first, ih, List.map_cons]

/-- The message of a composite fault has a line for each failure. -/
theorem message_composite (failures : List (String × Fault)) :
    (Fault.composite failures).message =
      Text.join "\n" (failures.map fun failure => failure.2.message) := by
  have lines : (Fault.composite failures).message =
      Text.join "\n" (Fault.messages failures) := rfl
  rw [lines, messages_eq_map]

end Grammar

/-- What an alteration leaves behind and tells, given the outcomes of the commands in the log. -/
structure Applied.Tells (applied : Applied) (t : Table) (outcomes : List (Except Fault Unit)) :
    Prop where
  /-- The log is empty and nothing else is changed. -/
  table : applied.table = { t with commands := [] }
  reports : applied.reports = Grammar.heard t.commands outcomes
  ok_iff : applied.outcome = .ok () ↔ ∀ outcome ∈ outcomes, outcome = .ok ()
  composite {fault : Fault} : applied.outcome = .error fault →
    fault = .composite (Grammar.failed t.commands outcomes) ∧
      fault.message = Text.join "\n"
        ((Grammar.failed t.commands outcomes).map fun failure => failure.2.message)

/-- Every alteration carries out the whole log in order, whatever the server answers and whichever
commands fail, and tells exactly what became of each command. -/
theorem alter_replays_log (g : Grammar) (c : Connection) (t : Table) (past : List Request) :
    ∃ applied later outcomes, (g.alter c t).run past = (applied, later) ∧
      Grammar.Replayed g c t.withoutCommands past t.commands later outcomes ∧
        applied.Tells t outcomes := by
  obtain ⟨later, outcomes, replayed, run⟩ := Grammar.run_alter g c t past
  have clean := Grammar.failed_eq_nil_iff replayed.length_eq
  refine ⟨Grammar.applied t outcomes, later, outcomes, run, replayed, rfl, rfl, ?_, ?_⟩
  · rw [← clean]
    by_cases none : Grammar.failed t.commands outcomes = [] <;> simp [Grammar.applied, none]
  · intro fault told
    by_cases none : Grammar.failed t.commands outcomes = []
    · simp [Grammar.applied, none] at told
    · have same : Fault.composite (Grammar.failed t.commands outcomes) = fault := by
        simpa [Grammar.applied, none] using told
      exact ⟨same.symm, by rw [← same, Grammar.message_composite]⟩

end Sqlwright
