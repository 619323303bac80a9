import Sqlwright.Query.Compile

/-!
Rows that collide. A default upsert inserts rows and says what becomes of a row that is already
there: it takes from the new row the inserted columns outside the key. PostgreSQL and SQLite say so
whether or not there are such columns. MySQL says nothing where there are none, so that its insert
fails on the collision.
-/

namespace Sqlwright

/-- What an insert says about rows that are already there under a key. -/
inductive CollisionClause where
  /-- Nothing at all. -/
  | silent
  /-- `on conflict (key) do nothing`. -/
  | doNothing
  /-- `on conflict (key) do update set column = excluded.column, ...`. -/
  | takeExcluded (names : List String)
  /-- `on duplicate key update column = values(column), ...`. -/
  | takeValues (names : List String)
  /-- `on duplicate key update column = column, ...`. -/
  | keepOwn (names : List String)

namespace CollisionClause

/-- Whether a dialect understands a clause. Neither a key that is named nor a list of assignments is
ever empty. -/
def Understood (d : Dialect) (key : List String) : CollisionClause → Prop
  | .silent => True
  | .doNothing => (d = .postgres ∨ d = .sqlite) ∧ key ≠ []
  | .takeExcluded names => (d = .postgres ∨ d = .sqlite) ∧ key ≠ [] ∧ names ≠ []
  | .takeValues names | .keepOwn names => d = .mysql ∧ names ≠ []

/-- The columns that a row already there takes from the new one, in the order in which they are set;
none where the insert fails on the collision. -/
def taken? : CollisionClause → Option (List String)
  | .silent => none
  | .doNothing | .keepOwn _ => some []
  | .takeExcluded names | .takeValues names => some names

variable (g : Grammar) (key : List String)

def pieces : CollisionClause → List Piece
  | .silent => []
  | .doNothing =>
    .text " on conflict " :: parenthesised (g.columnList key) ++ [.text " do nothing"]
  | .takeExcluded names =>
    .text " on conflict " :: parenthesised (g.columnList key) ++
      .text " do update set " :: joinPieces ", " (names.map g.fromExcluded)
  | .takeValues names =>
    .text " on duplicate key update " :: joinPieces ", " (names.map g.fromValues)
  | .keepOwn names =>
    .text " on duplicate key update " ::
      joinPieces ", " (names.map fun name => g.column name ++ .text " = " :: g.column name)

theorem eq_silent_of_pieces {clause : CollisionClause} (none : clause.pieces g key = []) :
    clause = .silent := by
  cases clause with
  | silent => rfl
  | doNothing | takeExcluded _ | takeValues _ | keepOwn _ => cases none

end CollisionClause

namespace Statement

/-- A statement settles collisions by a clause behind an insert: a row already there takes the
columns `taken` from the new row and stays as it is otherwise. -/
def Settles (g : Grammar) (key taken : List String) (insert s : Statement) : Prop :=
  ∃ clause : CollisionClause, clause.Understood g.dialect key ∧ clause.taken? = some taken ∧
    s = insert.append (clause.pieces g key) []

/-- An insert by itself fails on a collision. -/
theorem not_settles (g : Grammar) (key taken : List String) (insert : Statement) :
    ¬ Settles g key taken insert insert := by
  rintro ⟨clause, -, takes, same⟩
  have pieces : insert.pieces ++ [] = insert.pieces ++ clause.pieces g key :=
    (List.append_nil _).trans (congrArg Statement.pieces same)
  have silent := CollisionClause.eq_silent_of_pieces g key (List.append_cancel_left pieces).symm
  rw [silent] at takes
  cases takes

end Statement

namespace Grammar

variable {g : Grammar}

theorem onConflict_settles (conflicts : g.dialect = .postgres ∨ g.dialect = .sqlite)
    (insert : Statement) {key : List String} (keyed : key ≠ []) (names : List String) :
    Statement.Settles g key names insert (g.onConflict insert key (.columns names)) := by
  cases names with
  | nil => exact ⟨.doNothing, ⟨conflicts, keyed⟩, rfl, rfl⟩
  | cons name more =>
    exact ⟨.takeExcluded (name :: more), ⟨conflicts, keyed, List.cons_ne_nil _ _⟩, rfl, rfl⟩

theorem onDuplicate_settles (mysql : g.dialect = .mysql) (insert : Statement) (key : List String)
    {names : List String} (some : names ≠ []) :
    Statement.Settles g key names insert (g.onDuplicate insert (.columns names)) := by
  obtain ⟨name, more, rfl⟩ := List.exists_cons_of_ne_nil some
  exact ⟨.takeValues (name :: more), ⟨mysql, some⟩, rfl, rfl⟩

/-- MySQL settles collisions where there are columns to set, and inserts only where there are
none. -/
theorem onDuplicate_settles_iff (mysql : g.dialect = .mysql) (insert : Statement)
    (key names : List String) :
    Statement.Settles g key names insert (g.onDuplicate insert (.columns names)) ↔ names ≠ [] := by
  refine ⟨?_, onDuplicate_settles mysql insert key⟩
  rintro settles rfl
  exact Statement.not_settles g key [] insert settles

variable (q : Query) (data : RowSet) (key : List String) (update : Overwrite)

theorem upsert_of_mysql (mysql : g.dialect = .mysql) :
    g.upsert q data key update = g.onDuplicate (g.insert q data) update := by
  rw [upsert, mysql]

theorem upsert_of_conflicts (conflicts : g.dialect = .postgres ∨ g.dialect = .sqlite) :
    g.upsert q data key update = g.onConflict (g.insert q data) key update := by
  rcases conflicts with same | same <;> rw [upsert, same]

end Grammar

/-- The columns that a record sets outside a key. -/
def Record.outside (r : Record) (key : List String) : List String := r.columns.filter (· ∉ key)

theorem Overwrite.orInserted_default {update : Overwrite} (default : update.isEmpty)
    (r : Record) (key : List String) :
    update.orInserted r.columns key = .columns (r.outside key) := by
  rw [orInserted, if_pos default, Record.outside]
  simp

/-- A default upsert has a clause by which a row already there takes the inserted columns outside
the key and keeps all others: on PostgreSQL and SQLite always, on MySQL where there are such
columns. Where there are none MySQL sends the insert by itself. -/
theorem default_upsert_settles_iff (b : Builder)
    (settling : b.grammar.dialect ∈ [.mysql, .postgres, .sqlite]) (first : Record)
    (rest : List Record) {key : List String} (keyed : key ≠ []) {update : Overwrite}
    (default : update.isEmpty) :
    let insert := b.insertStatement (first :: rest)
    let upsert := b.upsertStatement (first :: rest) key update
    (insert.Settles b.grammar key (first.outside key) upsert ↔
      (b.grammar.dialect = .mysql → first.outside key ≠ [])) ∧
      (b.grammar.dialect = .mysql → first.outside key = [] → upsert = insert) := by
  intro insert upsert
  have written : upsert = b.grammar.upsert b.query (.ofRecords (first :: rest)) key
      (.columns (first.outside key)) := by
    rw [← Overwrite.orInserted_default default]
    rfl
  simp only [List.mem_cons, List.not_mem_nil, or_false] at settling
  rcases settling with mysql | conflicts
  · have clause : upsert = b.grammar.onDuplicate insert (.columns (first.outside key)) :=
      written.trans (Grammar.upsert_of_mysql b.query _ key _ mysql)
    rw [clause, Grammar.onDuplicate_settles_iff mysql]
    exact ⟨⟨fun some _ => some, fun some => some mysql⟩, fun _ none => none ▸ rfl⟩
  · have clause : upsert = b.grammar.onConflict insert key (.columns (first.outside key)) :=
      written.trans (Grammar.upsert_of_conflicts b.query _ key _ conflicts)
    have apart : b.grammar.dialect ≠ .mysql := by
      rcases conflicts with same | same <;> simp [same]
    -- `do nothing` is a clause too, so there is one whatever columns are left.
    have settles := Grammar.onConflict_settles conflicts insert keyed (first.outside key)
    rw [clause]
    exact ⟨iff_of_true settles fun mysql => absurd mysql apart, fun mysql => absurd mysql apart⟩

def pairQuery : Query := { source := some (.table "pairs" none) }

/-- A record of two columns. -/
def pairRecord : Record := ⟨[("a", .value (.bool true)), ("b", .value .null)]⟩

/-- A colliding row takes the column outside the key on MySQL, and nothing on PostgreSQL where the
key has both columns. -/
theorem default_upsert_settles_iff_pair :
    let mysql : Builder := { grammar := ⟨.mysql, ""⟩, query := pairQuery }
    let postgres : Builder := { grammar := ⟨.postgres, ""⟩, query := pairQuery }
    let update := Overwrite.columns []
    mysql.grammar.dialect ∈ [Dialect.mysql, .postgres, .sqlite] ∧
      postgres.grammar.dialect ∈ [Dialect.mysql, .postgres, .sqlite] ∧
      (["a"] ≠ [] ∧ ["a", "b"] ≠ []) ∧ update.isEmpty ∧
      (mysql.insertStatement [pairRecord]).Settles mysql.grammar ["a"] ["b"]
        (mysql.upsertStatement [pairRecord] ["a"] update) ∧
      (postgres.insertStatement [pairRecord]).Settles postgres.grammar ["a", "b"] []
        (postgres.upsertStatement [pairRecord] ["a", "b"] update) := by
  intro mysql postgres update
  have first : mysql.grammar.dialect ∈ [Dialect.mysql, .postgres, .sqlite] := by decide
  have second : postgres.grammar.dialect ∈ [Dialect.mysql, .postgres, .sqlite] := by decide
  have one : ["a"] ≠ [] := List.cons_ne_nil _ _
  have both : ["a", "b"] ≠ [] := List.cons_ne_nil _ _
  have default : update.isEmpty := rfl
  refine ⟨first, second, ⟨one, both⟩, default, ?_, ?_⟩
  · refine (default_upsert_settles_iff mysql first pairRecord [] one default).1.mpr fun _ => ?_
    decide
  · refine (default_upsert_settles_iff postgres second pairRecord [] both default).1.mpr ?_
    intro same
    cases same

/-- Where the key has all columns, MySQL sends an insert that fails on a collision; SQLite leaves
the row as it is. -/
theorem key_upsert_unsettled :
    let mysql : Builder := { grammar := ⟨.mysql, ""⟩, query := pairQuery }
    let sqlite : Builder := { grammar := ⟨.sqlite, ""⟩, query := pairQuery }
    let s := mysql.upsertStatement [pairRecord] ["a", "b"] (.columns [])
    s.sql .mysql = "insert into \x60pairs\x60 (\x60a\x60, \x60b\x60) values (?,?)" ∧
      ¬ (mysql.insertStatement [pairRecord]).Settles mysql.grammar ["a", "b"] [] s ∧
      (sqlite.insertStatement [pairRecord]).Settles sqlite.grammar ["a", "b"] []
        (sqlite.upsertStatement [pairRecord] ["a", "b"] (.columns [])) := by
  intro mysql sqlite s
  refine ⟨by decide +kernel, Statement.not_settles _ _ _ _, ?_⟩
  exact Grammar.onConflict_settles (.inr rfl) _ (List.cons_ne_nil _ _) _

end Sqlwright
