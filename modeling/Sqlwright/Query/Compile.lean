import Sqlwright.Query.Write
import Sqlwright.Query.Call

/-!
From a builder to statements. Reading statements can be refused in strict mode, when input had to be
repaired on the way; writes can also be refused for clauses that the dialect would drop.
-/

namespace Sqlwright.Builder

/-- The SQL text of a statement in the dialect of the builder. -/
def text (b : Builder) (s : Statement) : String := s.sql b.grammar.dialect

/-- The SELECT. -/
def select (b : Builder) : Statement := b.query.select b.grammar

/-- Strict builders refuse queries with issues. -/
def check (b : Builder) : Except Fault Unit :=
  if b.isStrict && !b.query.issues.isEmpty then .error (.repairedInput b.query.issues) else .ok ()

/-- Strict builders also refuse writes that would lose clauses. -/
def checkWrite (b : Builder) : Except Fault Unit := do
  b.check
  match b.grammar.writeLimit? b.query with
  | some limit => if b.isStrict then .error (.droppedClauses limit) else .ok ()
  | none => .ok ()

/-- The SELECT, unless it is refused. -/
def trySelect (b : Builder) : Except Fault Statement := do
  b.check
  return b.select

def existsStatement (b : Builder) : Statement := b.query.exists? b.grammar

def aggregateStatement (b : Builder) (function column : String) : Statement :=
  b.query.aggregate b.grammar function column

def insertStatement (b : Builder) (records : List Record) : Statement :=
  b.grammar.insert b.query (.ofRecords records)

def insertOrIgnoreStatement (b : Builder) (records : List Record) : Statement :=
  b.grammar.insertOrIgnore b.query (.ofRecords records)

def insertGetIdStatement (b : Builder) (record : Record) (sequence : Option String) : Statement :=
  b.grammar.insertGetId b.query record sequence

def insertUsingStatement (b : Builder) (columns : List String) (source : Query) : Statement :=
  b.grammar.insertUsing b.query columns source

def updateStatement (b : Builder) (record : Record) : Statement := b.grammar.update b.query record

def deleteStatement (b : Builder) : Statement := b.grammar.delete b.query

/-- An empty overwrite takes every inserted column outside the key. -/
def upsertStatement (b : Builder) (records : List Record) (key : List String) (update : Overwrite) :
    Statement :=
  let data := RowSet.ofRecords records
  b.grammar.upsert b.query data key (update.orInserted data.columns key)

def truncateStatements (b : Builder) : List Statement := b.grammar.truncate b.query

end Sqlwright.Builder
