import Sqlwright.Query.Execute
import Sqlwright.Registry
import Sqlwright.Schema

/-! A configured and connected database, from which queries and schema changes start. -/

namespace Sqlwright

structure Database where
  config : Config
  grammar : Grammar
  connection : Connection

namespace Database

/-- The database behind an open connection. -/
def ofConnection (r : Registry) (config : Config) (connection : Connection) :
    Except Fault Database := do
  return { config, grammar := ← r.grammar config, connection }

/-- Resolves the grammar, then connects. -/
def connect (r : Registry) (config : Config) (driver : Config → Except Fault Connection) :
    Except Fault Database := do
  let grammar ← r.grammar config
  return { config, grammar, connection := ← driver config }

/-- A builder without a source. -/
def query (d : Database) : Builder := { grammar := d.grammar, connection := some d.connection }

/-- A builder on a table. -/
def table (d : Database) (name : String) : Builder := d.query.table name

def schema (d : Database) : Schema := .ofConfig d.grammar d.connection d.config

end Database

end Sqlwright
