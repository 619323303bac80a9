import Sqlwright.Text.Quoted

/-!
The SQL dialects and what they decide about single tokens: how an identifier and a string are
quoted and how a placeholder is written.
-/

namespace Sqlwright

inductive Dialect where
  | generic
  | mysql
  | postgres
  | sqlite
  | hana
  deriving DecidableEq, Repr, Inhabited

namespace Dialect

/-- The name under which a dialect is reported. -/
def name : Dialect → String
  | .generic => "sql"
  | .mysql => "mysql"
  | .postgres => "postgres"
  | .sqlite => "sqlite3"
  | .hana => "hdb"

/-- The character around identifiers. -/
def quoteChar : Dialect → Char
  | .mysql => '\x60'
  | .sqlite => '\x60'
  | _ => '\x22'

/-- Placeholders carry their number. -/
def numbered : Dialect → Bool
  | .postgres => true
  | _ => false

/-- The placeholder of the bound value with this number, counted from one. -/
def placeholder (d : Dialect) (index : Nat) : String :=
  if d.numbered then "$" ++ toString index else "?"

def quoteIdentifier (d : Dialect) (name : String) : String := Text.quoted d.quoteChar name

/-- A string literal; a quote inside is doubled in every dialect. -/
def quoteString (_ : Dialect) (s : String) : String := Text.quoted '\x27' s

end Dialect

/-- Keeps ASCII letters, digits and underscores. -/
def sanitizeIdentifier (name : String) : String :=
  .ofList (name.toList.filter fun c => c.isAlphanum || c == '_')

end Sqlwright
