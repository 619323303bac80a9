import Sqlwright.Connection
import Sqlwright.Grammar
import Sqlwright.Keyed

/-!
Which driver name speaks which dialect. A configuration is resolved to a grammar before anything is
connected, so a misspelt driver fails before any statement is sent.
-/

namespace Sqlwright

/-- Driver names in order, each with its dialect. -/
structure Registry where
  entries : List (String × Dialect) := []

namespace Registry

/-- Knows a driver name from now on; an earlier meaning of the name is replaced. -/
def register (r : Registry) (driver : String) (dialect : Dialect) : Registry :=
  ⟨Keyed.insert driver dialect r.entries⟩

/-- Every dialect under its own name and under the other names in use. -/
def standard : Registry :=
  ⟨Keyed.ofEntries
    [("mysql", .mysql), ("postgres", .postgres), ("pgsql", .postgres), ("sqlite3", .sqlite),
     ("sqlite", .sqlite), ("hdb", .hana), ("hana", .hana), ("sql", .generic)]⟩

def dialect? (r : Registry) (driver : String) : Option Dialect := Keyed.find? driver r.entries

def contains (r : Registry) (driver : String) : Bool := (r.dialect? driver).isSome

/-- The known driver names, sorted. -/
def drivers (r : Registry) : List String := r.entries.map (·.1)

/-- The grammar for a configuration. -/
def grammar (r : Registry) (config : Config) : Except Fault Grammar :=
  match r.dialect? config.driver with
  | some dialect => .ok ⟨dialect, config.tablePrefix⟩
  | none => .error (.unknownDriver config.driver)

/-- Registering a driver settles that name and no other. -/
theorem dialect?_register (r : Registry) (driver wanted : String) (dialect : Dialect) :
    (r.register driver dialect).dialect? wanted =
      if wanted = driver then some dialect else r.dialect? wanted :=
  Keyed.find?_insert driver wanted dialect r.entries

end Registry

end Sqlwright
