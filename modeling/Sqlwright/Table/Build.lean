import Sqlwright.Table.Basic

/-!
Blueprint calls as data: column definitions with their modifiers, and the structural changes. A
definition starts from a column and applies modifiers in order, so the short forms for common
columns are lists of modifiers. Statements about all blueprints that can be built are statements
about lists of calls.
-/

namespace Sqlwright

/-- A further word on a column just defined. -/
inductive Modifier where
  | nullable
  | notNull
  | default (value : Value)
  | defaultRaw (sql : String)
  | comment (text : String)
  | collation (name : String)
  | charset (name : String)
  | unsigned
  | autoIncrement
  | length (n : Nat)
  | precision (digits scale : Nat)
  | fractionDigits (n : Nat)
  | options (labels : List String)
  /-- Makes the column the primary key. -/
  | primary
  /-- Adds a unique index named after the column. -/
  | unique
  /-- Adds a plain index named after the column. -/
  | index

namespace Modifier

/-- What a modifier changes in the definition of the column. -/
def edit : Modifier → Column → Column
  | .nullable, c => { c with nullable := true }
  | .notNull, c => { c with nullable := false }
  | .default value, c => { c with default := some (.value value) }
  | .defaultRaw sql, c => { c with default := some (.raw sql) }
  | .comment text, c => { c with comment := some text }
  | .collation name, c => { c with collation := some name }
  | .charset name, c => { c with charset := some name }
  | .unsigned, c => { c with unsigned := true }
  | .autoIncrement, c => { c with autoIncrement := true }
  | .length n, c => { c with length := some n }
  | .precision digits scale, c => { c with precision := some digits, scale := some scale }
  | .fractionDigits n, c => { c with fractionDigits := some n }
  | .options labels, c => { c with options := labels }
  | .primary, c => { c with primary := true }
  | .unique, c => c
  | .index, c => c

/-- What a modifier adds to the table, given the name of the column. -/
def extend (name : String) : Modifier → Table → Table
  | .primary, t => t.createPrimary [name]
  | .unique, t => t.createIndex .unique name [name]
  | .index, t => t.createIndex .plain name [name]
  | _, t => t

end Modifier

/-- Applies a modifier to a column just defined. -/
def Table.modify (t : Table) (handle : ColumnHandle) (modifier : Modifier) : Table :=
  (modifier.extend handle.column t).adjust handle modifier.edit

/-- A column to be defined, or redefined, with modifiers. -/
structure ColumnCall where
  column : Column
  modifiers : List Modifier := []
  /-- Redefines a column that should be there. -/
  redefine : Bool := false

namespace ColumnCall

/-- A column of a type. -/
def typed (type : ColumnType) (name : String) : ColumnCall := { column := { name, type } }

def withModifiers (c : ColumnCall) (more : List Modifier) : ColumnCall :=
  { c with modifiers := c.modifiers ++ more }

/-- A column of a type with a length: characters of a text, dimensions of a vector. -/
def sized (type : ColumnType) (name : String) (length : Nat) : ColumnCall :=
  (typed type name).withModifiers [.length length]

/-- A column of a type with a precision and a scale. -/
def scaled (type : ColumnType) (name : String) (digits scale : Nat) : ColumnCall :=
  (typed type name).withModifiers [.precision digits scale]

def enum (name : String) (labels : List String) : ColumnCall :=
  (typed .enum name).withModifiers [.options labels]

def unsignedBigInteger (name : String) : ColumnCall :=
  (typed .bigInteger name).withModifiers [.unsigned]

/-- An unsigned big integer that counts up by itself. -/
def bigIncrements (name : String) : ColumnCall :=
  (unsignedBigInteger name).withModifiers [.autoIncrement]

/-- An unsigned integer that counts up by itself. -/
def increments (name : String) : ColumnCall :=
  (typed .integer name).withModifiers [.unsigned, .autoIncrement]

/-- A counting primary key. -/
def id (name : String) : ColumnCall := (bigIncrements name).withModifiers [.primary]

/-- The time of a soft deletion. -/
def softDeletes : ColumnCall := (typed .timestamp "deleted_at").withModifiers [.nullable]

/-- The times of creation and of the latest change. -/
def timestamps : List ColumnCall :=
  ["created_at", "updated_at"].map fun name => (typed .timestamp name).withModifiers [.nullable]

/-- Defines the column without its modifiers. -/
def define (c : ColumnCall) (t : Table) : Table × ColumnHandle :=
  if c.redefine then t.changeColumn c.column else t.addColumn c.column

/-- Defines the column and applies the modifiers in order. -/
def run (c : ColumnCall) (t : Table) : Table :=
  let (t, handle) := c.define t
  c.modifiers.foldl (fun t modifier => t.modify handle modifier) t

end ColumnCall

/-- One step of building a blueprint. -/
inductive TableCall where
  | column (call : ColumnCall)
  | timestamps
  | renameColumn (source target : String)
  | dropColumns (names : List String)
  | createIndex (kind : IndexKind) (name : String) (columns : List String)
  | dropIndexes (names : List String)
  | renameIndex (source target : String)
  | createPrimary (columns : List String)
  | dropPrimary
  /-- Tells a watcher the outcome of the latest command. -/
  | watch (label : String)

namespace TableCall

/-- Performs one call. -/
def run : TableCall → Table → Table
  | .column call, t => call.run t
  | .timestamps, t => ColumnCall.timestamps.foldl (fun t call => call.run t) t
  | .renameColumn source target, t => t.renameColumn source target
  | .dropColumns names, t => t.dropColumns names
  | .createIndex kind name columns, t => t.createIndex kind name columns
  | .dropIndexes names, t => t.dropIndexes names
  | .renameIndex source target, t => t.renameIndex source target
  | .createPrimary columns, t => t.createPrimary columns
  | .dropPrimary, t => t.dropPrimary
  | .watch label, t => t.watch label

/-- Performs calls in order. -/
def runAll (calls : List TableCall) (t : Table) : Table := calls.foldl (fun t call => call.run t) t

end TableCall

end Sqlwright
