import Sqlwright.Fault
import Sqlwright.Table.Column
import Sqlwright.Table.Index

/-!
The log of a table blueprint: one command for each recorded change, with a watcher that wants to
hear of its outcome. A watcher hears once, then it is gone.
-/

namespace Sqlwright

/-- One recorded change of a table. -/
inductive Change where
  | addColumn (column : Column)
  | modifyColumn (column : Column)
  | renameColumn (source target : String)
  | dropColumn (name : String)
  | createIndex (index : Index)
  | dropIndex (name : String)
  | renameIndex (source target : String)
  | createPrimary (key : PrimaryKey)
  /-- Drops the constraint of this name. -/
  | dropPrimary (constraint : String)

namespace Change

/-- The name of a change in reports. -/
def name : Change → String
  | .addColumn _ => "AddColumn"
  | .modifyColumn _ => "ModifyColumn"
  | .renameColumn .. => "RenameColumn"
  | .dropColumn _ => "DropColumn"
  | .createIndex _ => "CreateIndex"
  | .dropIndex _ => "DropIndex"
  | .renameIndex .. => "RenameIndex"
  | .createPrimary _ => "CreatePrimary"
  | .dropPrimary _ => "DropPrimary"

/-- Changes that are part of creating a table; the others only alter one. -/
def isCreate : Change → Bool
  | .addColumn _ | .createIndex _ | .createPrimary _ => true
  | _ => false

/-- The column that a change defines. -/
def column? : Change → Option Column
  | .addColumn column | .modifyColumn column => some column
  | _ => none

/-- Changes the definition in a change that defines a column. -/
def adjust (edit : Column → Column) : Change → Change
  | .addColumn column => .addColumn (edit column)
  | .modifyColumn column => .modifyColumn (edit column)
  | change => change

end Change

/-- What a watcher hears: its label and what went wrong, if anything. -/
structure Report where
  watcher : String
  fault : Option Fault

structure Command where
  change : Change
  watcher : Option String := none

namespace Command

/-- Tells the watcher the outcome. -/
def complete (c : Command) (fault : Option Fault) : Command × List Report :=
  match c.watcher with
  | some label => ({ c with watcher := none }, [⟨label, fault⟩])
  | none => (c, [])

/-- A watcher that has heard an outcome hears no other. -/
theorem complete_complete (c : Command) (first second : Option Fault) :
    ((c.complete first).1.complete second).2 = [] := by
  cases h : c.watcher <;> simp [complete, h]

end Command

end Sqlwright
