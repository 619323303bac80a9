import Sqlwright.Connection
import Sqlwright.Text.Fields

/-!
Connections that answer from a script, without a server. Rules are tried in order, and a rule
applies to every statement that contains its text.
-/

namespace Sqlwright

/-- The answers of a scripted connection. -/
structure Script where
  dialect : Dialect
  /-- Texts and the rows that answer the queries containing them. -/
  answers : List (String × List Row) := []
  /-- Texts and the faults of the statements containing them, made from the statement. -/
  refusals : List (String × (String → Fault)) := []
  affected : Nat := 1
  insertId : Int64 := 1

namespace Script

/-- What the first rule for a statement says. -/
def ruleFor? {α : Type} (rules : List (String × α)) (sql : String) : Option α :=
  (rules.find? fun rule => Text.occurs rule.1.toList sql.toList).map (·.2)

/-- Answers a statement unless a rule refuses it. -/
def answer {α : Type} (s : Script) (result : String → α) (sql : String) : Except Fault α :=
  match ruleFor? s.refusals sql with
  | some fault => .error (fault sql)
  | none => .ok (result sql)

/-- The connection that follows the script; queries no rule answers have no rows. -/
def connection (s : Script) : Connection where
  dialect := s.dialect
  query _ sql _ := s.answer (fun sql => (ruleFor? s.answers sql).getD []) sql
  execute _ sql _ := s.answer (fun _ => s.affected) sql
  insert _ sql _ := s.answer (fun _ => s.insertId) sql

end Script

end Sqlwright
