import Sqlwright.Text.Escape
import Sqlwright.Text.Fields
import Sqlwright.Number.FloatText
import Sqlwright.Keyed

/-!
JSON values as column contents. Integers and floats are kept apart, and the fields of an object
stand in the order of their keys, each key once.
-/

namespace Sqlwright

inductive Json where
  | null
  | bool (flag : Bool)
  | integer (n : Int)
  | float (x : Float)
  | string (s : String)
  | array (items : List Json)
  | object (fields : List (String × Json))
  deriving Inhabited

namespace Json

/-- An object from fields in any order; of a repeated key the last value counts. -/
def ofFields (fields : List (String × Json)) : Json := .object (Keyed.ofEntries fields)

/-- The value of a field of an object. -/
def field? (key : String) : Json → Option Json
  | .object fields => Keyed.find? key fields
  | _ => none

/-- A float as JSON; a value that is no number becomes null. -/
def ofFloat (x : Float) : Json := if x.isNaN || x.isInf then .null else .float x

/-- A float as a JSON number; values that are no number are written as null. -/
def floatText (x : Float) : String :=
  if x.isNaN || x.isInf then "null" else Number.FloatStyle.json.double x

mutual

/-- The compact text: no spaces, fields in the order they are stored. -/
def render : Json → String
  | .null => "null"
  | .bool flag => if flag then "true" else "false"
  | .integer n => toString n
  | .float x => floatText x
  | .string s => Text.jsonString s
  | .array items => "[" ++ Text.join "," (renderItems items) ++ "]"
  | .object fields => "\x7b" ++ Text.join "," (renderFields fields) ++ "\x7d"

def renderItems : List Json → List String
  | [] => []
  | item :: rest => item.render :: renderItems rest

def renderFields : List (String × Json) → List String
  | [] => []
  | (key, value) :: rest => (Text.jsonString key ++ ":" ++ value.render) :: renderFields rest

end

mutual

/-- The form shown in diagnostics, which names the kind of every part. -/
def diagnostic : Json → String
  | .null => "Null"
  | .bool flag => "Bool(" ++ (if flag then "true" else "false") ++ ")"
  | .integer n => "Number(" ++ toString n ++ ")"
  | .float x => "Number(" ++ floatText x ++ ")"
  | .string s => "String(" ++ Text.diagnosticString s ++ ")"
  | .array items => "Array [" ++ Text.join ", " (diagnosticItems items) ++ "]"
  | .object fields => "Object \x7b" ++ Text.join ", " (diagnosticFields fields) ++ "\x7d"

def diagnosticItems : List Json → List String
  | [] => []
  | item :: rest => item.diagnostic :: diagnosticItems rest

def diagnosticFields : List (String × Json) → List String
  | [] => []
  | (key, value) :: rest =>
    (Text.diagnosticString key ++ ": " ++ value.diagnostic) :: diagnosticFields rest

end

end Json

end Sqlwright
