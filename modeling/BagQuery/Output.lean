import BagQuery.Json.Basic
import BagQuery.Plan.Explain

/-!
# Outputs

What a program puts out, as text and as JSON.
-/

namespace BagQuery

/-- Something that a statement puts out. -/
inductive Output where
  /-- The tuples of an expression. -/
  | dump (schema : Schema) (tuples : List Tuple)
  /-- The schema of a name. -/
  | describe (name : String) (schema : Schema)
  /-- The plan of a name. -/
  | explain (name : String) (query : Query)
deriving DecidableEq

/-- An atom as JSON: a number or a string. -/
def Atom.toJson : Atom → Json
  | int value => .int value.toInt
  | string value => .string value

/-- A tuple as JSON: the array of its atoms. -/
def Tuple.toJson (t : Tuple) : Json := .array (t.atoms.map Atom.toJson)

/-- A column as JSON. -/
def Column.toJson (c : Column) : Json :=
  .object [("name", .string c.name), ("type", .string c.type.name)]

/-- A schema as JSON: the array of its columns. -/
def Schema.toJson (s : Schema) : Json := .array (s.columns.map Column.toJson)

/-- A key as JSON. -/
def Key.toJson (k : Key) : Json :=
  .object [("owner", .string k.owner), ("program", .string k.program),
    ("relation", .string k.relation)]

namespace Explanation

/-- Properties as JSON. -/
def propsJson (props : List (String × String)) : Json :=
  .array (props.map fun (key, value) => .object [("key", .string key), ("value", .string value)])

mutual

/-- An operator and its inputs as JSON; an operator without inputs has no such field. -/
def nodeJson : Explanation → Json
  | node op props [] => .object [("op", .string op), ("props", propsJson props)]
  | node op props (input :: inputs) =>
    .object [("op", .string op), ("props", propsJson props),
      ("inputs", .array (nodeJson input :: nodesJson inputs))]

/-- Operators as JSON. -/
def nodesJson : List Explanation → List Json
  | [] => []
  | e :: es => nodeJson e :: nodesJson es

end

/-- An explanation as JSON. -/
def toJson (e : Explanation) : Json := .object [("root", e.nodeJson)]

end Explanation

namespace Output

/-- How an output is shown as text. -/
def render : Output → String
  | dump _ tuples => "[" ++ ",".intercalate (tuples.map Tuple.render) ++ "]"
  | describe name schema => name ++ " : " ++ schema.render
  | explain name query => name ++ " : \n" ++ query.explain.render

/-- An output as JSON. -/
def toJson : Output → Json
  | dump schema tuples =>
    .object [("kind", .string "dump"), ("schema", schema.toJson),
      ("tuples", .array (tuples.map Tuple.toJson))]
  | describe name schema =>
    .object [("kind", .string "describe"), ("ident", .string name), ("schema", schema.toJson)]
  | explain name query =>
    .object [("kind", .string "explain"), ("ident", .string name),
      ("plan", query.explain.toJson)]

end Output

end BagQuery
