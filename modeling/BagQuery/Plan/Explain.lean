import BagQuery.Plan.Basic

/-!
# Explaining plans

An explanation is the tree of a plan's operators, each with its tag and its properties in a fixed
order.  Its text has one line per operator, parents first, indented by two blanks per level.
-/

namespace BagQuery

open Text

/-- An operator, its properties and its inputs. -/
inductive Explanation where
  | node (op : String) (props : List (String × String)) (inputs : List Explanation)

namespace Explanation

/-- The line of an operator at a depth. -/
def line (depth : Nat) (op : String) (props : List (String × String)) : String :=
  String.ofList (List.replicate (2 * depth) ' ') ++ op
    ++ String.join (props.map fun (key, value) => " " ++ key ++ "=" ++ value)

mutual

/-- The lines of an operator and its inputs. -/
def lines (depth : Nat) : Explanation → List String
  | node op props inputs => line depth op props :: allLines (depth + 1) inputs

/-- The lines of several operators at one depth. -/
def allLines (depth : Nat) : List Explanation → List String
  | [] => []
  | e :: es => lines depth e ++ allLines depth es

end

/-- How an explanation is shown. -/
def render (e : Explanation) : String := "\n".intercalate (e.lines 0)

end Explanation

/-- The tag of a set operator. -/
def SetOp.tag : SetOp → String
  | union => "UNION"
  | intersect => "INTERSECT"
  | diff => "DIFF"

namespace Query

/-- The tag of the operator. -/
def tag : Query → String
  | load .. => "LOAD"
  | table .. => "TABLE"
  | scan .. => "SCAN"
  | join .. => "JOIN"
  | foreach .. => "FOREACH"
  | setOp op .. => op.tag
  | distinct .. => "DISTINCT"
  | limit .. => "LIMIT"

/-- The properties of the operator, without its schema. -/
def ownProps : Query → List (String × String)
  | load path _ => [("path", path)]
  | table rows _ => [("rows", Numeral.ofNat rows.length)]
  | scan key _ => [("key", key.render)]
  | join _ _ on _ =>
    [("on", "[" ++ ",".intercalate (on.map fun (l, r) =>
      Numeral.ofNat l ++ "=" ++ Numeral.ofNat r) ++ "]")]
  | foreach _ columns _ =>
    [("columns", "[" ++ ",".intercalate (columns.map Numeral.ofNat) ++ "]")]
  | setOp .. | distinct .. => []
  | limit _ count => [("count", Numeral.ofNat count)]

/-- The properties of the operator, its schema last. -/
def props (q : Query) : List (String × String) := q.ownProps ++ [("schema", q.schema.render)]

/-- The operators of a query. -/
def explain (q : Query) : Explanation :=
  match q with
  | load .. | table .. | scan .. => .node q.tag q.props []
  | join left right .. | setOp _ left right =>
    .node q.tag q.props [left.explain, right.explain]
  | foreach input .. | distinct input | limit input _ => .node q.tag q.props [input.explain]

end Query

namespace Plan

/-- The tag of the operator at the top. -/
def tag : Plan → String
  | query q => q.tag
  | insert .. => "INSERT"
  | replace .. => "REPLACE"

/-- The operators of a plan; a write shows no schema. -/
def explain : Plan → Explanation
  | query q => q.explain
  | insert key input => .node "INSERT" [("key", key.render)] [input.explain]
  | replace key input => .node "REPLACE" [("key", key.render)] [input.explain]

end Plan

end BagQuery
