import BagQuery.Program.Expr
import BagQuery.Store

/-!
# Plans

A query is a tree of operators that produces tuples; its schema is known before it runs.  A plan
is a query, or a write of a query's tuples to the store.  A write produces no tuples, and no
operator can take it as an input.

Every operator has the inputs that it needs here, and a write stands at the root of its plan only.
So evaluation never meets an operator with a wrong number of inputs, or a write inside a query, and
has no complaints about them ("operator expects a single input", "operator expects two inputs",
"store mutation nested inside a query").  An operator is refused a write when it is built
(`Plan.asInput`).

The constructors with checks (`Query.makeTable` and so on) are how queries are built: what they
accept has a schema that all its tuples fit.
-/

namespace BagQuery

/-- A tree of operators that produces tuples. -/
inductive Query where
  /-- The records of a file. -/
  | load (path : String) (schema : Schema)
  /-- Given rows. -/
  | table (rows : List Tuple) (schema : Schema)
  /-- A stored relation, with the schema that it had when the query was built. -/
  | scan (key : Key) (schema : Schema)
  /-- Concatenated pairs that agree on pairs of columns.  The second column of a pair counts on
  from the columns of the left input. -/
  | join (left right : Query) (on : List (Nat × Nat)) (schema : Schema)
  /-- Some columns of the input, by index. -/
  | foreach (input : Query) (columns : List Nat) (schema : Schema)
  /-- A set operator. -/
  | setOp (op : SetOp) (left right : Query)
  /-- Each tuple once. -/
  | distinct (input : Query)
  /-- The first tuples. -/
  | limit (input : Query) (count : Nat)
deriving DecidableEq

namespace Query

/-- The schema of the tuples. -/
def schema : Query → Schema
  | load _ schema => schema
  | table _ schema => schema
  | scan _ schema => schema
  | join _ _ _ schema => schema
  | foreach _ _ schema => schema
  | setOp _ left _ => left.schema
  | distinct input => input.schema
  | limit input _ => input.schema

/-- The inputs, from left to right. -/
def inputs : Query → List Query
  | load .. | table .. | scan .. => []
  | join left right .. | setOp _ left right => [left, right]
  | foreach input .. | distinct input | limit input _ => [input]

/-- A table whose rows fit its schema. -/
def makeTable (rows : List Tuple) (schema : Schema) : Except Error Query := do
  rows.forM schema.check
  return table rows schema

/-- A scan of a relation that the store holds now. -/
def makeScan (store : Store) (key : Key) : Except Error Query := do
  return scan key (← store.relation key).schema

/-- Checks a pair of columns of a join with `offset` columns on the left. -/
def checkPair (offset : Nat) (schema : Schema) (pair : Nat × Nat) : Except Error Unit :=
  match schema.columns[pair.1]?, schema.columns[pair.2]? with
  | some l, some r =>
    if pair.1 < offset ∧ offset ≤ pair.2 then
      if l.type = r.type then .ok () else .error (.joinTypes l.name l.type r.name r.type)
    else .error (.invalidPlan "join attribute index outside its input")
  | _, _ => .error (.invalidPlan "join attribute index outside its input")

/-- A join whose columns go under the labels of their sides. -/
def makeJoin (left right : Query) (on : List (Nat × Nat)) (leftLabel rightLabel : String) :
    Except Error Query := do
  let schema ← Schema.join [left.schema, right.schema] [leftLabel, rightLabel]
  on.forM (checkPair left.schema.arity schema)
  return join left right on schema

/-- The column at an index. -/
def columnAt (schema : Schema) (i : Nat) : Except Error Column :=
  match schema.columns[i]? with
  | some c => .ok c
  | none => .error (.invalidPlan "foreach column index outside its input")

/-- Some columns of the input, under their own names or those of `rename`. -/
def makeForeach (input : Query) (indexes : List Nat) (rename : Option Schema) :
    Except Error Query := do
  let columns ← indexes.mapM (columnAt input.schema)
  match rename with
  | some rename =>
    if rename.types = columns.map Column.type then return foreach input indexes rename
    else throw (.incompatible (Column.renderAll columns) rename.render)
  | none => return foreach input indexes (← Schema.ofColumns columns)

/-- A set operator on inputs with compatible columns. -/
def makeSetOp (op : SetOp) (left right : Query) : Except Error Query := do
  left.schema.checkCompatible right.schema
  return setOp op left right

end Query

/-- A query, or a write of a query's tuples. -/
inductive Plan where
  | query (q : Query)
  /-- Adds the tuples to a stored relation. -/
  | insert (key : Key) (input : Query)
  /-- Puts the tuples in place of a stored relation. -/
  | replace (key : Key) (input : Query)
deriving DecidableEq

namespace Plan

/-- The schema of the tuples that a plan produces: none for a write. -/
def schema : Plan → Schema
  | query q => q.schema
  | insert .. | replace .. => .empty

/-- The plan writes to the store. -/
def isWrite : Plan → Bool
  | query _ => false
  | insert .. | replace .. => true

/-- The inputs, from left to right. -/
def inputs : Plan → List Query
  | query q => q.inputs
  | insert _ input | replace _ input => [input]

/-- The plan as an input of an operator.  This is where a write is refused: a query has no place for
one. -/
def asInput : Plan → Except Error Query
  | query q => .ok q
  | insert .. | replace .. => .error (.invalidPlan "store mutations cannot feed another operator")

end Plan

end BagQuery
