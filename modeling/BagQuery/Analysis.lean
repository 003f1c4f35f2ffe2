import BagQuery.Plan.Basic

/-!
# Analysis

Bindings map names to queries.  Analysis turns an expression into a query: it looks up names and
columns, checks types, and fixes the schema.  All that can be wrong with an expression itself is
found here, before anything runs.
-/

namespace BagQuery

/-- Queries by name. -/
abbrev Bindings := Dictionary String Query

namespace Bindings

/-- The query that a name is bound to. -/
def resolve (bindings : Bindings) (name : String) : Except Error Query :=
  match bindings.get? name with
  | some q => .ok q
  | none => .error (.unknownSymbol name)

end Bindings

namespace Expr

/-- The index pairs of the compared columns; those of the right side count on from the left
schema. -/
def joinPairs (left right : Schema) (pairs : List (String × String)) :
    Except Error (List (Nat × Nat)) :=
  pairs.mapM fun (l, r) => do
    let i ← left.index l
    let j ← right.index r
    return (i, j + left.arity)

/-- The query of a join. -/
def analyzeJoin (bindings : Bindings) (left right : JoinSide) : Except Error Query := do
  if left.columns.length = right.columns.length then
    let l ← bindings.resolve left.name
    let r ← bindings.resolve right.name
    let on ← joinPairs l.schema r.schema (left.columns.zip right.columns)
    Query.makeJoin l r on left.name right.name
  else throw (.joinArity left.columns.length right.columns.length)

/-- The query of a choice of columns. -/
def analyzeForeach (bindings : Bindings) (input : String) (columns : List String)
    (rename : Option (List Column)) : Except Error Query := do
  let q ← bindings.resolve input
  let indexes ← columns.mapM q.schema.index
  match rename with
  | some rename => Query.makeForeach q indexes (some (← Schema.ofColumns rename))
  | none => Query.makeForeach q indexes none

/-- The query of an expression. -/
def analyze (bindings : Bindings) : Expr → Except Error Query
  | load path columns => do return .load path (← Schema.ofColumns columns)
  | table rows columns => do Query.makeTable rows (← Schema.ofColumns columns)
  | reference name => bindings.resolve name
  | distinct input => do return .distinct (← analyze bindings input)
  | limit input count => do return .limit (← bindings.resolve input) count
  | setOp op left right => do
    let l ← bindings.resolve left
    let r ← bindings.resolve right
    Query.makeSetOp op l r
  | foreach input columns rename => analyzeForeach bindings input columns rename
  | join left right => analyzeJoin bindings left right

end Expr

end BagQuery
