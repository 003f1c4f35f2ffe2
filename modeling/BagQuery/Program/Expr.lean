import BagQuery.Relation.Schema

/-!
# Expressions and statements

What a program says, before any name in it is looked up.  Names and columns may be any strings
here, and column lists may repeat names: checking is the work of the analysis.
-/

namespace BagQuery

/-- The operators on two bags with equal column types. -/
inductive SetOp where
  | union
  | intersect
  | diff
deriving DecidableEq, Repr

/-- One side of a join: a bound name and the columns to compare. -/
structure JoinSide where
  name : String
  columns : List String
deriving DecidableEq, Repr

/-- An expression for a bag of tuples. -/
inductive Expr where
  /-- The records of a file. -/
  | load (path : String) (columns : List Column)
  /-- The given rows. -/
  | table (rows : List Tuple) (columns : List Column)
  /-- What a name is bound to. -/
  | reference (name : String)
  /-- Each tuple of an expression once. -/
  | distinct (input : Expr)
  /-- The first tuples of a bound name. -/
  | limit (input : String) (count : Nat)
  /-- A set operator on two bound names. -/
  | setOp (op : SetOp) (left right : String)
  /-- Some columns of a bound name, renamed if wanted. -/
  | foreach (input : String) (columns : List String) (rename : Option (List Column))
  /-- The pairs of tuples of two bound names that agree on the compared columns. -/
  | join (left right : JoinSide)
deriving DecidableEq, Repr

/-- A statement. -/
inductive Statement where
  /-- Binds a name. -/
  | assign (target : String) (expr : Expr)
  /-- Puts out the tuples of an expression. -/
  | dump (expr : Expr)
  /-- Puts out the schema of a bound name. -/
  | describe (name : String)
  /-- Puts out the plan of a bound name. -/
  | explain (name : String)
  /-- Runs the body, and again as long as the condition is a non-empty bag. -/
  | doWhile (body : List Statement) (condition : Expr)

/-- A program is a list of statements. -/
abbrev Program := List Statement

/-! ## Files -/

/-- The paths that an expression reads records from. -/
def Expr.paths : Expr → List String
  | load path _ => [path]
  | distinct input => input.paths
  | _ => []

mutual

/-- The paths that a statement reads records from. -/
def Statement.paths : Statement → List String
  | .assign _ expr => expr.paths
  | .dump expr => expr.paths
  | .describe _ => []
  | .explain _ => []
  | .doWhile body condition => Statement.pathsAll body ++ condition.paths

/-- The paths that statements read records from. -/
def Statement.pathsAll : List Statement → List String
  | [] => []
  | statement :: rest => statement.paths ++ Statement.pathsAll rest

end

end BagQuery
