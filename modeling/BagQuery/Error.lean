import BagQuery.Relation.ColumnType
import BagQuery.Text.Numeral
import BagQuery.Text.Position

/-!
# Errors

Everything that can stop a program, from its text to its output, with the wording of the message
(`Error.message`) and a coarse kind (`Error.kind`) whose code is meant for machines.
-/

namespace BagQuery

open Text (Position Numeral.ofNat)

/-- Why a program was refused or stopped.  Schemas, keys and files appear as they are shown. -/
inductive Error where
  /-- Two schemas that must agree differ in the number or the types of their columns. -/
  | incompatible (left right : String)
  /-- The two sides of a join name a different number of columns. -/
  | joinArity (left right : Nat)
  /-- Two joined columns have different types. -/
  | joinTypes (left : String) (leftType : ColumnType) (right : String) (rightType : ColumnType)
  /-- No column of the schema has the name. -/
  | noSuchColumn (column schema : String)
  /-- A schema would have two columns of one name. -/
  | duplicateColumn (column : String)
  /-- A tuple does not fit its schema. -/
  | tupleType (reason : String)
  /-- A column definition cannot be read. -/
  | columnDefinition (text : String)
  /-- A name is not bound. -/
  | unknownSymbol (name : String)
  /-- The store has no relation under the key. -/
  | unknownRelation (key : String)
  /-- An operator has inputs that it cannot work on. -/
  | invalidPlan (reason : String)
  /-- A stream that can be read once only was asked to start again. -/
  | notRestartable (stream : String)
  /-- Program text cannot be read. -/
  | malformed (place : Position) (problem : String)
  /-- A file cannot be read. -/
  | load (path reason : String)
  /-- Output cannot be written. -/
  | output (reason : String)
  /-- A loop did not end within its limit. -/
  | iterationLimit (limit : Nat)
deriving DecidableEq, Repr

/-- Coarse classes of errors. -/
inductive ErrorKind where
  | incompatibleSchemas
  | noSuchColumn
  | tupleType
  | unknownSymbol
  | malformed
  | io
  | plan
  | limit
deriving DecidableEq, Repr

/-- The code of a kind, for machines. -/
def ErrorKind.code : ErrorKind → String
  | incompatibleSchemas => "SchemaCompatibilityError"
  | noSuchColumn => "NoSuchColumnError"
  | tupleType => "TupleTypeError"
  | unknownSymbol => "UnknownSymbolError"
  | malformed => "SyntaxError"
  | io => "IoError"
  | plan => "PlanError"
  | limit => "LimitError"

namespace Error

/-- The class an error belongs to. -/
def kind : Error → ErrorKind
  | incompatible .. | joinArity .. | joinTypes .. | duplicateColumn .. => .incompatibleSchemas
  | noSuchColumn .. => .noSuchColumn
  | tupleType .. => .tupleType
  | unknownSymbol .. | unknownRelation .. => .unknownSymbol
  | malformed .. | columnDefinition .. => .malformed
  | load .. | output .. => .io
  | invalidPlan .. | notRestartable .. => .plan
  | iterationLimit .. => .limit

/-- The code of the error's class. -/
def code (e : Error) : String := e.kind.code

/-- The wording of an error. -/
def message : Error → String
  | incompatible left right => "schema " ++ left ++ " is not compatible with " ++ right
  | joinArity left right =>
    "join attribute lists differ in length (" ++ Numeral.ofNat left ++ " vs "
      ++ Numeral.ofNat right ++ ")"
  | joinTypes left leftType right rightType =>
    "join attributes '" ++ left ++ "' (" ++ leftType.name ++ ") and '" ++ right ++ "' ("
      ++ rightType.name ++ ") differ in type"
  | noSuchColumn column schema => "no column '" ++ column ++ "' in schema " ++ schema
  | duplicateColumn column => "duplicate column '" ++ column ++ "'"
  | tupleType reason => "tuple does not match schema: " ++ reason
  | columnDefinition text => "invalid column definition: " ++ text
  | unknownSymbol name => "unknown symbol '" ++ name ++ "'"
  | unknownRelation key => "unknown relation " ++ key
  | invalidPlan reason => "invalid plan: " ++ reason
  | notRestartable stream => stream ++ " stream cannot be restarted"
  | malformed place problem =>
    "syntax error at " ++ Numeral.ofNat place.line ++ ":" ++ Numeral.ofNat place.column ++ ": "
      ++ problem
  | load path reason => "cannot read " ++ path ++ ": " ++ reason
  | output reason => "failed to write output: " ++ reason
  | iterationLimit limit =>
    "loop did not converge within " ++ Numeral.ofNat limit ++ " iterations"

end Error

end BagQuery
