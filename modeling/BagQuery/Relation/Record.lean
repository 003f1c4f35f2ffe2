import BagQuery.Relation.Schema

/-!
# Records

A record is a tuple as one line of a file: its fields in order with a tab between two of them.
An integer is written in decimal.  In a string the backslash, tab, newline and carriage return are
written as a backslash and a letter, so no field holds a raw tab or line break.

* `unescape?_escape`: reading an escaped string gives the string.
* `Record.read` reads a line under a schema, `Record.write` writes a tuple.
-/

namespace BagQuery

open Text

namespace Record

/-- A character of a string field. -/
def escapeChar (c : Char) : List Char :=
  if c = '\\' then ['\\', '\\']
  else if c = '\t' then ['\\', 't']
  else if c = '\n' then ['\\', 'n']
  else if c = '\r' then ['\\', 'r']
  else [c]

/-- A string field. -/
def escape (cs : List Char) : List Char := cs.flatMap escapeChar

/-- The character that a letter behind a backslash stands for. -/
def unescapeChar? (c : Char) : Option Char :=
  if c = '\\' then some '\\'
  else if c = 't' then some '\t'
  else if c = 'n' then some '\n'
  else if c = 'r' then some '\r'
  else none

/-- Reads a string field; `none` if a backslash starts no escape. -/
def unescape? : List Char → Option (List Char)
  | [] => some []
  | '\\' :: c :: cs => do return (← unescapeChar? c) :: (← unescape? cs)
  | c :: cs => if c = '\\' then none else do return c :: (← unescape? cs)

theorem unescape?_escape_append (c : Char) (cs : List Char) :
    unescape? (escapeChar c ++ cs) = (unescape? cs).map (c :: ·) := by
  unfold escapeChar
  repeat' split
  all_goals try subst_vars
  all_goals cases h : unescape? cs <;> simp_all [unescape?, unescapeChar?]

theorem unescape?_escape (cs : List Char) : unescape? (escape cs) = some cs := by
  induction cs with
  | nil => rfl
  | cons c cs ih =>
    rw [escape, List.flatMap_cons, unescape?_escape_append]
    exact congrArg (Option.map (c :: ·)) ih

/-- The fields of a line: the texts between its tabs, at least one. -/
def fields : List Char → List (List Char)
  | [] => [[]]
  | c :: cs =>
    if c = '\t' then [] :: fields cs
    else match fields cs with
      | f :: fs => (c :: f) :: fs
      | [] => [[c]]

/-- Reads a field of a column; blanks around an integer do not count. -/
def readField? (type : ColumnType) (field : List Char) : Option Atom :=
  match type with
  | .int => (Numeral.int64? (trim field)).map .int
  | .string => (unescape? field).map fun cs => .string (String.ofList cs)

/-- Reads a field, or says why it does not fit its column. -/
def readField (field : List Char) (c : Column) : Except Error Atom :=
  match readField? c.type field with
  | some a => .ok a
  | none =>
    .error (.tupleType ("'" ++ String.ofList field ++ "' is not a valid " ++ c.type.name
      ++ " for column '" ++ c.name ++ "'"))

/-- Reads fields up to the first that does not fit. -/
def readFields : List (List Char) → List Column → Except Error (List Atom)
  | f :: fs, c :: cs => do return (← readField f c) :: (← readFields fs cs)
  | _, _ => .ok []

/-- Reads a line as a tuple of the schema. -/
def read (s : Schema) (line : String) : Except Error Tuple :=
  let fs := fields line.toList
  if fs.length = s.arity then
    (readFields fs s.columns).map Tuple.mk
  else
    .error (.tupleType ("record has " ++ Numeral.ofNat fs.length ++ " fields, schema " ++ s.render
      ++ " has " ++ Numeral.ofNat s.arity))

/-- A field as it is written. -/
def writeField : Atom → List Char
  | .int value => (Numeral.ofInt64 value).toList
  | .string value => escape value.toList

/-- A tuple as one line, without a line end. -/
def write (t : Tuple) : String :=
  String.ofList (['\t'].intercalate (t.atoms.map writeField))

end Record

end BagQuery
