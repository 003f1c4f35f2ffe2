import BagQuery.Json.Parser
import BagQuery.Plan.Key
import BagQuery.Relation.Schema

/-!
# Values from JSON

Tuples, columns and keys as they are read from JSON.  An atom has no tag: an integer in range is
an integer and a string is a string.  A record is an object with each of its fields once, where
other fields do not count, or an array of exactly its fields in order.

A program only encodes, and these decoders are one choice of what reads it: that what is encoded is
decoded again is proved of any decoders with the laws of `Json.Library.Documented`.
-/

namespace BagQuery

namespace Json

/-- A signed integer of 64 bits. -/
def int64? : Json → Option Int64
  | int n => Text.Numeral.toInt64? n
  | _ => none

/-- The text of a string. -/
def string? : Json → Option String
  | string s => some s
  | _ => none

/-- The only value under a name. -/
def field? (fields : List (String × Json)) (name : String) : Option Json :=
  match fields.filter (·.1 == name) with
  | [(_, v)] => some v
  | _ => none

/-- The values of the named fields of a record. -/
def record? (names : List String) : Json → Option (List Json)
  | object fields => names.mapM (field? fields)
  | array items => if items.length = names.length then some items else none
  | _ => none

end Json

/-- An atom from JSON: the first of its variants that the value is. -/
def Atom.ofJson? (v : Json) : Option Atom := (v.int64?.map Atom.int).or (v.string?.map .string)

/-- A tuple from JSON. -/
def Tuple.ofJson? : Json → Option Tuple
  | .array items => (items.mapM Atom.ofJson?).map Tuple.mk
  | _ => none

/-- A column type from JSON: its name, alone or as the only field of an object, with no value. -/
def ColumnType.ofJson? : Json → Option ColumnType
  | .string s => ColumnType.ofName? s
  | .object [(s, .null)] => ColumnType.ofName? s
  | _ => none

/-- A column from JSON. -/
def Column.ofJson? (v : Json) : Option Column := do
  match ← v.record? ["name", "type"] with
  | [name, type] => return ⟨← name.string?, ← ColumnType.ofJson? type⟩
  | _ => none

/-- A key from JSON. -/
def Key.ofJson? (v : Json) : Option Key := do
  match ← v.record? ["owner", "program", "relation"] with
  | [owner, program, relation] =>
    return ⟨← owner.string?, ← program.string?, ← relation.string?⟩
  | _ => none

end BagQuery
