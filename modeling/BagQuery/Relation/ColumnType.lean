/-!
# Column types

A column holds signed 64-bit integers or strings.
-/

namespace BagQuery

/-- What the values of a column are. -/
inductive ColumnType where
  | int
  | string
deriving DecidableEq, Repr

namespace ColumnType

/-- How a type is spelled. -/
def name : ColumnType → String
  | int => "int"
  | string => "string"

/-- The type spelled so. -/
def ofName? (s : String) : Option ColumnType :=
  if s = "int" then some int else if s = "string" then some string else none

theorem ofName?_name (t : ColumnType) : ofName? t.name = some t := by cases t <;> rfl

theorem ofName?_eq_some {s : String} {t : ColumnType} (h : ofName? s = some t) : s = t.name := by
  unfold ofName? at h
  split at h
  · cases h; assumption
  · split at h
    · cases h; assumption
    · cases h

end ColumnType

end BagQuery
