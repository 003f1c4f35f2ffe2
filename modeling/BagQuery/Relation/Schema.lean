import BagQuery.Error
import BagQuery.Relation.Tuple
import BagQuery.Text.Blank

/-!
# Columns and schemas

A schema is a list of typed columns with different names.  Two schemas are compatible when their
columns have the same types in the same order; names do not matter then.

* `Schema.ofColumns` refuses the first column whose name was used before
  (`Schema.ofColumns_eq_ok_iff`: it accepts exactly the lists without a repeated name).
* `Column.ofString` reads a definition `name:type`, split at its last colon.
* `Schema.check` accepts the tuples that have the types of the schema.
-/

namespace BagQuery

open Text

/-- A named column. -/
@[ext]
structure Column where
  name : String
  type : ColumnType
deriving DecidableEq, Repr

namespace Column

/-- How a column is shown, which is also how it is defined. -/
def render (c : Column) : String := c.name ++ ":" ++ c.type.name

/-- Splits a text at its last colon. -/
def splitLastColon : List Char → Option (List Char × List Char)
  | [] => none
  | c :: cs =>
    match splitLastColon cs with
    | some (before, behind) => some (c :: before, behind)
    | none => if c = ':' then some ([], cs) else none

/-- Reads a definition `name:type`; blanks around either part do not count. -/
def ofString (s : String) : Except Error Column :=
  match splitLastColon s.toList with
  | none => .error (.columnDefinition ("'" ++ s ++ "' must be name:type"))
  | some (name, type) =>
    let spelling := String.ofList (trim type)
    match ColumnType.ofName? spelling with
    | some type => .ok ⟨String.ofList (trim name), type⟩
    | none => .error (.columnDefinition ("unknown column type '" ++ spelling ++ "'"))

/-- How a list of columns is shown. -/
def renderAll (columns : List Column) : String :=
  "(" ++ ",".intercalate (columns.map render) ++ ")"

/-- The first column, in order, whose name is among `seen` or the names before it. -/
def firstRepeated? : List String → List Column → Option Column
  | _, [] => none
  | seen, c :: cs => if c.name ∈ seen then some c else firstRepeated? (c.name :: seen) cs

theorem firstRepeated?_eq_none_iff {seen : List String} {columns : List Column} :
    firstRepeated? seen columns = none ↔
      (columns.map Column.name).Nodup ∧ ∀ c ∈ columns, c.name ∉ seen := by
  induction columns generalizing seen with
  | nil => simp [firstRepeated?]
  | cons c cs ih => grind [firstRepeated?]

end Column

/-- Columns with different names. -/
@[ext]
structure Schema where
  columns : List Column
  names_nodup : (columns.map Column.name).Nodup
deriving DecidableEq, Repr

namespace Schema

/-- The schema without columns, which is that of a plan that writes. -/
def empty : Schema := ⟨[], by simp⟩

/-- The number of columns. -/
def arity (s : Schema) : Nat := s.columns.length

/-- The types of the columns. -/
def types (s : Schema) : List ColumnType := s.columns.map Column.type

/-- How a schema is shown. -/
def render (s : Schema) : String := Column.renderAll s.columns

/-- The schema of some columns, unless a name is used twice. -/
def ofColumns (columns : List Column) : Except Error Schema :=
  match h : Column.firstRepeated? [] columns with
  | some c => .error (.duplicateColumn c.name)
  | none => .ok ⟨columns, (Column.firstRepeated?_eq_none_iff.1 h).1⟩

theorem ofColumns_eq_ok_iff {columns : List Column} {s : Schema} :
    ofColumns columns = .ok s ↔ s.columns = columns := by
  unfold ofColumns
  split
  · next c h =>
    simp only [reduceCtorEq, false_iff]
    rintro rfl
    rw [Column.firstRepeated?_eq_none_iff.2 ⟨s.names_nodup, by simp⟩] at h
    cases h
  · rw [Except.ok.injEq, Schema.ext_iff]
    exact eq_comm

/-- Reads column definitions; the first that cannot be read is reported before any repeated
name. -/
def ofStrings (definitions : List String) : Except Error Schema := do
  ofColumns (← definitions.mapM Column.ofString)

/-- The type of the column at an index. -/
def type? (s : Schema) (i : Nat) : Option ColumnType := s.types[i]?

/-- Same number of columns and same types. -/
def Compatible (s t : Schema) : Prop := s.types = t.types

instance (s t : Schema) : Decidable (Compatible s t) :=
  inferInstanceAs (Decidable (s.types = t.types))

/-- Refuses schemas that are not compatible. -/
def checkCompatible (s t : Schema) : Except Error Unit :=
  if Compatible s t then .ok () else .error (.incompatible s.render t.render)

/-- The index of the column with a name. -/
def index (s : Schema) (name : String) : Except Error Nat :=
  match s.columns.findIdx? (·.name == name) with
  | some i => .ok i
  | none => .error (.noSuchColumn name s.render)

/-- The column with a name. -/
def column (s : Schema) (name : String) : Except Error Column :=
  match s.columns.find? (·.name == name) with
  | some c => .ok c
  | none => .error (.noSuchColumn name s.render)

/-- The named columns, in the order of the names. -/
def project (s : Schema) (names : List String) : Except Error Schema := do
  ofColumns (← names.mapM s.column)

/-- The columns of a schema under the label of its side of a join. -/
def labelled (label : String) (s : Schema) : List Column :=
  s.columns.map fun c => ⟨label ++ "." ++ c.name, c.type⟩

/-- The columns of all schemas in a row, each under the label of its schema. -/
def join (schemas : List Schema) (labels : List String) : Except Error Schema :=
  if schemas.length = labels.length then
    ofColumns (List.zipWith labelled labels schemas).flatten
  else
    .error (.invalidPlan "schema join needs one prefix per schema")

/-- The first field, with its index and column, whose type is not that of its column. -/
def firstMismatch? : Nat → List Atom → List Column → Option (Nat × Atom × Column)
  | i, a :: as, c :: cs =>
    if a.type = c.type then firstMismatch? (i + 1) as cs else some (i, a, c)
  | _, _, _ => none

/-- Accepts the tuples that have the number and the types of the columns. -/
def check (s : Schema) (t : Tuple) : Except Error Unit :=
  if t.arity = s.arity then
    match firstMismatch? 0 t.atoms s.columns with
    | none => .ok ()
    | some (i, a, c) =>
      .error (.tupleType ("field " ++ Numeral.ofNat i ++ " of " ++ t.render ++ " is "
        ++ a.type.name ++ ", column '" ++ c.name ++ "' is " ++ c.type.name))
  else
    .error (.tupleType (t.render ++ " has " ++ Numeral.ofNat t.arity ++ " fields, schema "
      ++ s.render ++ " has " ++ Numeral.ofNat s.arity))

/-- The tuple has the types of the columns. -/
def Admits (s : Schema) (t : Tuple) : Prop := t.types = s.types

instance (s : Schema) (t : Tuple) : Decidable (s.Admits t) :=
  inferInstanceAs (Decidable (t.types = s.types))

theorem Admits.arity_eq {s : Schema} {t : Tuple} (h : s.Admits t) : t.arity = s.arity := by
  simpa [Tuple.types, types, Tuple.arity, arity] using congrArg List.length h

theorem firstMismatch?_eq_none_iff {i : Nat} {atoms : List Atom} {columns : List Column}
    (h : atoms.length = columns.length) :
    firstMismatch? i atoms columns = none ↔ atoms.map Atom.type = columns.map Column.type := by
  induction atoms generalizing i columns with
  | nil => cases columns <;> simp_all [firstMismatch?]
  | cons a as ih =>
    cases columns with
    | nil => simp at h
    | cons c cs =>
      by_cases hac : a.type = c.type <;> simp_all [firstMismatch?]

theorem check_eq_ok_iff {s : Schema} {t : Tuple} : s.check t = .ok () ↔ s.Admits t := by
  unfold check
  by_cases h : t.arity = s.arity
  · rw [if_pos h, Admits, Tuple.types, types, ← firstMismatch?_eq_none_iff (i := 0) h]
    cases firstMismatch? 0 t.atoms s.columns <;> simp
  · rw [if_neg h]
    exact iff_of_false nofun (mt Admits.arity_eq h)

end Schema

end BagQuery
