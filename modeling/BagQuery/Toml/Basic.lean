/-!
# TOML values

A table knows how it was made, because that decides whether it can be added to later: a table that
a header names is complete when its section ends, one that a longer header or a dotted key only
passes through can be entered again in the same way, and an inline table is closed.

* `Toml.define` makes the table of a header, `Toml.assign` a key with a value.
* Both refuse to give a meaning to a key that has one.
-/

namespace BagQuery

/-- How a table was made. -/
inductive TableKind where
  /-- By its own header. -/
  | header
  /-- On the way to a header below it. -/
  | passed
  /-- On the way of a dotted key. -/
  | dotted
  /-- In braces. -/
  | inline
  /-- On the way of a dotted key in braces. -/
  | inlineDotted
deriving DecidableEq, Repr

namespace TableKind

/-- The table was written in braces, or on the way of a key there. -/
def isInline : TableKind → Bool
  | inline | inlineDotted => true
  | _ => false

/-- A way that makes tables of one kind may go through a table of another. -/
def admits : (made there : TableKind) → Bool
  | .passed, there => !there.isInline
  | .dotted, there => there == .passed || there == .dotted
  | .inlineDotted, there => there == .inlineDotted
  | _, _ => false

end TableKind

/-- A TOML value.  Of truth values, dates and numbers that are not integers nothing more is
kept. -/
inductive Toml where
  | string (s : String)
  | int (n : Int)
  | other
  | array (items : List Toml)
  | table (kind : TableKind) (fields : List (String × Toml))

namespace Toml

/-- Changes the value of a key, or adds the key. -/
def alterField (key : String) (f : Option Toml → Option Toml) :
    List (String × Toml) → Option (List (String × Toml))
  | [] => (f none).map fun v => [(key, v)]
  | (k, v) :: fields =>
    if k = key then (f (some v)).map fun v => (k, v) :: fields
    else (alterField key f fields).map ((k, v) :: ·)

/-- Changes the table at the end of a way, making the tables that are missing on it. -/
def alter (made : TableKind) (f : Toml → Option Toml) : List String → Toml → Option Toml
  | [], t => f t
  | key :: path, .table kind fields =>
    (alterField key (fun
      | none => alter made f path (.table made [])
      | some (.table there fields) =>
        if made.admits there then alter made f path (.table there fields) else none
      | some _ => none) fields).map (.table kind ·)
  | _ :: _, _ => none

/-- Adds a new key to a table. -/
def addField (key : String) (v : Toml) : Toml → Option Toml
  | table kind fields =>
    (alterField key (fun | none => some v | some _ => none) fields).map (.table kind ·)
  | _ => none

/-- Makes the table of a header in a table. -/
def addHeader (key : String) : Toml → Option Toml
  | table kind fields =>
    (alterField key (fun
      | none => some (.table .header [])
      | some (.table .passed fields) => some (.table .header fields)
      | some _ => none) fields).map (.table kind ·)
  | _ => none

/-- Makes the table of a header. -/
def define (path : List String) (root : Toml) : Option Toml :=
  match path.getLast? with
  | some key => alter .passed (addHeader key) path.dropLast root
  | none => none

/-- Gives a value to a key, which may be dotted, in a table. -/
def assign (made : TableKind) (path : List String) (v : Toml) (t : Toml) : Option Toml :=
  match path.dropLast, path.getLast? with
  | _, none => none
  | [], some key => addField key v t
  | way, some key =>
    alter made (fun
      | .table kind fields => if kind = made then addField key v (.table kind fields) else none
      | _ => none) way t

end Toml

end BagQuery
