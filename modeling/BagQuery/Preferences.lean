import BagQuery.File
import BagQuery.Session
import BagQuery.Toml.Parser

/-!
# Preferences

A preferences file is a TOML document with the sections `engine` and `logging`.  Each section and
each of its fields may be missing, and nothing else may be there.  A section can also be written
as an array of all its fields in order.

* `Preferences.ofToml?` reads a document.
* `Preferences.find` looks for the file: where the user says, or else in the user's configuration
  directory, where it may be missing.
-/

namespace BagQuery

/-- Environment variables. -/
abbrev Variables := String → Option String

/-- What a user may have settled beforehand. -/
structure Preferences where
  mode : Option Mode
  owner : Option String
  maxIterations : Option Nat
  dataDir : Option String
  logLevel : Option String
deriving DecidableEq, Repr

/-! ## Reading a document -/

namespace Toml

/-- The text of a string. -/
def string? : Toml → Option String
  | string s => some s
  | _ => none

/-- A number of things. -/
def count? : Toml → Option Nat
  | int n => n.toNat?
  | _ => none

/-- Nothing is in the table or array. -/
def isVoid : Toml → Bool
  | array items => items.isEmpty
  | table _ fields => fields.isEmpty
  | _ => false

/-- The named fields of a record, each of which a table may leave out. -/
def record? (names : List String) : Toml → Option (List (Option Toml))
  | table _ fields =>
    if fields.all (names.contains ·.1) then some (names.map fun name => fields.lookup name)
    else none
  | array items =>
    if names.length ≤ items.length then some ((items.take names.length).map some) else none
  | _ => none

/-- The named fields of a record that may be missing as a whole. -/
def section? (names : List String) : Option Toml → Option (List (Option Toml))
  | some v => v.record? names
  | none => some (names.map fun _ => none)

/-- Reads what may be missing. -/
def optional? {α : Type} (read : Toml → Option α) : Option Toml → Option (Option α)
  | some v => (read v).map some
  | none => some none

end Toml

/-- The mode of a name. -/
def Mode.ofName? : String → Option Mode
  | "lazy" => some .lazy
  | "eager" => some .eager
  | _ => none

/-- A mode from TOML: its name, alone or as the only field of a table, with nothing in it. -/
def Mode.ofToml? : Toml → Option Mode
  | .string name => ofName? name
  | .table _ [(name, v)] => if v.isVoid then ofName? name else none
  | _ => none

namespace Preferences

/-- Nothing is settled. -/
def unset : Preferences := ⟨none, none, none, none, none⟩

/-- Preferences from a document. -/
def ofToml? (document : Toml) : Option Preferences := do
  let [engine, logging] ← document.record? ["engine", "logging"] | none
  let [mode, owner, maxIterations, dataDir] ←
    Toml.section? ["mode", "owner", "max_iterations", "data_dir"] engine | none
  let [level] ← Toml.section? ["level"] logging | none
  return {
    mode := ← Toml.optional? Mode.ofToml? mode
    owner := ← Toml.optional? Toml.string? owner
    maxIterations := ← Toml.optional? Toml.count? maxIterations
    dataDir := ← Toml.optional? Toml.string? dataDir
    logLevel := ← Toml.optional? Toml.string? level }

/-! ## Finding the file -/

/-- Why preferences cannot be had. -/
inductive Fault where
  | unreadable (path reason : String)
  | malformed (path : String)
deriving DecidableEq, Repr

/-- The wording of a fault. -/
def Fault.message : Fault → String
  | unreadable path reason => "failed to read CLI config " ++ path ++ ": " ++ reason
  | malformed path => "failed to parse CLI config " ++ path

/-- The directory for a user's configuration files: as the desktop says, if it gives an absolute
path, or else below the home directory. -/
def baseDir (vars : Variables) : Option String :=
  match vars "XDG_CONFIG_HOME" with
  | some dir => if Path.isAbsolute dir then some dir else belowHome
  | none => belowHome
where
  belowHome : Option String :=
    match vars "HOME" with
    | some home => if home.isEmpty then none else some (Path.join home ".config")
    | none => none

/-- Where the file is if the user does not say. -/
def defaultPath (vars : Variables) : Option String :=
  (baseDir vars).map fun dir => Path.join (Path.join dir "myrial") "config.toml"

/-- Where the file is. -/
def path (vars : Variables) (asked : Option String) : Option String :=
  asked <|> defaultPath vars

/-- Reads the file at a path. -/
def read (files : Files) (path : String) : Except Fault Preferences :=
  match (files path).text with
  | .error reason => .error (.unreadable path reason)
  | .ok text =>
    match (Toml.parse text).bind ofToml? with
    | some preferences => .ok preferences
    | none => .error (.malformed path)

/-- Finds the file that the user asked for, or the one that may be at the default place. -/
def find (files : Files) (vars : Variables) (asked : Option String) :
    Except Fault Preferences :=
  match asked, defaultPath vars with
  | some path, _ => read files path
  | none, none => .ok unset
  | none, some path =>
    match files path with
    | .refused _ => .ok unset
    | _ => read files path

end Preferences

end BagQuery
