import BagQuery.Text.Numeral

/-!
# Options

The arguments of the command.  An option is a word that starts with two dashes, and its value
stands behind an equals sign or is the next argument, which must not look like an option.  Behind
two dashes alone, options end.  The one other argument is the program file.

Arguments are read from left to right, and the first that cannot stand where it is decides, unless
help or the version was asked for before it.
-/

namespace BagQuery

open Text

namespace Command

/-- How outputs are written. -/
inductive Format where
  | text
  | json
deriving DecidableEq, Repr

/-- What a run is asked to do. -/
structure Options where
  file : Option String
  eager : Bool
  owner : Option String
  maxIterations : Option Nat
  dataDir : Option String
  format : Option Format
  preferences : Option String
  logLevel : Option String
deriving DecidableEq, Repr

/-- The options that take a value. -/
inductive OptionName where
  | owner
  | maxIterations
  | dataDir
  | format
  | preferences
  | logLevel
deriving DecidableEq, Repr

/-- The option that is written as a word behind two dashes. -/
def OptionName.ofString? : String → Option OptionName
  | "owner" => some .owner
  | "max-iterations" => some .maxIterations
  | "data-dir" => some .dataDir
  | "format" => some .format
  | "config" => some .preferences
  | "log-level" => some .logLevel
  | _ => none

/-- The format of a name. -/
def Format.ofName? : String → Option Format
  | "text" => some .text
  | "json" => some .json
  | _ => none

namespace Options

/-- Nothing is asked. -/
def unset : Options := ⟨none, false, none, none, none, none, none, none⟩

/-- A value that was read, for what has none yet. -/
def fill? {α : Type} : (old new : Option α) → Option (Option α)
  | none, some v => some (some v)
  | _, _ => none

/-- A path, which has a character at least. -/
def path? (s : String) : Option String := if s.isEmpty then none else some s

/-- Takes the program file. -/
def setFile (path : String) (o : Options) : Option Options :=
  return { o with file := ← fill? o.file (path? path) }

/-- Takes the value of an option. -/
def set (name : OptionName) (value : String) (o : Options) : Option Options :=
  match name with
  | .owner => return { o with owner := ← fill? o.owner (some value) }
  | .maxIterations =>
    return { o with maxIterations := ← fill? o.maxIterations (Numeral.count? value.toList) }
  | .dataDir => return { o with dataDir := ← fill? o.dataDir (path? value) }
  | .format => return { o with format := ← fill? o.format (Format.ofName? value) }
  | .preferences => return { o with preferences := ← fill? o.preferences (path? value) }
  | .logLevel => return { o with logLevel := ← fill? o.logLevel (some value) }

/-- Takes the option without a value. -/
def setEager (o : Options) : Option Options :=
  if o.eager then none else some { o with eager := true }

end Options

/-- What the arguments ask for. -/
inductive Request where
  | run (o : Options)
  | help
  | version
deriving DecidableEq, Repr

/-- What an argument is by its looks. -/
inductive Argument where
  /-- Two dashes. -/
  | endOfOptions
  /-- A word behind two dashes, perhaps with a value. -/
  | long (name : String) (value : Option String)
  /-- Something behind one dash that starts with a letter. -/
  | short (letter : Char)
  | plain
deriving DecidableEq, Repr

/-- Tells what an argument is.  A dash alone is no option. -/
def Argument.ofString (arg : String) : Argument :=
  match arg.toList with
  | ['-', '-'] => .endOfOptions
  | '-' :: '-' :: cs =>
    .long (String.ofList (cs.takeWhile (· != '=')))
      ((cs.dropWhile (· != '=')).tail?.map String.ofList)
  | '-' :: c :: _ => .short c
  | _ => .plain

namespace Request

/-- Reads arguments behind the end of options. -/
def ofPlain? (o : Options) : List String → Option Request
  | [] => some (.run o)
  | arg :: args => (o.setFile arg).bind fun o => ofPlain? o args

/-- Reads arguments on top of the options `o`. -/
def ofArguments? (o : Options) : List String → Option Request
  | [] => some (.run o)
  | arg :: args =>
    match Argument.ofString arg with
    | .endOfOptions => ofPlain? o args
    | .plain => (o.setFile arg).bind fun o => ofArguments? o args
    | .short 'h' => some .help
    | .short 'V' => some .version
    | .short _ => none
    | .long "help" none => some .help
    | .long "version" none => some .version
    | .long "eager" none => o.setEager.bind fun o => ofArguments? o args
    | .long name (some value) =>
      (OptionName.ofString? name).bind fun name =>
        (o.set name value).bind fun o => ofArguments? o args
    | .long name none =>
      match args with
      | [] => none
      | value :: args =>
        if Argument.ofString value = .plain then
          (OptionName.ofString? name).bind fun name =>
            (o.set name value).bind fun o => ofArguments? o args
        else none

end Request

end Command

end BagQuery
