/-!
# Files

A program reads files by path.  `Files` says what each path leads to while the program runs.

A path is absolute when it starts with a slash; the others are taken from a base directory
(`Path.join`).  The names of a path say which directory it is in (`Path.parent`) and what the file
is called (`Path.stem?`); empty names and single periods between them change nothing.
-/

namespace BagQuery

/-- What a path leads to. -/
inductive FileState where
  /-- Nothing that can be opened. -/
  | refused (reason : String)
  /-- Something that can be opened but not read, such as a directory. -/
  | unreadable (reason : String)
  /-- A file. -/
  | content (bytes : ByteArray)

/-- What each path leads to. -/
abbrev Files := String → FileState

/-- Why a file cannot be opened or read. -/
inductive FileFault where
  | notFound
  | isDirectory
  | notDirectory
  | nameTooLong
  | nulInName
  | notText
deriving DecidableEq, Repr

/-- The wording of a fault, with the number that the system has for it. -/
def FileFault.reason : FileFault → String
  | notFound => "No such file or directory (os error 2)"
  | isDirectory => "Is a directory (os error 21)"
  | notDirectory => "Not a directory (os error 20)"
  | nameTooLong => "File name too long (os error 36)"
  | nulInName => "file name contained an unexpected NUL byte"
  | notText => "stream did not contain valid UTF-8"

/-- The text of a whole file, or why there is none. -/
def FileState.text : FileState → Except String String
  | refused reason => .error reason
  | unreadable reason => .error reason
  | content bytes =>
    match String.fromUTF8? bytes with
    | some text => .ok text
    | none => .error FileFault.notText.reason

namespace Path

/-- The path does not depend on a base directory. -/
def isAbsolute (path : String) : Bool := path.toList.head? == some '/'

/-- A path seen from a base directory. -/
def join (base path : String) : String :=
  if isAbsolute path then path
  else if base.isEmpty || base.toList.getLast? == some '/' then base ++ path
  else base ++ "/" ++ path

/-- Drops the names at the end that change nothing. -/
def trimNames (names : List String) : List String :=
  (names.reverse.dropWhile fun name => name = "" ∨ name = ".").reverse

/-- The names in front of the last one. -/
def namesAbove (names : List String) : List String := trimNames (trimNames names).dropLast

/-- The directory that a path is in; the empty path if it has a single name. -/
def parent (path : String) : String :=
  match path.splitOn "/" with
  | "" :: name :: names => "/" ++ "/".intercalate (namesAbove (name :: names))
  | "." :: name :: names => "/".intercalate ("." :: namesAbove (name :: names))
  | names => "/".intercalate (namesAbove names)

/-- A name without its last extension.  A period in front of all else starts none. -/
def dropExtension (name : String) : String :=
  match name.toList.reverse.dropWhile (· != '.') with
  | _ :: c :: before => String.ofList (c :: before).reverse
  | _ => name

/-- The name of the file that a path leads to, without its last extension. -/
def stem? (path : String) : Option String :=
  match (trimNames (path.splitOn "/")).getLast? with
  | none => none
  | some ".." => none
  | some name => some (dropExtension name)

end Path

end BagQuery
