/-!
# Log filters

A log filter is a list of directives with commas between them.  A directive is a level, or says
what it is about, a target or a span in brackets or both, and perhaps a level behind an equals
sign.  `LogFilter.isValid` is all that a program's answers depend on.
-/

namespace BagQuery

namespace LogFilter

/-- The levels by name and by number. -/
def levels : List String :=
  ["trace", "debug", "info", "warn", "error", "off", "0", "1", "2", "3", "4", "5"]

/-- The text is a level, in small or capital letters. -/
def isLevel (cs : List Char) : Bool := levels.contains (String.ofList (cs.map Char.toLower))

/-- A character of a target. -/
def isTargetChar (c : Char) : Bool := c.isAlphanum || c == '_' || c == ':' || c == '-'

/-- The text behind a target or span. -/
def subject? : List Char → Option (List Char)
  | [] => none
  | '[' :: cs => (cs.dropWhile (· != ']')).tail?
  | c :: cs => if isTargetChar c then some (cs.dropWhile isTargetChar) else none

/-- What may stand behind the subjects: nothing, or an equals sign and perhaps a level. -/
def isTail : List Char → Bool
  | [] => true
  | '=' :: level => level.isEmpty || isLevel level
  | _ => false

/-- The text is a directive. -/
def isDirective (cs : List Char) : Bool :=
  isLevel cs ||
    match subject? cs with
    | none => false
    | some rest => isTail rest || ((subject? rest).map isTail).getD false

/-- The text is a filter; empty pieces of it do not count. -/
def isValid (filter : String) : Bool :=
  (filter.splitOn ",").all fun piece => piece.isEmpty || isDirective piece.toList

end LogFilter

end BagQuery
