import BagQuery.Text.Numeral

/-!
# JSON values and their text

Objects keep the order of their fields.  A number is an integer, or some other number of which
nothing more is kept.  A string whose escapes do not make up characters can be read, but it is no
text (`Json.unpaired`).

`Json.render` writes a value without blanks; it escapes quotes, backslashes and control
characters.  Other writers may escape more; what is proved of JSON texts is proved of any library
that keeps to the format (`Json.Library`).
-/

namespace BagQuery

open Text

/-- A JSON value. -/
inductive Json where
  | null
  | bool (b : Bool)
  | int (n : Int)
  | real
  | string (s : String)
  | unpaired
  | array (items : List Json)
  | object (fields : List (String × Json))

namespace Json

/-- A character of a string. -/
def escapeChar (c : Char) : List Char :=
  if c = '"' then ['\\', '"']
  else if c = '\\' then ['\\', '\\']
  else if c = '\x08' then ['\\', 'b']
  else if c = '\t' then ['\\', 't']
  else if c = '\n' then ['\\', 'n']
  else if c = '\x0c' then ['\\', 'f']
  else if c = '\r' then ['\\', 'r']
  else if c.toNat < 0x10 then ['\\', 'u', '0', '0', '0', Numeral.digitChar c.toNat]
  else if c.toNat < 0x20 then ['\\', 'u', '0', '0', '1', Numeral.digitChar (c.toNat - 0x10)]
  else [c]

/-- A string between its quotes. -/
def stringChars (s : String) : List Char := '"' :: s.toList.flatMap escapeChar ++ ['"']

mutual

/-- The text of a value. -/
def chars : Json → List Char
  | null => "null".toList
  | bool true => "true".toList
  | bool false => "false".toList
  | int n => Numeral.intChars n
  | real => "0.0".toList
  | string s => stringChars s
  | unpaired => stringChars ""
  | array items => '[' :: itemsChars items ++ [']']
  | object fields => '\x7b' :: fieldsChars fields ++ ['\x7d']

/-- The texts of values, with commas between them. -/
def itemsChars : List Json → List Char
  | [] => []
  | [v] => chars v
  | v :: vs => chars v ++ ',' :: itemsChars vs

/-- The texts of fields, with commas between them. -/
def fieldsChars : List (String × Json) → List Char
  | [] => []
  | [(name, v)] => stringChars name ++ ':' :: chars v
  | (name, v) :: fields => stringChars name ++ ':' :: chars v ++ ',' :: fieldsChars fields

end

/-- The text of a value. -/
def render (v : Json) : String := String.ofList v.chars

end Json

end BagQuery
