import BagQuery.Json.Basic

/-!
# Reading JSON

The grammar of JSON text.  Blanks are the space, tab, newline and carriage return; numbers have no
superfluous zeros in front; strings hold no raw control characters; nothing may stand behind the
value.

`Json.parse` bounds the nesting of calls by the length of the text: every two calls take a
character at least.  So it reads values however deep they are nested, where other readers may refuse
them (`Json.Library.Documented`).
-/

namespace BagQuery

open Text

namespace Json

/-- The blanks of JSON. -/
def isBlank (c : Char) : Bool := c == ' ' || c == '\t' || c == '\n' || c == '\r'

/-- Skips blanks. -/
def skipBlanks (cs : List Char) : List Char := cs.dropWhile isBlank

/-- The character that a letter behind a backslash stands for. -/
def unescapeChar? (c : Char) : Option Char :=
  if c = '"' ∨ c = '\\' ∨ c = '/' then some c
  else if c = 'b' then some '\x08'
  else if c = 'f' then some '\x0c'
  else if c = 'n' then some '\n'
  else if c = 'r' then some '\r'
  else if c = 't' then some '\t'
  else none

/-- A code unit of four hexadecimal digits. -/
def codeUnit? (a b c d : Char) : Option Nat := Numeral.value? 16 [a, b, c, d]

/-- The unit is the first of a pair. -/
def isHigh (u : Nat) : Bool := 0xd800 ≤ u && u < 0xdc00

/-- The unit is the second of a pair. -/
def isLow (u : Nat) : Bool := 0xdc00 ≤ u && u < 0xe000

/-- The character of a pair of units. -/
def pairChar (high low : Nat) : Char :=
  Char.ofNat (0x10000 + (high - 0xd800) * 0x400 + (low - 0xdc00))

/-- A part of a string: a character, or a code unit that was written in hexadecimal digits. -/
inductive Piece where
  | char (c : Char)
  | unit (u : Nat)

/-- The pieces of a string from behind its opening quote, and the text behind the string. -/
def pieces? : List Char → Option (List Piece × List Char)
  | [] => none
  | '"' :: rest => some ([], rest)
  | '\\' :: 'u' :: a :: b :: c :: d :: rest =>
    match codeUnit? a b c d, pieces? rest with
    | some u, some (ps, rest) => some (.unit u :: ps, rest)
    | _, _ => none
  | '\\' :: e :: rest =>
    match unescapeChar? e, pieces? rest with
    | some c, some (ps, rest) => some (.char c :: ps, rest)
    | _, _ => none
  | c :: rest =>
    if c = '\\' ∨ c.toNat < 0x20 then none
    else (pieces? rest).map fun (ps, rest) => (.char c :: ps, rest)

/-- The characters that pieces make up, behind the first unit of a pair if there is one. -/
def join? : (high : Option Nat) → List Piece → Option (List Char)
  | none, [] => some []
  | some _, [] => none
  | none, .char c :: ps => (join? none ps).map (c :: ·)
  | some _, .char _ :: _ => none
  | none, .unit u :: ps =>
    if isHigh u then join? (some u) ps
    else if isLow u then none
    else (join? none ps).map (Char.ofNat u :: ·)
  | some high, .unit u :: ps =>
    if isLow u then (join? none ps).map (pairChar high u :: ·) else none

/-- The characters of a string from behind its opening quote, or `none` if its units do not make
up characters; and the text behind the string. -/
def stringTail? (cs : List Char) : Option (Option (List Char) × List Char) :=
  (pieces? cs).map fun (ps, rest) => (join? none ps, rest)

/-- Digits, at least one, and what is behind them. -/
def digits? (cs : List Char) : Option (List Char) :=
  if (cs.takeWhile Char.isDigit).isEmpty then none else some (cs.dropWhile Char.isDigit)

/-- The text behind a fraction, if there is one. -/
def fraction? : List Char → Option (Bool × List Char)
  | '.' :: cs => (digits? cs).map (true, ·)
  | cs => some (false, cs)

/-- The text behind an exponent, if there is one. -/
def exponent? : List Char → Option (Bool × List Char)
  | c :: cs =>
    if c = 'e' ∨ c = 'E' then
      match cs with
      | '+' :: cs => (digits? cs).map (true, ·)
      | '-' :: cs => (digits? cs).map (true, ·)
      | cs => (digits? cs).map (true, ·)
    else some (false, c :: cs)
  | [] => some (false, [])

/-- A number without its sign. -/
def unsigned? (negative : Bool) (cs : List Char) : Option (Json × List Char) := do
  let ds := cs.takeWhile Char.isDigit
  let n ← Numeral.value? 10 ds
  if ds.head? == some '0' && ds.length > 1 then none
  let (hasFraction, rest) ← fraction? (cs.dropWhile Char.isDigit)
  let (hasExponent, rest) ← exponent? rest
  if hasFraction || hasExponent || (negative && n == 0) then return (.real, rest)
  return (.int (if negative then -(n : Int) else n), rest)

/-- A number. -/
def number? : List Char → Option (Json × List Char)
  | '-' :: cs => unsigned? true cs
  | cs => unsigned? false cs

/-- A string as a value. -/
def ofStringTail : Option (List Char) × List Char → Json × List Char
  | (some cs, rest) => (.string (String.ofList cs), rest)
  | (none, rest) => (.unpaired, rest)

/-- A field in front of others.  An object with a name that is no text is no text either. -/
def pushField (name : Option (List Char)) (v : Json) : Json → Json
  | .object fields =>
    match name with
    | some name => .object ((String.ofList name, v) :: fields)
    | none => .unpaired
  | _ => .unpaired

mutual

/-- A value, and the text behind it. -/
def value? : Nat → List Char → Option (Json × List Char)
  | 0, _ => none
  | fuel + 1, cs =>
    match skipBlanks cs with
    | '[' :: cs =>
      match skipBlanks cs with
      | ']' :: cs => some (.array [], cs)
      | cs => (items? fuel cs).map fun (vs, rest) => (.array vs, rest)
    | '\x7b' :: cs =>
      match skipBlanks cs with
      | '\x7d' :: cs => some (.object [], cs)
      | cs => fields? fuel cs
    | '"' :: cs => (stringTail? cs).map ofStringTail
    | 't' :: 'r' :: 'u' :: 'e' :: cs => some (.bool true, cs)
    | 'f' :: 'a' :: 'l' :: 's' :: 'e' :: cs => some (.bool false, cs)
    | 'n' :: 'u' :: 'l' :: 'l' :: cs => some (.null, cs)
    | cs => number? cs

/-- The values of an array from the first one on, and the text behind the bracket. -/
def items? : Nat → List Char → Option (List Json × List Char)
  | 0, _ => none
  | fuel + 1, cs =>
    match value? fuel cs with
    | none => none
    | some (v, rest) =>
      match skipBlanks rest with
      | ',' :: rest => (items? fuel rest).map fun (vs, rest) => (v :: vs, rest)
      | ']' :: rest => some ([v], rest)
      | _ => none

/-- The object of the fields from the first one on, and the text behind the brace. -/
def fields? : Nat → List Char → Option (Json × List Char)
  | 0, _ => none
  | fuel + 1, cs =>
    match skipBlanks cs with
    | '"' :: cs =>
      match stringTail? cs with
      | none => none
      | some (name, rest) =>
        match skipBlanks rest with
        | ':' :: rest =>
          match value? fuel rest with
          | none => none
          | some (v, rest) =>
            match skipBlanks rest with
            | ',' :: rest => (fields? fuel rest).map fun (o, rest) => (pushField name v o, rest)
            | '\x7d' :: rest => some (pushField name v (.object []), rest)
            | _ => none
        | _ => none
    | _ => none

end

/-- Reads a text that is one value. -/
def parse (text : String) : Option Json :=
  let cs := text.toList
  match value? (2 * cs.length + 2) cs with
  | some (v, rest) => if (skipBlanks rest).isEmpty then some v else none
  | none => none

end Json

end BagQuery
