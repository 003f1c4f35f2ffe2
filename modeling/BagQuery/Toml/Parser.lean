import BagQuery.Toml.Date
import BagQuery.Toml.Number

/-!
# Reading TOML

The grammar of TOML documents, for what settings can be made of: headers, dotted and quoted keys,
the four kinds of strings, numbers, truth values, dates, arrays and inline tables.  Arrays of tables
are refused, for no setting is one.  Brackets are nested `Toml.maxDepth` deep at most.

`Toml.parse` bounds the nesting of calls by the length of the text, of which each call takes a
character at least.
-/

namespace BagQuery

open Text

namespace Toml

/-! ## Blanks and comments -/

def isSpace (c : Char) : Bool := c == ' ' || c == '\t'

/-- Skips spaces and tabs. -/
def skipSpaces (cs : List Char) : List Char := cs.dropWhile isSpace

/-- A character that may stand as it is: no control character but the tab. -/
def isPlain (c : Char) : Bool := c == '\t' || (0x20 ≤ c.toNat && c.toNat != 0x7f)

/-- Skips a comment. -/
def skipComment : List Char → List Char
  | '#' :: cs => cs.dropWhile isPlain
  | cs => cs

/-- The text behind a line end. -/
def newline? : List Char → Option (List Char)
  | '\n' :: cs => some cs
  | '\r' :: '\n' :: cs => some cs
  | _ => none

/-- The text behind the rest of a line, which holds nothing but a comment. -/
def endLine? (cs : List Char) : Option (List Char) :=
  match skipComment (skipSpaces cs) with
  | [] => some []
  | cs => newline? cs

/-- Skips spaces, line ends and comments. -/
def skipFiller : (inComment : Bool) → List Char → List Char
  | _, [] => []
  | _, '\n' :: cs => skipFiller false cs
  | _, '\r' :: '\n' :: cs => skipFiller false cs
  | true, c :: cs => if isPlain c then skipFiller true cs else c :: cs
  | false, '#' :: cs => skipFiller true cs
  | false, c :: cs => if isSpace c then skipFiller false cs else c :: cs

/-! ## Strings -/

/-- The character of a code point. -/
def scalar? (digits : List Char) : Option Char :=
  match Numeral.value? 16 digits with
  | some n => if h : n.isValidChar then some (Char.ofNatAux n h) else none
  | none => none

/-- The character that a letter behind a backslash stands for. -/
def unescapeChar? (c : Char) : Option Char :=
  if c = '"' ∨ c = '\\' then some c
  else if c = 'b' then some '\x08'
  else if c = 't' then some '\t'
  else if c = 'n' then some '\n'
  else if c = 'f' then some '\x0c'
  else if c = 'r' then some '\r'
  else none

/-- Puts a character that may be missing in front of a string that may be missing. -/
def push? (c? : Option Char) (tail? : Option (List Char × List Char)) :
    Option (List Char × List Char) := do
  let c ← c?
  let (cs, rest) ← tail?
  return (c :: cs, rest)

/-- A string from behind its opening quote. -/
def basicTail? : List Char → Option (List Char × List Char)
  | [] => none
  | '"' :: rest => some ([], rest)
  | '\\' :: 'u' :: a :: b :: c :: d :: rest => push? (scalar? [a, b, c, d]) (basicTail? rest)
  | '\\' :: 'U' :: a :: b :: c :: d :: e :: f :: g :: h :: rest =>
    push? (scalar? [a, b, c, d, e, f, g, h]) (basicTail? rest)
  | '\\' :: e :: rest => push? (unescapeChar? e) (basicTail? rest)
  | c :: rest => if isPlain c && c != '\\' then push? (some c) (basicTail? rest) else none

/-- A line ends here but for spaces. -/
def endsLine (cs : List Char) : Bool := (newline? (skipSpaces cs)).isSome

/-- A string of several lines from behind its opening quotes.  Behind a backslash at the end of a
line, spaces and line ends are skipped (`skipping`). -/
def multiBasicTail? : (skipping : Bool) → List Char → Option (List Char × List Char)
  | _, [] => none
  | true, ' ' :: rest => multiBasicTail? true rest
  | true, '\t' :: rest => multiBasicTail? true rest
  | true, '\n' :: rest => multiBasicTail? true rest
  | true, '\r' :: '\n' :: rest => multiBasicTail? true rest
  | _, '"' :: '"' :: '"' :: '"' :: '"' :: rest => some (['"', '"'], rest)
  | _, '"' :: '"' :: '"' :: '"' :: rest => some (['"'], rest)
  | _, '"' :: '"' :: '"' :: rest => some ([], rest)
  | _, '\\' :: 'u' :: a :: b :: c :: d :: rest =>
    push? (scalar? [a, b, c, d]) (multiBasicTail? false rest)
  | _, '\\' :: 'U' :: a :: b :: c :: d :: e :: f :: g :: h :: rest =>
    push? (scalar? [a, b, c, d, e, f, g, h]) (multiBasicTail? false rest)
  | _, '\\' :: '\n' :: rest => multiBasicTail? true rest
  | _, '\\' :: '\r' :: '\n' :: rest => multiBasicTail? true rest
  | _, '\\' :: ' ' :: rest => if endsLine rest then multiBasicTail? true rest else none
  | _, '\\' :: '\t' :: rest => if endsLine rest then multiBasicTail? true rest else none
  | _, '\\' :: e :: rest => push? (unescapeChar? e) (multiBasicTail? false rest)
  | _, '\r' :: '\n' :: rest => push? (some '\n') (multiBasicTail? false rest)
  | _, c :: rest =>
    if (isPlain c || c == '\n') && c != '\\' then push? (some c) (multiBasicTail? false rest)
    else none

/-- A literal string from behind its opening quote. -/
def literalTail? : List Char → Option (List Char × List Char)
  | [] => none
  | '\'' :: rest => some ([], rest)
  | c :: rest => if isPlain c then push? (some c) (literalTail? rest) else none

/-- A literal string of several lines from behind its opening quotes. -/
def multiLiteralTail? : List Char → Option (List Char × List Char)
  | [] => none
  | '\'' :: '\'' :: '\'' :: '\'' :: '\'' :: rest => some (['\'', '\''], rest)
  | '\'' :: '\'' :: '\'' :: '\'' :: rest => some (['\''], rest)
  | '\'' :: '\'' :: '\'' :: rest => some ([], rest)
  | '\r' :: '\n' :: rest => push? (some '\n') (multiLiteralTail? rest)
  | c :: rest =>
    if isPlain c || c == '\n' then push? (some c) (multiLiteralTail? rest) else none

/-- Skips the line end that the first line of a string may start with. -/
def skipFirstNewline (cs : List Char) : List Char := (newline? cs).getD cs

/-- A string of any kind; `none` if there is no quote. -/
def anyString? : List Char → Option (List Char × List Char)
  | '"' :: '"' :: '"' :: rest => multiBasicTail? false (skipFirstNewline rest)
  | '"' :: rest => basicTail? rest
  | '\'' :: '\'' :: '\'' :: rest => multiLiteralTail? (skipFirstNewline rest)
  | '\'' :: rest => literalTail? rest
  | _ => none

/-! ## Keys -/

/-- A character of a key without quotes. -/
def isBare (c : Char) : Bool := c.isAlphanum || c == '_' || c == '-'

/-- A part of a key. -/
def keyPart? : List Char → Option (String × List Char)
  | '"' :: rest => (basicTail? rest).map fun (cs, rest) => (String.ofList cs, rest)
  | '\'' :: rest => (literalTail? rest).map fun (cs, rest) => (String.ofList cs, rest)
  | cs =>
    let part := cs.takeWhile isBare
    if part.isEmpty then none else some (String.ofList part, cs.dropWhile isBare)

/-- The deepest nesting of brackets, and the longest way of a key. -/
def maxDepth : Nat := 79

/-- At most so many parts of a key, with periods between them. -/
def keyParts? : Nat → List Char → Option (List String × List Char)
  | 0, _ => none
  | depth + 1, cs =>
    match keyPart? cs with
    | none => none
    | some (part, rest) =>
      match skipSpaces rest with
      | '.' :: rest =>
        (keyParts? depth (skipSpaces rest)).map fun (parts, rest) => (part :: parts, rest)
      | rest => some ([part], rest)

/-- A key, and the text behind it and the spaces that follow. -/
def key? (cs : List Char) : Option (List String × List Char) := keyParts? maxDepth cs

/-! ## Values -/

/-- A character of a value that is not in quotes or brackets. -/
def isWordPart (c : Char) : Bool := isBare c || c == '+' || c == '.'

/-- A date, number or truth value, and the text behind it. -/
def plainValue? (cs : List Char) : Option (Toml × List Char) :=
  match moment? cs with
  | some rest => some (.other, rest)
  | none => (word? (cs.takeWhile isWordPart)).map (·, cs.dropWhile isWordPart)

mutual

/-- A value with brackets in it at most `depth` deep, and the text behind it. -/
def value? : (depth fuel : Nat) → List Char → Option (Toml × List Char)
  | _, 0, _ => none
  | depth, fuel + 1, cs =>
    match cs with
    | '[' :: rest =>
      match depth with
      | 0 => none
      | depth + 1 =>
        match skipFiller false rest with
        | ']' :: rest => some (.array [], rest)
        | rest => (items? depth fuel rest).map fun (vs, rest) => (.array vs, rest)
    | '\x7b' :: rest =>
      match depth with
      | 0 => none
      | depth + 1 =>
        match skipSpaces rest with
        | '\x7d' :: rest => some (.table .inline [], rest)
        | rest => pairs? depth fuel (.table .inline []) rest
    | '"' :: _ => (anyString? cs).map fun (s, rest) => (.string (String.ofList s), rest)
    | '\'' :: _ => (anyString? cs).map fun (s, rest) => (.string (String.ofList s), rest)
    | cs => plainValue? cs

/-- The values of an array from the first one on, and the text behind the bracket. -/
def items? : (depth fuel : Nat) → List Char → Option (List Toml × List Char)
  | _, 0, _ => none
  | depth, fuel + 1, cs =>
    match value? depth fuel cs with
    | none => none
    | some (v, rest) =>
      match skipFiller false rest with
      | ']' :: rest => some ([v], rest)
      | ',' :: rest =>
        match skipFiller false rest with
        | ']' :: rest => some ([v], rest)
        | rest => (items? depth fuel rest).map fun (vs, rest) => (v :: vs, rest)
      | _ => none

/-- The inline table of the pairs from here on, put into `t`, and the text behind the brace. -/
def pairs? : (depth fuel : Nat) → Toml → List Char → Option (Toml × List Char)
  | _, 0, _, _ => none
  | depth, fuel + 1, t, cs =>
    match key? cs with
    | some (path, '=' :: rest) =>
      match value? depth fuel (skipSpaces rest) with
      | none => none
      | some (v, rest) =>
        match assign .inlineDotted path v t with
        | none => none
        | some t =>
          match skipSpaces rest with
          | '\x7d' :: rest => some (t, rest)
          | ',' :: rest => pairs? depth fuel t (skipSpaces rest)
          | _ => none
    | _ => none

end

/-! ## Documents -/

/-- A line of a document: a header, or a key with a value. -/
inductive Line where
  | header (path : List String)
  | pair (path : List String) (v : Toml)

/-- A line, and the text behind it. -/
def line? (cs : List Char) : Option (Line × List Char) :=
  match cs with
  | '[' :: rest =>
    match key? (skipSpaces rest) with
    | some (path, ']' :: rest) => (endLine? rest).map (.header path, ·)
    | _ => none
  | cs =>
    match key? cs with
    | some (path, '=' :: rest) =>
      match value? maxDepth (2 * rest.length + 2) (skipSpaces rest) with
      | some (v, rest) => (endLine? rest).map (.pair path v, ·)
      | none => none
    | _ => none

/-- The lines of a document. -/
def lines? : Nat → List Char → Option (List Line)
  | 0, _ => none
  | fuel + 1, cs =>
    match skipFiller false cs with
    | [] => some []
    | cs =>
      match line? cs with
      | none => none
      | some (e, rest) => (lines? fuel rest).map (e :: ·)

/-- Puts lines into the document `root`, whose last header was `here`. -/
def build (here : List String) (root : Toml) : List Line → Option Toml
  | [] => some root
  | .header path :: lines => (define path root).bind fun root => build path root lines
  | .pair path v :: lines =>
    (alter .passed (assign .dotted path v) here root).bind fun root => build here root lines

/-- The mark that a text file may start with. -/
def skipMark : List Char → List Char
  | c :: cs => if c = '\ufeff' then cs else c :: cs
  | [] => []

/-- Reads a document as the table of its keys. -/
def parse (text : String) : Option Toml :=
  let cs := skipMark text.toList
  (lines? (cs.length + 1) cs).bind (build [] (.table .header []))

end Toml

end BagQuery
