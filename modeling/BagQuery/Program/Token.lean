import BagQuery.Program.Keyword
import BagQuery.Text.Numeral
import BagQuery.Text.Position
import BagQuery.Text.Quoted

/-!
# Tokens

The words, integers, strings and marks that program text consists of.  A word that is spelled like
a keyword is that keyword (`Token.keyword?`); any other word is a name (`Token.name?`).
-/

namespace BagQuery

open Text

/-- Punctuation. -/
inductive Mark where
  | equals
  | semicolon
  | comma
  | leftParen
  | rightParen
  | leftBracket
  | rightBracket
  | colon
  | period
deriving DecidableEq, Repr

namespace Mark

/-- The character of a mark. -/
def char : Mark → Char
  | equals => '='
  | semicolon => ';'
  | comma => ','
  | leftParen => '('
  | rightParen => ')'
  | leftBracket => '['
  | rightBracket => ']'
  | colon => ':'
  | period => '.'

/-- All marks. -/
def all : List Mark :=
  [equals, semicolon, comma, leftParen, rightParen, leftBracket, rightBracket, colon, period]

/-- The mark that a character is. -/
def ofChar? (c : Char) : Option Mark := all.find? (·.char == c)

theorem ofChar?_char (m : Mark) : ofChar? m.char = some m := by cases m <;> rfl

/-- How a mark is named in a message. -/
def render (m : Mark) : String := String.ofList ['\'', m.char, '\'']

end Mark

/-- A word, integer, string or mark. -/
inductive Token where
  | word (text : String)
  | number (value : Int64)
  | string (value : String)
  | mark (m : Mark)
deriving DecidableEq, Repr

namespace Token

/-- The keyword that a token is. -/
def keyword? : Token → Option Keyword
  | word text => Keyword.ofString? text
  | _ => none

/-- The name that a token is: a word that is not a keyword. -/
def name? : Token → Option String
  | word text => if (Keyword.ofString? text).isSome then none else some text
  | _ => none

/-- How a token is named in a message. -/
def render : Token → String
  | word text => "'" ++ text ++ "'"
  | number value => Numeral.ofInt64 value
  | string value => quoted value
  | mark m => m.render

end Token

/-- A token and the place of its first character. -/
structure Lexeme where
  token : Token
  place : Position
deriving DecidableEq, Repr

end BagQuery
