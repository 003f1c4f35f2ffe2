import BagQuery.Error
import BagQuery.Program.Token

/-!
# Complaints about program text

What can be wrong with a text, and the wording of it.  A refusal is a complaint about a place.
-/

namespace BagQuery

open Text

/-- What may stand at a place. -/
inductive Expected where
  | mark (m : Mark)
  | keyword (k : Keyword)
  | identifier
  | string
  | literal
  | columnType
  | count
deriving DecidableEq, Repr

/-- How an expectation is worded. -/
def Expected.render : Expected → String
  | mark m => m.render
  | keyword k => k.spelling
  | identifier => "an identifier"
  | string => "a quoted string"
  | literal => "a literal"
  | columnType => "a column type"
  | count => "a LIMIT count"

/-- What is wrong with a text. -/
inductive Complaint where
  /-- A string has no closing quote. -/
  | openString
  /-- No escape has this letter. -/
  | unknownEscape (c : Char)
  /-- A minus sign stands in front of no digit. -/
  | loneMinus
  /-- An integer does not fit into 64 bits. -/
  | outOfRange (digits : String)
  /-- No token starts so. -/
  | unexpectedChar (c : Char)
  /-- Something else was expected than what was found; `none` is the end of the text. -/
  | expected (what : Expected) (found : Option Token)
  /-- No column type is spelled so. -/
  | unknownType (name : String)
  /-- A count is below zero. -/
  | negativeCount
  /-- A token stands behind an expression that ought to be the whole text. -/
  | leftOver (token : Token)
  /-- The text ends inside a loop. -/
  | openLoop
deriving DecidableEq, Repr

/-- How what was found is worded. -/
def Complaint.renderFound : Option Token → String
  | some token => token.render
  | none => "end of input"

/-- The wording of a complaint. -/
def Complaint.message : Complaint → String
  | openString => "unterminated string literal"
  | unknownEscape c => "unknown escape '\\" ++ String.singleton c ++ "'"
  | loneMinus => "expected a digit after '-'"
  | outOfRange digits => "integer " ++ digits ++ " out of range"
  | unexpectedChar c => "unexpected character " ++ quotedChar c
  | expected what found => "expected " ++ what.render ++ ", found " ++ renderFound found
  | unknownType name =>
    (Error.columnDefinition ("unknown column type '" ++ name ++ "'")).message
  | negativeCount => "LIMIT count must not be negative"
  | leftOver token => "unexpected " ++ token.render ++ " after expression"
  | openLoop => "expected WHILE to close DO"

/-- A complaint about a place in the text. -/
structure Refusal where
  place : Position
  complaint : Complaint
deriving DecidableEq, Repr

/-- A refusal as an error of the program. -/
def Refusal.toError (r : Refusal) : Error := .malformed r.place r.complaint.message

end BagQuery
