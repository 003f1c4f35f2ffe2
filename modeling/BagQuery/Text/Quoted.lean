import BagQuery.Text.Numeral
import BagQuery.Text.Visible

/-!
# Quoted text in messages

A string is shown between double quotes and a character between single quotes.  The quote in use
and the backslash get a backslash, NUL, tab, carriage return and newline their letter, and a
character without a glyph of its own is written as a code point in braces.
-/

namespace BagQuery.Text

/-- One character between quotes of the given kind. -/
def escape (quote c : Char) : List Char :=
  if c = quote ∨ c = '\\' then ['\\', c]
  else if c = '\x00' then ['\\', '0']
  else if c = '\t' then ['\\', 't']
  else if c = '\r' then ['\\', 'r']
  else if c = '\n' then ['\\', 'n']
  else if isVisible c then [c]
  else ['\\', 'u', '\x7b'] ++ Numeral.digits 16 c.toNat ++ ['\x7d']

/-- A string between double quotes. -/
def quoted (s : String) : String :=
  String.ofList ('"' :: s.toList.flatMap (escape '"') ++ ['"'])

/-- A character between single quotes. -/
def quotedChar (c : Char) : String :=
  String.ofList ('\'' :: escape '\'' c ++ ['\''])

/-- A string is shown with one quote at each end. -/
theorem toList_quoted (s : String) :
    (quoted s).toList = '"' :: s.toList.flatMap (escape '"') ++ ['"'] := by
  rw [quoted, String.toList_ofList]

end BagQuery.Text
