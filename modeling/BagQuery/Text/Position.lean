/-!
# Positions in a text

Lines and columns count from one.  A newline ends a line, and every other character takes one
column.

* `afterAll_append`: a position is moved over a text piece by piece.
-/

namespace BagQuery.Text

/-- A place in a text. -/
structure Position where
  line : Nat
  column : Nat
deriving DecidableEq, Repr

namespace Position

/-- The place of the first character. -/
def start : Position := ⟨1, 1⟩

/-- The place behind a character. -/
def after (p : Position) (c : Char) : Position :=
  if c = '\n' then ⟨p.line + 1, 1⟩ else ⟨p.line, p.column + 1⟩

/-- The place behind a text. -/
def afterAll (p : Position) (cs : List Char) : Position := cs.foldl after p

theorem afterAll_append (p : Position) (xs ys : List Char) :
    p.afterAll (xs ++ ys) = (p.afterAll xs).afterAll ys := List.foldl_append

end Position

end BagQuery.Text
