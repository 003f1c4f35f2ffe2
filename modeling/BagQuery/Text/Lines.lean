/-!
# Lines of a file

A line ends with a newline, which may have a carriage return in front of it; the text behind the
last newline is a line too unless it is empty.  Each line is decoded as UTF-8 on its own, so that
one bad line does not spoil the others.
-/

namespace BagQuery.Text

/-- The number of the newline byte. -/
def newline : UInt8 := 10

/-- The number of the carriage return byte. -/
def carriageReturn : UInt8 := 13

/-- Drops the carriage return that came last. -/
def dropReturn : List UInt8 → List UInt8
  | b :: bs => if b = carriageReturn then bs else b :: bs
  | [] => []

/-- Cuts bytes into lines without their ends; `current` holds the bytes of the line so far, latest
first. -/
def cutLines (current : List UInt8) : List UInt8 → List (List UInt8)
  | [] => if current.isEmpty then [] else [current.reverse]
  | b :: bs =>
    if b = newline then (dropReturn current).reverse :: cutLines [] bs
    else cutLines (b :: current) bs

/-- The text of some bytes, if they are UTF-8. -/
def decode? (bytes : List UInt8) : Option String := String.fromUTF8? ⟨bytes.toArray⟩

/-- The lines of a file; `none` is a line that is not UTF-8. -/
def lines (bytes : ByteArray) : List (Option String) := (cutLines [] bytes.data.toList).map decode?

end BagQuery.Text
