import BagQuery.Text.Numeral
import BagQuery.Text.Scientific
import BagQuery.Toml.Basic

/-!
# Numbers and truth values in TOML

Integers in four bases, in the range of 64 bits, floating-point numbers and truth values.  Between
two digits there may be an underscore, and a decimal has no superfluous zero in front.

`Toml.word?` reads a whole word.
-/

namespace BagQuery

open Text

namespace Toml

/-- The digits of a number in which single underscores may stand between digits. -/
def digits? (base : Nat) : List Char → Option (List Char)
  | [] => none
  | [c] => if (Numeral.digit? base c).isSome then some [c] else none
  | c :: '_' :: cs =>
    if (Numeral.digit? base c).isSome then (digits? base cs).map (c :: ·) else none
  | c :: cs => if (Numeral.digit? base c).isSome then (digits? base cs).map (c :: ·) else none

/-- A sign and what is behind it. -/
def sign : List Char → Bool × List Char
  | '-' :: cs => (true, cs)
  | '+' :: cs => (false, cs)
  | cs => (false, cs)

/-- The digits of a decimal without superfluous zeros in front. -/
def decimal? (cs : List Char) : Option (List Char) :=
  match digits? 10 cs with
  | some ('0' :: _ :: _) => none
  | ds => ds

/-! ## Integers -/

/-- A value in the range of 64 bits. -/
def inRange? (n : Int) : Option Toml := (Numeral.toInt64? n).map fun i => .int i.toInt

/-- An integer. -/
def int? : List Char → Option Toml
  | '0' :: 'x' :: cs => (digits? 16 cs).bind (Numeral.value? 16) |>.bind fun n => inRange? n
  | '0' :: 'o' :: cs => (digits? 8 cs).bind (Numeral.value? 8) |>.bind fun n => inRange? n
  | '0' :: 'b' :: cs => (digits? 2 cs).bind (Numeral.value? 2) |>.bind fun n => inRange? n
  | cs =>
    let (negative, cs) := sign cs
    (decimal? cs).bind (Numeral.value? 10) |>.bind fun n =>
      inRange? (if negative then -(n : Int) else n)

/-! ## Floating-point numbers -/

/-- An exponent, with or without a sign. -/
def exponent? (cs : List Char) : Option Int :=
  let (negative, cs) := sign cs
  ((digits? 10 cs).bind (Numeral.value? 10)).map fun n => if negative then -(n : Int) else n

/-- Cuts a text in front of the first character of a kind. -/
def cut (p : Char → Bool) (cs : List Char) : List Char × Option (List Char) :=
  (cs.takeWhile (!p ·), (cs.dropWhile (!p ·)).tail?)

/-- A number without a sign, with a fraction, an exponent or both. -/
def scientific? (cs : List Char) : Option Scientific := do
  let (mantissa, exponent) := cut (fun c => c == 'e' || c == 'E') cs
  let (whole, fraction) := cut (· == '.') mantissa
  if fraction.isNone && exponent.isNone then none
  let whole ← decimal? whole
  let places ← (fraction.map (digits? 10)).getD (some [])
  let power ← (exponent.map exponent?).getD (some 0)
  let n ← Numeral.value? 10 (whole ++ places)
  return ⟨n, power - places.length⟩

/-- A floating-point number.  A positive one must not be too large for a double; a negative one
that is stands for negative infinity. -/
def isFloat (cs : List Char) : Bool :=
  let (negative, cs) := sign cs
  if cs = ['i', 'n', 'f'] ∨ cs = ['n', 'a', 'n'] then true
  else
    match scientific? cs with
    | some x => negative || !x.overflows
    | none => false

/-! ## Words -/

/-- A truth value or number. -/
def word? (cs : List Char) : Option Toml :=
  match int? cs with
  | some v => some v
  | none =>
    if cs = ['t', 'r', 'u', 'e'] ∨ cs = ['f', 'a', 'l', 's', 'e'] ∨ isFloat cs then some .other
    else none

end Toml

end BagQuery
