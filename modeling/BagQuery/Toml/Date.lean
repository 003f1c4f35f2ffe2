import BagQuery.Text.Numeral

/-!
# Dates and times in TOML

A date, a time of day, or a date with a time and maybe an offset from universal time.  Each part
has its range: a day exists in its month, and a minute may have a leap second.

The functions skip what they recognise and answer the text behind it.
-/

namespace BagQuery

open Text

namespace Toml

/-- A number of two digits in a range, and the text behind it. -/
def twoDigits? (low high : Nat) : List Char → Option (Nat × List Char)
  | a :: b :: rest =>
    match Numeral.value? 10 [a, b] with
    | some n => if low ≤ n ∧ n ≤ high then some (n, rest) else none
    | none => none
  | _ => none

/-- The text behind a mark. -/
def behind? (mark : Char) : List Char → Option (List Char)
  | c :: rest => if c = mark then some rest else none
  | [] => none

/-! ## Dates -/

/-- The year has a 29th of February. -/
def isLeapYear (year : Nat) : Bool :=
  year % 4 == 0 && (year % 100 != 0 || year % 400 == 0)

/-- The number of days in a month. -/
def daysIn (year month : Nat) : Nat :=
  if month = 2 then if isLeapYear year then 29 else 28
  else if month = 4 ∨ month = 6 ∨ month = 9 ∨ month = 11 then 30
  else 31

/-- The text behind a date. -/
def date? : List Char → Option (List Char)
  | a :: b :: c :: d :: rest => do
    let year ← Numeral.value? 10 [a, b, c, d]
    let (month, rest) ← twoDigits? 1 12 (← behind? '-' rest)
    let (_, rest) ← twoDigits? 1 (daysIn year month) (← behind? '-' rest)
    return rest
  | _ => none

/-! ## Times -/

/-- The text behind hours and minutes. -/
def clock? (cs : List Char) : Option (List Char) := do
  let (_, rest) ← twoDigits? 0 23 cs
  let (_, rest) ← twoDigits? 0 59 (← behind? ':' rest)
  return rest

/-- Skips the fraction of a second. -/
def skipFraction : List Char → List Char
  | '.' :: c :: rest =>
    if c.isDigit then rest.dropWhile Char.isDigit else '.' :: c :: rest
  | cs => cs

/-- The text behind a time of day. -/
def time? (cs : List Char) : Option (List Char) := do
  let (_, rest) ← twoDigits? 0 60 (← behind? ':' (← clock? cs))
  return skipFraction rest

/-- Skips an offset from universal time. -/
def skipOffset : List Char → List Char
  | 'Z' :: rest => rest
  | 'z' :: rest => rest
  | '+' :: rest => (clock? rest).getD ('+' :: rest)
  | '-' :: rest => (clock? rest).getD ('-' :: rest)
  | cs => cs

/-- Skips the time behind a date, if there is one. -/
def skipTime : List Char → List Char
  | c :: rest =>
    if c = 'T' ∨ c = 't' ∨ c = ' ' then ((time? rest).map skipOffset).getD (c :: rest)
    else c :: rest
  | [] => []

/-- The text behind a date, a time or both. -/
def moment? (cs : List Char) : Option (List Char) :=
  match date? cs with
  | some rest => some (skipTime rest)
  | none => time? cs

end Toml

end BagQuery
