/-!
# Numerals

Digits of natural numbers in a base up to 16, and decimal text of integers.

* `value?_digits`: reading the digits of a number gives the number.
* `int64?` reads a signed 64-bit integer: an optional sign, then at least one ASCII digit, and
  a value in range.  `int64?_ofInt64`: it reads back what `ofInt64` writes.
-/

namespace BagQuery.Text.Numeral

/-- The digit `d`, lower case above nine. -/
def digitChar (d : Nat) : Char := if d < 10 then Char.ofNat (48 + d) else Char.ofNat (87 + d)

/-- The digit of a base up to 16 that a character stands for, in either case. -/
def digit? (base : Nat) (c : Char) : Option Nat :=
  let n := c.toNat
  let d :=
    if 48 ≤ n ∧ n ≤ 57 then n - 48
    else if 97 ≤ n ∧ n ≤ 102 then n - 87
    else if 65 ≤ n ∧ n ≤ 70 then n - 55
    else base
  if d < base then some d else none

/-- The digits of `n`, most significant first, at least one. -/
def digits (base : Nat) (n : Nat) : List Char :=
  if n < base ∨ base < 2 then [digitChar n]
  else digits base (n / base) ++ [digitChar (n % base)]
termination_by n
decreasing_by exact Nat.div_lt_self (by omega) (by omega)

/-- Reads digits on from the value `acc`. -/
def extend? (base : Nat) : Nat → List Char → Option Nat
  | acc, [] => some acc
  | acc, c :: cs =>
    match digit? base c with
    | some d => extend? base (acc * base + d) cs
    | none => none

/-- The value of a non-empty string of digits. -/
def value? (base : Nat) (cs : List Char) : Option Nat :=
  if cs.isEmpty then none else extend? base 0 cs

theorem digit?_digitChar {base d : Nat} (hb : base ≤ 16) (hd : d < base) :
    digit? base (digitChar d) = some d := by
  have key : ∀ b : Fin 17, ∀ d : Fin 16, d.val < b.val →
      digit? b.val (digitChar d.val) = some d.val := by decide
  exact key ⟨base, by omega⟩ ⟨d, by omega⟩ hd

theorem extend?_append (base : Nat) (acc : Nat) (xs ys : List Char) :
    extend? base acc (xs ++ ys) = (extend? base acc xs).bind (extend? base · ys) := by
  induction xs generalizing acc with
  | nil => rfl
  | cons c cs ih => cases h : digit? base c <;> simp [extend?, h, ih]

theorem extend?_digits {base : Nat} (h2 : 2 ≤ base) (hb : base ≤ 16) (n : Nat) :
    extend? base 0 (digits base n) = some n := by
  fun_induction digits base n with
  | case1 n h => simp [extend?, digit?_digitChar hb (show n < base by omega)]
  | case2 n h ih =>
    have hm : n % base < base := Nat.mod_lt _ (by omega)
    rw [extend?_append, ih]
    simp [extend?, digit?_digitChar hb hm, Nat.div_add_mod']

theorem digits_ne_nil (base n : Nat) : digits base n ≠ [] := by
  rw [digits]; split <;> simp

theorem value?_digits {base : Nat} (h2 : 2 ≤ base) (hb : base ≤ 16) (n : Nat) :
    value? base (digits base n) = some n := by
  simp [value?, digits_ne_nil, extend?_digits h2 hb]

/-! ## Decimal text -/

/-- Decimal text of a natural number. -/
def ofNat (n : Nat) : String := String.ofList (digits 10 n)

/-- Decimal text of an integer, with a minus sign below zero. -/
def intChars : Int → List Char
  | .ofNat n => digits 10 n
  | .negSucc n => '-' :: digits 10 (n + 1)

/-- Decimal text of a 64-bit integer. -/
def ofInt64 (i : Int64) : String := String.ofList (intChars i.toInt)

/-- An optional sign, then at least one ASCII digit. -/
def int? : List Char → Option Int
  | '-' :: cs => (value? 10 cs).map fun n => -(n : Int)
  | '+' :: cs => (value? 10 cs).map fun n => (n : Int)
  | cs => (value? 10 cs).map fun n => (n : Int)

/-- The 64-bit integer of a value in range. -/
def toInt64? (i : Int) : Option Int64 :=
  if Int64.minValue.toInt ≤ i ∧ i ≤ Int64.maxValue.toInt then some (Int64.ofInt i) else none

/-- A signed decimal in the range of 64 bits. -/
def int64? (cs : List Char) : Option Int64 := (int? cs).bind toInt64?

/-- An unsigned decimal in the range of 64 bits, with an optional plus sign. -/
def count? (cs : List Char) : Option Nat :=
  let digits := match cs with
    | '+' :: rest => rest
    | _ => cs
  (value? 10 digits).bind fun n => if n < UInt64.size then some n else none

theorem digit?_sign : digit? 10 '-' = none ∧ digit? 10 '+' = none := by decide

theorem int?_digits (n : Nat) : int? (digits 10 n) = some (n : Int) := by
  have h := value?_digits (show 2 ≤ 10 by omega) (by omega) n
  cases hd : digits 10 n with
  | nil => exact absurd hd (digits_ne_nil 10 n)
  | cons c cs =>
    rw [hd] at h
    have hc : c ≠ '-' ∧ c ≠ '+' := by
      constructor <;> rintro rfl <;> simp [value?, extend?, digit?_sign] at h
    unfold int?
    split
    · simp_all
    · simp_all
    · simp [h]

theorem int?_intChars (i : Int) : int? (intChars i) = some i := by
  cases i with
  | ofNat n => exact int?_digits n
  | negSucc n =>
    simp only [intChars, int?, value?_digits (show 2 ≤ 10 by omega) (by omega)]
    rfl

theorem toInt64?_toInt (i : Int64) : toInt64? i.toInt = some i := by
  rw [toInt64?, if_pos ⟨i.minValue_le_toInt, i.toInt_le⟩, Int64.ofInt_toInt]

theorem int64?_ofInt64 (i : Int64) : int64? (ofInt64 i).toList = some i := by
  rw [ofInt64, String.toList_ofList, int64?, int?_intChars]
  exact toInt64?_toInt i

end BagQuery.Text.Numeral
