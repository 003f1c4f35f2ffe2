import BagQuery.Relation.ColumnType
import BagQuery.Text.Numeral

/-!
# Atoms and tuples

An atom is an integer or a string; a tuple is a list of atoms.  Tuples are ordered by their atoms
from left to right: integers by value and below all strings, strings by code points, a shorter
tuple before its extensions.  The instances `TransOrd` and `LawfulEqOrd` say that this is a linear
order and that it tells different tuples apart, which is what bags rely on.
-/

namespace BagQuery

open Text

/-- A single value. -/
inductive Atom where
  | int (value : Int64)
  | string (value : String)
deriving DecidableEq, Repr

namespace Atom

/-- The type of the columns that can hold the atom. -/
def type : Atom → ColumnType
  | int _ => .int
  | string _ => .string

/-- How an atom is shown: strings between single quotes, as they are. -/
def render : Atom → String
  | int value => Numeral.ofInt64 value
  | string value => "'" ++ value ++ "'"

instance : Ord Atom where
  compare
    | int a, int b => compare a.toInt b.toInt
    | int _, string _ => .lt
    | string _, int _ => .gt
    | string a, string b => compare a b

theorem compare_int (a b : Int64) : compare (int a) (int b) = compare a.toInt b.toInt := rfl
theorem compare_int_string (a : Int64) (b : String) : compare (int a) (string b) = .lt := rfl
theorem compare_string_int (a : String) (b : Int64) : compare (string a) (int b) = .gt := rfl
theorem compare_string (a b : String) : compare (string a) (string b) = compare a b := rfl

instance : Std.TransOrd Atom where
  eq_swap {a b} := by
    cases a <;> cases b
    · exact Std.OrientedOrd.eq_swap (α := Int)
    · rfl
    · rfl
    · exact Std.OrientedOrd.eq_swap (α := String)
  isLE_trans {a b c} hab hbc := by
    cases a <;> cases c
    · cases b
      · exact Std.TransOrd.isLE_trans (α := Int) hab hbc
      · exact absurd hbc Bool.false_ne_true
    · rfl
    · cases b
      · exact absurd hab Bool.false_ne_true
      · exact absurd hbc Bool.false_ne_true
    · cases b
      · exact absurd hab Bool.false_ne_true
      · exact Std.TransOrd.isLE_trans (α := String) hab hbc

instance : Std.LawfulEqOrd Atom where
  compare_self {a} := by
    cases a <;> simp only [compare_int, compare_string] <;> exact Std.ReflOrd.compare_self
  eq_of_compare {a b} h := by
    cases a <;> cases b <;>
      simp only [compare_int, compare_int_string, compare_string_int, compare_string,
        reduceCtorEq] at h
    · rw [Int64.toInt_inj.1 (Std.LawfulEqOrd.eq_of_compare h)]
    · rw [Std.LawfulEqOrd.eq_of_compare h]

end Atom

/-- A row: atoms in the order of the columns. -/
@[ext]
structure Tuple where
  atoms : List Atom
deriving DecidableEq, Repr

namespace Tuple

instance : Ord Tuple where
  compare s t := compare s.atoms t.atoms

theorem compare_eq (s t : Tuple) : compare s t = compare s.atoms t.atoms := rfl

instance : Std.TransOrd Tuple where
  eq_swap {s t} := by simp only [compare_eq]; exact Std.OrientedOrd.eq_swap
  isLE_trans {s t u} h g := by
    simp only [compare_eq] at h g ⊢; exact Std.TransOrd.isLE_trans h g

instance : Std.LawfulEqOrd Tuple where
  compare_self {s} := by simp only [compare_eq]; exact Std.ReflOrd.compare_self
  eq_of_compare {s t} h := Tuple.ext (Std.LawfulEqOrd.eq_of_compare h)

/-- The number of fields. -/
def arity (t : Tuple) : Nat := t.atoms.length

/-- The types of the fields. -/
def types (t : Tuple) : List ColumnType := t.atoms.map Atom.type

/-- The field at an index from zero. -/
def get? (t : Tuple) (i : Nat) : Option Atom := t.atoms[i]?

/-- The fields of `s`, then those of `t`. -/
def append (s t : Tuple) : Tuple := ⟨s.atoms ++ t.atoms⟩

/-- The fields at the given indexes, in that order; `none` if one is out of range. -/
def select? (t : Tuple) (indexes : List Nat) : Option Tuple :=
  (indexes.mapM t.get?).map Tuple.mk

/-- How a tuple is shown. -/
def render (t : Tuple) : String := "(" ++ ", ".intercalate (t.atoms.map Atom.render) ++ ")"

end Tuple

end BagQuery
