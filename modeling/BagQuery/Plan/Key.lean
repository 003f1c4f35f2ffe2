import BagQuery.Dictionary

/-!
# Keys of stored relations

A stored relation is known by its owner, its program and its own name, and keys are ordered by
these three in turn.
-/

namespace BagQuery

/-- The key of a stored relation. -/
@[ext]
structure Key where
  owner : String
  program : String
  relation : String
deriving DecidableEq, Repr

namespace Key

/-- How a key is shown. -/
def render (k : Key) : String := k.owner ++ ":" ++ k.program ++ ":" ++ k.relation

/-- The parts of a key, in the order in which they count. -/
def parts (k : Key) : List String := [k.owner, k.program, k.relation]

theorem parts_inj {j k : Key} (h : j.parts = k.parts) : j = k := by
  simp only [parts, List.cons.injEq, and_true] at h
  exact Key.ext h.1 h.2.1 h.2.2

instance : Ord Key where
  compare j k := compare j.parts k.parts

theorem compare_eq (j k : Key) : compare j k = compare j.parts k.parts := rfl

instance : Std.TransOrd Key where
  eq_swap {j k} := by simp only [compare_eq]; exact Std.OrientedOrd.eq_swap
  isLE_trans {i j k} h g := by
    simp only [compare_eq] at h g ⊢; exact Std.TransOrd.isLE_trans h g

instance : Std.LawfulEqOrd Key where
  compare_self {k} := by simp only [compare_eq]; exact Std.ReflOrd.compare_self
  eq_of_compare {j k} h := parts_inj (Std.LawfulEqOrd.eq_of_compare h)

end Key

end BagQuery
