import BagQuery.Proofs.BagOperations
import Mathlib.Data.String.Basic

/-!
# The order of the elements

`Tuple.Before` gives the order of tuples by rules.  Tuples go by their first fields that differ, and
one that is the start of another comes before it.  Integers go by value, strings by code points, and
every integer comes before every string.  Comparing two tuples decides this order
(`Tuple.compare_eq_lt_iff`).

Writing a bag out in this order and collecting the tuples of a list undo each other, up to the
order of the list: `elements_ofList_inverse`.
-/

namespace BagQuery

/-! ## Tuples in order -/

/-- The atom comes before the other one. -/
inductive Atom.Before : Atom → Atom → Prop
  /-- Integers go by value. -/
  | int {a b : Int64} (h : a.toInt < b.toInt) : Before (.int a) (.int b)
  /-- An integer comes before a string. -/
  | mixed (a : Int64) (t : String) : Before (.int a) (.string t)
  /-- Strings go by the code points of their first characters that differ. -/
  | string {s t : String} (h : List.Lex (fun c d => c.toNat < d.toNat) s.toList t.toList) :
      Before (.string s) (.string t)

/-- The tuple comes before the other one. -/
def Tuple.Before (s t : Tuple) : Prop := List.Lex Atom.Before s.atoms t.atoms

/-- The tuple is the other one, or comes before it. -/
def Tuple.NotBehind (s t : Tuple) : Prop := s = t ∨ s.Before t

theorem compare_string_eq_lt_iff {s t : String} :
    compare s t = .lt ↔ List.Lex (fun c d => c.toNat < d.toNat) s.toList t.toList := by
  rw [compare_lt_iff_lt, String.lt_iff_toList_lt]
  exact Iff.rfl

theorem Atom.compare_eq_lt_iff {a b : Atom} : compare a b = .lt ↔ a.Before b := by
  constructor
  · intro h
    cases a <;> cases b
    · exact .int (compare_lt_iff_lt.1 h)
    · exact .mixed _ _
    · cases h
    · exact .string (compare_string_eq_lt_iff.1 h)
  · rintro (h | _ | h)
    · exact compare_lt_iff_lt.2 h
    · rfl
    · exact compare_string_eq_lt_iff.2 h

theorem Atom.compare_lists_eq_lt_iff {as bs : List Atom} :
    compare as bs = .lt ↔ List.Lex Before as bs := by
  induction as generalizing bs with
  | nil =>
    cases bs with
    | nil => exact ⟨nofun, nofun⟩
    | cons b bs => exact ⟨fun _ => .nil, fun _ => rfl⟩
  | cons a as ih =>
    cases bs with
    | nil => exact ⟨nofun, nofun⟩
    | cons b bs =>
      rw [List.compare_cons_cons, Ordering.then_eq_lt, ih, compare_eq_lt_iff,
        Std.LawfulEqOrd.compare_eq_iff_eq, List.cons_lex_cons_iff]

/-- **Comparing tuples decides their order.** -/
theorem Tuple.compare_eq_lt_iff {s t : Tuple} : compare s t = .lt ↔ s.Before t :=
  Atom.compare_lists_eq_lt_iff

theorem Tuple.notAfter_iff {s t : Tuple} : notAfter s t = true ↔ s.NotBehind t := by
  rw [notAfter, Ordering.isLE_iff_eq_lt_or_eq_eq, compare_eq_lt_iff,
    Std.LawfulEqOrd.compare_eq_iff_eq]
  exact or_comm

/-- **A list has one order in which no tuple comes before its predecessors.** -/
theorem Tuple.eq_sorted_iff {ts us : List Tuple} :
    us = sorted ts ↔ us.Perm ts ∧ us.Pairwise NotBehind := by
  have hnotAfter : us.Pairwise NotBehind ↔ us.Pairwise fun s t => notAfter s t = true :=
    List.Pairwise.iff fun _ _ => notAfter_iff.symm
  rw [hnotAfter]
  constructor
  · rintro rfl
    exact ⟨sorted_perm ts, pairwise_sorted ts⟩
  · rintro ⟨hperm, hus⟩
    exact eq_of_perm (hperm.trans (sorted_perm ts).symm) hus (pairwise_sorted ts)

/-! ## Bags and lists -/

namespace Bag

/-- The occurrences taken out of the bag, entry by entry. -/
def intoElements (b : Bag) : List Tuple :=
  b.toList.foldl (fun taken e => taken ++ List.replicate e.2 e.1) []

theorem intoElements_eq_elements (b : Bag) : b.intoElements = b.elements := by
  have hfold (entries : List (Tuple × Nat)) (taken : List Tuple) :
      entries.foldl (fun taken e => taken ++ List.replicate e.2 e.1) taken
        = taken ++ expand entries := by
    induction entries generalizing taken with
    | nil => exact (List.append_nil taken).symm
    | cons e entries ih => rw [List.foldl_cons, ih, List.append_assoc, expand_cons]
  exact hfold b.toList []

/-- **Expanding a bag and collecting a list are inverse.**  Both ways of writing a bag out give the
same list.  It is in order and as long as the bag is large, it has every tuple as often as the bag
has it, and collecting it gives the bag again.  To collect a list is to add its tuples one after the
other.  The bag of a list writes the list out in order, so that two lists are rearrangements of each
other exactly when their bags are written out alike. -/
theorem elements_ofList_inverse :
    (∀ b : Bag, b.intoElements = b.elements ∧ b.elements.Pairwise Tuple.NotBehind ∧
      (∀ t, b.elements.count t = b.count t) ∧ b.elements.length = b.size ∧
      ofList b.elements = b) ∧
    (∀ ts : List Tuple, ofList ts = empty.extend ts) ∧
    (∀ ts us : List Tuple,
      us = (ofList ts).elements ↔ us.Perm ts ∧ us.Pairwise Tuple.NotBehind) ∧
    ∀ ts us : List Tuple, ts.Perm us ↔ (ofList ts).elements = (ofList us).elements := by
  have hsorted (ts us : List Tuple) :
      us = (ofList ts).elements ↔ us.Perm ts ∧ us.Pairwise Tuple.NotBehind := by
    rw [elements_ofList]
    exact Tuple.eq_sorted_iff
  refine ⟨fun b => ⟨intoElements_eq_elements b, ?_, count_elements b, (size_eq_length b).symm,
    ofList_elements b⟩, ofList_eq_extend, hsorted, fun ts us => ⟨fun h => ?_, fun h => ?_⟩⟩
  · exact ((hsorted b.elements b.elements).1 (by rw [ofList_elements])).2
  · rw [elements_ofList, elements_ofList, Tuple.sorted_congr h]
  · calc ts.Perm (ofList ts).elements := (elements_ofList_perm ts).symm
      List.Perm _ (ofList us).elements := by rw [h]
      List.Perm _ us := elements_ofList_perm us

/-- Integers, and then strings by code points, with the shorter tuple first. -/
example :
    (ofList [⟨[.string "B"]⟩, ⟨[.string "\u00e9"]⟩, ⟨[.int 2, .int 1]⟩, ⟨[.string "AB"]⟩,
        ⟨[.int 2]⟩, ⟨[.int (-1), .string ""]⟩, ⟨[.int 2]⟩]).elements
      = [⟨[.int (-1), .string ""]⟩, ⟨[.int 2]⟩, ⟨[.int 2]⟩, ⟨[.int 2, .int 1]⟩,
        ⟨[.string "AB"]⟩, ⟨[.string "B"]⟩, ⟨[.string "\u00e9"]⟩] := by
  decide +kernel

end Bag

end BagQuery
