import BagQuery.Relation.Bag
import Mathlib.Data.List.Lattice
import Mathlib.Data.Multiset.AddSub

/-!
# The elements of a bag

`Bag.elements` writes a bag out as a list.  The list has the counts of the bag
(`count_elements`) and is in the order of the tuples (`sorted_elements`), and there is only one
such list: `elements_eq_sorted` says that any list with the counts of the bag, once sorted, is
that one.  So a bag and its elements carry the same information,

    ofList b.elements = b,        (ofList ts).elements = sorted ts,

and a query that collects tuples in a bag gives them back as the sorted list of the same tuples.
-/

namespace BagQuery

/-! ## Sorting tuples -/

/-- `s` does not come behind `t`. -/
def Tuple.notAfter (s t : Tuple) : Bool := (compare s t).isLE

/-- Tuples in their order. -/
def Tuple.sorted (ts : List Tuple) : List Tuple := ts.mergeSort Tuple.notAfter

theorem Tuple.sorted_perm (ts : List Tuple) : (Tuple.sorted ts).Perm ts :=
  List.mergeSort_perm ts _

theorem Tuple.pairwise_sorted (ts : List Tuple) :
    (Tuple.sorted ts).Pairwise fun s t => Tuple.notAfter s t = true := by
  apply List.pairwise_mergeSort
  · intro a b c hab hbc
    exact Std.TransOrd.isLE_trans hab hbc
  · intro a b
    rw [Bool.or_eq_true]
    by_cases h : (compare a b).isLE = true
    · exact Or.inl h
    · exact Or.inr (Ordering.isLE_of_eq_lt (Std.OrientedCmp.lt_of_not_isLE h))

/-- Two sorted lists with the same tuples are the same list. -/
theorem Tuple.eq_of_perm {ts us : List Tuple} (h : ts.Perm us)
    (ht : ts.Pairwise fun s t => Tuple.notAfter s t = true)
    (hu : us.Pairwise fun s t => Tuple.notAfter s t = true) : ts = us := by
  refine h.eq_of_pairwise ?_ ht hu
  intro a b _ _ hab hba
  exact Std.LawfulEqOrd.eq_of_compare (Std.OrientedCmp.isLE_antisymm hab hba)

theorem Tuple.sorted_congr {ts us : List Tuple} (h : ts.Perm us) :
    Tuple.sorted ts = Tuple.sorted us :=
  Tuple.eq_of_perm (((sorted_perm ts).trans h).trans (sorted_perm us).symm) (pairwise_sorted ts)
    (pairwise_sorted us)

namespace Bag

/-! ## Entries written out -/

/-- Each tuple of some entries as often as it occurs. -/
def expand (entries : List (Tuple × Nat)) : List Tuple :=
  entries.flatMap fun (t, n) => List.replicate n t

theorem expand_cons (t : Tuple) (n : Nat) (entries : List (Tuple × Nat)) :
    expand ((t, n) :: entries) = List.replicate n t ++ expand entries := rfl

theorem mem_expand {t : Tuple} {entries : List (Tuple × Nat)} (h : t ∈ expand entries) :
    ∃ e ∈ entries, e.1 = t := by
  obtain ⟨e, he, ht⟩ := List.mem_flatMap.1 h
  exact ⟨e, he, (List.eq_of_mem_replicate ht).symm⟩

theorem count_expand {entries : List (Tuple × Nat)} (h : Entries.Sorted entries) (t : Tuple) :
    (expand entries).count t = (Entries.get? t entries).getD 0 := by
  induction entries with
  | nil => rfl
  | cons e entries ih =>
    obtain ⟨s, n⟩ := e
    obtain ⟨habove, hsorted⟩ := Entries.sorted_cons.1 h
    rw [expand_cons, List.count_append, ih hsorted, Entries.get?_cons, List.count_replicate]
    by_cases hst : s = t
    · subst hst
      rw [if_pos Std.ReflCmp.compare_self, Entries.get?_eq_none_of_above habove]
      simp
    · have hne : compare t s ≠ .eq := fun e => hst (Std.LawfulEqOrd.eq_of_compare e).symm
      rw [if_neg hne, if_neg (by simpa using hst), Nat.zero_add]

theorem pairwise_expand {entries : List (Tuple × Nat)} (h : Entries.Sorted entries) :
    (expand entries).Pairwise fun s t => Tuple.notAfter s t = true := by
  induction entries with
  | nil => exact List.Pairwise.nil
  | cons e entries ih =>
    obtain ⟨s, n⟩ := e
    obtain ⟨habove, hsorted⟩ := Entries.sorted_cons.1 h
    rw [expand_cons, List.pairwise_append]
    refine ⟨?_, ih hsorted, ?_⟩
    · exact List.pairwise_replicate.2 (Or.inr Std.ReflOrd.isLE_rfl)
    · intro a ha b hb
      obtain ⟨e, he, rfl⟩ := mem_expand hb
      rw [List.eq_of_mem_replicate ha]
      exact Ordering.isLE_of_eq_lt (habove e he)

/-! ## Elements -/

theorem count_elements (b : Bag) (t : Tuple) : b.elements.count t = b.count t :=
  count_expand b.multiplicities.sorted t

theorem mem_elements {b : Bag} {t : Tuple} : t ∈ b.elements ↔ 0 < b.count t := by
  rw [← count_elements, List.count_pos_iff]

theorem sorted_elements (b : Bag) :
    b.elements.Pairwise fun s t => Tuple.notAfter s t = true :=
  pairwise_expand b.multiplicities.sorted

/-- **The elements are the only sorted list with the counts of the bag.** -/
theorem elements_eq_sorted {b : Bag} {ts : List Tuple} (h : ∀ t, b.count t = ts.count t) :
    b.elements = Tuple.sorted ts := by
  refine Tuple.eq_of_perm (List.perm_iff_count.2 fun t => ?_) (sorted_elements b)
    (Tuple.pairwise_sorted ts)
  rw [count_elements, h, (Tuple.sorted_perm ts).count_eq]

theorem elements_ofList (ts : List Tuple) : (ofList ts).elements = Tuple.sorted ts :=
  elements_eq_sorted (count_ofList ts)

theorem ofList_elements (b : Bag) : ofList b.elements = b :=
  ext_count fun t => by rw [count_ofList, count_elements]

theorem elements_ofList_perm (ts : List Tuple) : (ofList ts).elements.Perm ts := by
  rw [elements_ofList]
  exact Tuple.sorted_perm ts

/-- The lesser multiplicities, as a list. -/
theorem elements_intersection (ts us : List Tuple) :
    (intersection (ofList ts) (ofList us)).elements = Tuple.sorted (ts.bagInter us) := by
  refine elements_eq_sorted fun t => ?_
  rw [count_intersection, count_ofList, count_ofList, List.count_bagInter]

/-- What is left of the multiplicities, as a list. -/
theorem elements_difference (ts us : List Tuple) :
    (difference (ofList ts) (ofList us)).elements = Tuple.sorted (ts.diff us) := by
  refine elements_eq_sorted fun t => ?_
  have h := Multiset.count_sub t (ts : Multiset Tuple) us
  rw [Multiset.coe_sub, Multiset.coe_count, Multiset.coe_count, Multiset.coe_count] at h
  rw [count_difference, count_ofList, count_ofList, h]

end Bag

end BagQuery
