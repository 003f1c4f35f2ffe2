import BagQuery.Proofs.BagElements
import BagQuery.Proofs.DictionaryKeys
import Mathlib.Algebra.BigOperators.Group.Finset.Basic

/-!
# Bags are multisets

`Bag.Step` is one operation on bags that are kept under names, and bags are made by lists of such
steps, from no tuples at all.  `bags_follow_multiplicities` says that the steps make of the bags what
they make of multiplicities, which are functions from tuples to numbers and know no entries.

* `count_extend`, `Operation.count_result`: what an operation does to the count of every tuple.
* `toList_intersection`, `toList_difference`, `toList_distinct`, `multiplicities_insert`,
  `union_eq_foldl_insert`, `ofList_eq_extend`, `extend_eq_union`: the same operations entry by
  entry, or tuple by tuple.
* `size_eq_sum`, `distinctSize_eq_card`, `isEmpty_iff`: sizes in terms of counts.

Counts are natural numbers here, without an upper bound.
-/

namespace BagQuery

/-! ## Entries of one side -/

namespace Entries

variable {α β δ : Type} [Ord α] [Std.TransOrd α] [Std.LawfulEqOrd α]

theorem get?_filterMap {entries : List (α × β)} (h : Sorted entries) (f : α → β → Option δ)
    (k : α) :
    get? k (entries.filterMap fun e => (f e.1 e.2).map (e.1, ·)) = (get? k entries).bind (f k) := by
  induction entries with
  | nil => rfl
  | cons e entries ih =>
    obtain ⟨j, v⟩ := e
    obtain ⟨habove, hsorted⟩ := sorted_cons.1 h
    have hstep : ((j, v) :: entries).filterMap (fun e => (f e.1 e.2).map (e.1, ·))
        = cons? j (f j v) (entries.filterMap fun e => (f e.1 e.2).map (e.1, ·)) := by
      cases hv : f j v <;> simp [cons?, hv]
    have habove' : Above j (entries.filterMap fun e => (f e.1 e.2).map (e.1, ·)) := by
      intro e he
      simp only [List.mem_filterMap, Option.map_eq_some_iff] at he
      obtain ⟨d, hd, _, _, rfl⟩ := he
      exact habove d hd
    rw [hstep, get?_cons? habove', ih hsorted, get?_cons]
    split
    · next heq =>
      obtain rfl := Std.LawfulEqOrd.eq_of_compare heq
      rfl
    · rfl

end Entries

namespace Bag

variable {a b : Bag} {t : Tuple}

theorem slot?_of_pos {n : Nat} (h : 0 < n) : slot? n = some n := if_neg (Nat.ne_of_gt h)

/-- An operation that keeps the tuples of one side goes through the entries of that side. -/
theorem toList_combine {f : Nat → Nat → Nat} (hf : ∀ n, f 0 n = 0) (a b : Bag) :
    (combine f a b).toList
      = a.toList.filterMap fun e => (slot? (f e.2 (b.count e.1))).map (e.1, ·) := by
  refine Entries.eq_of_get?_eq (combine f a b).multiplicities.sorted
    (Entries.sorted_filterMap a.multiplicities.sorted fun t n => slot? (f n (b.count t)))
    fun t => ?_
  calc (combine f a b).multiplicities.get? t
      = slot? (f (a.count t) (b.count t)) := by rw [get?_eq_slot?_count, count_combine (hf 0)]
    _ = (slot? (a.count t)).bind fun n => slot? (f n (b.count t)) := by
      rcases Nat.eq_zero_or_pos (a.count t) with hzero | hpos
      · rw [hzero, hf]
        rfl
      · rw [slot?_of_pos hpos]
        rfl
    _ = (a.multiplicities.get? t).bind fun n => slot? (f n (b.count t)) := by
      rw [get?_eq_slot?_count]
    _ = _ :=
      (Entries.get?_filterMap a.multiplicities.sorted (fun t n => slot? (f n (b.count t))) t).symm

/-- The lesser of the two counts, where it is not zero, entry by entry of the left bag. -/
theorem toList_intersection (a b : Bag) :
    (a.intersection b).toList
      = a.toList.filterMap fun e => (slot? (min e.2 (b.count e.1))).map (e.1, ·) :=
  toList_combine Nat.zero_min a b

/-- What is left of the counts of the left bag, where anything is, entry by entry. -/
theorem toList_difference (a b : Bag) :
    (a.difference b).toList
      = a.toList.filterMap fun e => (slot? (e.2 - b.count e.1)).map (e.1, ·) :=
  toList_combine Nat.zero_sub a b

/-- The tuples of the entries, once each. -/
theorem toList_distinct (b : Bag) : b.distinct.toList = b.multiplicities.keys.map (·, 1) := by
  rw [distinct, toList_combine (fun _ => Nat.zero_min 1), Dictionary.keys, List.map_map,
    ← List.filterMap_eq_map]
  refine List.filterMap_congr fun e he => ?_
  rw [Nat.min_eq_right (b.pos_of_mem e he)]
  rfl

/-! ## Occurrences one after the other -/

/-- Adding a tuple updates its entry, or makes one, unless it is added no times. -/
theorem multiplicities_insert (b : Bag) (s : Tuple) (n : Nat) :
    (b.insert s n).multiplicities
      = if 0 < n then b.multiplicities.insert s ((b.multiplicities.get? s).getD 0 + n)
        else b.multiplicities := by
  refine Dictionary.ext_get? fun t => ?_
  rw [get?_eq_slot?_count, count_insert]
  rcases Nat.eq_zero_or_pos n with rfl | hpos
  · rw [if_neg (Nat.lt_irrefl 0), ite_self, Nat.add_zero, get?_eq_slot?_count]
  · rw [if_pos hpos, Dictionary.get?_insert]
    by_cases hts : t = s
    · rw [if_pos hts, hts, if_pos Std.ReflCmp.compare_self]
      exact slot?_of_pos (Nat.add_pos_right _ hpos)
    · rw [if_neg hts, if_neg fun heq => hts (Std.LawfulEqOrd.eq_of_compare heq), Nat.add_zero,
        get?_eq_slot?_count]

/-- Adds some tuples, one after the other. -/
def extend (b : Bag) (ts : List Tuple) : Bag := ts.foldl (fun b t => b.insert t 1) b

theorem count_extend (b : Bag) (ts : List Tuple) (t : Tuple) :
    (b.extend ts).count t = b.count t + ts.count t := by
  induction ts generalizing b with
  | nil => rfl
  | cons s ts ih =>
    have hstep : (b.extend (s :: ts)).count t = (b.insert s 1).count t + ts.count t := ih _
    rw [hstep, count_insert, List.count_cons, Nat.add_right_comm, Nat.add_assoc]
    simp only [beq_iff_eq, eq_comm (a := s)]

theorem ofList_eq_extend (ts : List Tuple) : ofList ts = empty.extend ts :=
  ext_count fun t => by rw [count_ofList, count_extend, count_empty, Nat.zero_add]

/-- Adding tuples one after the other and uniting with their bag are the same. -/
theorem extend_eq_union (b : Bag) (ts : List Tuple) : b.extend ts = b.union (ofList ts) :=
  ext_count fun t => by rw [count_extend, count_union, count_ofList]

theorem count_foldl_insert {entries : List (Tuple × Nat)} (h : Entries.Sorted entries) (b : Bag)
    (t : Tuple) :
    (entries.foldl (fun b e => b.insert e.1 e.2) b).count t
      = b.count t + (Entries.get? t entries).getD 0 := by
  induction entries generalizing b with
  | nil => rfl
  | cons e entries ih =>
    obtain ⟨s, n⟩ := e
    obtain ⟨habove, hsorted⟩ := Entries.sorted_cons.1 h
    rw [List.foldl_cons, ih hsorted, count_insert, Entries.get?_cons]
    by_cases hst : t = s
    · subst hst
      rw [if_pos rfl, if_pos Std.ReflCmp.compare_self, Entries.get?_eq_none_of_above habove]
      rfl
    · rw [if_neg hst, if_neg fun heq => hst (Std.LawfulEqOrd.eq_of_compare heq), Nat.add_zero]

/-- A union inserts the entries of the right bag into the left one. -/
theorem union_eq_foldl_insert (a b : Bag) :
    a.union b = b.toList.foldl (fun a e => a.insert e.1 e.2) a :=
  ext_count fun t => by
    rw [count_union, toList, count_foldl_insert b.multiplicities.sorted]
    rfl

/-! ## Sizes -/

/-- The tuples that occur. -/
def support (b : Bag) : Finset Tuple := b.multiplicities.keys.toFinset

theorem mem_support : t ∈ b.support ↔ 0 < b.count t := by
  rw [support, List.mem_toFinset, Dictionary.mem_keys, Dictionary.contains, get?_eq_slot?_count]
  rcases Nat.eq_zero_or_pos (b.count t) with hzero | hpos
  · rw [hzero]
    exact iff_of_false Bool.false_ne_true (Nat.lt_irrefl 0)
  · rw [slot?_of_pos hpos]
    exact iff_of_true rfl hpos

theorem distinctSize_eq_card (b : Bag) : b.distinctSize = b.support.card := by
  rw [support, List.toFinset_card_of_nodup b.multiplicities.nodup_keys, Dictionary.keys,
    List.length_map]
  rfl

theorem foldr_eq_length_expand (entries : List (Tuple × Nat)) :
    entries.foldr (fun e n => e.2 + n) 0 = (expand entries).length := by
  induction entries with
  | nil => rfl
  | cons e entries ih =>
    rw [List.foldr_cons, ih, expand_cons, List.length_append, List.length_replicate]

theorem size_eq_length (b : Bag) : b.size = b.elements.length :=
  foldr_eq_length_expand b.toList

theorem toFinset_elements (b : Bag) : b.elements.toFinset = b.support := by
  ext t
  rw [List.mem_toFinset, mem_elements, mem_support]

/-- The number of occurrences is the sum of the counts. -/
theorem size_eq_sum (b : Bag) : b.size = ∑ t ∈ b.support, b.count t := by
  rw [size_eq_length, ← toFinset_elements, ← List.sum_toFinset_count_eq_length]
  exact Finset.sum_congr rfl fun t _ => count_elements b t

theorem isEmpty_iff : b.isEmpty = true ↔ ∀ t, b.count t = 0 := by
  rw [isEmpty, List.isEmpty_iff]
  constructor
  · intro h t
    rw [count, Dictionary.get?, show b.multiplicities.entries = [] from h]
    rfl
  · intro h
    have hempty : b = empty := ext_count fun t => by rw [h t, count_empty]
    rw [hempty]
    rfl

theorem eq_iff_count : a = b ↔ ∀ t, a.count t = b.count t :=
  ⟨fun h _ => h ▸ rfl, ext_count⟩

/-- A bag is its own distinct if it holds each tuple once. -/
theorem distinct_ofList_eq_iff {ts : List Tuple} : (ofList ts).distinct = ofList ts ↔ ts.Nodup := by
  rw [eq_iff_count, List.nodup_iff_count_le_one]
  refine forall_congr' fun t => ?_
  rw [count_distinct, count_ofList, min_eq_left_iff]

/-! ## Steps -/

/-- How a bag is made, from the bags of some names. -/
inductive Operation where
  /-- No tuples. -/
  | new
  /-- Adds a tuple `n` times, which may be once or not at all. -/
  | insert (x : String) (t : Tuple) (n : Nat)
  /-- Adds some tuples, one after the other. -/
  | extend (x : String) (ts : List Tuple)
  /-- Some tuples. -/
  | collect (ts : List Tuple)
  /-- Unites two bags, be it in a new bag or in place of the left one. -/
  | union (x y : String)
  | intersection (x y : String)
  | difference (x y : String)
  | distinct (x : String)

namespace Operation

/-- The bag that is made. -/
def result (bags : String → Bag) : Operation → Bag
  | new => .empty
  | insert x t n => (bags x).insert t n
  | extend x ts => (bags x).extend ts
  | collect ts => .ofList ts
  | union x y => (bags x).union (bags y)
  | intersection x y => (bags x).intersection (bags y)
  | difference x y => (bags x).difference (bags y)
  | distinct x => (bags x).distinct

/-- How often the multiset that is made holds a tuple, given how often those of the names do. -/
def multiplicity (m : String → Tuple → Nat) : Operation → Tuple → Nat
  | new, _ => 0
  | insert x s n, t => m x t + if t = s then n else 0
  | extend x ts, t => m x t + ts.count t
  | collect ts, t => ts.count t
  | union x y, t => m x t + m y t
  | intersection x y, t => min (m x t) (m y t)
  | difference x y, t => m x t - m y t
  | distinct x, t => if 0 < m x t then 1 else 0

/-- What an operation does to the count of every tuple. -/
theorem count_result (bags : String → Bag) (op : Operation) (t : Tuple) :
    (op.result bags).count t = op.multiplicity (fun x => (bags x).count) t := by
  cases op with
  | new => exact count_empty t
  | insert x s n => exact count_insert (bags x) s t n
  | extend x ts => exact count_extend (bags x) ts t
  | collect ts => exact count_ofList ts t
  | union x y => exact count_union (bags x) (bags y) t
  | intersection x y => exact count_intersection (bags x) (bags y) t
  | difference x y => exact count_difference (bags x) (bags y) t
  | distinct x =>
    rw [result, count_distinct, multiplicity]
    split
    · next hpos => exact Nat.min_eq_right hpos
    · next hzero =>
      rw [Nat.eq_zero_of_not_pos hzero]
      rfl

end Operation

/-- An operation and the name that its result is kept under. -/
structure Step where
  target : String
  operation : Operation

namespace Step

/-- Makes a bag and keeps it. -/
def run (bags : String → Bag) (s : Step) : String → Bag :=
  Function.update bags s.target (s.operation.result bags)

/-- The step, as far as multiplicities go. -/
def runMultiplicities (m : String → Tuple → Nat) (s : Step) : String → Tuple → Nat :=
  Function.update m s.target (s.operation.multiplicity m)

/-- One step makes of the counts what it makes of the multiplicities. -/
theorem count_run (bags : String → Bag) (s : Step) :
    (fun x => (s.run bags x).count) = s.runMultiplicities fun x => (bags x).count := by
  funext x t
  unfold run runMultiplicities
  by_cases hx : x = s.target
  · subst hx
    rw [Function.update_self, Function.update_self]
    exact s.operation.count_result bags t
  · rw [Function.update_of_ne hx, Function.update_of_ne hx]

end Step

/-- The bags that some steps make, from none. -/
def made (steps : List Step) : String → Bag := steps.foldl Step.run fun _ => .empty

/-- The multiplicities that some steps make, from none. -/
def multiplicitiesMade (steps : List Step) : String → Tuple → Nat :=
  steps.foldl Step.runMultiplicities fun _ _ => 0

/-- A run makes of the counts what it makes of the multiplicities. -/
theorem count_foldl_run (steps : List Step) (bags : String → Bag) :
    (fun x => (steps.foldl Step.run bags x).count)
      = steps.foldl Step.runMultiplicities fun x => (bags x).count := by
  induction steps generalizing bags with
  | nil => rfl
  | cons s steps ih => rw [List.foldl_cons, ih, Step.count_run, List.foldl_cons]

theorem count_made (steps : List Step) (x : String) (t : Tuple) :
    (made steps x).count t = multiplicitiesMade steps x t :=
  congrFun (congrFun (count_foldl_run steps fun _ => .empty) x) t

/-- **Bags follow multiplicities.**  Of a bag that is made by any steps, no entry is empty, and
every tuple is in it as often as the steps have it; its sizes are the sum of these multiplicities
and the number of those that are positive, and it is empty if all of them are zero.  Two bags are
equal just when all of their multiplicities are. -/
theorem bags_follow_multiplicities (steps : List Step) (x : String) :
    (∀ e ∈ (made steps x).toList, 0 < e.2) ∧
      (∀ t, (made steps x).count t = multiplicitiesMade steps x t) ∧
      (∃ support : Finset Tuple, (∀ t, t ∈ support ↔ 0 < multiplicitiesMade steps x t) ∧
        (made steps x).size = ∑ t ∈ support, multiplicitiesMade steps x t ∧
        (made steps x).distinctSize = support.card) ∧
      ((made steps x).isEmpty = true ↔ ∀ t, multiplicitiesMade steps x t = 0) ∧
      ∀ (others : List Step) (y : String), made steps x = made others y ↔
        ∀ t, multiplicitiesMade steps x t = multiplicitiesMade others y t := by
  refine ⟨(made steps x).pos_of_mem, count_made steps x, ⟨(made steps x).support, ?_⟩, ?_⟩
  · simp only [← count_made]
    exact ⟨fun _ => mem_support, size_eq_sum _, distinctSize_eq_card _⟩
  · simp only [← count_made]
    exact ⟨isEmpty_iff, fun _ _ => eq_iff_count⟩

end Bag

end BagQuery
