import BagQuery.Dictionary
import BagQuery.Relation.Tuple

/-!
# Bags

A bag is a multiset of tuples: a dictionary from tuples to positive multiplicities.  Bags with the
same multiplicities are therefore the same bag (`Bag.ext_count`), and every operation is described
by what it does to `count`:

* `count_combine`: `combine f a b` holds a tuple `f (a.count t) (b.count t)` times; union,
  intersection, difference and distinct are the cases `+`, `min`, `-` and "at most once".
* `count_ofList`: a list and its bag hold a tuple equally often.
* `elements` lists a bag in the order of its tuples, each as often as it occurs.
-/

namespace BagQuery

/-- A multiset of tuples. -/
structure Bag where
  multiplicities : Dictionary Tuple Nat
  pos_of_mem : ∀ e ∈ multiplicities.entries, 0 < e.2
deriving DecidableEq

namespace Bag

/-- No tuples. -/
def empty : Bag := ⟨.empty, fun _ h => nomatch h⟩

instance : Inhabited Bag := ⟨empty⟩

/-- How often a tuple occurs. -/
def count (b : Bag) (t : Tuple) : Nat := (b.multiplicities.get? t).getD 0

/-- A multiplicity as the entry that it is worth: none for zero. -/
def slot? (n : Nat) : Option Nat := if n = 0 then none else some n

theorem getD_slot? (n : Nat) : (slot? n).getD 0 = n := by
  unfold slot?; split <;> simp_all

theorem pos_of_slot?_eq_some {n m : Nat} (h : slot? n = some m) : 0 < m := by
  unfold slot? at h; split at h
  · cases h
  · cases h; omega

theorem pos_of_mem_cons? {k : Tuple} {n : Nat} {rest : List (Tuple × Nat)}
    (h : ∀ e ∈ rest, 0 < e.2) : ∀ e ∈ Entries.cons? k (slot? n) rest, 0 < e.2 := by
  intro e he
  cases hn : slot? n with
  | none => rw [hn] at he; exact h e he
  | some m =>
    rw [hn] at he
    rcases List.mem_cons.1 he with rfl | he
    · exact pos_of_slot?_eq_some hn
    · exact h e he

theorem pos_of_mem_merge (f : Option Nat → Option Nat → Nat) (xs ys : List (Tuple × Nat)) :
    ∀ e ∈ Entries.merge (fun x y => slot? (f x y)) xs ys, 0 < e.2 := by
  induction xs generalizing ys with
  | nil =>
    intro e he
    simp only [Entries.merge, List.mem_filterMap, Option.map_eq_some_iff] at he
    obtain ⟨_, _, _, hn, rfl⟩ := he
    exact pos_of_slot?_eq_some hn
  | cons x xs ihx =>
    rw [Entries.merge]
    induction ys with
    | nil => exact pos_of_mem_cons? (ihx [])
    | cons y ys ihy =>
      unfold Entries.mergeEntry
      split
      · exact pos_of_mem_cons? (ihx _)
      · exact pos_of_mem_cons? (ihx _)
      · exact pos_of_mem_cons? ihy

/-- The bag that holds each tuple as often as `f` makes of its two multiplicities. -/
def combine (f : Nat → Nat → Nat) (a b : Bag) : Bag :=
  ⟨Dictionary.combine (fun x y => slot? (f (x.getD 0) (y.getD 0))) a.multiplicities
      b.multiplicities,
    pos_of_mem_merge (fun x y => f (x.getD 0) (y.getD 0)) _ _⟩

theorem count_combine {f : Nat → Nat → Nat} (hf : f 0 0 = 0) (a b : Bag) (t : Tuple) :
    (combine f a b).count t = f (a.count t) (b.count t) := by
  unfold count combine
  rw [Dictionary.get?_combine (by simp [slot?, hf]), getD_slot?]

theorem pos_of_get?_eq_some {t : Tuple} {n : Nat} {entries : List (Tuple × Nat)}
    (pos : ∀ e ∈ entries, 0 < e.2) (h : Entries.get? t entries = some n) : 0 < n := by
  induction entries with
  | nil => cases h
  | cons e entries ih =>
    rw [Entries.get?_cons t e.1 e.2] at h
    split at h
    · cases h; exact pos e (List.mem_cons_self ..)
    · exact ih (fun e he => pos e (List.mem_cons_of_mem _ he)) h

theorem get?_eq_slot?_count (b : Bag) (t : Tuple) :
    b.multiplicities.get? t = slot? (b.count t) := by
  unfold count
  cases h : b.multiplicities.get? t with
  | none => rfl
  | some n =>
    have := pos_of_get?_eq_some b.pos_of_mem h
    rw [Option.getD_some, slot?, if_neg (by omega)]

theorem ext_count {a b : Bag} (h : ∀ t, a.count t = b.count t) : a = b := by
  have : a.multiplicities = b.multiplicities := Dictionary.ext_get? fun t => by
    rw [get?_eq_slot?_count, get?_eq_slot?_count, h]
  cases a; cases b; cases this; rfl

/-! ## Operations -/

/-- A tuple `n` times. -/
def replicate (n : Nat) (t : Tuple) : Bag :=
  if h : n = 0 then empty else ⟨.single t n, fun e he => by
    rw [List.mem_singleton.1 he]; exact Nat.pos_of_ne_zero h⟩

/-- Multiplicities add. -/
def union (a b : Bag) : Bag := combine (· + ·) a b

/-- The lesser multiplicity. -/
def intersection (a b : Bag) : Bag := combine min a b

/-- Multiplicities in `a` less those in `b`. -/
def difference (a b : Bag) : Bag := combine (· - ·) a b

/-- Each tuple once. -/
def distinct (b : Bag) : Bag := combine (fun n _ => min n 1) b empty

/-- Adds a tuple `n` times. -/
def insert (b : Bag) (t : Tuple) (n : Nat) : Bag := union b (replicate n t)

/-- Unites neighbours. -/
def pairUp : List Bag → List Bag
  | a :: b :: rest => union a b :: pairUp rest
  | rest => rest

/-- The union of all bags of a list; each of `rounds` rounds halves the list. -/
def unionAll : (rounds : Nat) → List Bag → Bag
  | 0, bags => bags.foldr union empty
  | _ + 1, [] => empty
  | _ + 1, [b] => b
  | n + 1, bags => unionAll n (pairUp bags)

/-- How often a tuple is in some bags together. -/
def countAll (t : Tuple) : List Bag → Nat
  | [] => 0
  | b :: bags => b.count t + countAll t bags

/-- The bag of the tuples of a list. -/
def ofList (ts : List Tuple) : Bag := unionAll ts.length (ts.map (replicate 1))

/-- All occurrences, in the order of the tuples. -/
def elements (b : Bag) : List Tuple :=
  b.multiplicities.entries.flatMap fun (t, n) => List.replicate n t

/-- The tuples with their multiplicities, in the order of the tuples. -/
def toList (b : Bag) : List (Tuple × Nat) := b.multiplicities.entries

/-- The number of occurrences. -/
def size (b : Bag) : Nat := b.toList.foldr (fun e n => e.2 + n) 0

/-- The number of different tuples. -/
def distinctSize (b : Bag) : Nat := b.toList.length

/-- The bag holds nothing. -/
def isEmpty (b : Bag) : Bool := b.toList.isEmpty

theorem count_empty (t : Tuple) : empty.count t = 0 := rfl

theorem count_replicate (n : Nat) (s t : Tuple) :
    (replicate n s).count t = if t = s then n else 0 := by
  unfold replicate
  split
  · next h => simp [h, count_empty]
  · by_cases h : t = s
    · subst h
      simp [count, Dictionary.get?_single, Std.ReflCmp.compare_self]
    · have hc : compare t s ≠ .eq := fun e => h (Std.LawfulEqOrd.eq_of_compare e)
      simp [count, Dictionary.get?_single, h, hc]

theorem count_union (a b : Bag) (t : Tuple) : (union a b).count t = a.count t + b.count t :=
  count_combine rfl a b t

theorem count_intersection (a b : Bag) (t : Tuple) :
    (intersection a b).count t = min (a.count t) (b.count t) := count_combine rfl a b t

theorem count_difference (a b : Bag) (t : Tuple) :
    (difference a b).count t = a.count t - b.count t := count_combine rfl a b t

theorem count_distinct (b : Bag) (t : Tuple) : b.distinct.count t = min (b.count t) 1 :=
  count_combine rfl b empty t

theorem count_insert (b : Bag) (s t : Tuple) (n : Nat) :
    (b.insert s n).count t = b.count t + if t = s then n else 0 := by
  rw [insert, count_union, count_replicate]

theorem count_foldr_union (bags : List Bag) (t : Tuple) :
    (bags.foldr union empty).count t = countAll t bags := by
  induction bags with
  | nil => rfl
  | cons b bags ih => rw [List.foldr_cons, count_union, ih, countAll]

theorem countAll_pairUp (bags : List Bag) (t : Tuple) :
    countAll t (pairUp bags) = countAll t bags := by
  fun_induction pairUp bags with
  | case1 a b rest ih => simp only [countAll, count_union, ih, Nat.add_assoc]
  | case2 => rfl

theorem count_unionAll (rounds : Nat) (bags : List Bag) (t : Tuple) :
    (unionAll rounds bags).count t = countAll t bags := by
  fun_induction unionAll rounds bags with
  | case1 bags => exact count_foldr_union bags t
  | case2 => rfl
  | case3 => rfl
  | case4 n bags _ _ ih => rw [ih, countAll_pairUp]

theorem count_ofList (ts : List Tuple) (t : Tuple) : (ofList ts).count t = ts.count t := by
  rw [ofList, count_unionAll]
  induction ts with
  | nil => rfl
  | cons s ts ih =>
    simp only [List.map_cons, countAll, ih, count_replicate, List.count_cons, beq_iff_eq]
    rw [Nat.add_comm]
    by_cases h : t = s
    · simp [h]
    · rw [if_neg h, if_neg (Ne.symm h)]

end Bag

end BagQuery
