/-!
# Dictionaries

A dictionary maps keys to values.  It is a list of entries in strictly increasing order of their
keys, so two dictionaries with the same look-ups are the same dictionary (`Dictionary.ext_get?`).

Everything is built from one merge of two dictionaries, `combine f`, in which the value under a
key is `f` of the two values there; `get?_combine` is its law, and the laws of `insert` and
`erase` follow from it.
-/

namespace BagQuery

variable {α β γ δ : Type}

/-! ## Merging sorted entries -/

namespace Entries

variable [Ord α]

/-- An entry with a value that may be missing, in front of other entries. -/
def cons? (k : α) (v? : Option δ) (rest : List (α × δ)) : List (α × δ) :=
  match v? with
  | some v => (k, v) :: rest
  | none => rest

/-- Merges an entry `(k, v)` and what comes behind it, of which `rest` knows how to merge it,
with the entries of the other side. -/
def mergeEntry (f : Option β → Option γ → Option δ) (k : α) (v : β)
    (rest : List (α × γ) → List (α × δ)) : List (α × γ) → List (α × δ)
  | [] => cons? k (f (some v) none) (rest [])
  | (j, w) :: others =>
    match compare k j with
    | .lt => cons? k (f (some v) none) (rest ((j, w) :: others))
    | .eq => cons? k (f (some v) (some w)) (rest others)
    | .gt => cons? j (f none (some w)) (mergeEntry f k v rest others)

/-- Merges two sorted lists of entries; `f` makes the value under each key. -/
def merge (f : Option β → Option γ → Option δ) :
    List (α × β) → List (α × γ) → List (α × δ)
  | [] => fun others => others.filterMap fun (j, w) => (f none (some w)).map (j, ·)
  | (k, v) :: entries => mergeEntry f k v (merge f entries)

/-- The value under a key. -/
def get? (k : α) : List (α × β) → Option β
  | [] => none
  | (j, v) :: entries => if compare k j = .eq then some v else get? k entries

/-- Keys increase strictly. -/
def Sorted (entries : List (α × β)) : Prop := entries.Pairwise fun a b => compare a.1 b.1 = .lt

/-- Every key is above `k`. -/
def Above (k : α) (entries : List (α × β)) : Prop := ∀ e ∈ entries, compare k e.1 = .lt

theorem sorted_cons {k : α} {v : β} {entries : List (α × β)} :
    Sorted ((k, v) :: entries) ↔ Above k entries ∧ Sorted entries := List.pairwise_cons

theorem Above.nil (k : α) : Above k ([] : List (α × β)) := fun _ h => nomatch h

theorem get?_cons (k j : α) (v : β) (entries : List (α × β)) :
    get? k ((j, v) :: entries) = if compare k j = .eq then some v else get? k entries := rfl

theorem Above.cons? {k j : α} {v? : Option δ} {rest : List (α × δ)} (hj : compare k j = .lt)
    (h : Above k rest) : Above k (cons? j v? rest) := by
  cases v? with
  | none => exact h
  | some v =>
    intro e he
    rcases List.mem_cons.1 he with rfl | he
    · exact hj
    · exact h e he

theorem sorted_cons? {k : α} {v? : Option δ} {rest : List (α × δ)} (hk : Above k rest)
    (h : Sorted rest) : Sorted (cons? k v? rest) := by
  cases v? with
  | none => exact h
  | some v => exact sorted_cons.2 ⟨hk, h⟩

theorem Above.trans [Std.TransOrd α] {j k : α} {entries : List (α × β)} (hjk : compare j k = .lt)
    (h : Above k entries) : Above j entries :=
  fun e he => Std.TransCmp.lt_trans hjk (h e he)

theorem get?_eq_none_of_above {k : α} {entries : List (α × β)} (h : Above k entries) :
    get? k entries = none := by
  induction entries with
  | nil => rfl
  | cons e entries ih =>
    have he := h e (List.mem_cons_self ..)
    rw [get?, if_neg (by rw [he]; simp), ih fun e he => h e (List.mem_cons_of_mem _ he)]

/-- Merging keeps the keys above a bound above it. -/
theorem Above.merge {b : α} {f : Option β → Option γ → Option δ} {xs : List (α × β)}
    {ys : List (α × γ)} (hx : Above b xs) (hy : Above b ys) : Above b (merge f xs ys) := by
  induction xs generalizing ys with
  | nil =>
    intro e he
    simp only [Entries.merge, List.mem_filterMap, Option.map_eq_some_iff] at he
    obtain ⟨d, hd, _, _, rfl⟩ := he
    exact hy d hd
  | cons x xs ihx =>
    obtain ⟨k, v⟩ := x
    have hk : compare b k = .lt := hx (k, v) (List.mem_cons_self ..)
    have hxs : Above b xs := fun e he => hx e (List.mem_cons_of_mem _ he)
    rw [Entries.merge]
    induction ys with
    | nil => exact .cons? hk (ihx hxs hy)
    | cons y ys ihy =>
      obtain ⟨j, w⟩ := y
      have hj : compare b j = .lt := hy (j, w) (List.mem_cons_self ..)
      have hys : Above b ys := fun e he => hy e (List.mem_cons_of_mem _ he)
      unfold mergeEntry
      split
      · exact .cons? hk (ihx hxs hy)
      · exact .cons? hk (ihx hxs hys)
      · exact .cons? hj (ihy hys)

theorem sorted_filterMap {entries : List (α × β)} (h : Sorted entries) (f : α → β → Option δ) :
    Sorted (entries.filterMap fun e => (f e.1 e.2).map (e.1, ·)) := by
  refine List.Pairwise.filterMap _ (fun a b hab c hc d hd => ?_) h
  simp only [Option.map_eq_some_iff] at hc hd
  obtain ⟨_, _, rfl⟩ := hc
  obtain ⟨_, _, rfl⟩ := hd
  exact hab

variable [Std.TransOrd α]

theorem sorted_merge {f : Option β → Option γ → Option δ} {xs : List (α × β)}
    {ys : List (α × γ)} (hx : Sorted xs) (hy : Sorted ys) : Sorted (merge f xs ys) := by
  induction xs generalizing ys with
  | nil => exact sorted_filterMap hy fun _ w => f none (some w)
  | cons x xs ihx =>
    obtain ⟨k, v⟩ := x
    obtain ⟨hkx, hx⟩ := sorted_cons.1 hx
    rw [merge]
    induction ys with
    | nil => exact sorted_cons? (.merge hkx (.nil k)) (ihx hx hy)
    | cons y ys ihy =>
      obtain ⟨j, w⟩ := y
      obtain ⟨hjy, hys⟩ := sorted_cons.1 hy
      unfold mergeEntry
      split
      · next h =>
        refine sorted_cons? (.merge hkx fun e he => ?_) (ihx hx hy)
        rcases List.mem_cons.1 he with rfl | he
        · exact h
        · exact hjy.trans h e he
      · next h =>
        refine sorted_cons? (.merge hkx fun e he => ?_) (ihx hx hys)
        exact Std.TransCmp.lt_of_eq_of_lt h (hjy e he)
      · next h =>
        have hjk : compare j k = .lt := Std.OrientedCmp.lt_of_gt h
        refine sorted_cons? ?_ (ihy hys)
        rw [← merge]
        refine .merge (fun e he => ?_) hjy
        rcases List.mem_cons.1 he with rfl | he
        · exact hjk
        · exact hkx.trans hjk e he

theorem get?_cons? {k j : α} {v? : Option δ} {rest : List (α × δ)} (h : Above j rest) :
    get? k (cons? j v? rest) = if compare k j = .eq then v? else get? k rest := by
  cases v? with
  | some v => rfl
  | none =>
    split
    · next he =>
      refine get?_eq_none_of_above fun e hm => ?_
      exact Std.TransCmp.lt_of_eq_of_lt he (h e hm)
    · rfl

/-- The value under a key after a merge. -/
theorem get?_merge {f : Option β → Option γ → Option δ} (hf : f none none = none)
    {xs : List (α × β)} {ys : List (α × γ)} (hx : Sorted xs) (hy : Sorted ys) (k : α) :
    get? k (merge f xs ys) = f (get? k xs) (get? k ys) := by
  induction xs generalizing ys with
  | nil =>
    induction ys with
    | nil => exact hf.symm
    | cons y ys ihy =>
      obtain ⟨j, w⟩ := y
      obtain ⟨hjy, hys⟩ := sorted_cons.1 hy
      have hstep : merge f ([] : List (α × β)) ((j, w) :: ys)
          = cons? j (f none (some w)) (merge f [] ys) := by
        cases h : f none (some w) <;> simp [merge, cons?, h]
      rw [hstep, get?_cons? (.merge (.nil j) hjy), ihy hys]
      by_cases h : compare k j = .eq <;> simp [get?, h]
  | cons x xs ihx =>
    obtain ⟨i, v⟩ := x
    obtain ⟨hix, hx⟩ := sorted_cons.1 hx
    rw [merge]
    induction ys with
    | nil =>
      rw [mergeEntry, get?_cons? (.merge hix (.nil i)), ihx hx hy]
      by_cases h : compare k i = .eq <;> simp [get?, h]
    | cons y ys ihy =>
      obtain ⟨j, w⟩ := y
      obtain ⟨hjy, hys⟩ := sorted_cons.1 hy
      unfold mergeEntry
      split
      · next h =>
        have habove : Above i ((j, w) :: ys) := fun e he => by
          rcases List.mem_cons.1 he with rfl | he
          · exact h
          · exact hjy.trans h e he
        rw [get?_cons? (.merge hix habove), ihx hx hy]
        by_cases hk : compare k i = .eq
        · have hlt : Above k ((j, w) :: ys) := fun e he =>
            Std.TransCmp.lt_of_eq_of_lt hk (habove e he)
          rw [get?_eq_none_of_above hlt, if_pos hk, get?_cons, if_pos hk]
        · rw [if_neg hk, get?_cons k i, if_neg hk]
      · next h =>
        have habove : Above i ys := fun e he => Std.TransCmp.lt_of_eq_of_lt h (hjy e he)
        have hij : compare k i = .eq ↔ compare k j = .eq := by
          rw [Std.TransCmp.congr_right h]
        rw [get?_cons? (.merge hix habove), ihx hx hys]
        by_cases hk : compare k i = .eq
        · rw [if_pos hk, get?_cons, if_pos hk, get?_cons, if_pos (hij.1 hk)]
        · rw [if_neg hk, get?_cons, if_neg hk, get?_cons, if_neg (fun hj => hk (hij.2 hj))]
      · next h =>
        have hji : compare j i = .lt := Std.OrientedCmp.lt_of_gt h
        have habove : Above j ((i, v) :: xs) := fun e he => by
          rcases List.mem_cons.1 he with rfl | he
          · exact hji
          · exact hix.trans hji e he
        rw [get?_cons? (by rw [← merge]; exact .merge habove hjy), ihy hys]
        by_cases hk : compare k j = .eq
        · have hlt : Above k ((i, v) :: xs) := fun e he =>
            Std.TransCmp.lt_of_eq_of_lt hk (habove e he)
          rw [if_pos hk, get?_eq_none_of_above hlt, get?_cons, if_pos hk]
        · rw [if_neg hk, get?_cons k j, if_neg hk]

/-- Sorted entries are determined by their look-ups. -/
theorem eq_of_get?_eq [Std.LawfulEqOrd α] {xs ys : List (α × β)} (hx : Sorted xs)
    (hy : Sorted ys) (h : ∀ k, get? k xs = get? k ys) : xs = ys := by
  induction xs generalizing ys with
  | nil =>
    cases ys with
    | nil => rfl
    | cons y ys => have := h y.1; simp [get?, Std.ReflCmp.compare_self] at this
  | cons x xs ih =>
    obtain ⟨i, v⟩ := x
    obtain ⟨hix, hx⟩ := sorted_cons.1 hx
    cases ys with
    | nil => have := h i; simp [get?, Std.ReflCmp.compare_self] at this
    | cons y ys =>
      obtain ⟨j, w⟩ := y
      obtain ⟨hjy, hys⟩ := sorted_cons.1 hy
      have hi := h i
      have hj := h j
      simp only [get?, Std.ReflCmp.compare_self, if_true] at hi hj
      have hij : compare i j = .eq := by
        cases hc : compare i j with
        | eq => rfl
        | lt =>
          rw [hc, get?_eq_none_of_above (hjy.trans hc)] at hi
          simp at hi
        | gt =>
          have hc := Std.OrientedCmp.lt_of_gt hc
          rw [hc, get?_eq_none_of_above (hix.trans hc)] at hj
          simp at hj
      obtain rfl : i = j := Std.LawfulEqOrd.eq_of_compare hij
      simp only [Std.ReflCmp.compare_self, if_true, Option.some.injEq] at hi
      subst hi
      refine congrArg _ (ih hx hys fun k => ?_)
      by_cases hk : compare k i = .eq
      · rw [get?_eq_none_of_above fun e he => Std.TransCmp.lt_of_eq_of_lt hk (hix e he),
          get?_eq_none_of_above fun e he => Std.TransCmp.lt_of_eq_of_lt hk (hjy e he)]
      · have := h k
        rwa [get?_cons, if_neg hk, get?_cons, if_neg hk] at this

end Entries

/-! ## Dictionaries -/

/-- Values under keys, in increasing order of the keys. -/
structure Dictionary (α β : Type) [Ord α] where
  entries : List (α × β)
  sorted : Entries.Sorted entries

namespace Dictionary

variable [Ord α]

instance [DecidableEq α] [DecidableEq β] : DecidableEq (Dictionary α β) := fun m n =>
  if h : m.entries = n.entries then
    .isTrue (by cases m; cases n; cases h; rfl)
  else
    .isFalse (fun e => h (congrArg entries e))

/-- No keys. -/
def empty : Dictionary α β := ⟨[], .nil⟩

instance : Inhabited (Dictionary α β) := ⟨empty⟩

/-- One key. -/
def single (k : α) (v : β) : Dictionary α β := ⟨[(k, v)], List.pairwise_singleton ..⟩

/-- The value under a key. -/
def get? (m : Dictionary α β) (k : α) : Option β := Entries.get? k m.entries

/-- The key has a value. -/
def contains (m : Dictionary α β) (k : α) : Bool := (m.get? k).isSome

/-- The keys, in increasing order. -/
def keys (m : Dictionary α β) : List α := m.entries.map Prod.fst

/-- The number of keys. -/
def size (m : Dictionary α β) : Nat := m.entries.length

variable [Std.TransOrd α]

/-- Merges two dictionaries; `f` makes the value under each key. -/
def combine (f : Option β → Option γ → Option δ) (m : Dictionary α β) (n : Dictionary α γ) :
    Dictionary α δ :=
  ⟨Entries.merge f m.entries n.entries, Entries.sorted_merge m.sorted n.sorted⟩

/-- Puts a value under a key, in place of the one that was there. -/
def insert (m : Dictionary α β) (k : α) (v : β) : Dictionary α β :=
  combine (fun old new => new <|> old) m (single k v)

/-- Removes a key. -/
def erase (m : Dictionary α β) (k : α) : Dictionary α β :=
  combine (fun old gone => if gone.isSome then none else old) m (single k ())

theorem get?_combine {f : Option β → Option γ → Option δ} (hf : f none none = none)
    (m : Dictionary α β) (n : Dictionary α γ) (k : α) :
    (combine f m n).get? k = f (m.get? k) (n.get? k) :=
  Entries.get?_merge hf m.sorted n.sorted k

theorem ext_get? [Std.LawfulEqOrd α] {m n : Dictionary α β} (h : ∀ k, m.get? k = n.get? k) :
    m = n := by
  cases m; cases n
  congr
  exact Entries.eq_of_get?_eq ‹_› ‹_› h

omit [Std.TransOrd α] in
theorem get?_empty (k : α) : (empty : Dictionary α β).get? k = none := rfl

omit [Std.TransOrd α] in
theorem get?_single (k j : α) (v : β) :
    (single j v).get? k = if compare k j = .eq then some v else none := rfl

theorem get?_insert (m : Dictionary α β) (k j : α) (v : β) :
    (m.insert j v).get? k = if compare k j = .eq then some v else m.get? k := by
  rw [insert, get?_combine rfl, get?_single]
  split <;> rfl

theorem get?_erase (m : Dictionary α β) (k j : α) :
    (m.erase j).get? k = if compare k j = .eq then none else m.get? k := by
  rw [erase, get?_combine rfl, get?_single]
  split <;> rfl

end Dictionary

end BagQuery
