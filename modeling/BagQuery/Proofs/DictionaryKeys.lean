import BagQuery.Dictionary
import Mathlib.Data.List.Perm.Basic
import Mathlib.Data.List.Nodup

/-!
# The keys of a dictionary

Look-ups after a change, at the key that was changed and at the others, and the number of keys:
each key is listed once, so an insertion adds one to the size just when the key is new.  Other keys
in the same order can take the place of those that are there (`Entries.sorted_map_keys`).
-/

namespace BagQuery

variable {α β : Type} [Ord α] [Std.LawfulEqOrd α]

theorem Entries.mem_keys {entries : List (α × β)} {k : α} :
    k ∈ entries.map Prod.fst ↔ (Entries.get? k entries).isSome = true := by
  induction entries with
  | nil => simp [Entries.get?]
  | cons e entries ih =>
    obtain ⟨j, v⟩ := e
    rw [List.map_cons, List.mem_cons, ih, Entries.get?_cons]
    by_cases h : k = j
    · subst h
      rw [if_pos Std.ReflCmp.compare_self]
      simp
    · rw [if_neg fun e => h (Std.LawfulEqOrd.eq_of_compare e)]
      simp [h]

/-! ## Other keys in the same order -/

section OtherKeys

variable {f : α → α} {entries : List (α × β)}

omit [Std.LawfulEqOrd α] in
theorem Entries.sorted_map_keys
    (hf : ∀ e ∈ entries, ∀ e' ∈ entries, compare (f e.1) (f e'.1) = compare e.1 e'.1)
    (h : Sorted entries) : Sorted (entries.map fun e => (f e.1, e.2)) := by
  refine List.pairwise_map.2 (List.Pairwise.imp_of_mem ?_ h)
  intro e e' he he' hlt
  exact (hf e he e' he').trans hlt

omit [Std.LawfulEqOrd α] in
theorem Entries.get?_map_keys {k : α}
    (hf : ∀ e ∈ entries, compare (f k) (f e.1) = compare k e.1) :
    get? (f k) (entries.map fun e => (f e.1, e.2)) = get? k entries := by
  induction entries with
  | nil => rfl
  | cons e entries ih =>
    obtain ⟨he, hentries⟩ := List.forall_mem_cons.1 hf
    rw [List.map_cons, get?_cons, get?_cons, he, ih hentries]

end OtherKeys

namespace Dictionary

theorem mem_keys {m : Dictionary α β} {k : α} : k ∈ m.keys ↔ m.contains k = true :=
  Entries.mem_keys

theorem nodup_keys (m : Dictionary α β) : m.keys.Nodup := by
  refine List.Pairwise.map _ ?_ m.sorted
  intro a b hlt heq
  rw [heq, Std.ReflOrd.compare_self] at hlt
  cases hlt

omit [Std.LawfulEqOrd α] in
theorem contains_of_get? {m : Dictionary α β} {k : α} {v : β} (h : m.get? k = some v) :
    m.contains k = true := by
  rw [contains, h]
  rfl

variable [Std.TransOrd α]

theorem get?_insert_self (m : Dictionary α β) (k : α) (v : β) : (m.insert k v).get? k = some v := by
  rw [get?_insert, if_pos Std.ReflCmp.compare_self]

theorem get?_insert_of_ne {m : Dictionary α β} {k j : α} {v : β} (h : k ≠ j) :
    (m.insert j v).get? k = m.get? k := by
  rw [get?_insert, if_neg fun e => h (Std.LawfulEqOrd.eq_of_compare e)]

theorem get?_erase_self (m : Dictionary α β) (k : α) : (m.erase k).get? k = none := by
  rw [get?_erase, if_pos Std.ReflCmp.compare_self]

theorem get?_erase_of_ne {m : Dictionary α β} {k j : α} (h : k ≠ j) :
    (m.erase j).get? k = m.get? k := by
  rw [get?_erase, if_neg fun e => h (Std.LawfulEqOrd.eq_of_compare e)]

theorem insert_comm {j k : α} (h : j ≠ k) (m : Dictionary α β) (v w : β) :
    (m.insert j v).insert k w = (m.insert k w).insert j v := by
  refine ext_get? fun i => ?_
  by_cases hk : i = k
  · subst hk
    rw [get?_insert_self, get?_insert_of_ne h.symm, get?_insert_self]
  by_cases hj : i = j
  · subst hj
    rw [get?_insert_of_ne hk, get?_insert_self, get?_insert_self]
  · rw [get?_insert_of_ne hk, get?_insert_of_ne hj, get?_insert_of_ne hj, get?_insert_of_ne hk]

theorem mem_keys_insert {m : Dictionary α β} {k j : α} {v : β} :
    k ∈ (m.insert j v).keys ↔ k = j ∨ k ∈ m.keys := by
  rw [mem_keys, mem_keys, contains, contains]
  by_cases h : k = j
  · subst h
    simp [get?_insert_self]
  · rw [get?_insert_of_ne h]
    simp [h]

theorem size_insert_of_get? {m : Dictionary α β} {k : α} {w : β} (h : m.get? k = some w) (v : β) :
    (m.insert k v).size = m.size := by
  have hk : k ∈ m.keys := mem_keys.2 (contains_of_get? h)
  have hperm : (m.insert k v).keys.Perm m.keys := by
    rw [List.perm_ext_iff_of_nodup (nodup_keys _) (nodup_keys _)]
    intro j
    rw [mem_keys_insert]
    exact ⟨fun hj => hj.elim (fun e => e ▸ hk) id, Or.inr⟩
  simpa [keys, size] using hperm.length_eq

theorem size_insert_of_new {m : Dictionary α β} {k : α} (h : m.get? k = none) (v : β) :
    (m.insert k v).size = m.size + 1 := by
  have hk : k ∉ m.keys := by
    rw [mem_keys, contains, h]
    exact Bool.false_ne_true
  have hperm : (m.insert k v).keys.Perm (k :: m.keys) := by
    rw [List.perm_ext_iff_of_nodup (nodup_keys _) (List.nodup_cons.2 ⟨hk, nodup_keys m⟩)]
    intro j
    rw [mem_keys_insert, List.mem_cons]
  simpa [keys, size] using hperm.length_eq

end Dictionary

end BagQuery
