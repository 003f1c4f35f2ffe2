import BagQuery.Proofs.ElementOrder
import BagQuery.Proofs.TextLines

/-!
# Comparing tuples

Strings are compared by code points.  Their bytes in UTF-8 come in the same order: the codes of two
different characters agree up to a byte that is smaller in the code of the smaller character
(`below_utf8EncodeChar`), so that neither is the start of the other and what follows them does not
count.  Longer codes have greater lead bytes, and codes of one length are numbers in base 64
(`Below.sixBits`).

* `lex_encode_iff`: the bytes of two texts are ordered as their characters are.
* `Tuple.compare_linear`: comparing tuples is a linear order that goes by their atoms.
-/

namespace BagQuery

namespace Text

/-! ## The order of bytes -/

/-- The lists agree up to a place where the first one has the smaller byte. -/
def Below (xs ys : List UInt8) : Prop :=
  ∃ common x y more more', xs = common ++ x :: more ∧ ys = common ++ y :: more' ∧ x < y

theorem Below.lead {x y : UInt8} (h : x < y) (xs ys : List UInt8) : Below (x :: xs) (y :: ys) :=
  ⟨[], x, y, xs, ys, rfl, rfl, h⟩

theorem Below.append {xs ys : List UInt8} (h : Below xs ys) (zs ws : List UInt8) :
    Below (xs ++ zs) (ys ++ ws) := by
  obtain ⟨common, x, y, more, more', rfl, rfl, hxy⟩ := h
  refine ⟨common, x, y, more ++ zs, more' ++ ws, ?_, ?_, hxy⟩
  · rw [List.append_assoc, List.cons_append]
  · rw [List.append_assoc, List.cons_append]

theorem Below.lex {xs ys : List UInt8} (h : Below xs ys) : List.Lex (· < ·) xs ys := by
  obtain ⟨common, x, y, more, more', rfl, rfl, hxy⟩ := h
  exact (List.Lex.rel hxy).append_left _ common

theorem ofNat_lt_ofNat {m n : Nat} (h : m < n) (hn : n < 256) : UInt8.ofNat m < UInt8.ofNat n := by
  rw [UInt8.lt_iff_toNat_lt, UInt8.toNat_ofNat_of_lt' (Nat.lt_trans h hn),
    UInt8.toNat_ofNat_of_lt' hn]
  exact h

/-- Six more bits at the end of the codes of what is in front of them. -/
theorem Below.sixBits (xs ys : List UInt8) {m n : Nat} (h : m < n)
    (hless : m / 64 < n / 64 → Below xs ys) (hsame : m / 64 = n / 64 → xs = ys) :
    Below (xs ++ [UInt8.ofNat (m % 64 + 128)]) (ys ++ [UInt8.ofNat (n % 64 + 128)]) := by
  rcases Nat.lt_or_eq_of_le (Nat.div_le_div_right (c := 64) h.le) with hfront | hfront
  · exact (hless hfront).append _ _
  · rw [hsame hfront]
    exact ⟨ys, _, _, [], [], rfl, rfl, ofNat_lt_ofNat (by omega) (by omega)⟩

/-- **The code of a smaller character has a smaller byte where the codes differ.** -/
theorem below_utf8EncodeChar {c d : Char} (h : c.toNat < d.toNat) :
    Below (String.utf8EncodeChar c) (String.utf8EncodeChar d) := by
  have hd : d.toNat < 0x110000 := by
    rcases d.valid with hd | hd <;> simp only [Char.toNat] <;> omega
  have hshift (k : Nat) : k / 4096 = k / 64 / 64 ∧ k / 262144 = k / 64 / 64 / 64 := by omega
  unfold String.utf8EncodeChar
  simp only [Char.toNat] at h hd ⊢
  generalize c.val.toNat = m at h ⊢
  generalize d.val.toNat = n at h hd ⊢
  simp only [hshift]
  -- a longer code has the greater lead byte, and codes of one length go by their bits
  by_cases hone : m ≤ 127
  · rw [if_pos hone]
    repeat' split
    all_goals exact .lead (ofNat_lt_ofNat (by omega) (by omega)) _ _
  rw [if_neg hone, if_neg (by omega : ¬n ≤ 127)]
  by_cases htwo : m ≤ 2047
  · rw [if_pos htwo]
    by_cases hn : n ≤ 2047
    · rw [if_pos hn]
      refine .sixBits [_] [_] h (fun h => ?_) fun h => by rw [h]
      exact .lead (ofNat_lt_ofNat (by omega) (by omega)) _ _
    · rw [if_neg hn]
      split
      all_goals exact .lead (ofNat_lt_ofNat (by omega) (by omega)) _ _
  rw [if_neg htwo, if_neg (by omega : ¬n ≤ 2047)]
  by_cases hthree : m ≤ 65535
  · rw [if_pos hthree]
    by_cases hn : n ≤ 65535
    · rw [if_pos hn]
      refine .sixBits [_, _] [_, _] h (fun h => ?_) fun h => by rw [h]
      refine .sixBits [_] [_] h (fun h => ?_) fun h => by rw [h]
      exact .lead (ofNat_lt_ofNat (by omega) (by omega)) _ _
    · rw [if_neg hn]
      exact .lead (ofNat_lt_ofNat (by omega) (by omega)) _ _
  rw [if_neg hthree, if_neg (by omega : ¬n ≤ 65535)]
  refine .sixBits [_, _, _] [_, _, _] h (fun h => ?_) fun h => by rw [h]
  refine .sixBits [_, _] [_, _] h (fun h => ?_) fun h => by rw [h]
  refine .sixBits [_] [_] h (fun h => ?_) fun h => by rw [h]
  exact .lead (ofNat_lt_ofNat (by omega) (by omega)) _ _

theorem lex_encode {cs ds : List Char} (h : List.Lex (fun c d => c.toNat < d.toNat) cs ds) :
    List.Lex (· < ·) (encode cs) (encode ds) := by
  induction h with
  | nil =>
    rename_i d ds
    show List.Lex _ [] (String.utf8EncodeChar d ++ encode ds)
    obtain ⟨b, bs, hcode⟩ := List.exists_cons_of_ne_nil (utf8EncodeChar_ne_nil d)
    rw [hcode]
    exact .nil
  | rel hcd => exact ((below_utf8EncodeChar hcd).append _ _).lex
  | cons _ ih => exact ih.append_left _ _

/-- **The bytes of two texts are ordered as their characters are.** -/
theorem lex_encode_iff {cs ds : List Char} :
    List.Lex (· < ·) (encode cs) (encode ds) ↔
      List.Lex (fun c d => c.toNat < d.toNat) cs ds := by
  refine ⟨fun h => ?_, lex_encode⟩
  rcases lt_trichotomy cs ds with hlt | rfl | hgt
  · exact hlt
  · exact absurd h (List.lt_irrefl (encode cs))
  · exact absurd h (List.lt_asymm (lex_encode hgt))

end Text

/-! ## The order of tuples -/

theorem lex_toUTF8_iff {x y : String} :
    List.Lex (· < ·) x.toUTF8.data.toList y.toUTF8.data.toList ↔
      List.Lex (fun c d => c.toNat < d.toNat) x.toList y.toList := by
  rw [← Text.lex_encode_iff, ← Text.toList_toUTF8, ← Text.toList_toUTF8, String.ofList_toList,
    String.ofList_toList]

namespace Tuple

theorem compare_eq_lt_iff_lex {s t : Tuple} :
    compare s t = .lt ↔ List.Lex (fun a b => compare a b = .lt) s.atoms t.atoms := by
  have hatoms : Atom.Before = fun a b => compare a b = .lt :=
    funext fun a => funext fun b => propext Atom.compare_eq_lt_iff.symm
  rw [compare_eq_lt_iff, Before, hatoms]

/-- A tuple comes before its extensions. -/
theorem compare_extended (s : Tuple) {more : List Atom} (h : more ≠ []) :
    compare s ⟨s.atoms ++ more⟩ = .lt := by
  obtain ⟨a, as, rfl⟩ := List.exists_cons_of_ne_nil h
  have hmore : List.Lex (fun a b => compare a b = .lt) (s.atoms ++ []) (s.atoms ++ a :: as) :=
    List.Lex.nil.append_left _ s.atoms
  rw [List.append_nil] at hmore
  exact compare_eq_lt_iff_lex.2 hmore

/-- **Comparing tuples is a linear order that goes by their atoms.**  Tuples compare as equal
exactly if they are equal, the other way round they compare the other way round, and the order is
transitive.  The first atoms that differ decide, and a tuple comes before its extensions.  Integers
go by value and come before every string; strings go by their bytes in UTF-8, which is to say by
their code points. -/
theorem compare_linear (s t u : Tuple) :
    (compare s t = .eq ↔ s = t) ∧
      compare t s = (compare s t).swap ∧
      (compare s t = .lt → compare t u = .lt → compare s u = .lt) ∧
      (compare s t ≠ .gt → compare t u ≠ .gt → compare s u ≠ .gt) ∧
      (compare s t = .lt ↔ List.Lex (fun a b => compare a b = .lt) s.atoms t.atoms) ∧
      (∀ more : List Atom, more ≠ [] → compare s ⟨s.atoms ++ more⟩ = .lt) ∧
      (∀ i j : Int64, compare (Atom.int i) (Atom.int j) = compare i.toInt j.toInt) ∧
      (∀ (i : Int64) (x : String), compare (Atom.int i) (Atom.string x) = .lt) ∧
      ∀ x y : String,
        (compare (Atom.string x) (Atom.string y) = .lt ↔
          List.Lex (· < ·) x.toUTF8.data.toList y.toUTF8.data.toList) ∧
        (compare (Atom.string x) (Atom.string y) = .lt ↔
          List.Lex (fun c d => c.toNat < d.toNat) x.toList y.toList) := by
  refine ⟨Std.compare_eq_iff_eq, Std.OrientedOrd.eq_swap, Std.TransCmp.lt_trans, ?_,
    compare_eq_lt_iff_lex, fun more => compare_extended s, Atom.compare_int,
    Atom.compare_int_string, fun x y => ?_⟩
  · simp only [Ordering.ne_gt_iff_isLE]
    exact Std.TransOrd.isLE_trans
  · rw [Atom.compare_string, compare_string_eq_lt_iff, lex_toUTF8_iff]
    exact ⟨Iff.rfl, Iff.rfl⟩

/-- Three tuples that differ in characters with codes of two, three and four bytes. -/
theorem compare_linear_accents :
    let s : Tuple := ⟨[.int 2, .string "a\u00e9"]⟩
    let t : Tuple := ⟨[.int 2, .string "a\uffff"]⟩
    let u : Tuple := ⟨[.int 2, .string "a😀"]⟩
    compare s t = .lt ∧ compare t u = .lt ∧ compare s u = .lt ∧ compare s u ≠ .gt ∧
      compare s ⟨s.atoms ++ [.int (-1)]⟩ = .lt ∧
      List.Lex (· < ·) "a\uffff".toUTF8.data.toList "a😀".toUTF8.data.toList := by
  intro s t u
  obtain ⟨-, -, hstrict, hle, -, hmore, -, -, hstrings⟩ := compare_linear s t u
  have hst : compare s t = .lt := by decide +kernel
  have htu : compare t u = .lt := by decide +kernel
  have hst' : compare s t ≠ .gt := by rw [hst]; decide
  have htu' : compare t u ≠ .gt := by rw [htu]; decide
  exact ⟨hst, htu, hstrict hst htu, hle hst' htu', hmore [.int (-1)] (by decide),
    (hstrings _ _).1.1 (by decide +kernel)⟩

end Tuple

end BagQuery
