import BagQuery.Proofs.DecimalText
import BagQuery.Session

/-!
# The keys of stored relations

A key has the name and a number in it, with a mark between them.  Digits are no marks, so the last
mark is that one, and the name and the number can be read back from the key even if there are
marks in the name.
-/

namespace BagQuery

open Text

/-- The key of the relation that is stored for a name under a number. -/
def Settings.key (c : Settings) (name : String) (n : Nat) : Key :=
  ⟨c.owner, c.runId, name ++ "#" ++ Numeral.ofNat n⟩

theorem Text.Numeral.mark_notMem_digits (n : Nat) : '#' ∉ Numeral.digits 10 n := by
  intro h
  cases Numeral.isDigit_of_mem_digits h

theorem takeWhile_reverse_mark (xs : List Char) {zs : List Char} (hz : '#' ∉ zs) :
    (xs ++ '#' :: zs).reverse.takeWhile (· != '#') = zs.reverse := by
  have hdigits : ∀ ch ∈ zs.reverse, (ch != '#') = true := by
    intro ch hch
    rw [bne_iff_ne]
    rintro rfl
    exact hz (List.mem_reverse.1 hch)
  rw [List.reverse_append, List.reverse_cons, List.append_assoc,
    List.takeWhile_append_of_pos hdigits]
  simp

/-- What stands before and behind the last mark. -/
theorem append_mark_inj {xs ys zs ws : List Char} (hz : '#' ∉ zs) (hw : '#' ∉ ws)
    (h : xs ++ '#' :: zs = ys ++ '#' :: ws) : xs = ys ∧ zs = ws := by
  have hbehind := takeWhile_reverse_mark xs hz
  rw [h, takeWhile_reverse_mark ys hw] at hbehind
  obtain rfl : ws = zs := List.reverse_inj.1 hbehind
  exact ⟨List.append_cancel_right h, rfl⟩

/-- **Keys of different names or numbers are different**, also for names with marks in them. -/
theorem Settings.key_inj {c : Settings} {x y : String} {m n : Nat} (h : c.key x m = c.key y n) :
    x = y ∧ m = n := by
  have hrelation : x ++ "#" ++ Numeral.ofNat m = y ++ "#" ++ Numeral.ofNat n :=
    congrArg Key.relation h
  have hlist : x.toList ++ '#' :: Numeral.digits 10 m = y.toList ++ '#' :: Numeral.digits 10 n := by
    simpa [Numeral.ofNat] using congrArg String.toList hrelation
  obtain ⟨hname, hdigits⟩ := append_mark_inj (Numeral.mark_notMem_digits m)
    (Numeral.mark_notMem_digits n) hlist
  exact ⟨String.toList_inj.1 hname, Numeral.digits_inj hdigits⟩

theorem Session.nextKey_ne (c : Settings) (x y : String) {s : Session} {n : Nat}
    (hn : n ≤ s.materialized) : s.nextKey c x ≠ c.key y n := by
  intro hkey
  have hnumber : s.materialized + 1 = n := (Settings.key_inj hkey).2
  omega

end BagQuery
