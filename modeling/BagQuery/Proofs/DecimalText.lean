import BagQuery.Text.Blank
import BagQuery.Text.Numeral

/-!
# The characters of decimal text

The digits of a number are those of the core library (`digits_eq_toDigits`), and so is the text of
an integer (`ofInt64_eq_toString`).  A numeral holds ASCII digits and nothing else, and an integer a
minus sign in front of them (`isDigit_of_mem_digits`, `mem_intChars`).  None of these is blank, so
trimming leaves an integer as it is (`trim_intChars`).
-/

namespace BagQuery.Text

namespace Numeral

theorem digitChar_eq_digitChar {d : Nat} (h : d < 10) : digitChar d = d.digitChar := by
  have key : ∀ d : Fin 10, digitChar d.val = d.val.digitChar := by decide
  exact key ⟨d, h⟩

theorem digits_eq_toDigits (n : Nat) : digits 10 n = Nat.toDigits 10 n := by
  fun_induction digits 10 n with
  | case1 n hn =>
    have hn : n < 10 := by omega
    rw [Nat.toDigits_of_lt_base hn, digitChar_eq_digitChar hn]
  | case2 n hn ih =>
    rw [Nat.toDigits_of_base_le (by omega) (by omega), ih,
      digitChar_eq_digitChar (Nat.mod_lt n (by omega))]

theorem intChars_eq_toString (i : Int) : intChars i = (toString i).toList := by
  cases i with
  | ofNat n => rw [intChars, digits_eq_toDigits, Int.toString_eq_repr, Int.repr, Nat.toList_repr]
  | negSucc n =>
    rw [intChars, digits_eq_toDigits, Int.toString_eq_repr, Int.repr, String.toList_append,
      Nat.toList_repr]
    rfl

theorem ofInt64_eq_toString (i : Int64) : ofInt64 i = toString i := by
  rw [ofInt64, intChars_eq_toString, String.ofList_toList]
  rfl

theorem isDigit_of_mem_digits {n : Nat} {ch : Char} (h : ch ∈ digits 10 n) :
    ch.isDigit = true :=
  Nat.isDigit_of_mem_toDigits (by omega) (by omega) (digits_eq_toDigits n ▸ h)

theorem digits_inj {m n : Nat} (h : digits 10 m = digits 10 n) : m = n := by
  have hm := value?_digits (by omega : 2 ≤ 10) (by omega) m
  rw [h, value?_digits (by omega) (by omega)] at hm
  exact (Option.some.inj hm).symm

theorem mem_intChars {i : Int} {ch : Char} (h : ch ∈ intChars i) :
    ch.isDigit = true ∨ ch = '-' := by
  cases i with
  | ofNat n => exact Or.inl (isDigit_of_mem_digits h)
  | negSucc n =>
    rcases List.mem_cons.1 h with rfl | h
    · exact Or.inr rfl
    · exact Or.inl (isDigit_of_mem_digits h)

theorem intChars_ne_nil (i : Int) : intChars i ≠ [] := by
  cases i with
  | ofNat n => exact digits_ne_nil 10 n
  | negSucc n => nofun

end Numeral

theorem isBlank_of_mem_intChars {i : Int} {c : Char} (h : c ∈ Numeral.intChars i) :
    isBlank c = false := by
  rcases Numeral.mem_intChars h with h | rfl
  · exact isBlank_eq_false_of_isDigit h
  · rfl

theorem trim_intChars (i : Int) : trim (Numeral.intChars i) = Numeral.intChars i :=
  trim_of_no_blank fun _ => isBlank_of_mem_intChars

end BagQuery.Text
