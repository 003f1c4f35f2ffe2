/-!
# Numbers in scientific notation

The number `significand * 10 ^ exponent`, as a decimal text gives it, and whether it is too large
for a double.

* `overflows_iff`: a number overflows when it is not below `infinityBound`, although only small
  powers of ten are computed, whatever the exponent.
-/

namespace BagQuery.Text

/-- The number `significand * 10 ^ exponent`. -/
structure Scientific where
  significand : Nat
  exponent : Int
deriving DecidableEq, Repr

namespace Scientific

/-- The least number whose nearest double is infinite.  It lies halfway between the largest double
and the power of two behind it, and of the two the power is the even one. -/
def infinityBound : Nat := (Nat.pow 2 54 - 1) * Nat.pow 2 970

/-- So many factors of ten are beyond the bound. -/
def enoughTens : Nat := 309

/-- The nearest double is infinite.  A positive number with enough factors of ten is beyond the
bound, and one that is divided by a power of ten greater than itself is below one. -/
def overflows (x : Scientific) : Bool :=
  infinityBound * Nat.pow 10 (min (-x.exponent).toNat (x.significand.log2 + 1)) ≤
    x.significand * Nat.pow 10 (min x.exponent.toNat enoughTens)

theorem infinityBound_pos : 0 < infinityBound := by decide +kernel

theorem infinityBound_le : infinityBound ≤ Nat.pow 10 enoughTens := by decide +kernel

theorem pow_le_pow {m n : Nat} (h : m ≤ n) : Nat.pow 10 m ≤ Nat.pow 10 n :=
  Nat.pow_le_pow_right (by omega) h

theorem lt_pow_of_log2_lt {n k : Nat} (h : n.log2 < k) : n < Nat.pow 10 k :=
  Nat.lt_of_lt_of_le (Nat.lt_log2_self (n := n))
    (Nat.le_trans (Nat.pow_le_pow_left (show 2 ≤ 10 by omega) _) (pow_le_pow h))

/-- A number divided by a power of ten greater than itself does not overflow. -/
theorem not_le_of_log2_lt {n k : Nat} (h : n.log2 < k) : ¬ infinityBound * Nat.pow 10 k ≤ n :=
  Nat.not_le.2 (Nat.lt_of_lt_of_le (lt_pow_of_log2_lt h)
    (Nat.le_mul_of_pos_left _ infinityBound_pos))

/-- A positive number with enough factors of ten overflows. -/
theorem le_of_le_exponent {n k : Nat} (hn : 0 < n) (hk : enoughTens ≤ k) :
    infinityBound ≤ n * Nat.pow 10 k :=
  Nat.le_trans infinityBound_le
    (Nat.le_trans (pow_le_pow hk) (Nat.le_mul_of_pos_left _ hn))

theorem overflows_iff (x : Scientific) :
    x.overflows = true ↔ infinityBound * Nat.pow 10 (-x.exponent).toNat ≤
      x.significand * Nat.pow 10 x.exponent.toNat := by
  obtain ⟨n, e⟩ := x
  rw [overflows, decide_eq_true_iff]
  dsimp only
  rcases Int.le_total 0 e with he | he
  · have hd : (-e).toNat = 0 := by omega
    rw [hd, Nat.zero_min]
    rcases Nat.le_total e.toNat enoughTens with hk | hk
    · rw [Nat.min_eq_left hk]
    · rw [Nat.min_eq_right hk]
      rcases Nat.eq_zero_or_pos n with rfl | hn
      · rw [Nat.zero_mul, Nat.zero_mul]
      · rw [show Nat.pow 10 0 = 1 from rfl, Nat.mul_one]
        exact iff_of_true (le_of_le_exponent hn (Nat.le_refl _)) (le_of_le_exponent hn hk)
  · have hu : e.toNat = 0 := by omega
    rw [hu, Nat.zero_min]
    rcases Nat.le_total (-e).toNat (n.log2 + 1) with hk | hk
    · rw [Nat.min_eq_left hk]
    · rw [Nat.min_eq_right hk]
      rw [show Nat.pow 10 0 = 1 from rfl, Nat.mul_one]
      exact iff_of_false (not_le_of_log2_lt (Nat.lt_succ_self _)) (not_le_of_log2_lt hk)

end Scientific

end BagQuery.Text
