import Mathlib.Algebra.Order.Field.Basic
import Mathlib.Algebra.Order.Field.Power
import Mathlib.Tactic.NormNum
import Mathlib.Tactic.Positivity
import ScopedCss.Number.Rounding

/-!
# Powers of two and of ten

The powers with whole exponents that numbers are scaled with, as rational numbers, and how many decimal
digits a binary one is worth.
-/

namespace ScopedCss

theorem pow_toNat {b : ℚ} (hb : b ≠ 0) (e : ℤ) : b ^ e.toNat = b ^ e * b ^ (-e).toNat := by
  have hexp : (e.toNat : ℤ) = e + ((-e).toNat : ℤ) := by omega
  rw [← zpow_natCast, ← zpow_natCast, hexp, zpow_add₀ hb]

theorem twoPow_eq (e : ℤ) : (twoPow e : ℚ) = 2 ^ e * twoPow (-e) := by
  have h := pow_toNat (b := 2) (by norm_num) e
  rw [twoPow, twoPow]
  exact_mod_cast h

theorem tenPow_eq (e : ℤ) : (tenPow e : ℚ) = 10 ^ e * tenPow (-e) := by
  have h := pow_toNat (b := 10) (by norm_num) e
  rw [tenPow, tenPow]
  exact_mod_cast h

theorem twoPow_pos (e : ℤ) : 0 < twoPow e := Nat.pow_pos (by norm_num)

theorem tenPow_pos (e : ℤ) : 0 < tenPow e := Nat.pow_pos (by norm_num)

/-- Decimal digits are counted with 28 for 93 binary ones, which is slightly too many. -/
theorem two_zpow_le_of_nonneg {e k : ℤ} (he : 0 ≤ e) (h : 28 * e ≤ 93 * k) : (2 : ℚ) ^ e ≤ 10 ^ k := by
  rw [← zpow_le_zpow_iff_left₀ (n := 93) (by positivity) (by positivity) (by norm_num)]
  calc ((2 : ℚ) ^ e) ^ (93 : ℤ) = (2 ^ (93 : ℤ)) ^ e := by rw [← zpow_mul, ← zpow_mul, mul_comm]
    _ ≤ (10 ^ (28 : ℤ)) ^ e := zpow_le_zpow_left₀ he (by positivity) (by norm_num)
    _ = 10 ^ (28 * e) := (zpow_mul _ _ _).symm
    _ ≤ 10 ^ (93 * k) := zpow_le_zpow_right₀ (by norm_num) h
    _ = (10 ^ k) ^ (93 : ℤ) := by rw [← zpow_mul, mul_comm]

/-- Below one they are counted with 59 for 196, which is slightly too few. -/
theorem two_zpow_le_of_nonpos {e k : ℤ} (he : e ≤ 0) (h : 59 * e ≤ 196 * k) : (2 : ℚ) ^ e ≤ 10 ^ k := by
  rw [← zpow_le_zpow_iff_left₀ (n := 196) (by positivity) (by positivity) (by norm_num)]
  have hbase : ((10 : ℚ) ^ (59 : ℤ)) ^ (-e) ≤ (2 ^ (196 : ℤ)) ^ (-e) :=
    zpow_le_zpow_left₀ (by omega) (by positivity) (by norm_num)
  rw [zpow_neg, zpow_neg, inv_le_inv₀ (by positivity) (by positivity)] at hbase
  calc ((2 : ℚ) ^ e) ^ (196 : ℤ) = (2 ^ (196 : ℤ)) ^ e := by rw [← zpow_mul, ← zpow_mul, mul_comm]
    _ ≤ (10 ^ (59 : ℤ)) ^ e := hbase
    _ = 10 ^ (59 * e) := (zpow_mul _ _ _).symm
    _ ≤ 10 ^ (196 * k) := zpow_le_zpow_right₀ (by norm_num) h
    _ = (10 ^ k) ^ (196 : ℤ) := by rw [← zpow_mul, mul_comm]

end ScopedCss
