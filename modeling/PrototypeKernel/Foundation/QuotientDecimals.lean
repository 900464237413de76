import Mathlib.Algebra.Order.Field.Rat
import Mathlib.Tactic.FieldSimp
import Mathlib.Tactic.Linarith
import Mathlib.Tactic.LinearCombination
import Mathlib.Tactic.Ring

/-! # The decimals of a quotient

A quotient `t / c` in fixed point, with `k` parts of one behind the point. The parts are computed
from the remainder with a divisor that is truncated as well, `t % c / (c / k)`: they may be too
many, and they may be off by more than the last place. -/

namespace QuotientDecimals

variable {k t c : ℕ}

/-- The parts behind the point. -/
def decimals (k t c : ℕ) : ℕ := t % c / (c / k)

/-- **When the parts are less than one.** -/
theorem decimals_lt_iff (hk : 0 < k) (hc : k ≤ c) : decimals k t c < k ↔ t % c < c - c % k := by
  have hsplit := Nat.div_add_mod c k
  have hparts : c - c % k = k * (c / k) := by omega
  rw [decimals, Nat.div_lt_iff_lt_mul (Nat.div_pos hc hk), hparts]

/-- How far the parts are off. -/
theorem error_eq (hk : 0 < k) (hc : k ≤ c) :
    ((t / c : ℕ) : ℚ) + (decimals k t c : ℚ) / k - (t : ℚ) / c =
      ((decimals k t c * (c % k) : ℕ) - (k * (t % c % (c / k)) : ℕ) : ℚ) / (k * c) := by
  have hk' : (k : ℚ) ≠ 0 := Nat.cast_ne_zero.mpr hk.ne'
  have hc' : (c : ℚ) ≠ 0 := Nat.cast_ne_zero.mpr (hk.trans_le hc).ne'
  have htime : (t : ℚ) = c * (t / c : ℕ) + (t % c : ℕ) := mod_cast (Nat.div_add_mod t c).symm
  have hcount : (c : ℚ) = k * (c / k : ℕ) + (c % k : ℕ) := mod_cast (Nat.div_add_mod c k).symm
  have hrem : ((t % c : ℕ) : ℚ) = (c / k : ℕ) * (decimals k t c : ℚ) + (t % c % (c / k) : ℕ) :=
    mod_cast (Nat.div_add_mod (t % c) (c / k)).symm
  push_cast
  field_simp
  rw [htime, hrem]
  linear_combination (decimals k t c : ℚ) * hcount

/-- **When the parts are off by less than two.** -/
theorem abs_error_lt_iff (hk : 0 < k) (hc : k ≤ c) :
    |((t / c : ℕ) : ℚ) + (decimals k t c : ℚ) / k - (t : ℚ) / c| < 2 / k ↔
      t % c * (c % k) < (2 * (c / k) + t % c % (c / k)) * c := by
  have hparts : 0 < c / k := Nat.div_pos hc hk
  have hkc : (0 : ℚ) < k * c :=
    mul_pos (Nat.cast_pos.mpr hk) (Nat.cast_pos.mpr (hk.trans_le hc))
  have hk' : (k : ℚ) ≠ 0 := Nat.cast_ne_zero.mpr hk.ne'
  have hc' : (c : ℚ) ≠ 0 := Nat.cast_ne_zero.mpr (hk.trans_le hc).ne'
  have hwidth : (2 : ℚ) / k = (2 * c : ℕ) / (k * c) := by
    push_cast
    field_simp
  -- the parts are never too few by that much
  have hlow : -((2 * c : ℕ) : ℚ) <
      ((decimals k t c * (c % k) : ℕ) - (k * (t % c % (c / k)) : ℕ) : ℚ) := by
    have hrest : k * (t % c % (c / k)) < 2 * c := by
      have hlt := Nat.mul_lt_mul_of_pos_left (Nat.mod_lt (t % c) hparts) hk
      have hle := Nat.mul_div_le c k
      omega
    have hrest' : ((k * (t % c % (c / k)) : ℕ) : ℚ) < (2 * c : ℕ) := mod_cast hrest
    have hnonneg : (0 : ℚ) ≤ (decimals k t c * (c % k) : ℕ) := Nat.cast_nonneg _
    linarith
  rw [error_eq hk hc, hwidth, abs_lt, ← neg_div, div_lt_div_iff_of_pos_right hkc,
    div_lt_div_iff_of_pos_right hkc, and_iff_right hlow, sub_lt_iff_lt_add, ← Nat.cast_add,
    Nat.cast_lt]
  -- both sides times the truncated divisor
  have hrem : t % c = c / k * decimals k t c + t % c % (c / k) :=
    (Nat.div_add_mod (t % c) (c / k)).symm
  have hcount : c = k * (c / k) + c % k := (Nat.div_add_mod c k).symm
  have hleft : t % c * (c % k) =
      c / k * (decimals k t c * (c % k)) + t % c % (c / k) * (c % k) := by
    conv_lhs => rw [hrem]
    ring
  have hright : (2 * (c / k) + t % c % (c / k)) * c =
      c / k * (2 * c + k * (t % c % (c / k))) + t % c % (c / k) * (c % k) :=
    calc (2 * (c / k) + t % c % (c / k)) * c
      _ = c / k * (2 * c) + t % c % (c / k) * c := by ring
      _ = c / k * (2 * c) + t % c % (c / k) * (k * (c / k) + c % k) := by rw [← hcount]
      _ = _ := by ring
  rw [hleft, hright, Nat.add_lt_add_iff_right, Nat.mul_lt_mul_left hparts]

end QuotientDecimals
