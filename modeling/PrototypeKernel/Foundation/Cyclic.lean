import Mathlib.Data.Nat.ModEq
import Mathlib.Tactic.TypeStar

/-! # Wrapping 32-bit indices as residues of unbounded positions

A free-running `u32` index is the residue modulo `2 ^ 32` of an unbounded position `p : ℕ`,
`UInt32.ofNat p`. The lemmas here move between the two readings: the wrapping difference of two
indices is the difference of their positions as long as these lie less than `2 ^ 32` apart, and
equal indices of nearby positions come from equal positions. -/

namespace Cyclic

/-- The **cyclic distance** from the index `a` forward to the index `b`. -/
def gap (a b : UInt32) : ℕ := (b - a).toNat

/-- An index is at distance 0 from itself. -/
@[simp] theorem gap_self (a : UInt32) : gap a a = 0 := by simp [gap]

/-- Moving an index `k` forward moves it the cyclic distance `k`. -/
@[simp] theorem gap_add_self (a k : UInt32) : gap a (a + k) = k.toNat := by
  rw [gap, UInt32.add_comm, UInt32.add_sub_cancel]

/-- The wrapping difference of two indices whose positions are less than `2 ^ 32` apart. -/
theorem toNat_ofNat_sub {a b : ℕ} (hab : a ≤ b) (hlt : b < a + 2 ^ 32) :
    (UInt32.ofNat b - UInt32.ofNat a).toNat = b - a := by
  rw [UInt32.toNat_sub, UInt32.toNat_ofNat', UInt32.toNat_ofNat']
  -- `b - a < 2 ^ 32`, so neither the wrap of `a` nor that of `b` is seen
  omega

/-- The cyclic distance of two indices is the distance of their positions. -/
theorem gap_ofNat {a b : ℕ} (hab : a ≤ b) (hlt : b < a + 2 ^ 32) :
    gap (UInt32.ofNat a) (UInt32.ofNat b) = b - a :=
  toNat_ofNat_sub hab hlt

/-- Positions less than `2 ^ 32` apart with the same index are equal. -/
theorem eq_of_ofNat_eq {a b : ℕ} (hab : a ≤ b) (hlt : b < a + 2 ^ 32)
    (heq : UInt32.ofNat a = UInt32.ofNat b) : a = b := by
  have h := gap_ofNat hab hlt
  rw [heq, gap_self] at h
  omega

/-- An index moved forward by `k` is the residue of the position moved forward by `k`. -/
theorem ofNat_add_toNat (p : ℕ) (k : UInt32) :
    UInt32.ofNat (p + k.toNat) = UInt32.ofNat p + k := by
  rw [UInt32.ofNat_add, UInt32.ofNat_toNat]

/-- The difference of two indices is zero exactly when they are equal. -/
theorem toNat_sub_eq_zero {a b : UInt32} : (b - a).toNat = 0 ↔ a = b := by
  constructor
  · intro h
    have hzero : b - a = 0 := UInt32.toNat_inj.mp h
    rw [UInt32.sub_eq_iff_eq_add.mp hzero, UInt32.zero_add]
  · rintro rfl
    rw [UInt32.sub_self]
    rfl

/-- A number other than 0 is positive. -/
theorem toNat_pos {n : UInt32} (h : n ≠ 0) : 0 < n.toNat :=
  Nat.pos_of_ne_zero fun h0 => h (UInt32.toNat_inj.mp h0)

/-- Masking with `2 ^ k - 1` is reduction modulo `2 ^ k`. -/
theorem toNat_and_mask {k : ℕ} {mask : UInt32} (hmask : mask.toNat = 2 ^ k - 1) (a : UInt32) :
    (a &&& mask).toNat = a.toNat % 2 ^ k := by
  -- the mask keeps the low `k` bits
  rw [UInt32.toNat_and, hmask, Nat.and_two_pow_sub_one_eq_mod]

/-- Masking an index addresses the slot of its position, in a ring of `2 ^ k` slots. -/
theorem toNat_ofNat_and_mask {k : ℕ} (hk : k ≤ 32) (mask : UInt32) (hmask : mask.toNat = 2 ^ k - 1)
    (p : ℕ) : (UInt32.ofNat p &&& mask).toNat = p % 2 ^ k := by
  rw [toNat_and_mask hmask, UInt32.toNat_ofNat']
  exact Nat.mod_mod_of_dvd p (Nat.pow_dvd_pow 2 hk)

/-- Masking the complement of a small distance: with `n` positions in use, one less than the rest of
the ring. -/
theorem toNat_sub_sub_one_and_mask {k n : ℕ} (hk : k ≤ 32) {mask : UInt32}
    (hmask : mask.toNat = 2 ^ k - 1) (hn : n < 2 ^ k) (c : ℕ) :
    ((UInt32.ofNat c - UInt32.ofNat (c + n) - 1) &&& mask).toNat = 2 ^ k - 1 - n := by
  have hle : 2 ^ k ≤ 2 ^ 32 := Nat.pow_le_pow_right (by decide) hk
  have hback : (UInt32.ofNat c - UInt32.ofNat (c + n) - 1).toNat = 2 ^ 32 - 1 - n := by
    rw [UInt32.toNat_sub, UInt32.toNat_sub, UInt32.toNat_ofNat', UInt32.toNat_ofNat',
      UInt32.toNat_one]
    omega
  obtain ⟨q, hq⟩ := Nat.pow_dvd_pow 2 hk
  obtain ⟨q, rfl⟩ : ∃ r, q = r + 1 := ⟨q - 1, by
    rcases q with _ | q
    · simp at hq
    · rfl⟩
  -- `2 ^ 32 - 1 - n` is `q` revolutions and `2 ^ k - 1 - n`
  have hrev : 2 ^ 32 - 1 - n = 2 ^ k * q + (2 ^ k - 1 - n) := by
    rw [Nat.mul_succ] at hq
    omega
  rw [toNat_and_mask hmask, hback, hrev, Nat.mul_add_mod, Nat.mod_eq_of_lt (by omega)]

/-- Positions less than one revolution apart that share a slot are equal. -/
theorem eq_of_mod_eq {m x y : ℕ} (hxy : x < y + m) (hyx : y < x + m) (h : x % m = y % m) :
    x = y := by
  -- the larger position less the smaller one is a multiple of `m` below `m`
  rcases Nat.le_total x y with hle | hle
  · have := Nat.eq_zero_of_dvd_of_lt ((Nat.modEq_iff_dvd' hle).mp h) (by omega)
    omega
  · have := Nat.eq_zero_of_dvd_of_lt ((Nat.modEq_iff_dvd' hle).mp h.symm) (by omega)
    omega

end Cyclic
