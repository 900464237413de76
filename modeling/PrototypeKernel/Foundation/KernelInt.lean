import Mathlib.Algebra.Group.Nat.Defs
import Mathlib.Data.Int.Notation

/-! # Kernel integers

The conversions, predicates and error numbers of the C environment. -/

namespace KernelInt

/-- The conversion of a `u32` to `int`, as two's complement. -/
def intOfU32 (n : UInt32) : ℤ := n.toInt32.toInt

/-- Values below `2 ^ 31` are converted as they are. -/
theorem intOfU32_eq {n : UInt32} (h : n.toNat < 2 ^ 31) : intOfU32 n = n.toNat := by
  show n.toBitVec.toInt = _
  -- the sign bit of `n` is clear
  rw [BitVec.toInt_eq_toNat_cond, if_pos (by exact (by omega : 2 * n.toNat < 2 ^ 32))]
  rfl

/-- Values from `2 ^ 31` on become negative. -/
theorem intOfU32_neg {n : UInt32} (h : 2 ^ 31 ≤ n.toNat) : intOfU32 n < 0 := by
  have hlt := n.toNat_lt
  show n.toBitVec.toInt < 0
  rw [BitVec.toInt_eq_toNat_cond, if_neg (by exact (by omega : ¬2 * n.toNat < 2 ^ 32))]
  show (n.toNat : ℤ) - (2 ^ 32 : ℕ) < 0
  omega

/-- The conversion back to `u32` gives the value again. -/
theorem ofInt_intOfU32 (n : UInt32) : UInt32.ofInt (intOfU32 n) = n := by
  have hlt := n.toNat_lt
  have hmod : intOfU32 n % 2 ^ 32 = n.toNat := by
    show n.toBitVec.toInt % 2 ^ 32 = n.toNat
    rw [BitVec.toInt_eq_toNat_bmod]
    show (n.toNat : ℤ).bmod (2 ^ 32) % 2 ^ 32 = n.toNat
    unfold Int.bmod
    dsimp only
    split <;> omega
  rw [UInt32.ofInt, hmod, Int.toNat_natCast, UInt32.ofNat_toNat]

/-- The conversion of a `size_t` to `int`, as two's complement. -/
def intOfSize (n : ℕ) : ℤ := (n : ℤ).bmod (2 ^ 32)

/-- A `size_t` does not get larger as an `int`. -/
theorem intOfSize_le (n : ℕ) : intOfSize n ≤ n := by
  unfold intOfSize Int.bmod
  dsimp only
  split <;> omega

/-- Sizes below `2 ^ 31` are converted as they are. -/
theorem intOfSize_of_lt {n : ℕ} (h : n < 2 ^ 31) : intOfSize n = n := by
  unfold intOfSize Int.bmod
  dsimp only
  split <;> omega

/-- `min()` of two `u32`. -/
theorem toNat_min (a b : UInt32) : (min a b).toNat = min a.toNat b.toNat := by
  show (if a ≤ b then a else b).toNat = _
  split
  · rename_i h
    rw [Nat.min_eq_left (UInt32.le_iff_toNat_le.mp h)]
  · rename_i h
    rw [Nat.min_eq_right (Nat.le_of_lt (UInt32.lt_iff_toNat_lt.mp (UInt32.not_le.mp h)))]

/-- `is_power_of_2()`. -/
def isPowerOf2 (n : UInt32) : Bool := n != 0 && n &&& (n - 1) == 0

/-- `is_power_of_2()` tells the powers of two. -/
theorem isPowerOf2_iff {n : UInt32} : isPowerOf2 n ↔ n.toNat.isPowerOfTwo := by
  rw [← Nat.ne_zero_and_sub_one_eq_zero_iff_isPowerOfTwo, isPowerOf2]
  simp only [Bool.and_eq_true, bne_iff_ne, beq_iff_eq, ne_eq, ← UInt32.toNat_inj,
    UInt32.toNat_and, UInt32.toNat_zero]
  refine and_congr_right fun hn => ?_
  -- `n - 1` does not wrap, as `n ≠ 0` is tested first
  have hpred : (n - 1).toNat = n.toNat - 1 :=
    UInt32.toNat_sub_of_le n 1 (UInt32.le_iff_toNat_le.mpr (Nat.pos_of_ne_zero hn))
  rw [hpred]

/-- A `u32` that passes `is_power_of_2()` is `2 ^ k` for some `k < 32`. -/
theorem exists_pow_of_isPowerOf2 {n : UInt32} (h : isPowerOf2 n) :
    ∃ k, k < 32 ∧ n.toNat = 2 ^ k := by
  obtain ⟨k, hk⟩ := isPowerOf2_iff.mp h
  exact ⟨k, (Nat.pow_lt_pow_iff_right (by decide)).mp (hk ▸ n.toNat_lt), hk⟩

/-! ## Error numbers -/

/-- `ENOENT`. -/
def enoent : ℤ := 2

/-- `E2BIG`. -/
def e2big : ℤ := 7

/-- `ENOMEM`. -/
def enomem : ℤ := 12

/-- `EEXIST`. -/
def eexist : ℤ := 17

/-- `EINVAL`. -/
def einval : ℤ := 22

/-- `EFBIG`. -/
def efbig : ℤ := 27

/-- `ENOSPC`. -/
def enospc : ℤ := 28

/-- `ENOBUFS`. -/
def enobufs : ℤ := 105

/-- `EDQUOT`. -/
def edquot : ℤ := 122

end KernelInt
