import PrototypeKernel.Foundation.BinarySearch
import Mathlib.Algebra.Group.Int.Defs

/-! # Comparing by a wrapped difference

Numbers that are compared by the sign of their difference as an `int` stand on a circle of `2 ^ 32`
places, where a number is less than those of the half circle before it. A list that is sorted in
this way lies on half a circle. The differences to a number on that half, in the order of the list,
fall from positive to negative; the differences to a number on the other half do not. -/

namespace WrappedOrder

open BinarySearch

/-- The distance from `b` forward to `x` around the circle. -/
def distance (b x : Int32) : ℤ := (x.toInt - b.toInt) % 2 ^ 32

/-- A distance is not negative. -/
theorem distance_nonneg (b x : Int32) : 0 ≤ distance b x := Int.emod_nonneg _ (by decide)

/-- A distance is a `u32`. -/
theorem distance_lt (b x : Int32) : distance b x < 2 ^ 32 := Int.emod_lt_of_pos _ (by decide)

/-- A number is at distance 0 from itself. -/
theorem distance_self (b : Int32) : distance b b = 0 := by
  rw [distance, Int.sub_self]
  rfl

/-- **A wrapped difference is a difference of distances**, up to a turn around the circle. -/
theorem exists_toInt_sub (b x y : Int32) :
    ∃ k : ℤ, (x - y).toInt = distance b x - distance b y + 2 ^ 32 * k ∧
      -2 ^ 31 ≤ (x - y).toInt ∧ (x - y).toInt < 2 ^ 31 := by
  obtain ⟨k, hk⟩ : ∃ k : ℤ, (x - y).toInt = x.toInt - y.toInt + 2 ^ 32 * k := by
    obtain ⟨k, hk⟩ : ((2 ^ 32 : ℕ) : ℤ) ∣ (x.toInt - y.toInt).bmod (2 ^ 32) - (x.toInt - y.toInt) :=
      Int.dvd_bmod_sub_self
    exact ⟨k, by rw [Int32.toInt_sub]; omega⟩
  have hx := Int.emod_add_mul_ediv (x.toInt - b.toInt) (2 ^ 32)
  have hy := Int.emod_add_mul_ediv (y.toInt - b.toInt) (2 ^ 32)
  refine ⟨(x.toInt - b.toInt) / 2 ^ 32 - (y.toInt - b.toInt) / 2 ^ 32 + k, ?_,
    Int32.le_toInt _, Int32.toInt_lt _⟩
  unfold distance
  omega

section Sorted

variable {w : ℕ → Int32} {n i j : ℕ}

/-- The numbers `w 0, .., w (n - 1)` are in their order, which is the same from both sides. -/
structure SortedBy (w : ℕ → Int32) (n : ℕ) : Prop where
  sorted : ∀ i j, i < j → j < n → (w i - w j).toInt ≤ 0
  antisymm : ∀ i j, i < n → j < n → (w i - w j).toInt < 0 → 0 < (w j - w i).toInt

/-- A sorted list lies on the half circle behind its first number. -/
theorem SortedBy.distance_lt (h : SortedBy w n) (hi : i < n) : distance (w 0) (w i) < 2 ^ 31 := by
  rcases Nat.eq_zero_or_pos i with rfl | hpos
  · rw [distance_self]
    decide
  · have hnn := distance_nonneg (w 0) (w i)
    have hlt := WrappedOrder.distance_lt (w 0) (w i)
    have hself := distance_self (w 0)
    have hle := h.sorted 0 i hpos hi
    have hanti := h.antisymm 0 i (by omega) hi
    obtain ⟨k, hk, hlo, hhi⟩ := exists_toInt_sub (w 0) (w 0) (w i)
    obtain ⟨m, hm, hlo', hhi'⟩ := exists_toInt_sub (w 0) (w i) (w 0)
    -- at exactly half a circle both differences would be negative
    omega

/-- The distances from the first number grow. -/
theorem SortedBy.distance_le (h : SortedBy w n) (hij : i < j) (hj : j < n) :
    distance (w 0) (w i) ≤ distance (w 0) (w j) := by
  have hi := h.distance_lt (Nat.lt_trans hij hj)
  have hj' := h.distance_lt hj
  have hnn := distance_nonneg (w 0) (w i)
  have hnn' := distance_nonneg (w 0) (w j)
  have hle := h.sorted i j hij hj
  obtain ⟨k, hk, hlo, hhi⟩ := exists_toInt_sub (w 0) (w i) (w j)
  omega

/-- **The two shapes of the differences to a number**: they fall along the list, or none of them is
zero and none that is positive stands before one that is negative. -/
theorem SortedBy.falling_or (h : SortedBy w n) (x : Int32) :
    Falling (fun i => (x - w i).toInt) n ∨
      (∀ i, i < n → (x - w i).toInt ≠ 0) ∧ ∀ i, ¬ Boundary (fun i => (x - w i).toInt) n i := by
  have hnn := distance_nonneg (w 0) x
  have hlt := WrappedOrder.distance_lt (w 0) x
  by_cases hx : distance (w 0) x < 2 ^ 31
  · -- `x` is on the half circle of the list
    refine .inl fun i j hij hj => ?_
    have hi := h.distance_lt (Nat.lt_trans hij hj)
    have hj' := h.distance_lt hj
    have hnni := distance_nonneg (w 0) (w i)
    have hle := h.distance_le hij hj
    obtain ⟨k, hk, hlo, hhi⟩ := exists_toInt_sub (w 0) x (w i)
    obtain ⟨m, hm, hlo', hhi'⟩ := exists_toInt_sub (w 0) x (w j)
    constructor
    · intro hneg
      show (x - w j).toInt < 0
      have hneg : (x - w i).toInt < 0 := hneg
      omega
    · intro hpos
      show 0 < (x - w i).toInt
      have hpos : 0 < (x - w j).toInt := hpos
      omega
  · refine .inr ⟨fun i hi heq => ?_, ?_⟩
    · have hi' := h.distance_lt hi
      have hnni := distance_nonneg (w 0) (w i)
      obtain ⟨k, hk, hlo, hhi⟩ := exists_toInt_sub (w 0) x (w i)
      omega
    · rintro i ⟨hi, hpos, hneg⟩
      have hpos : 0 < (x - w i).toInt := hpos
      have hneg : (x - w (i + 1)).toInt < 0 := hneg
      have hi' := h.distance_lt (Nat.lt_of_succ_lt hi)
      have hi'' := h.distance_lt hi
      have hnni := distance_nonneg (w 0) (w i)
      have hle : distance (w 0) (w i) ≤ distance (w 0) (w (i + 1)) :=
        h.distance_le (Nat.lt_succ_self i) hi
      obtain ⟨k, hk, hlo, hhi⟩ := exists_toInt_sub (w 0) x (w i)
      obtain ⟨m, hm, hlo', hhi'⟩ := exists_toInt_sub (w 0) x (w (i + 1))
      omega

end Sorted

end WrappedOrder
