import Mathlib.Algebra.BigOperators.Group.Finset.Basic
import Mathlib.Algebra.Order.BigOperators.Group.Finset
import Mathlib.Data.Fintype.BigOperators

/-! # Counting the members of a family

Each of finitely many members has a state, one member moves at a time, and a shared counter is to
agree with the number of members in certain states: a reference count, or a barrier that the members
announce themselves at. `tally` is that number. A move changes it by the difference that the moving
member makes, and the counter reaches 0 or the number of members exactly when none or all of them
are in such a state. -/

namespace Tally

variable {ι σ : Type*} [Fintype ι]

/-- When only member `i` changes, a sum changes by the change of its summand. -/
theorem sum_change {f g : ι → ℕ} {i : ι} (h : ∀ j, j ≠ i → g j = f j) :
    ∑ j, g j + f i = ∑ j, f j + g i := by
  classical
  have hrest : ∑ j ∈ Finset.univ.erase i, g j = ∑ j ∈ Finset.univ.erase i, f j :=
    Finset.sum_congr rfl fun j hj => h j (Finset.ne_of_mem_erase hj)
  rw [← Finset.add_sum_erase _ g (Finset.mem_univ i),
    ← Finset.add_sum_erase _ f (Finset.mem_univ i), hrest]
  omega

/-- The number of members in a state that meets `p`. -/
def tally (p : σ → Bool) (f : ι → σ) : ℕ := ∑ i, (p (f i)).toNat

variable {p : σ → Bool} {f g : ι → σ}

/-- A change of one value changes the tally by this value. -/
theorem tally_change {i : ι} (h : ∀ j, j ≠ i → g j = f j) :
    tally p g + (p (f i)).toNat = tally p f + (p (g i)).toNat :=
  sum_change (f := fun j => (p (f j)).toNat) (g := fun j => (p (g j)).toNat) fun j hj => by
    rw [h j hj]

/-- The tally is at most the number of indices. -/
theorem tally_le_card : tally p f ≤ Fintype.card ι := by
  calc tally p f ≤ ∑ _ : ι, 1 := Finset.sum_le_sum fun i _ => Bool.toNat_le (p (f i))
    _ = Fintype.card ι := Fintype.card_eq_sum_ones.symm

/-- The tally is 0 when no value counts. -/
theorem tally_eq_zero_iff : tally p f = 0 ↔ ∀ i, p (f i) = false := by
  simp [tally, Finset.sum_eq_zero_iff]

/-- The number of all members is reached when no member is left out. -/
theorem tally_eq_card_iff : tally p f = Fintype.card ι ↔ ∀ i, p (f i) = true := by
  constructor
  · intro h i
    -- a member that is left out takes 1 from the sum
    by_contra hi
    have hlt : tally p f < ∑ _ : ι, 1 :=
      Finset.sum_lt_sum (fun j _ => Bool.toNat_le (p (f j)))
        ⟨i, Finset.mem_univ i, by simp [Bool.eq_false_iff.mpr hi]⟩
    rw [h, ← Fintype.card_eq_sum_ones] at hlt
    exact lt_irrefl _ hlt
  · intro h
    simp [tally, h]

end Tally
