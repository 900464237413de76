import PrototypeKernel.Foundation.TransitionSystem
import Mathlib.Algebra.Order.BigOperators.Group.Finset
import Mathlib.Data.Fintype.BigOperators

/-! # Progress of finitely many threads

Each thread has a bound on the steps that are left to it. A step may cost the others something, when
they have to try again, as long as its own thread gains more than all of them lose. -/

namespace TransitionSystem

variable {ι σ α : Type*} [Fintype ι] [DecidableEq ι] {step : σ → α → Option σ} {ok : σ → α → Prop}
  {s : σ}

/-- A sum gets smaller when one summand loses more than all others gain. -/
theorem sum_lt_of_rise {f g : ι → ℕ} (i : ι) (c : ℕ) (hi : g i + c * Fintype.card ι < f i)
    (hothers : ∀ j, j ≠ i → g j ≤ f j + c) : ∑ j, g j < ∑ j, f j := by
  have hrest : ∑ j ∈ Finset.univ.erase i, g j
      ≤ ∑ j ∈ Finset.univ.erase i, f j + c * Fintype.card ι := by
    calc ∑ j ∈ Finset.univ.erase i, g j
        ≤ ∑ j ∈ Finset.univ.erase i, (f j + c) :=
          Finset.sum_le_sum fun j hj => hothers j (Finset.ne_of_mem_erase hj)
      _ = ∑ j ∈ Finset.univ.erase i, f j + (Finset.univ.erase i).card * c := by
          rw [Finset.sum_add_distrib, Finset.sum_const, Nat.nsmul_eq_mul]
      _ ≤ ∑ j ∈ Finset.univ.erase i, f j + c * Fintype.card ι := by
          rw [Nat.mul_comm c]
          exact Nat.add_le_add_left (Nat.mul_le_mul_right c (Finset.card_le_univ _)) _
  rw [← Finset.add_sum_erase _ g (Finset.mem_univ i), ← Finset.add_sum_erase _ f
    (Finset.mem_univ i)]
  omega

/-- **A run that lowers what is left to its threads.** When, as long as the goal is not reached,
some step brings its thread on and costs the others nothing, a run reaches the goal. -/
theorem exists_reachable_of_left {P goal : σ → Prop} (left : σ → ι → ℕ)
    (hstep : ∀ s, P s → ¬goal s → ∃ a s' i, ok s a ∧ step s a = some s' ∧ P s' ∧
      left s' i < left s i ∧ ∀ j, j ≠ i → left s' j ≤ left s j) (h : P s) :
    ∃ s', Reachable step ok s s' ∧ goal s' := by
  refine exists_reachable_of_measure (P := P) (fun s => ∑ j, left s j) (fun s hs hgoal => ?_) h
  obtain ⟨a, s', i, hok, hs', hP, hi, hothers⟩ := hstep s hs hgoal
  exact ⟨a, s', hok, hs', hP, sum_lt_of_rise i 0 (by omega) hothers⟩

end TransitionSystem
