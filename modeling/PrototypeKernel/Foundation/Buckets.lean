import Mathlib.Data.List.Perm.Basic
import Mathlib.Logic.Function.Basic

/-! # Buckets

A table of `n` lists. All of its elements are one list, in which a change of one bucket is a
permutation; a cyclic scan that starts anywhere finds a bucket that is not empty. -/

namespace Buckets

variable {α : Type*} {n i j start : ℕ} {b : ℕ → List α}

/-- The elements of the first `n` buckets. -/
def all (n : ℕ) (b : ℕ → List α) : List α := (List.range n).flatMap b

/-- One more bucket comes behind the others. -/
theorem all_succ (n : ℕ) (b : ℕ → List α) : all (n + 1) b = all n b ++ b n := by
  simp [all, List.range_succ]

/-- The members of all buckets are those of each. -/
theorem mem_all {x : α} : x ∈ all n b ↔ ∃ i < n, x ∈ b i := by
  simp [all]

/-- A bucket beyond the table is not in it. -/
theorem all_update_of_le (h : n ≤ i) (xs : List α) :
    all n (Function.update b i xs) = all n b := by
  induction n with
  | zero => rfl
  | succ n ih =>
    rw [all_succ, all_succ, ih (Nat.le_of_succ_le h), Function.update_of_ne (Nat.ne_of_lt h)]

/-- The last two of three parts can be exchanged. -/
theorem append_right_comm_perm (xs ys zs : List α) :
    (xs ++ ys ++ zs).Perm (xs ++ zs ++ ys) := by
  rw [List.append_assoc, List.append_assoc]
  exact List.perm_append_comm.append_left xs

/-- **A change of one bucket.** -/
theorem all_update_append_perm (h : i < n) (xs : List α) :
    (all n (Function.update b i xs) ++ b i).Perm (all n b ++ xs) := by
  induction n with
  | zero => cases h
  | succ n ih =>
    rw [all_succ, all_succ]
    rcases Nat.lt_succ_iff_lt_or_eq.mp h with hlt | rfl
    · rw [Function.update_of_ne (Nat.ne_of_gt hlt)]
      exact (append_right_comm_perm _ _ _).trans
        (((ih hlt).append_right (b n)).trans (append_right_comm_perm _ _ _))
    · rw [all_update_of_le (Nat.le_refl i), Function.update_self]
      exact append_right_comm_perm _ _ _

/-- An element that is put in front of a bucket. -/
theorem all_update_cons_perm (h : i < n) (x : α) :
    (all n (Function.update b i (x :: b i))).Perm (x :: all n b) := by
  have hperm := all_update_append_perm (b := b) h (x :: b i)
  exact List.perm_append_right_iff (b i) |>.mp (hperm.trans List.perm_middle)

/-- The first element of a bucket that is taken away. -/
theorem perm_cons_all_update (h : i < n) {x : α} {xs : List α} (hi : b i = x :: xs) :
    (all n b).Perm (x :: all n (Function.update b i xs)) := by
  have hperm := all_update_append_perm (b := b) h xs
  rw [hi] at hperm
  exact List.perm_append_right_iff xs |>.mp (hperm.symm.trans List.perm_middle)

/-- **A cyclic scan** of a table that is not empty comes to a bucket that is not empty. -/
theorem exists_scan (hstart : start < n) (h : all n b ≠ []) :
    ∃ k < n, b ((start + k) % n) ≠ [] := by
  obtain ⟨x, hx⟩ := List.exists_mem_of_ne_nil _ h
  obtain ⟨i, hi, hxi⟩ := mem_all.mp hx
  have hne : b i ≠ [] := List.ne_nil_of_mem hxi
  rcases Nat.lt_or_ge i start with hlt | hge
  · -- the scan wraps before it comes to the bucket
    refine ⟨i + n - start, by omega, ?_⟩
    rwa [show start + (i + n - start) = i + n by omega, Nat.add_mod_right, Nat.mod_eq_of_lt hi]
  · refine ⟨i - start, by omega, ?_⟩
    rwa [show start + (i - start) = i by omega, Nat.mod_eq_of_lt hi]

end Buckets
