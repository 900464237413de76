import Mathlib.Data.Int.GCD

/-! # A counter that wraps

A counter that starts at 0 and is increased by `n` modulo `m` takes the multiples of `gcd n m`. It
reaches a bound if there is such a multiple, and passes it by less than `n`. -/

namespace WrappingCounter

variable {n m bound k : ℕ}

/-- The values of the counter are at most `m - gcd n m`. -/
theorem mul_mod_add_gcd_le (hm : 0 < m) (k : ℕ) : k * n % m + Nat.gcd n m ≤ m := by
  have hdvd : Nat.gcd n m ∣ k * n % m :=
    (Nat.dvd_mod_iff (Nat.gcd_dvd_right n m)).mpr ((Nat.gcd_dvd_left n m).mul_left k)
  obtain ⟨q, hq⟩ := Nat.gcd_dvd_right n m
  obtain ⟨c, hc⟩ := hdvd
  have hlt : k * n % m < m := Nat.mod_lt _ hm
  have hcq : c < q := by
    by_contra hle
    have : Nat.gcd n m * q ≤ Nat.gcd n m * c := Nat.mul_le_mul_left _ (Nat.le_of_not_lt hle)
    omega
  calc k * n % m + Nat.gcd n m = Nat.gcd n m * (c + 1) := by rw [hc, Nat.mul_succ]
    _ ≤ Nat.gcd n m * q := Nat.mul_le_mul_left _ hcq
    _ = m := hq.symm

/-- The largest multiple is taken. -/
theorem exists_mul_mod_eq (hm : 0 < m) : ∃ k, k * n % m = m - Nat.gcd n m := by
  have hle : Nat.gcd n m ≤ m := Nat.le_of_dvd hm (Nat.gcd_dvd_right n m)
  rcases Nat.lt_or_eq_of_le hle with hlt | heq
  · obtain ⟨a, -, ha⟩ := Nat.exists_mul_mod_eq_gcd hlt
    obtain ⟨q, hq⟩ := Nat.gcd_dvd_right n m
    have hq' : Nat.gcd n m * (q - 1) = m - Nat.gcd n m := by
      rw [Nat.mul_sub_one, ← hq]
    have hpos : 0 < Nat.gcd n m := Nat.gcd_pos_of_pos_right n hm
    refine ⟨a * (q - 1), ?_⟩
    calc a * (q - 1) * n % m = n * a * (q - 1) % m := by rw [mul_right_comm, mul_comm a n]
      _ = Nat.gcd n m * (q - 1) % m := by rw [← Nat.mod_mul_mod, ha]
      _ = m - Nat.gcd n m := by rw [hq', Nat.mod_eq_of_lt (by omega)]
  · exact ⟨0, by rw [heq, Nat.sub_self, Nat.zero_mul, Nat.zero_mod]⟩

/-- **When the counter reaches a bound.** -/
theorem exists_le_mul_mod_iff (hm : 0 < m) :
    (∃ k, bound ≤ k * n % m) ↔ bound + Nat.gcd n m ≤ m := by
  constructor
  · rintro ⟨k, hk⟩
    exact le_trans (Nat.add_le_add_right hk _) (mul_mod_add_gcd_le hm k)
  · intro hle
    obtain ⟨k, hk⟩ := exists_mul_mod_eq (n := n) hm
    exact ⟨k, by omega⟩

/-- **The counter passes a bound by less than a step**, when it first reaches it. -/
theorem mul_mod_lt_of_first (hn : 0 < n) (hfirst : ∀ j < k, j * n % m < bound) :
    k * n % m < bound + n := by
  cases k with
  | zero => simpa using Nat.add_pos_right bound hn
  | succ k =>
    have hlast := hfirst k (Nat.lt_succ_self k)
    calc (k + 1) * n % m = (k * n % m + n) % m := by rw [Nat.succ_mul, Nat.mod_add_mod]
      _ ≤ k * n % m + n := Nat.mod_le _ _
      _ < bound + n := Nat.add_lt_add_right hlast n

end WrappingCounter
