import PrototypeKernel.Foundation.Cyclic
import Mathlib.Data.Nat.Bitwise

/-! # Copy loops between an array and a ring

A copy loop is described by its accesses: the ring slot and the index in the array, in program
order. The loops a ring implementation is built from walk one slot a round, four slots a round, or
mask the index of every slot. Each makes the accesses of a straight run of slots, and a run that is
cut at the end of the ring continues at its start. -/

namespace CopyLoop

/-! ## The loops -/

/-- The loop `for (; …; i++, index++)` accessing `ring[index]`, with `k` iterations left. -/
def plainLoop : ℕ → ℕ → UInt32 → List (ℕ × ℕ)
  | 0, _, _ => []
  | k + 1, i, index => (index.toNat, i) :: plainLoop k (i + 1) (index + 1)

/-- The loop `for (; …; i++, index++)` accessing `ring[index & mask]`, with `k` iterations left. -/
def maskLoop (mask : UInt32) : ℕ → ℕ → UInt32 → List (ℕ × ℕ)
  | 0, _, _ => []
  | k + 1, i, index => ((index &&& mask).toNat, i) :: maskLoop mask k (i + 1) (index + 1)

/-- The loop `for (; …; i += 4, index += 4)` accessing four slots a round, with `k` rounds left. -/
def unrolledLoop : ℕ → ℕ → UInt32 → List (ℕ × ℕ)
  | 0, _, _ => []
  | k + 1, i, index =>
      (index.toNat, i) :: ((index + 1).toNat, i + 1) :: ((index + 2).toNat, i + 2) ::
        ((index + 3).toNat, i + 3) :: unrolledLoop k (i + 4) (index + 4)

/-! ## Straight runs of slots -/

/-- The accesses of `n` consecutive slots from `slot` on, with the array entries from `i` on. -/
def straight (slot i n : ℕ) : List (ℕ × ℕ) := (List.range n).map fun j => (slot + j, i + j)

/-- A run of no accesses. -/
@[simp] theorem straight_zero (slot i : ℕ) : straight slot i 0 = [] := rfl

/-- A run starts at its slot and goes on at the next one. -/
theorem straight_succ (slot i n : ℕ) :
    straight slot i (n + 1) = (slot, i) :: straight (slot + 1) (i + 1) n := by
  -- the first access is taken off, and the others are shifted by one
  rw [straight, List.range_succ_eq_map, List.map_cons, List.map_map]
  refine List.cons_eq_cons.mpr ⟨rfl, List.map_congr_left fun j _ => ?_⟩
  simp only [Function.comp_apply, Prod.mk.injEq]
  omega

/-- A run is two runs, the second one behind the first. -/
theorem straight_add (slot i m n : ℕ) :
    straight slot i (m + n) = straight slot i m ++ straight (slot + m) (i + m) n := by
  induction m generalizing slot i with
  | zero => simp
  | succ m ih =>
    rw [Nat.add_right_comm, straight_succ, straight_succ, ih, List.cons_append]
    congr 3 <;> omega

/-- A run that stays inside the ring accesses the slots of consecutive positions. -/
theorem straight_eq_of_le {size p n : ℕ} (h : p % size + n ≤ size) :
    straight (p % size) 0 n = (List.range n).map fun j => ((p + j) % size, j) := by
  apply List.map_congr_left
  intro j hj
  have hj := List.mem_range.mp hj
  -- no position of the run starts a new revolution
  have hmod : (p + j) % size = p % size + j := by
    rw [← Nat.mod_add_mod, Nat.mod_eq_of_lt (by omega)]
  rw [hmod, Nat.zero_add]

/-- A run that reaches the end of the ring continues at slot 0. -/
theorem straight_append_eq {size p n : ℕ} (hpos : 0 < size) (hn : n ≤ size)
    (h : size ≤ p % size + n) :
    straight (p % size) 0 (size - p % size) ++
        straight 0 (size - p % size) (n - (size - p % size))
      = (List.range n).map fun j => ((p + j) % size, j) := by
  have hlt := Nat.mod_lt p hpos
  obtain ⟨k, hk⟩ : ∃ k, size - p % size = k := ⟨_, rfl⟩
  obtain ⟨m, rfl⟩ : ∃ m, n = k + m := ⟨n - k, by omega⟩
  rw [hk, Nat.add_sub_cancel_left, straight_eq_of_le (by omega), List.range_add, List.map_append,
    List.map_map]
  congr 1
  apply List.map_congr_left
  intro j hj
  have hj := List.mem_range.mp hj
  -- position `p + k` is the first one of the next revolution
  have hmod : (p + (k + j)) % size = j := by
    rw [← Nat.mod_add_mod, show p % size + (k + j) = j + size by omega, Nat.add_mod_right,
      Nat.mod_eq_of_lt (by omega)]
  simp only [Function.comp_apply, hmod, Nat.zero_add]

/-! ## The loops make straight runs -/

/-- Index arithmetic that does not wrap. -/
theorem toNat_add_of_lt {a b : UInt32} (h : a.toNat + b.toNat < 2 ^ 32) :
    (a + b).toNat = a.toNat + b.toNat := by
  rw [UInt32.toNat_add, Nat.mod_eq_of_lt h]

/-- An index that does not wrap is incremented. -/
theorem toNat_add_one_of_lt {a : UInt32} (h : a.toNat + 1 < 2 ^ 32) :
    (a + 1).toNat = a.toNat + 1 := toNat_add_of_lt h

/-- The plain loop makes a straight run. -/
theorem plainLoop_eq (k i : ℕ) {index : UInt32} (hlt : index.toNat + k < 2 ^ 32) :
    plainLoop k i index = straight index.toNat i k := by
  induction k generalizing i index with
  | zero => rfl
  | succ k ih =>
    -- the index of the next round does not wrap
    have hnext : (index + 1).toNat = index.toNat + 1 := toNat_add_one_of_lt (by omega)
    rw [plainLoop, ih _ (by omega), hnext, straight_succ]

/-- The unrolled loop makes a straight run. -/
theorem unrolledLoop_eq (k i : ℕ) {index : UInt32} (hlt : index.toNat + 4 * k < 2 ^ 32) :
    unrolledLoop k i index = straight index.toNat i (4 * k) := by
  induction k generalizing i index with
  | zero => rfl
  | succ k ih =>
    -- none of the four indices of the round wraps, nor does the next one
    have hadd : ∀ c : UInt32, c.toNat ≤ 4 → (index + c).toNat = index.toNat + c.toNat :=
      fun c hc => toNat_add_of_lt (by omega)
    have h₁ := hadd 1 (by decide)
    have h₂ := hadd 2 (by decide)
    have h₃ := hadd 3 (by decide)
    have h₄ := hadd 4 (by decide)
    have hfour : (4 : UInt32).toNat = 4 := rfl
    rw [unrolledLoop, ih _ (by omega), h₁, h₂, h₃, h₄, Nat.mul_succ]
    simp only [straight_succ]
    rfl

/-- The masked loop accesses consecutive positions, each in its slot. -/
theorem maskLoop_eq {size : ℕ} {mask : UInt32}
    (hmask : ∀ p, (UInt32.ofNat p &&& mask).toNat = p % size) (k i p : ℕ) :
    maskLoop mask k i (UInt32.ofNat p) = (List.range k).map fun j => ((p + j) % size, i + j) := by
  induction k generalizing i p with
  | zero => rfl
  | succ k ih =>
    -- the index itself may wrap: it is the residue of the position, wherever that is
    have hnext : UInt32.ofNat p + 1 = UInt32.ofNat (p + 1) := (UInt32.ofNat_add ..).symm
    rw [maskLoop, hmask, hnext, ih, List.range_succ_eq_map, List.map_cons, List.map_map]
    simp only [Nat.add_zero, List.cons.injEq, true_and]
    apply List.map_congr_left
    intro j _
    simp only [Function.comp_apply, Prod.mk.injEq]
    exact ⟨by congr 1; omega, by omega⟩

/-! ## Splitting a batch into rounds of four -/

/-- A word is split by a mask. -/
theorem and_not_add_and (n m : UInt32) : (n &&& ~~~m) + (n &&& m) = n := by
  apply UInt32.toBitVec_inj.mp
  -- the two parts share no bit, so their sum has no carry and is their union
  have hdisjoint : (n.toBitVec &&& ~~~m.toBitVec) &&& (n.toBitVec &&& m.toBitVec) = 0#32 := by
    ext i
    simp only [BitVec.getElem_and, BitVec.getElem_not, BitVec.getElem_zero]
    cases n.toBitVec[i] <;> cases m.toBitVec[i] <;> rfl
  show (n.toBitVec &&& ~~~m.toBitVec) + (n.toBitVec &&& m.toBitVec) = n.toBitVec
  rw [BitVec.add_eq_or_of_and_eq_zero _ _ hdisjoint]
  ext i
  simp only [BitVec.getElem_or, BitVec.getElem_and, BitVec.getElem_not]
  cases n.toBitVec[i] <;> cases m.toBitVec[i] <;> rfl

/-- The four remainders. -/
theorem eq_of_toNat_lt_four {r : UInt32} (hr : r.toNat < 4) : r = 0 ∨ r = 1 ∨ r = 2 ∨ r = 3 := by
  simp only [← UInt32.toNat_inj]
  have h0 : (0 : UInt32).toNat = 0 := rfl
  have h1 : (1 : UInt32).toNat = 1 := rfl
  have h2 : (2 : UInt32).toNat = 2 := rfl
  have h3 : (3 : UInt32).toNat = 3 := rfl
  omega

/-- The last two bits are the remainder by four. -/
theorem toNat_and_three (n : UInt32) : (n &&& 3).toNat = n.toNat % 4 := by
  rw [UInt32.toNat_and]
  exact Nat.and_two_pow_sub_one_eq_mod n.toNat 2

/-- The unrolled part of a batch is its largest multiple of four. -/
theorem toNat_and_not_three (n : UInt32) : (n &&& ~~~3).toNat = 4 * (n.toNat / 4) := by
  have hsplit := congrArg UInt32.toNat (and_not_add_and n 3)
  have hle : (n &&& ~~~3).toNat ≤ n.toNat := by
    rw [UInt32.toNat_and]; exact Nat.and_le_left
  have hlt := n.toNat_lt
  rw [UInt32.toNat_add, toNat_and_three] at hsplit
  omega

/-- **Rounds of four and the remainder make one straight run** over the batch, whatever the code
that accesses the remainder looks like. -/
theorem unrolledLoop_append_rest {rest : UInt32 → ℕ → UInt32 → List (ℕ × ℕ)}
    (hrest : ∀ {r : UInt32} (i : ℕ) {index : UInt32}, r.toNat < 4 →
      index.toNat + r.toNat < 2 ^ 32 → rest r i index = straight index.toNat i r.toNat)
    {index n : UInt32} (hlt : index.toNat + n.toNat < 2 ^ 32) :
    unrolledLoop ((n &&& ~~~3).toNat / 4) 0 index ++
        rest (n &&& 3) (n &&& ~~~3).toNat (index + (n &&& ~~~3))
      = straight index.toNat 0 n.toNat := by
  have hiter := toNat_and_not_three n
  have hlast := toNat_and_three n
  have hnext : (index + (n &&& ~~~3)).toNat = index.toNat + 4 * (n.toNat / 4) := by
    rw [toNat_add_of_lt (by omega), hiter]
  rw [hiter, Nat.mul_div_cancel_left _ (by decide), unrolledLoop_eq _ _ (by omega),
    hrest _ (by omega) (by omega), hnext, hlast]
  -- the remainder starts where the rounds end
  have hadd := straight_add index.toNat 0 (4 * (n.toNat / 4)) (n.toNat % 4)
  rw [Nat.zero_add] at hadd
  rw [← hadd, Nat.div_add_mod]

end CopyLoop
