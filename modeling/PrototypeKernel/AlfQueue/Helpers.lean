import PrototypeKernel.Foundation.CopyLoop

/-! # The copy helpers of the array-based lock-free queue

`alf_queue_helpers.h` copies the elements of a batch between the caller's array and the ring. A
store helper and the load helper of the same name make the same accesses in opposite directions, so
each pair is one list of accesses: the ring slot and the index in the caller's array, in program
order. The queue uses the four-way unrolled pair, with the masked loop as its fall-back when the
batch reaches the end of the array. -/

namespace AlfQueue

open CopyLoop

/-- The remainder handling `switch (n & 0x3)` after the unrolled loop. -/
def unrolledRest (r : UInt32) (i : ℕ) (index : UInt32) : List (ℕ × ℕ) :=
  if r = 3 then [(index.toNat, i), ((index + 1).toNat, i + 1), ((index + 2).toNat, i + 2)]
  else if r = 2 then [(index.toNat, i), ((index + 1).toNat, i + 1)]
  else if r = 1 then [(index.toNat, i)]
  else []

/-- The accesses of `__helper_alf_enqueue_store_unroll` and `__helper_alf_dequeue_load_unroll`. -/
def unrollAccesses (mask head n : UInt32) : List (ℕ × ℕ) :=
  let iterations := n &&& ~~~3
  let index := head &&& mask
  if index + n ≤ mask then
    -- no wrap, so the masking is saved
    unrolledLoop (iterations.toNat / 4) 0 index ++
      unrolledRest (n &&& 3) iterations.toNat (index + iterations)
  else maskLoop mask n.toNat 0 index

/-! ## The accesses of a batch -/

/-- The remainder makes the last `n % 4` accesses. -/
theorem unrolledRest_eq {r : UInt32} (i : ℕ) {index : UInt32} (hr : r.toNat < 4)
    (hlt : index.toNat + r.toNat < 2 ^ 32) :
    unrolledRest r i index = straight index.toNat i r.toNat := by
  rcases eq_of_toNat_lt_four hr with rfl | rfl | rfl | rfl
  · rfl
  · rfl
  · have h₁ := toNat_add_of_lt (a := index) (b := 1) (Nat.lt_of_succ_lt hlt)
    simp [unrolledRest, straight_succ, h₁]
  · have hlt : index.toNat + 3 < 2 ^ 32 := hlt
    have h₁ := toNat_add_of_lt (a := index) (b := 1) (Nat.lt_of_le_of_lt (by simp) hlt)
    have h₂ := toNat_add_of_lt (a := index) (b := 2) (Nat.lt_of_le_of_lt (by simp) hlt)
    simp [unrolledRest, straight_succ, h₁, h₂]

/-- **The unrolled helpers access the slots of the batch in position order**, each with its entry of
the caller's array, for every batch that fits into the ring. -/
theorem unrollAccesses_eq {size k : ℕ} {mask : UInt32} (hk : k < 32) (hsize : size = 2 ^ k)
    (hmask : mask.toNat = size - 1) (p : ℕ) {n : UInt32} (hn : n.toNat ≤ size) :
    unrollAccesses mask (UInt32.ofNat p) n
      = (List.range n.toNat).map fun j => ((p + j) % size, j) := by
  have hslot : ∀ p, (UInt32.ofNat p &&& mask).toNat = p % size := fun p => by
    rw [hsize] at hmask ⊢
    exact Cyclic.toNat_ofNat_and_mask (by omega) mask hmask p
  have hsize_le : size ≤ 2 ^ 31 := hsize ▸ Nat.pow_le_pow_right (by decide) (by omega)
  have hpos : 0 < size := hsize ▸ Nat.two_pow_pos k
  have hindex := hslot p
  have hindex_lt := Nat.mod_lt p hpos
  unfold unrollAccesses
  simp only
  generalize UInt32.ofNat p &&& mask = index at hindex ⊢
  have hsum : (index + n).toNat = index.toNat + n.toNat := toNat_add_of_lt (by omega)
  split
  · rename_i hle
    -- the batch ends before the end of the array: rounds of four and the remainder are one run
    have hle : index.toNat + n.toNat ≤ mask.toNat := hsum ▸ UInt32.le_iff_toNat_le.mp hle
    rw [unrolledLoop_append_rest unrolledRest_eq (by omega)]
    have hend : index.toNat + n.toNat ≤ size := by omega
    rw [hindex] at hend ⊢
    exact straight_eq_of_le hend
  · -- the batch reaches the end, and each index of the fall-back is masked
    have hof : index = UInt32.ofNat (p % size) := by
      rw [← hindex, UInt32.ofNat_toNat]
    rw [hof, maskLoop_eq hslot]
    simp only [Nat.mod_add_mod, Nat.zero_add]

end AlfQueue
