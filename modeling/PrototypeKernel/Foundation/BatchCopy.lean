import PrototypeKernel.Foundation.CopyLoop
import Mathlib.Data.List.Nodup
import Mathlib.Data.List.Perm.Basic
import Mathlib.Logic.Function.Basic

/-! # What a list of accesses copies

The accesses of a copy loop, made as stores into the ring or as loads from it. A batch accesses
each of its slots once, so the order of the accesses does not matter. -/

namespace CopyLoop

variable {α : Type*}

/-- Store the array in the ring, for each access in turn. -/
def storeAll (accesses : List (ℕ × ℕ)) (ptr ring : ℕ → α) : ℕ → α :=
  accesses.foldl (fun ring a => Function.update ring a.1 (ptr a.2)) ring

/-- Load the array from the ring, for each access in turn. -/
def loadAll (accesses : List (ℕ × ℕ)) (ring ptr : ℕ → α) : ℕ → α :=
  accesses.foldl (fun ptr a => Function.update ptr a.2 (ring a.1)) ptr

/-- A load is a store in the other direction. -/
theorem loadAll_eq_storeAll (accesses : List (ℕ × ℕ)) (ring ptr : ℕ → α) :
    loadAll accesses ring ptr = storeAll (accesses.map Prod.swap) ring ptr := by
  rw [loadAll, storeAll, List.foldl_map]
  rfl

/-- A slot that is not accessed keeps its content. -/
theorem storeAll_of_notMem {accesses : List (ℕ × ℕ)} {slot : ℕ}
    (h : slot ∉ accesses.map Prod.fst) (ptr ring : ℕ → α) :
    storeAll accesses ptr ring slot = ring slot := by
  induction accesses generalizing ring with
  | nil => rfl
  | cons a accesses ih =>
    rw [List.map_cons, List.mem_cons, not_or] at h
    calc storeAll (a :: accesses) ptr ring slot
        = storeAll accesses ptr (Function.update ring a.1 (ptr a.2)) slot := rfl
      _ = Function.update ring a.1 (ptr a.2) slot := ih h.2 _
      _ = ring slot := Function.update_of_ne h.1 _ _

/-- A slot that is accessed once holds its entry of the array. -/
theorem storeAll_of_mem {accesses : List (ℕ × ℕ)} (hnodup : (accesses.map Prod.fst).Nodup)
    {slot i : ℕ} (h : (slot, i) ∈ accesses) (ptr ring : ℕ → α) :
    storeAll accesses ptr ring slot = ptr i := by
  induction accesses generalizing ring with
  | nil => cases h
  | cons a accesses ih =>
    rw [List.map_cons, List.nodup_cons] at hnodup
    rcases List.mem_cons.mp h with rfl | h
    · calc storeAll ((slot, i) :: accesses) ptr ring slot
          = storeAll accesses ptr (Function.update ring slot (ptr i)) slot := rfl
        _ = Function.update ring slot (ptr i) slot := storeAll_of_notMem hnodup.1 _ _
        _ = ptr i := Function.update_self ..
    · exact ih hnodup.2 h _

/-- **The order of the accesses does not matter** when no slot is accessed twice. -/
theorem storeAll_perm {accesses accesses' : List (ℕ × ℕ)} (h : accesses.Perm accesses')
    (hnodup : (accesses'.map Prod.fst).Nodup) (ptr ring : ℕ → α) :
    storeAll accesses ptr ring = storeAll accesses' ptr ring := by
  have hslots : (accesses.map Prod.fst).Perm (accesses'.map Prod.fst) := h.map _
  funext slot
  by_cases hmem : slot ∈ accesses.map Prod.fst
  · obtain ⟨⟨slot, i⟩, ha, rfl⟩ := List.mem_map.mp hmem
    rw [storeAll_of_mem (hslots.nodup_iff.mpr hnodup) ha,
      storeAll_of_mem hnodup (h.mem_iff.mp ha)]
  · rw [storeAll_of_notMem hmem, storeAll_of_notMem (hslots.mem_iff.not.mp hmem)]

/-! ## Batches -/

/-- The accesses of `n` consecutive positions from `p` on, in a ring of `size` slots. -/
def batch (size p n : ℕ) : List (ℕ × ℕ) := (List.range n).map fun j => ((p + j) % size, j)

variable {size p n : ℕ}

/-- The accesses of a batch, by their places in the caller's array. -/
theorem mem_batch {a : ℕ × ℕ} : a ∈ batch size p n ↔ a.2 < n ∧ a.1 = (p + a.2) % size := by
  simp only [batch, List.mem_map, List.mem_range]
  constructor
  · rintro ⟨j, hj, rfl⟩
    exact ⟨hj, rfl⟩
  · rintro ⟨hn, hslot⟩
    exact ⟨a.2, hn, Prod.ext hslot.symm rfl⟩

/-- A batch that fits into the ring accesses no slot twice. -/
theorem nodup_batch_fst (hn : n ≤ size) : ((batch size p n).map Prod.fst).Nodup := by
  rw [batch, List.map_map]
  refine List.nodup_range.map_on fun i hi j hj heq => ?_
  have hi := List.mem_range.mp hi
  have hj := List.mem_range.mp hj
  have heq : (p + i) % size = (p + j) % size := heq
  have hpos := Cyclic.eq_of_mod_eq (by omega) (by omega) heq
  omega

/-- A batch accesses no entry of the array twice. -/
theorem nodup_batch_snd (size p n : ℕ) :
    (((batch size p n).map Prod.swap).map Prod.fst).Nodup := by
  have hsnd : ((batch size p n).map Prod.swap).map Prod.fst = List.range n := by
    simp [batch, Function.comp_def]
  rw [hsnd]
  exact List.nodup_range

/-- **What a store of a batch leaves in a slot of it.** -/
theorem storeAll_batch {k : ℕ} (hn : n ≤ size) (hk : k < n) (ptr ring : ℕ → α) :
    storeAll (batch size p n) ptr ring ((p + k) % size) = ptr k :=
  storeAll_of_mem (nodup_batch_fst hn) (mem_batch.mpr ⟨hk, rfl⟩) ptr ring

/-- A slot that is not of the batch keeps its pointer. -/
theorem storeAll_batch_of_ne {slot : ℕ} (h : ∀ k < n, slot ≠ (p + k) % size)
    (ptr ring : ℕ → α) : storeAll (batch size p n) ptr ring slot = ring slot := by
  refine storeAll_of_notMem (fun hmem => ?_) ptr ring
  obtain ⟨a, ha, rfl⟩ := List.mem_map.mp hmem
  obtain ⟨hlt, hslot⟩ := mem_batch.mp ha
  exact h a.2 hlt hslot

/-- The order does not matter for a load of a batch either. -/
theorem loadAll_perm_batch {accesses : List (ℕ × ℕ)} (h : accesses.Perm (batch size p n))
    (ring ptr : ℕ → α) : loadAll accesses ring ptr = loadAll (batch size p n) ring ptr := by
  rw [loadAll_eq_storeAll, loadAll_eq_storeAll]
  exact storeAll_perm (h.map Prod.swap) (nodup_batch_snd ..) ring ptr

/-- **What a load of a batch leaves in the array.** -/
theorem loadAll_batch (size p n : ℕ) (ring ptr : ℕ → α) (k : ℕ) :
    loadAll (batch size p n) ring ptr k = if k < n then ring ((p + k) % size) else ptr k := by
  rw [loadAll_eq_storeAll]
  split
  · rename_i hk
    refine storeAll_of_mem (nodup_batch_snd size p n) (List.mem_map.mpr ?_) ring ptr
    exact ⟨((p + k) % size, k), mem_batch.mpr ⟨hk, rfl⟩, rfl⟩
  · rename_i hk
    refine storeAll_of_notMem (fun hmem => ?_) ring ptr
    obtain ⟨b, hb, rfl⟩ := List.mem_map.mp hmem
    obtain ⟨a, ha, rfl⟩ := List.mem_map.mp hb
    exact hk (mem_batch.mp ha).1

/-- A store of a batch that the ring holds already changes nothing, and only such a one does. -/
theorem storeAll_batch_eq_self_iff (hn : n ≤ size) (ptr ring : ℕ → α) :
    storeAll (batch size p n) ptr ring = ring ↔ ∀ k < n, ring ((p + k) % size) = ptr k := by
  constructor
  · intro h k hk
    rw [← storeAll_batch hn hk ptr ring, h]
  · intro h
    funext slot
    by_cases hslot : ∃ k < n, slot = (p + k) % size
    · obtain ⟨k, hk, rfl⟩ := hslot
      rw [storeAll_batch hn hk, h k hk]
    · exact storeAll_batch_of_ne (fun k hk heq => hslot ⟨k, hk, heq⟩) ptr ring

/-- A load of what the array holds already changes nothing, and only such a one does. -/
theorem loadAll_batch_eq_self_iff (ring ptr : ℕ → α) :
    loadAll (batch size p n) ring ptr = ptr ↔ ∀ k < n, ring ((p + k) % size) = ptr k := by
  simp only [funext_iff, loadAll_batch]
  constructor
  · intro h k hk
    have hload := h k
    rwa [if_pos hk] at hload
  · intro h k
    split
    · rename_i hk
      exact h k hk
    · rfl

end CopyLoop
