import PrototypeKernel.AlfQueue.Queue
import PrototypeKernel.Foundation.BatchCopy

/-! # The copy helpers that can be selected

`alf_queue.h` selects one pair of the copy helpers. The helpers `mask`, `mask_less`, `mask_less2`,
`nomask` and `unroll` split a batch in different ways, at the end of the array and in rounds of
four, and make the same accesses in the same order. -/

namespace AlfQueue

open CopyLoop

variable {α : Type*}

/-! ## The accesses of the helpers -/

/-- The accesses of `__helper_alf_enqueue_store_mask` and `__helper_alf_dequeue_load_mask`. -/
def maskAccesses (mask head n : UInt32) : List (ℕ × ℕ) := maskLoop mask n.toNat 0 head

/-- The accesses of `__helper_alf_enqueue_store_mask_less` and
`__helper_alf_dequeue_load_mask_less`. -/
def maskLessAccesses (mask head n : UInt32) : List (ℕ × ℕ) :=
  let index := head &&& mask
  if index + n ≤ mask then plainLoop n.toNat 0 index else maskLoop mask n.toNat 0 index

/-- The accesses of `__helper_alf_enqueue_store_mask_less2` and
`__helper_alf_dequeue_load_mask_less2`. -/
def maskLess2Accesses (mask head n : UInt32) : List (ℕ × ℕ) :=
  let index := head &&& mask
  if index + n ≤ mask then plainLoop n.toNat 0 index
  else
    -- `while index <= mask`, then `goto rest` with index 0
    let i := mask.toNat + 1 - index.toNat
    plainLoop i 0 index ++ plainLoop (n.toNat - i) i 0

/-- The accesses of `__helper_alf_enqueue_store_nomask` and `__helper_alf_dequeue_load_nomask`. -/
def nomaskAccesses (mask head n : UInt32) : List (ℕ × ℕ) :=
  let index := head &&& mask
  -- the first loop runs while `i < n && index <= mask`
  let i := min n.toNat (mask.toNat + 1 - index.toNat)
  plainLoop i 0 index ++ plainLoop (n.toNat - i) i 0

/-! ## The helpers -/

/-- `__helper_alf_enqueue_store_mask()`. -/
def helperAlfEnqueueStoreMask (pHead : UInt32) (q : AlfQueue α) (ptr : ℕ → α) (n : UInt32) :
    AlfQueue α :=
  { q with ring := storeAll (maskAccesses q.mask pHead n) ptr q.ring }

/-- `__helper_alf_dequeue_load_mask()`: the caller's array after the loads. -/
def helperAlfDequeueLoadMask (cHead : UInt32) (q : AlfQueue α) (ptr : ℕ → α) (elems : UInt32) :
    ℕ → α :=
  loadAll (maskAccesses q.mask cHead elems) q.ring ptr

/-- `__helper_alf_enqueue_store_mask_less()`. -/
def helperAlfEnqueueStoreMaskLess (pHead : UInt32) (q : AlfQueue α) (ptr : ℕ → α) (n : UInt32) :
    AlfQueue α :=
  { q with ring := storeAll (maskLessAccesses q.mask pHead n) ptr q.ring }

/-- `__helper_alf_dequeue_load_mask_less()`. -/
def helperAlfDequeueLoadMaskLess (cHead : UInt32) (q : AlfQueue α) (ptr : ℕ → α)
    (elems : UInt32) : ℕ → α :=
  loadAll (maskLessAccesses q.mask cHead elems) q.ring ptr

/-- `__helper_alf_enqueue_store_mask_less2()`. -/
def helperAlfEnqueueStoreMaskLess2 (pHead : UInt32) (q : AlfQueue α) (ptr : ℕ → α) (n : UInt32) :
    AlfQueue α :=
  { q with ring := storeAll (maskLess2Accesses q.mask pHead n) ptr q.ring }

/-- `__helper_alf_dequeue_load_mask_less2()`. -/
def helperAlfDequeueLoadMaskLess2 (cHead : UInt32) (q : AlfQueue α) (ptr : ℕ → α)
    (elems : UInt32) : ℕ → α :=
  loadAll (maskLess2Accesses q.mask cHead elems) q.ring ptr

/-- `__helper_alf_enqueue_store_nomask()`. -/
def helperAlfEnqueueStoreNomask (pHead : UInt32) (q : AlfQueue α) (ptr : ℕ → α) (n : UInt32) :
    AlfQueue α :=
  { q with ring := storeAll (nomaskAccesses q.mask pHead n) ptr q.ring }

/-- `__helper_alf_dequeue_load_nomask()`. -/
def helperAlfDequeueLoadNomask (cHead : UInt32) (q : AlfQueue α) (ptr : ℕ → α) (elems : UInt32) :
    ℕ → α :=
  loadAll (nomaskAccesses q.mask cHead elems) q.ring ptr

/-- A pair of helpers that can stand for `__helper_alf_enqueue_store` and
`__helper_alf_dequeue_load`. -/
inductive CopyHelper where
  | mask
  | maskLess
  | maskLess2
  | nomask
  | unroll
  deriving DecidableEq, Repr

/-- The store helper of a pair. -/
def CopyHelper.store : CopyHelper → UInt32 → AlfQueue α → (ℕ → α) → UInt32 → AlfQueue α
  | .mask => helperAlfEnqueueStoreMask
  | .maskLess => helperAlfEnqueueStoreMaskLess
  | .maskLess2 => helperAlfEnqueueStoreMaskLess2
  | .nomask => helperAlfEnqueueStoreNomask
  | .unroll => helperAlfEnqueueStoreUnroll

/-- The load helper of a pair. -/
def CopyHelper.load : CopyHelper → UInt32 → AlfQueue α → (ℕ → α) → UInt32 → ℕ → α
  | .mask => helperAlfDequeueLoadMask
  | .maskLess => helperAlfDequeueLoadMaskLess
  | .maskLess2 => helperAlfDequeueLoadMaskLess2
  | .nomask => helperAlfDequeueLoadNomask
  | .unroll => helperAlfDequeueLoadUnroll

/-- The accesses of both helpers of a pair. -/
def CopyHelper.accesses : CopyHelper → UInt32 → UInt32 → UInt32 → List (ℕ × ℕ)
  | .mask => maskAccesses
  | .maskLess => maskLessAccesses
  | .maskLess2 => maskLess2Accesses
  | .nomask => nomaskAccesses
  | .unroll => unrollAccesses

/-- A store helper stores the pointers of its accesses, one by one. -/
theorem CopyHelper.store_eq (h : CopyHelper) (pHead : UInt32) (q : AlfQueue α) (ptr : ℕ → α)
    (n : UInt32) :
    h.store pHead q ptr n = { q with ring := storeAll (h.accesses q.mask pHead n) ptr q.ring } := by
  cases h <;> rfl

/-- A load helper loads the pointers of its accesses, one by one. -/
theorem CopyHelper.load_eq (h : CopyHelper) (cHead : UInt32) (q : AlfQueue α) (ptr : ℕ → α)
    (elems : UInt32) :
    h.load cHead q ptr elems = loadAll (h.accesses q.mask cHead elems) q.ring ptr := by
  cases h <;> rfl

/-! ## The index of a batch -/

section Index

variable {q : AlfQueue α} {n : UInt32}

/-- The mask is one less than the size. -/
theorem WellSized.mask_add_one (h : q.WellSized) : q.mask.toNat + 1 = q.size.toNat := by
  have := h.mask_eq
  have := h.pos
  omega

/-- The masked head is the slot of its position. -/
theorem WellSized.index_toNat (h : q.WellSized) (head : UInt32) :
    (head &&& q.mask).toNat = head.toNat % q.size.toNat := by
  obtain ⟨k, hk, hsize⟩ := h.pow
  have hmask := h.mask_eq
  rw [hsize] at hmask ⊢
  exact Cyclic.toNat_and_mask hmask head

/-- A masked index is that of a slot. -/
theorem WellSized.index_lt (h : q.WellSized) (head : UInt32) :
    (head &&& q.mask).toNat < q.size.toNat := by
  rw [h.index_toNat]
  exact Nat.mod_lt _ h.pos

/-- The end of a batch is computed without wrapping. -/
theorem WellSized.index_add_toNat (h : q.WellSized) (head : UInt32)
    (hn : n.toNat ≤ q.size.toNat) :
    ((head &&& q.mask) + n).toNat = (head &&& q.mask).toNat + n.toNat := by
  have := h.index_lt head
  have := h.le
  exact toNat_add_of_lt (by omega)

/-- The test of the helpers: the batch ends before the last slot. -/
theorem WellSized.index_add_le_iff (h : q.WellSized) (head : UInt32)
    (hn : n.toNat ≤ q.size.toNat) :
    (head &&& q.mask) + n ≤ q.mask ↔ (head &&& q.mask).toNat + n.toNat < q.size.toNat := by
  have := h.pos
  have := h.mask_eq
  rw [UInt32.le_iff_toNat_le, h.index_add_toNat head hn]
  omega

/-- The loop that masks every index, from the head or from its slot. -/
theorem WellSized.maskLoop_eq (h : q.WellSized) {head index : UInt32}
    (hindex : index.toNat % q.size.toNat = head.toNat % q.size.toNat) (n : ℕ) :
    maskLoop q.mask n 0 index = batch q.size.toNat head.toNat n := by
  have hslot (p : ℕ) : (UInt32.ofNat p &&& q.mask).toNat = p % q.size.toNat := by
    obtain ⟨k, hk, hsize⟩ := h.pow
    have hmask := h.mask_eq
    rw [hsize] at hmask ⊢
    exact Cyclic.toNat_ofNat_and_mask (by omega) q.mask hmask p
  have hloop := CopyLoop.maskLoop_eq hslot n 0 index.toNat
  rw [UInt32.ofNat_toNat] at hloop
  rw [hloop, batch]
  refine List.map_congr_left fun j _ => ?_
  rw [Nat.zero_add, ← Nat.mod_add_mod, hindex, Nat.mod_add_mod]

/-- The plain loop, for a batch that stays inside the ring. -/
theorem WellSized.plainLoop_eq (h : q.WellSized) (head : UInt32) {n : ℕ}
    (hend : (head &&& q.mask).toNat + n ≤ q.size.toNat) :
    plainLoop n 0 (head &&& q.mask) = batch q.size.toNat head.toNat n := by
  have := h.le
  rw [CopyLoop.plainLoop_eq _ _ (by omega)]
  rw [h.index_toNat] at hend ⊢
  exact straight_eq_of_le hend

/-- Two plain loops, for a batch that reaches the end of the ring. -/
theorem WellSized.plainLoop_append_eq (h : q.WellSized) (head : UInt32) {n : ℕ}
    (hn : n ≤ q.size.toNat) (hend : q.size.toNat ≤ (head &&& q.mask).toNat + n) :
    plainLoop (q.size.toNat - (head &&& q.mask).toNat) 0 (head &&& q.mask) ++
        plainLoop (n - (q.size.toNat - (head &&& q.mask).toNat))
          (q.size.toNat - (head &&& q.mask).toNat) 0
      = batch q.size.toNat head.toNat n := by
  have := h.le
  have := h.index_lt head
  rw [CopyLoop.plainLoop_eq _ _ (by omega), CopyLoop.plainLoop_eq _ _ (by simp; omega)]
  rw [h.index_toNat] at hend ⊢
  exact straight_append_eq h.pos hn hend

end Index

/-! ## The helpers make the accesses of a batch -/

section Batch

variable {q : AlfQueue α} {n : UInt32}

/-- `mask` copies at the positions of the batch, for every `n`. -/
theorem WellSized.maskAccesses_eq (h : q.WellSized) (head n : UInt32) :
    maskAccesses q.mask head n = batch q.size.toNat head.toNat n.toNat :=
  h.maskLoop_eq rfl n.toNat

/-- `mask_less` copies at the positions of the batch. -/
theorem WellSized.maskLessAccesses_eq (h : q.WellSized) (head : UInt32)
    (hn : n.toNat ≤ q.size.toNat) :
    maskLessAccesses q.mask head n = batch q.size.toNat head.toNat n.toNat := by
  unfold maskLessAccesses
  simp only [h.index_add_le_iff head hn]
  split
  · rename_i hlt
    exact h.plainLoop_eq head hlt.le
  · refine h.maskLoop_eq ?_ n.toNat
    rw [h.index_toNat, Nat.mod_mod]

/-- `mask_less2` copies at the positions of the batch. -/
theorem WellSized.maskLess2Accesses_eq (h : q.WellSized) (head : UInt32)
    (hn : n.toNat ≤ q.size.toNat) :
    maskLess2Accesses q.mask head n = batch q.size.toNat head.toNat n.toNat := by
  unfold maskLess2Accesses
  simp only [h.index_add_le_iff head hn, h.mask_add_one]
  split
  · rename_i hlt
    exact h.plainLoop_eq head hlt.le
  · rename_i hge
    -- the first loop ends at the last slot, which the batch reaches
    exact h.plainLoop_append_eq head hn (not_lt.mp hge)

/-- `nomask` copies at the positions of the batch. -/
theorem WellSized.nomaskAccesses_eq (h : q.WellSized) (head : UInt32)
    (hn : n.toNat ≤ q.size.toNat) :
    nomaskAccesses q.mask head n = batch q.size.toNat head.toNat n.toNat := by
  unfold nomaskAccesses
  simp only [h.mask_add_one]
  rcases Nat.le_total ((head &&& q.mask).toNat + n.toNat) q.size.toNat with hle | hge
  · -- the first loop copies the whole batch
    rw [Nat.min_eq_left (by omega), Nat.sub_self, plainLoop, List.append_nil,
      h.plainLoop_eq head hle]
  · rw [Nat.min_eq_right (by omega), h.plainLoop_append_eq head hn hge]

/-- `unroll` copies at the positions of the batch. -/
theorem WellSized.unrollAccesses_eq (h : q.WellSized) (head : UInt32)
    (hn : n.toNat ≤ q.size.toNat) :
    unrollAccesses q.mask head n = batch q.size.toNat head.toNat n.toNat := by
  obtain ⟨k, hk, hsize⟩ := h.pow
  have haccesses := AlfQueue.unrollAccesses_eq hk hsize h.mask_eq head.toNat hn
  rwa [UInt32.ofNat_toNat] at haccesses

/-- **Every pair makes the accesses of the batch, in position order.** -/
theorem WellSized.accesses_eq (h : q.WellSized) (helper : CopyHelper) (head : UInt32)
    (hn : n.toNat ≤ q.size.toNat) :
    helper.accesses q.mask head n = batch q.size.toNat head.toNat n.toNat := by
  cases helper with
  | mask => exact h.maskAccesses_eq head n
  | maskLess => exact h.maskLessAccesses_eq head hn
  | maskLess2 => exact h.maskLess2Accesses_eq head hn
  | nomask => exact h.nomaskAccesses_eq head hn
  | unroll => exact h.unrollAccesses_eq head hn

end Batch

/-! ## What the helpers copy -/

/-- What a store helper shall do: slot `(head + k) % size` holds `ptr[k]`, and nothing else has
changed. -/
structure StoresBatch (q : AlfQueue α) (head : UInt32) (ptr : ℕ → α) (n : UInt32)
    (q' : AlfQueue α) : Prop where
  slot : ∀ k < n.toNat, q'.ring ((head.toNat + k) % q.size.toNat) = ptr k
  other : ∀ i, (∀ k < n.toNat, i ≠ (head.toNat + k) % q.size.toNat) → q'.ring i = q.ring i
  frame : q' = { q with ring := q'.ring }

/-- What a load helper shall do: `ptr[k]` holds slot `(head + k) % size`, and nothing else has
changed. -/
structure LoadsBatch (q : AlfQueue α) (head : UInt32) (ptr : ℕ → α) (n : UInt32)
    (ptr' : ℕ → α) : Prop where
  entry : ∀ k < n.toNat, ptr' k = q.ring ((head.toNat + k) % q.size.toNat)
  other : ∀ k, n.toNat ≤ k → ptr' k = ptr k

section Copy

variable {q : AlfQueue α} {head n : UInt32}

/-- The mask helper stores the batch and leaves the other slots. -/
theorem WellSized.storesBatch_mask (h : q.WellSized) (head : UInt32) (ptr : ℕ → α)
    (hn : n.toNat ≤ q.size.toNat) :
    StoresBatch q head ptr n (q.helperAlfEnqueueStoreMask head ptr n) where
  slot k hk := by
    rw [helperAlfEnqueueStoreMask, h.maskAccesses_eq]
    exact storeAll_batch hn hk ptr q.ring
  other i hi := by
    rw [helperAlfEnqueueStoreMask, h.maskAccesses_eq]
    exact storeAll_batch_of_ne hi ptr q.ring
  frame := rfl

/-- The mask helper loads the batch, for every `n`. -/
theorem WellSized.loadsBatch_mask (h : q.WellSized) (head : UInt32) (ptr : ℕ → α) (n : UInt32) :
    LoadsBatch q head ptr n (q.helperAlfDequeueLoadMask head ptr n) where
  entry k hk := by rw [helperAlfDequeueLoadMask, h.maskAccesses_eq, loadAll_batch, if_pos hk]
  other k hk := by
    rw [helperAlfDequeueLoadMask, h.maskAccesses_eq, loadAll_batch, if_neg (Nat.not_lt.mpr hk)]

/-- **A store that makes the accesses of the batch in any order** is the one of the masked pair. -/
theorem WellSized.storeAll_eq_mask (h : q.WellSized) {accesses : List (ℕ × ℕ)}
    (hperm : accesses.Perm (batch q.size.toNat head.toNat n.toNat)) (hn : n.toNat ≤ q.size.toNat)
    (ptr : ℕ → α) :
    { q with ring := storeAll accesses ptr q.ring } = q.helperAlfEnqueueStoreMask head ptr n := by
  rw [helperAlfEnqueueStoreMask, h.maskAccesses_eq, storeAll_perm hperm (nodup_batch_fst hn)]

/-- Loading the positions of the batch in another order is the mask helper. -/
theorem WellSized.loadAll_eq_mask (h : q.WellSized) {accesses : List (ℕ × ℕ)}
    (hperm : accesses.Perm (batch q.size.toNat head.toNat n.toNat)) (ptr : ℕ → α) :
    loadAll accesses q.ring ptr = q.helperAlfDequeueLoadMask head ptr n := by
  rw [helperAlfDequeueLoadMask, h.maskAccesses_eq, loadAll_perm_batch hperm]

/-- Every store helper of the family is the mask helper. -/
theorem WellSized.store_eq_mask (h : q.WellSized) (helper : CopyHelper) (head : UInt32)
    (ptr : ℕ → α) (hn : n.toNat ≤ q.size.toNat) :
    helper.store head q ptr n = q.helperAlfEnqueueStoreMask head ptr n := by
  rw [helper.store_eq]
  exact h.storeAll_eq_mask (.of_eq (h.accesses_eq helper head hn)) hn ptr

/-- Every load helper of the family is the mask helper. -/
theorem WellSized.load_eq_mask (h : q.WellSized) (helper : CopyHelper) (head : UInt32)
    (ptr : ℕ → α) (hn : n.toNat ≤ q.size.toNat) :
    helper.load head q ptr n = q.helperAlfDequeueLoadMask head ptr n := by
  rw [helper.load_eq]
  exact h.loadAll_eq_mask (.of_eq (h.accesses_eq helper head hn)) ptr

/-- The geometry is all that the copies need of an allocated queue. -/
theorem WellSized.of_alloc_eq {null : α} {size : UInt32} {kzalloc : Bool} {q₀ : AlfQueue α}
    (halloc : alfQueueAlloc null size kzalloc = .ok q₀) (hsize : q.size = q₀.size)
    (hmask : q.mask = q₀.mask) : q.WellSized := by
  have h := wellSized_of_alloc halloc
  exact ⟨by rw [hsize]; exact h.pow, by rw [hsize]; exact h.le,
    by rw [hmask, hsize]; exact h.mask_eq⟩

end Copy

/-- **All selectable helpers copy alike.** In a queue of the size and mask that `alf_queue_alloc()`
sets up, whatever its slots hold, every pair stores and loads a batch as the masked pair does, and a
load of any pair gives back what a store of any pair has stored. -/
theorem copyHelpers_agree {null : α} {size : UInt32} {kzalloc : Bool} {q₀ q : AlfQueue α}
    (halloc : alfQueueAlloc null size kzalloc = .ok q₀) (hsize : q.size = q₀.size)
    (hmask : q.mask = q₀.mask) (helper helper' : CopyHelper) (head n : UInt32) (hn : n ≤ q.size)
    (ptr ptr' : ℕ → α) :
    helper.store head q ptr n = q.helperAlfEnqueueStoreMask head ptr n ∧
      StoresBatch q head ptr n (helper.store head q ptr n) ∧
      helper.load head q ptr n = q.helperAlfDequeueLoadMask head ptr n ∧
      LoadsBatch q head ptr n (helper.load head q ptr n) ∧
      ∀ k < n.toNat, helper'.load head (helper.store head q ptr n) ptr' n k = ptr k := by
  have h := WellSized.of_alloc_eq halloc hsize hmask
  have hn := UInt32.le_iff_toNat_le.mp hn
  rw [h.store_eq_mask helper head ptr hn, h.load_eq_mask helper head ptr hn]
  refine ⟨rfl, h.storesBatch_mask head ptr hn, rfl, h.loadsBatch_mask head ptr n, fun k hk => ?_⟩
  -- the store keeps the size and the mask
  have hq : (q.helperAlfEnqueueStoreMask head ptr n).WellSized := ⟨h.pow, h.le, h.mask_eq⟩
  rw [hq.load_eq_mask helper' head ptr' hn,
    (hq.loadsBatch_mask head ptr' n).entry k hk]
  exact (h.storesBatch_mask head ptr hn).slot k hk

/-- A batch of four that wraps, stored and loaded again. -/
theorem copyHelpers_agree_four :
    CopyHelper.nomask.store 6 four id 4 = four.helperAlfEnqueueStoreMask 6 id 4 ∧
      StoresBatch four 6 id 4 (CopyHelper.nomask.store 6 four id 4) ∧
      CopyHelper.nomask.load 6 four id 4 = four.helperAlfDequeueLoadMask 6 id 4 ∧
      LoadsBatch four 6 id 4 (CopyHelper.nomask.load 6 four id 4) ∧
      ∀ k < 4, CopyHelper.maskLess2.load 6 (CopyHelper.nomask.store 6 four id 4) id 4 k = k :=
  copyHelpers_agree (show alfQueueAlloc 0 4 true = .ok four from rfl) rfl rfl .nomask .maskLess2 6 4
    (by decide) id id

end AlfQueue
