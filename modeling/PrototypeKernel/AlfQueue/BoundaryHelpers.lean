import PrototypeKernel.AlfQueue.CopyHelpers

/-! # The copy helpers that miss a boundary

Three of the helpers of `alf_queue_helpers.h` are right for most batches. The `memcpy` pair takes a
full ring for an empty batch, the pair with duff's device copies four elements of an empty batch,
and the `simple` pair goes one slot too far before it wraps. -/

namespace AlfQueue

open CopyLoop

variable {α : Type*} {q : AlfQueue α} {head n : UInt32}

/-! ## memcpy -/

/-- The accesses of `__helper_alf_enqueue_store_memcpy` and `__helper_alf_dequeue_load_memcpy`. -/
def memcpyAccesses (size mask head n : UInt32) : List (ℕ × ℕ) :=
  let next := (head + n) &&& mask
  let head := head &&& mask
  if next ≥ head then straight head.toNat 0 (next - head).toNat
  else straight head.toNat 0 (size - head).toNat ++ straight 0 (size - head).toNat next.toNat

/-- `__helper_alf_enqueue_store_memcpy()`. -/
def helperAlfEnqueueStoreMemcpy (pHead : UInt32) (q : AlfQueue α) (ptr : ℕ → α) (n : UInt32) :
    AlfQueue α :=
  { q with ring := storeAll (memcpyAccesses q.size q.mask pHead n) ptr q.ring }

/-- `__helper_alf_dequeue_load_memcpy()`. -/
def helperAlfDequeueLoadMemcpy (cHead : UInt32) (q : AlfQueue α) (ptr : ℕ → α) (elems : UInt32) :
    ℕ → α :=
  loadAll (memcpyAccesses q.size q.mask cHead elems) q.ring ptr

/-- The masked end of a batch is the slot behind it. -/
theorem WellSized.next_toNat (h : q.WellSized) (head n : UInt32) :
    ((head + n) &&& q.mask).toNat = ((head &&& q.mask).toNat + n.toNat) % q.size.toNat := by
  obtain ⟨k, hk, hsize⟩ := h.pow
  rw [h.index_toNat, h.index_toNat, UInt32.toNat_add, Nat.mod_add_mod]
  -- the index wraps at a multiple of the size
  rw [hsize]
  exact Nat.mod_mod_of_dvd _ (Nat.pow_dvd_pow 2 (by omega))

/-- A batch smaller than the ring is copied, in one piece or in two. -/
theorem WellSized.memcpyAccesses_of_lt (h : q.WellSized) (head : UInt32)
    (hn : n.toNat < q.size.toNat) :
    memcpyAccesses q.size q.mask head n = batch q.size.toNat head.toNat n.toNat := by
  have hnext := h.next_toNat head n
  have hindex := h.index_lt head
  unfold memcpyAccesses
  simp only [ge_iff_le, UInt32.le_iff_toNat_le]
  rcases Nat.lt_or_ge ((head &&& q.mask).toNat + n.toNat) q.size.toNat with hlt | hge
  · rw [Nat.mod_eq_of_lt hlt] at hnext
    have hlength : (((head + n) &&& q.mask) - (head &&& q.mask)).toNat = n.toNat := by
      rw [UInt32.toNat_sub_of_le _ _ (UInt32.le_iff_toNat_le.mpr (by omega)), hnext]
      omega
    rw [if_pos (by omega), hlength]
    rw [h.index_toNat] at hlt ⊢
    exact straight_eq_of_le hlt.le
  · -- the end of the batch lies behind the end of the ring, and before its head
    rw [Nat.mod_eq_sub_mod hge, Nat.mod_eq_of_lt (by omega)] at hnext
    have hfirst : (q.size - (head &&& q.mask)).toNat
        = q.size.toNat - (head &&& q.mask).toNat :=
      UInt32.toNat_sub_of_le _ _ (UInt32.le_iff_toNat_le.mpr hindex.le)
    have hsecond : ((head + n) &&& q.mask).toNat
        = n.toNat - (q.size.toNat - (head &&& q.mask).toNat) := by omega
    rw [if_neg (by omega), hfirst, hsecond]
    rw [h.index_toNat] at hge ⊢
    exact straight_append_eq h.pos hn.le hge

/-- Of a batch as large as the ring nothing is copied: its end is its head. -/
theorem WellSized.memcpyAccesses_full (h : q.WellSized) (head : UInt32)
    (hn : n.toNat = q.size.toNat) : memcpyAccesses q.size q.mask head n = [] := by
  have hnext : (head + n) &&& q.mask = head &&& q.mask := by
    rw [← UInt32.toNat_inj, h.next_toNat, hn, Nat.add_mod_right, Nat.mod_eq_of_lt (h.index_lt head)]
  unfold memcpyAccesses
  simp only [hnext, ge_iff_le, UInt32.le_refl, if_true, UInt32.sub_self]
  rfl

/-- The masked pair changes nothing when the slots hold the batch already. -/
theorem WellSized.mask_eq_self (h : q.WellSized) (head : UInt32) (hn : n.toNat ≤ q.size.toNat)
    {ptr : ℕ → α} (hheld : ∀ k < n.toNat, q.ring ((head.toNat + k) % q.size.toNat) = ptr k) :
    q.helperAlfEnqueueStoreMask head ptr n = q ∧ q.helperAlfDequeueLoadMask head ptr n = ptr := by
  constructor
  · rw [helperAlfEnqueueStoreMask, h.maskAccesses_eq,
      (storeAll_batch_eq_self_iff hn ptr q.ring).mpr hheld]
  · rw [helperAlfDequeueLoadMask, h.maskAccesses_eq]
    exact (loadAll_batch_eq_self_iff q.ring ptr).mpr hheld

/-- **When the `memcpy` pair copies as the masked pair does**: the batch is smaller than the ring,
or the copy would change nothing anyway. -/
theorem memcpy_eq_mask_iff {null : α} {size : UInt32} {kzalloc : Bool} {q₀ : AlfQueue α}
    (halloc : alfQueueAlloc null size kzalloc = .ok q₀) (hsize : q.size = q₀.size)
    (hmask : q.mask = q₀.mask) (head : UInt32) (hn : n ≤ q.size) (ptr : ℕ → α) :
    (q.helperAlfEnqueueStoreMemcpy head ptr n = q.helperAlfEnqueueStoreMask head ptr n ∧
        StoresBatch q head ptr n (q.helperAlfEnqueueStoreMemcpy head ptr n) ∧
        q.helperAlfDequeueLoadMemcpy head ptr n = q.helperAlfDequeueLoadMask head ptr n ∧
        LoadsBatch q head ptr n (q.helperAlfDequeueLoadMemcpy head ptr n)) ↔
      n < q.size ∨ ∀ k < n.toNat, q.ring ((head.toNat + k) % q.size.toNat) = ptr k := by
  have h := WellSized.of_alloc_eq halloc hsize hmask
  have hn := UInt32.le_iff_toNat_le.mp hn
  have hstores := h.storesBatch_mask head ptr hn
  have hloads := h.loadsBatch_mask head ptr n
  rcases Nat.lt_or_ge n.toNat q.size.toNat with hlt | hge
  · -- the accesses are those of the masked pair
    have haccesses := List.Perm.of_eq (h.memcpyAccesses_of_lt head hlt)
    have hstore : q.helperAlfEnqueueStoreMemcpy head ptr n
        = q.helperAlfEnqueueStoreMask head ptr n := h.storeAll_eq_mask haccesses hn ptr
    have hload : q.helperAlfDequeueLoadMemcpy head ptr n
        = q.helperAlfDequeueLoadMask head ptr n := h.loadAll_eq_mask haccesses ptr
    rw [hstore, hload]
    exact iff_of_true ⟨rfl, hstores, rfl, hloads⟩ (.inl (UInt32.lt_iff_toNat_lt.mpr hlt))
  · have hfull := h.memcpyAccesses_full head (Nat.le_antisymm hn hge)
    have hstore : q.helperAlfEnqueueStoreMemcpy head ptr n = q := by
      rw [helperAlfEnqueueStoreMemcpy, hfull]
      rfl
    have hload : q.helperAlfDequeueLoadMemcpy head ptr n = ptr := by
      rw [helperAlfDequeueLoadMemcpy, hfull]
      rfl
    rw [or_iff_right (by rw [UInt32.lt_iff_toNat_lt]; omega), hstore, hload]
    constructor
    · rintro ⟨hsame, -⟩ k hk
      rw [← hstores.slot k hk, ← hsame]
    · intro hheld
      obtain ⟨hsame, hptr⟩ := h.mask_eq_self head hn hheld
      rw [hsame] at hstores ⊢
      rw [hptr] at hloads ⊢
      exact ⟨rfl, hstores, rfl, hloads⟩

/-- A batch of three that wraps in a queue of four slots. -/
theorem memcpy_eq_mask_iff_four :
    (four.helperAlfEnqueueStoreMemcpy 6 id 3 = four.helperAlfEnqueueStoreMask 6 id 3 ∧
        StoresBatch four 6 id 3 (four.helperAlfEnqueueStoreMemcpy 6 id 3) ∧
        four.helperAlfDequeueLoadMemcpy 6 id 3 = four.helperAlfDequeueLoadMask 6 id 3 ∧
        LoadsBatch four 6 id 3 (four.helperAlfDequeueLoadMemcpy 6 id 3)) ↔
      (3 : UInt32) < 4 ∨ ∀ k < 3, four.ring ((6 + k) % 4) = k :=
  memcpy_eq_mask_iff (show alfQueueAlloc 0 4 true = .ok four from rfl) rfl rfl 6 (by decide) id

/-- **A store of a full ring stores nothing.** -/
theorem not_storesBatch_memcpy :
    alfQueueAlloc 0 4 true = .ok four ∧
      ¬ StoresBatch four 0 Nat.succ 4 (four.helperAlfEnqueueStoreMemcpy 0 Nat.succ 4) := by
  refine ⟨rfl, fun hstores => ?_⟩
  have hslot := hstores.slot 0 (by decide)
  exact absurd hslot (by decide)

/-! ## Duff's device -/

/-- `case 1` of duff's device. -/
def duffOne (i : ℕ) (index : UInt32) : List (ℕ × ℕ) := [(index.toNat, i)]

/-- `case 2`, which falls through to `case 1`. -/
def duffTwo (i : ℕ) (index : UInt32) : List (ℕ × ℕ) :=
  ((index + 1).toNat, i + 1) :: duffOne i index

/-- `case 3`, which falls through to `case 2`. -/
def duffThree (i : ℕ) (index : UInt32) : List (ℕ × ℕ) :=
  ((index + 2).toNat, i + 2) :: duffTwo i index

/-- `case 0`, the whole body of the loop. -/
def duffBody (i : ℕ) (index : UInt32) : List (ℕ × ℕ) :=
  ((index + 3).toNat, i + 3) :: duffThree i index

/-- The pass that `switch(r)` enters. -/
def duffEntry (r : UInt32) (i : ℕ) (index : UInt32) : List (ℕ × ℕ) :=
  if r = 0 then duffBody i index
  else if r = 3 then duffThree i index
  else if r = 2 then duffTwo i index
  else if r = 1 then duffOne i index
  else []

/-- The condition of duff's loop at the end of a pass, and the passes that follow. -/
def duffLoop (iterations : ℕ) (r : UInt32) (i : ℕ) (index : UInt32) : List (ℕ × ℕ) :=
  if 0 < r then
    -- `(i+=r, index+=r, r=0, iterations)`
    if iterations ≠ 0 then
      duffBody (i + r.toNat) (index + r) ++ duffLoop iterations 0 (i + r.toNat) (index + r)
    else []
  else
    -- `(i+=4, index+=4) && i < iterations`
    if index + 4 ≠ 0 ∧ i + 4 < iterations then
      duffBody (i + 4) (index + 4) ++ duffLoop iterations 0 (i + 4) (index + 4)
    else []
termination_by (r.toNat, iterations - i)
decreasing_by
  · rename_i hr _
    exact Prod.Lex.left _ _ (UInt32.lt_iff_toNat_lt.mp hr)
  · rename_i hr hnext
    have hr : r = 0 := by
      rw [← UInt32.toNat_inj]
      have := UInt32.lt_iff_toNat_lt.not.mp hr
      exact Nat.eq_zero_of_not_pos this
    rw [hr]
    exact Prod.Lex.right _ (by omega)

/-- The accesses of `__helper_alf_enqueue_store_unroll_duff` and
`__helper_alf_dequeue_load_unroll_duff`. -/
def unrollDuffAccesses (mask head n : UInt32) : List (ℕ × ℕ) :=
  let r := n &&& 3
  let iterations := n &&& ~~~3
  let index := head &&& mask
  if index + n ≤ mask then duffEntry r 0 index ++ duffLoop iterations.toNat r 0 index
  else maskLoop mask n.toNat 0 index

/-- `__helper_alf_enqueue_store_unroll_duff()`. -/
def helperAlfEnqueueStoreUnrollDuff (pHead : UInt32) (q : AlfQueue α) (ptr : ℕ → α)
    (n : UInt32) : AlfQueue α :=
  { q with ring := storeAll (unrollDuffAccesses q.mask pHead n) ptr q.ring }

/-- `__helper_alf_dequeue_load_unroll_duff()`. -/
def helperAlfDequeueLoadUnrollDuff (cHead : UInt32) (q : AlfQueue α) (ptr : ℕ → α)
    (elems : UInt32) : ℕ → α :=
  loadAll (unrollDuffAccesses q.mask cHead elems) q.ring ptr

/-- A pass makes four accesses, the last one first. -/
theorem duffBody_perm (i : ℕ) (index : UInt32) (hlt : index.toNat + 4 < 2 ^ 32) :
    (duffBody i index).Perm (straight index.toNat i 4) := by
  have hadd : ∀ c : UInt32, c.toNat < 4 → (index + c).toNat = index.toNat + c.toNat :=
    fun c hc => toNat_add_of_lt (by omega)
  have hbody : duffBody i index = (straight index.toNat i 4).reverse := by
    simp only [duffBody, duffThree, duffTwo, duffOne, straight_succ, straight_zero,
      hadd 1 (by decide), hadd 2 (by decide), hadd 3 (by decide)]
    rfl
  rw [hbody]
  exact List.reverse_perm _

/-- The pass that is entered in the middle makes the accesses of the remainder. -/
theorem duffEntry_perm {r : UInt32} (i : ℕ) (index : UInt32) (hr : r.toNat < 4) (hpos : r ≠ 0)
    (hlt : index.toNat + 4 < 2 ^ 32) :
    (duffEntry r i index).Perm (straight index.toNat i r.toNat) := by
  have hadd : ∀ c : UInt32, c.toNat < 4 → (index + c).toNat = index.toNat + c.toNat :=
    fun c hc => toNat_add_of_lt (by omega)
  have hentry : duffEntry r i index = (straight index.toNat i r.toNat).reverse := by
    rcases eq_of_toNat_lt_four hr with rfl | rfl | rfl | rfl
    · exact absurd rfl hpos
    · rfl
    · simp [duffEntry, duffTwo, duffOne, straight_succ, hadd 1 (by decide)]
    · simp [duffEntry, duffThree, duffTwo, duffOne, straight_succ, hadd 1 (by decide),
        hadd 2 (by decide)]
  rw [hentry]
  exact List.reverse_perm _

/-- **The passes after a full one.** With `4 * k` elements left, `k` passes follow, whatever the
remainder was that the first pass has dealt with. -/
theorem duffLoop_zero_perm (k iterations i : ℕ) (index : UInt32)
    (hlow : iterations ≤ i + 4 + 4 * k) (hhigh : i + 4 * k < iterations)
    (hlt : index.toNat + 4 * k + 8 < 2 ^ 32) :
    (duffLoop iterations 0 i index).Perm (straight (index.toNat + 4) (i + 4) (4 * k)) := by
  have hnext : (index + 4).toNat = index.toNat + 4 :=
    toNat_add_of_lt (show index.toNat + 4 < 2 ^ 32 by omega)
  rw [duffLoop, if_neg (by decide)]
  induction k generalizing i index with
  | zero =>
    rw [if_neg (by omega)]
    exact .refl _
  | succ k ih =>
    have hne : index + 4 ≠ 0 := by
      intro h0
      rw [h0] at hnext
      exact absurd hnext (by simp)
    rw [if_pos ⟨hne, by omega⟩, duffLoop, if_neg (by decide)]
    have hnext' : (index + 4 + 4).toNat = (index + 4).toNat + 4 :=
      toNat_add_of_lt (show (index + 4).toNat + 4 < 2 ^ 32 by omega)
    have hrest := ih (i + 4) (index + 4) (by omega) (by omega) (by omega) hnext'
    have hbody := duffBody_perm (i + 4) (index + 4) (by omega)
    rw [hnext] at hrest hbody
    rw [show 4 * (k + 1) = 4 + 4 * k by omega, straight_add]
    exact hbody.append hrest

/-- The passes after the one that has dealt with a remainder. -/
theorem duffLoop_perm {r : UInt32} (hr : r ≠ 0) (hr4 : r.toNat < 4) (k : ℕ) (index : UInt32)
    (hlt : index.toNat + r.toNat + 4 * k + 8 < 2 ^ 32) :
    (duffLoop (4 * k) r 0 index).Perm (straight (index.toNat + r.toNat) r.toNat (4 * k)) := by
  have hpos : 0 < r := UInt32.lt_iff_toNat_lt.mpr (Cyclic.toNat_pos hr)
  rw [duffLoop, if_pos hpos, Nat.zero_add]
  cases k with
  | zero =>
    rw [if_neg (by decide)]
    exact .refl _
  | succ k =>
    have hnext : (index + r).toNat = index.toNat + r.toNat := toNat_add_of_lt (by omega)
    have hbody := duffBody_perm r.toNat (index + r) (by omega)
    have hrest := duffLoop_zero_perm k (4 * (k + 1)) r.toNat (index + r) (by omega) (by omega)
      (by omega)
    rw [hnext] at hbody hrest
    rw [if_pos (by omega), show 4 * (k + 1) = 4 + 4 * k by omega, straight_add]
    rw [show 4 * (k + 1) = 4 + 4 * k by omega] at hrest
    exact hbody.append hrest

/-- **The device makes the accesses of a batch that is not empty.** -/
theorem duff_perm (index : UInt32) {n : UInt32} (hn : n ≠ 0)
    (hlt : index.toNat + n.toNat + 8 < 2 ^ 32) :
    (duffEntry (n &&& 3) 0 index ++ duffLoop (n &&& ~~~3).toNat (n &&& 3) 0 index).Perm
      (straight index.toNat 0 n.toNat) := by
  have hr := toNat_and_three n
  have hiter := toNat_and_not_three n
  have hsplit := Nat.div_add_mod n.toNat 4
  have hpos : 0 < n.toNat := Cyclic.toNat_pos hn
  rw [hiter]
  by_cases hzero : n &&& 3 = 0
  · -- the loop is entered at its start
    have hmod : n.toNat % 4 = 0 := by rw [← hr, hzero]; rfl
    rw [hzero]
    obtain ⟨k, hk⟩ : ∃ k, n.toNat / 4 = k + 1 := ⟨n.toNat / 4 - 1, by omega⟩
    have hrest := duffLoop_zero_perm k (4 * (n.toNat / 4)) 0 index (by omega) (by omega) (by omega)
    have hall : straight index.toNat 0 n.toNat
        = straight index.toNat 0 4 ++ straight (index.toNat + 4) (0 + 4) (4 * k) := by
      rw [← straight_add, show n.toNat = 4 + 4 * k by omega]
    rw [hall]
    exact (duffBody_perm 0 index (by omega)).append hrest
  · -- the remainder is copied by the first pass
    have hlt4 : (n &&& 3).toNat < 4 := by omega
    have hentry := duffEntry_perm 0 index hlt4 hzero (by omega)
    have hrest := duffLoop_perm hzero hlt4 (n.toNat / 4) index (by omega)
    have hall := straight_add index.toNat 0 (n &&& 3).toNat (4 * (n.toNat / 4))
    rw [show (n &&& 3).toNat + 4 * (n.toNat / 4) = n.toNat by omega, Nat.zero_add] at hall
    rw [hall]
    exact hentry.append hrest

/-- For an empty batch the whole body of the loop is run once. -/
theorem unrollDuffAccesses_zero (h : q.WellSized) (head : UInt32) :
    unrollDuffAccesses q.mask head 0 = duffBody 0 (head &&& q.mask) := by
  have hempty := (h.index_add_le_iff (n := 0) head (Nat.zero_le _)).mpr (h.index_lt head)
  unfold unrollDuffAccesses
  simp only [if_pos hempty]
  rw [duffLoop]
  simp [duffEntry]

/-- The accesses of a batch that is not empty, in the order of the passes. -/
theorem WellSized.unrollDuffAccesses_perm (h : q.WellSized) (head : UInt32)
    (hn : n.toNat ≤ q.size.toNat) (hpos : n ≠ 0) :
    (unrollDuffAccesses q.mask head n).Perm (batch q.size.toNat head.toNat n.toNat) := by
  have hle := h.le
  unfold unrollDuffAccesses
  simp only [h.index_add_le_iff head hn]
  split
  · rename_i hlt
    have hperm := duff_perm (head &&& q.mask) hpos (by omega)
    rw [h.index_toNat] at hperm hlt
    rwa [straight_eq_of_le hlt.le] at hperm
  · have hslot : (head &&& q.mask).toNat % q.size.toNat = head.toNat % q.size.toNat := by
      rw [h.index_toNat, Nat.mod_mod]
    rw [h.maskLoop_eq hslot]

/-- **When the pair with duff's device copies as the masked pair does**, and accesses nothing but
the batch: the batch is not empty. -/
theorem unrollDuff_eq_mask_iff {null : α} {size : UInt32} {kzalloc : Bool} {q₀ : AlfQueue α}
    (halloc : alfQueueAlloc null size kzalloc = .ok q₀) (hsize : q.size = q₀.size)
    (hmask : q.mask = q₀.mask) (head : UInt32) (hn : n ≤ q.size) (ptr : ℕ → α) :
    (q.helperAlfEnqueueStoreUnrollDuff head ptr n = q.helperAlfEnqueueStoreMask head ptr n ∧
        q.helperAlfDequeueLoadUnrollDuff head ptr n = q.helperAlfDequeueLoadMask head ptr n ∧
        ∀ a ∈ unrollDuffAccesses q.mask head n,
          a.2 < n.toNat ∧ ∃ k < n.toNat, a.1 = (head.toNat + k) % q.size.toNat) ↔
      0 < n := by
  have h := WellSized.of_alloc_eq halloc hsize hmask
  have hn := UInt32.le_iff_toNat_le.mp hn
  by_cases hzero : n = 0
  · -- `ptr[3]` is no entry of an empty batch
    subst hzero
    refine iff_of_false ?_ (by decide)
    rintro ⟨-, -, hbounds⟩
    have hfirst : (((head &&& q.mask) + 3).toNat, 3) ∈ unrollDuffAccesses q.mask head 0 := by
      rw [unrollDuffAccesses_zero h]
      exact List.mem_cons_self
    have hlt : 3 < (0 : UInt32).toNat := (hbounds _ hfirst).1
    exact absurd hlt (by decide)
  · have hperm := h.unrollDuffAccesses_perm head hn hzero
    have hpos : 0 < n := UInt32.lt_iff_toNat_lt.mpr (Cyclic.toNat_pos hzero)
    refine iff_of_true ⟨?_, ?_, fun a ha => ?_⟩ hpos
    · exact h.storeAll_eq_mask hperm hn ptr
    · exact h.loadAll_eq_mask hperm ptr
    · obtain ⟨hlt, hslot⟩ := mem_batch.mp (hperm.mem_iff.mp ha)
      exact ⟨hlt, a.2, hlt, hslot⟩

/-- A batch of three at the start of a queue of four slots. -/
theorem unrollDuff_eq_mask_iff_four :
    (four.helperAlfEnqueueStoreUnrollDuff 0 id 3 = four.helperAlfEnqueueStoreMask 0 id 3 ∧
        four.helperAlfDequeueLoadUnrollDuff 0 id 3 = four.helperAlfDequeueLoadMask 0 id 3 ∧
        ∀ a ∈ unrollDuffAccesses 3 0 3, a.2 < 3 ∧ ∃ k < 3, a.1 = (0 + k) % 4) ↔
      (0 : UInt32) < 3 :=
  unrollDuff_eq_mask_iff (show alfQueueAlloc 0 4 true = .ok four from rfl) rfl rfl 0 (by decide) id

/-- **An empty batch is stored in four slots**, and the last of them is behind the end of the
array. -/
theorem not_storesBatch_unrollDuff :
    alfQueueAlloc 0 4 true = .ok four ∧
      ¬ StoresBatch four 3 Nat.succ 0 (four.helperAlfEnqueueStoreUnrollDuff 3 Nat.succ 0) ∧
      (6, 3) ∈ unrollDuffAccesses 3 3 0 := by
  have hfour : unrollDuffAccesses 3 3 0 = [(6, 3), (5, 2), (4, 1), (3, 0)] := by
    have hsized := wellSized_of_alloc (show alfQueueAlloc 0 4 true = .ok four from rfl)
    exact unrollDuffAccesses_zero hsized 3
  refine ⟨rfl, fun hstores => ?_, by rw [hfour]; decide⟩
  have hslot := hstores.other 3 (by decide)
  rw [helperAlfEnqueueStoreUnrollDuff, show four.mask = 3 from rfl, hfour] at hslot
  exact absurd hslot (by decide)

/-! ## A branch in place of the mask -/

/-- The loop of the `simple` pair, with `k` iterations left: the test for the end of the array comes
behind the access. -/
def simpleLoop (size : UInt32) : ℕ → ℕ → UInt32 → List (ℕ × ℕ)
  | 0, _, _ => []
  | k + 1, i, index =>
      (index.toNat, i) :: simpleLoop size k (i + 1) ((if index = size then 0 else index) + 1)

/-- The accesses of `__helper_alf_enqueue_store_simple` and
`__helper_alf_dequeue_load_simple`. -/
def simpleAccesses (size mask head n : UInt32) : List (ℕ × ℕ) :=
  simpleLoop size n.toNat 0 (head &&& mask)

/-- `__helper_alf_enqueue_store_simple()`. -/
def helperAlfEnqueueStoreSimple (pHead : UInt32) (q : AlfQueue α) (ptr : ℕ → α) (n : UInt32) :
    AlfQueue α :=
  { q with ring := storeAll (simpleAccesses q.size q.mask pHead n) ptr q.ring }

/-- `__helper_alf_dequeue_load_simple()`. -/
def helperAlfDequeueLoadSimple (cHead : UInt32) (q : AlfQueue α) (ptr : ℕ → α) (elems : UInt32) :
    ℕ → α :=
  loadAll (simpleAccesses q.size q.mask cHead elems) q.ring ptr

/-- A round before the end of the array goes on to the next slot. -/
theorem simpleLoop_succ_of_lt (k i : ℕ) {size index : UInt32} (hlt : index.toNat < size.toNat) :
    simpleLoop size (k + 1) i index =
      (index.toNat, i) :: simpleLoop size k (i + 1) (index + 1) := by
  rw [simpleLoop, if_neg fun heq => by rw [heq] at hlt; exact absurd hlt (Nat.lt_irrefl _)]

/-- Before the end of the array the loop makes a straight run. -/
theorem simpleLoop_eq (k i : ℕ) {size index : UInt32} (hend : index.toNat + k ≤ size.toNat) :
    simpleLoop size k i index = straight index.toNat i k := by
  induction k generalizing i index with
  | zero => rfl
  | succ k ih =>
    have hsize := size.toNat_lt
    have hnext : (index + 1).toNat = index.toNat + 1 := toNat_add_one_of_lt (by omega)
    rw [simpleLoop_succ_of_lt k i (by omega), ih _ (by omega), hnext, straight_succ]

/-- A loop that goes on at the end of the array accesses the slot behind it. -/
theorem exists_mem_simpleLoop (k i : ℕ) {size : UInt32} (index : UInt32)
    (hle : index.toNat ≤ size.toNat) (hend : size.toNat < index.toNat + k) :
    ∃ a ∈ simpleLoop size k i index, a.1 = size.toNat := by
  induction k generalizing i index with
  | zero => omega
  | succ k ih =>
    rcases hle.eq_or_lt with heq | hlt
    · exact ⟨(index.toNat, i), List.mem_cons_self, heq⟩
    · have hsize := size.toNat_lt
      have hnext : (index + 1).toNat = index.toNat + 1 := toNat_add_one_of_lt (by omega)
      obtain ⟨a, ha, hslot⟩ := ih (i + 1) (index + 1) (by omega) (by omega)
      rw [simpleLoop_succ_of_lt k i hlt]
      exact ⟨a, List.mem_cons_of_mem _ ha, hslot⟩

/-- **When the `simple` pair copies as the masked pair does**, and accesses no slot outside of the
array: the batch does not go past the end of it. -/
theorem simple_eq_mask_iff {null : α} {size : UInt32} {kzalloc : Bool} {q₀ : AlfQueue α}
    (halloc : alfQueueAlloc null size kzalloc = .ok q₀) (hsize : q.size = q₀.size)
    (hmask : q.mask = q₀.mask) (head n : UInt32) (ptr : ℕ → α) :
    (q.helperAlfEnqueueStoreSimple head ptr n = q.helperAlfEnqueueStoreMask head ptr n ∧
        q.helperAlfDequeueLoadSimple head ptr n = q.helperAlfDequeueLoadMask head ptr n ∧
        ∀ a ∈ simpleAccesses q.size q.mask head n, a.1 < q.size.toNat) ↔
      head.toNat % q.size.toNat + n.toNat ≤ q.size.toNat := by
  have h := WellSized.of_alloc_eq halloc hsize hmask
  have hindex := h.index_toNat head
  have hlt := h.index_lt head
  rw [← hindex]
  constructor
  · rintro ⟨-, -, hbounds⟩
    by_contra hpast
    obtain ⟨a, ha, hslot⟩ := exists_mem_simpleLoop n.toNat 0 _ hlt.le (not_le.mp hpast)
    exact absurd (hbounds a ha) (by omega)
  · intro hend
    have hn : n.toNat ≤ q.size.toNat := by omega
    have haccesses : simpleAccesses q.size q.mask head n
        = batch q.size.toNat head.toNat n.toNat := by
      rw [simpleAccesses, simpleLoop_eq _ _ hend]
      rw [hindex] at hend ⊢
      exact straight_eq_of_le hend
    refine ⟨?_, ?_, fun a ha => ?_⟩
    · exact h.storeAll_eq_mask (.of_eq haccesses) hn ptr
    · exact h.loadAll_eq_mask (.of_eq haccesses) ptr
    · rw [haccesses] at ha
      rw [(mem_batch.mp ha).2]
      exact Nat.mod_lt _ h.pos

/-- A batch of three that ends with the last of four slots. -/
theorem simple_eq_mask_iff_four :
    (four.helperAlfEnqueueStoreSimple 1 id 3 = four.helperAlfEnqueueStoreMask 1 id 3 ∧
        four.helperAlfDequeueLoadSimple 1 id 3 = four.helperAlfDequeueLoadMask 1 id 3 ∧
        ∀ a ∈ simpleAccesses 4 3 1 3, a.1 < 4) ↔
      1 % 4 + 3 ≤ 4 :=
  simple_eq_mask_iff (show alfQueueAlloc 0 4 true = .ok four from rfl) rfl rfl 1 3 id

/-- **A batch that wraps is stored behind the end of the array**, and slot 0 is passed over. -/
theorem not_storesBatch_simple :
    alfQueueAlloc 0 4 true = .ok four ∧
      ¬ StoresBatch four 3 Nat.succ 2 (four.helperAlfEnqueueStoreSimple 3 Nat.succ 2) ∧
      (4, 1) ∈ simpleAccesses 4 3 3 2 := by
  refine ⟨rfl, fun hstores => ?_, by decide⟩
  have hslot := hstores.slot 1 (by decide)
  exact absurd hslot (by decide)

end AlfQueue
