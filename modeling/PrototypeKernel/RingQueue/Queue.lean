import PrototypeKernel.Foundation.CopyLoop
import PrototypeKernel.Foundation.KernelInt
import Mathlib.Logic.Function.Basic

/-! # The ring queue

`struct ring_queue`, its creation, the macros that copy a batch, the four transfer routines as one
caller at a time executes them, and the observers. The indices run freely over all of `u32`, and one
slot always stays unused: `count - 1` elements are the most the ring can hold. -/

open KernelInt CopyLoop

/-- The producer status of a `RingQueue`. -/
structure RingProd where
  /-- Maximum items before `EDQUOT`. -/
  watermark : UInt32
  /-- True, if single producer. -/
  spEnqueue : Bool
  size : UInt32
  mask : UInt32
  head : UInt32
  tail : UInt32
  deriving DecidableEq, Repr

/-- The consumer status of a `RingQueue`. -/
structure RingCons where
  /-- True, if single consumer. -/
  scDequeue : Bool
  size : UInt32
  mask : UInt32
  head : UInt32
  tail : UInt32
  deriving DecidableEq, Repr

/-- `struct ring_queue`, with pointers of type `α` in its slots. -/
structure RingQueue (α : Type*) where
  flags : UInt32
  prod : RingProd
  cons : RingCons
  ring : ℕ → α

namespace RingQueue

variable {α : Type*}

/-- `enum ring_queue_queue_behavior`. -/
inductive Behavior where
  /-- Enqueue or dequeue a fixed number of items. -/
  | ringQueueFixed
  /-- Enqueue or dequeue as many items as possible. -/
  | ringQueueVariable
  deriving DecidableEq, Repr

/-- `RING_F_SP_ENQ`. -/
def ringFSpEnq : UInt32 := 0x0001

/-- `RING_F_SC_DEQ`. -/
def ringFScDeq : UInt32 := 0x0002

/-- `RING_QUEUE_QUOT_EXCEED`. -/
def ringQueueQuotExceed : UInt32 := (1 : UInt32) <<< 31

/-- `RING_QUEUE_SZ_MASK`. -/
def ringQueueSzMask : UInt32 := 0x0fffffff

/-- `POWEROF2()`, which also accepts 0. -/
def powerOf2 (x : UInt32) : Bool := x &&& (x - 1) == 0

/-- `ring_queue_create()`: the initialised ring, or `NULL`. `pages` tells whether the memory is
available, and `null` is the zero pointer. -/
def ringQueueCreate (null : α) (count flags : UInt32) (pages : Bool) : Option (RingQueue α) :=
  if !powerOf2 count || count > ringQueueSzMask then none
  else if !pages then none
  else some {
    flags := flags
    prod := {
      watermark := count
      spEnqueue := flags &&& ringFSpEnq != 0
      size := count
      mask := count - 1
      head := 0
      tail := 0 }
    cons := {
      scDequeue := flags &&& ringFScDeq != 0
      size := count
      mask := count - 1
      head := 0
      tail := 0 }
    ring := fun _ => null }

/-- A new ring of four slots, for multi producers and consumers. -/
def fourSlots : RingQueue ℕ := ⟨0, ⟨4, false, 4, 3, 0, 0⟩, ⟨false, 4, 3, 0, 0⟩, fun _ => 0⟩

example : ringQueueCreate 0 4 0 true = some fourSlots := rfl

/-! ## Copying a batch -/

/-- `case 1` of the remainder of the copy macros. -/
def restOne (i : ℕ) (idx : UInt32) : List (ℕ × ℕ) := [(idx.toNat, i)]

/-- `case 2`, which falls through to `case 1`. -/
def restTwo (i : ℕ) (idx : UInt32) : List (ℕ × ℕ) := (idx.toNat, i) :: restOne (i + 1) (idx + 1)

/-- `case 3`, which falls through to `case 2`. -/
def restThree (i : ℕ) (idx : UInt32) : List (ℕ × ℕ) := (idx.toNat, i) :: restTwo (i + 1) (idx + 1)

/-- The remainder `switch (n & 0x3)` of the copy macros. -/
def rest (r : UInt32) (i : ℕ) (idx : UInt32) : List (ℕ × ℕ) :=
  if r = 3 then restThree i idx else if r = 2 then restTwo i idx else if r = 1 then restOne i idx
  else []

/-- The accesses of `ENQUEUE_PTRS()` and `DEQUEUE_PTRS()`, which walk the ring alike: slot and index
in the caller's table, in program order. -/
def ptrsAccesses (size mask head n : UInt32) : List (ℕ × ℕ) :=
  let idx := head &&& mask
  if idx + n < size then
    let iterations := n &&& ~~~3
    unrolledLoop (iterations.toNat / 4) 0 idx ++ rest (n &&& 3) iterations.toNat (idx + iterations)
  else
    -- up to the end of the ring, then from its start
    let i := size.toNat - idx.toNat
    plainLoop i 0 idx ++ plainLoop (n.toNat - i) i 0

/-- `ENQUEUE_PTRS()`. -/
def enqueuePtrs (r : RingQueue α) (prodHead mask : UInt32) (objTable : ℕ → α) (n : UInt32) :
    RingQueue α :=
  { r with
    ring := (ptrsAccesses r.prod.size mask prodHead n).foldl
      (fun ring a => Function.update ring a.1 (objTable a.2)) r.ring }

/-- `DEQUEUE_PTRS()`: the caller's table after the loads. -/
def dequeuePtrs (r : RingQueue α) (consHead mask : UInt32) (objTable : ℕ → α) (n : UInt32) :
    ℕ → α :=
  (ptrsAccesses r.cons.size mask consHead n).foldl
    (fun table a => Function.update table a.2 (r.ring a.1)) objTable

/-! ## How many items a call moves, and what it returns -/

/-- The check for room of the enqueue routines: the number of items to move, or an early return. -/
def enqueueGrant (n freeEntries : UInt32) (behavior : Behavior) : Except ℤ UInt32 :=
  if n > freeEntries then
    match behavior with
    -- all or nothing
    | .ringQueueFixed => .error (-enobufs)
    -- as many as fit
    | .ringQueueVariable => if freeEntries = 0 then .error 0 else .ok freeEntries
  else .ok n

/-- The check for entries of the dequeue routines. -/
def dequeueGrant (n entries : UInt32) (behavior : Behavior) : Except ℤ UInt32 :=
  if n > entries then
    match behavior with
    -- all or nothing
    | .ringQueueFixed => .error (-enoent)
    -- as many as there are
    | .ringQueueVariable => if entries = 0 then .error 0 else .ok entries
  else .ok n

/-- The value an enqueue routine returns for a batch, with the quota report. -/
def enqueueRet (prod : RingProd) (n freeEntries : UInt32) (behavior : Behavior) : ℤ :=
  if prod.mask + 1 - freeEntries + n > prod.watermark then
    match behavior with
    | .ringQueueFixed => -edquot
    | .ringQueueVariable => intOfU32 (n ||| ringQueueQuotExceed)
  else
    match behavior with
    | .ringQueueFixed => 0
    | .ringQueueVariable => intOfU32 n

/-- The value a dequeue routine returns for a batch. -/
def dequeueRet (n : UInt32) (behavior : Behavior) : ℤ :=
  match behavior with
  | .ringQueueFixed => 0
  | .ringQueueVariable => intOfU32 n

/-! ## Transfer routines

As for any straight-line call, the `cmpxchg` of a multi routine succeeds at its first attempt, and a
wait for a tail that nobody else moves spins for ever: `none`. -/

/-- `__ring_queue_mp_do_enqueue()`. -/
def ringQueueMpDoEnqueue (r : RingQueue α) (objTable : ℕ → α) (n : UInt32) (behavior : Behavior) :
    Option (RingQueue α × ℤ) :=
  let prodHead := r.prod.head
  let consTail := r.cons.tail
  let freeEntries := r.prod.mask + consTail - prodHead
  match enqueueGrant n freeEntries behavior with
  | .error ret => some (r, ret)
  | .ok n =>
      let prodNext := prodHead + n
      let r := { r with prod := { r.prod with head := prodNext } }
      let r := r.enqueuePtrs prodHead r.prod.mask objTable n
      let ret := enqueueRet r.prod n freeEntries behavior
      -- the wait for earlier enqueues
      if r.prod.tail ≠ prodHead then none
      else some ({ r with prod := { r.prod with tail := prodNext } }, ret)

/-- `__ring_queue_sp_do_enqueue()`. -/
def ringQueueSpDoEnqueue (r : RingQueue α) (objTable : ℕ → α) (n : UInt32) (behavior : Behavior) :
    RingQueue α × ℤ :=
  let prodHead := r.prod.head
  let consTail := r.cons.tail
  let freeEntries := r.prod.mask + consTail - prodHead
  match enqueueGrant n freeEntries behavior with
  | .error ret => (r, ret)
  | .ok n =>
      let prodNext := prodHead + n
      let r := { r with prod := { r.prod with head := prodNext } }
      let r := r.enqueuePtrs prodHead r.prod.mask objTable n
      let ret := enqueueRet r.prod n freeEntries behavior
      ({ r with prod := { r.prod with tail := prodNext } }, ret)

/-- `__ring_queue_mc_do_dequeue()`: the ring, the caller's table and the returned value. -/
def ringQueueMcDoDequeue (r : RingQueue α) (objTable : ℕ → α) (n : UInt32) (behavior : Behavior) :
    Option (RingQueue α × (ℕ → α) × ℤ) :=
  let consHead := r.cons.head
  let prodTail := r.prod.tail
  let entries := prodTail - consHead
  match dequeueGrant n entries behavior with
  | .error ret => some (r, objTable, ret)
  | .ok n =>
      let consNext := consHead + n
      let r := { r with cons := { r.cons with head := consNext } }
      let objTable := r.dequeuePtrs consHead r.prod.mask objTable n
      -- the wait for earlier dequeues
      if r.cons.tail ≠ consHead then none
      else
        some ({ r with cons := { r.cons with tail := consNext } }, objTable, dequeueRet n behavior)

/-- `__ring_queue_sc_do_dequeue()`. -/
def ringQueueScDoDequeue (r : RingQueue α) (objTable : ℕ → α) (n : UInt32) (behavior : Behavior) :
    RingQueue α × (ℕ → α) × ℤ :=
  let consHead := r.cons.head
  let prodTail := r.prod.tail
  let entries := prodTail - consHead
  match dequeueGrant n entries behavior with
  | .error ret => (r, objTable, ret)
  | .ok n =>
      let consNext := consHead + n
      let r := { r with cons := { r.cons with head := consNext } }
      let objTable := r.dequeuePtrs consHead r.prod.mask objTable n
      ({ r with cons := { r.cons with tail := consNext } }, objTable, dequeueRet n behavior)

/-! ## Observers -/

/-- `ring_queue_full()`. -/
def ringQueueFull (r : RingQueue α) : Bool := (r.cons.tail - r.prod.tail - 1) &&& r.prod.mask == 0

/-- `ring_queue_empty()`. -/
def ringQueueEmpty (r : RingQueue α) : Bool := r.cons.tail == r.prod.tail

/-- `ring_queue_count()`. -/
def ringQueueCount (r : RingQueue α) : UInt32 := (r.prod.tail - r.cons.tail) &&& r.prod.mask

/-- `ring_queue_free_count()`. -/
def ringQueueFreeCount (r : RingQueue α) : UInt32 :=
  (r.cons.tail - r.prod.tail - 1) &&& r.prod.mask

/-! ## The accesses of a batch -/

/-- The remainder makes the last `n % 4` accesses. -/
theorem rest_eq {r : UInt32} (i : ℕ) {idx : UInt32} (hr : r.toNat < 4)
    (hlt : idx.toNat + r.toNat < 2 ^ 32) : rest r i idx = straight idx.toNat i r.toNat := by
  rcases eq_of_toNat_lt_four hr with rfl | rfl | rfl | rfl
  · rfl
  · rfl
  · have h₁ := toNat_add_of_lt (a := idx) (b := 1) (Nat.lt_of_succ_lt hlt)
    simp [rest, restTwo, restOne, straight_succ, h₁]
  · have hlt : idx.toNat + 3 < 2 ^ 32 := hlt
    have h₁ := toNat_add_of_lt (a := idx) (b := 1) (Nat.lt_of_le_of_lt (by simp) hlt)
    have h₂ := toNat_add_of_lt (a := idx + 1) (b := 1)
      (show (idx + 1).toNat + 1 < 2 ^ 32 by rw [h₁]; exact Nat.lt_of_succ_lt hlt)
    simp [rest, restThree, restTwo, restOne, straight_succ, h₁, h₂]

/-- **The copy macros access the slots of the batch in position order**, each with its entry of the
caller's table, for every batch that fits into the ring. -/
theorem ptrsAccesses_eq {k : ℕ} {size mask : UInt32} (hk : k < 32) (hsize : size.toNat = 2 ^ k)
    (hmask : mask.toNat = size.toNat - 1) (p : ℕ) {n : UInt32} (hn : n.toNat ≤ size.toNat) :
    ptrsAccesses size mask (UInt32.ofNat p) n
      = (List.range n.toNat).map fun j => ((p + j) % size.toNat, j) := by
  have hslot : (UInt32.ofNat p &&& mask).toNat = p % size.toNat := by
    rw [hsize] at hmask ⊢
    exact Cyclic.toNat_ofNat_and_mask (by omega) mask hmask p
  have hsize_le : size.toNat ≤ 2 ^ 31 := hsize ▸ Nat.pow_le_pow_right (by decide) (by omega)
  have hpos : 0 < size.toNat := hsize ▸ Nat.two_pow_pos k
  have hidx_lt := Nat.mod_lt p hpos
  unfold ptrsAccesses
  simp only
  generalize UInt32.ofNat p &&& mask = idx at hslot ⊢
  have hsum : (idx + n).toNat = idx.toNat + n.toNat := toNat_add_of_lt (by omega)
  split
  · rename_i hlt
    -- the batch ends before the end of the ring: rounds of four and the remainder are one run
    have hlt : idx.toNat + n.toNat < size.toNat := hsum ▸ UInt32.lt_iff_toNat_lt.mp hlt
    rw [unrolledLoop_append_rest rest_eq (by omega), hslot]
    exact straight_eq_of_le (by omega)
  · rename_i hge
    -- the batch reaches the end of the ring and goes on at its start
    have hge : size.toNat ≤ idx.toNat + n.toNat := by
      rw [UInt32.lt_iff_toNat_lt, hsum] at hge
      omega
    rw [plainLoop_eq _ _ (by omega), plainLoop_eq _ _ (by simp; omega), hslot]
    exact straight_append_eq hpos hn (by omega)

/-! ## What the creation establishes -/

/-- The geometry of a created ring: a power of two of slots, addressed by masking. -/
structure WellSized (r : RingQueue α) : Prop where
  pow : ∃ k, k < 32 ∧ r.prod.size.toNat = 2 ^ k
  le : r.prod.size.toNat ≤ 2 ^ 28
  mask_eq : r.prod.mask.toNat = r.prod.size.toNat - 1
  cons_size : r.cons.size = r.prod.size

/-- **What `ring_queue_create()` accepts**, and the ring it returns. -/
theorem ringQueueCreate_eq_some {null : α} {count flags : UInt32} {pages : Bool} {r : RingQueue α} :
    ringQueueCreate null count flags pages = some r ↔
      (powerOf2 count ∧ count ≤ ringQueueSzMask ∧ pages) ∧
        r = ⟨flags, ⟨count, flags &&& ringFSpEnq != 0, count, count - 1, 0, 0⟩,
          ⟨flags &&& ringFScDeq != 0, count, count - 1, 0, 0⟩, fun _ => null⟩ := by
  unfold ringQueueCreate
  split
  · rename_i hrefused
    simp only [Bool.or_eq_true, Bool.not_eq_true', decide_eq_true_eq, gt_iff_lt] at hrefused
    refine ⟨nofun, fun ⟨⟨hpow, hle, _⟩, _⟩ => absurd hrefused ?_⟩
    simp [hpow, UInt32.not_lt.mpr hle]
  · rename_i haccepted
    simp only [Bool.or_eq_true, Bool.not_eq_true', decide_eq_true_eq, gt_iff_lt, not_or,
      Bool.not_eq_false, UInt32.not_lt] at haccepted
    cases pages <;> simp [haccepted, eq_comm]

/-- A positive count that is accepted is a power of two. -/
theorem wellSized_of_create {null : α} {count flags : UInt32} {pages : Bool} {r : RingQueue α}
    (h : ringQueueCreate null count flags pages = some r) (hcount : 1 ≤ count) : r.WellSized := by
  obtain ⟨⟨hpow, hle, -⟩, rfl⟩ := ringQueueCreate_eq_some.mp h
  have hpos : 0 < count.toNat := UInt32.le_iff_toNat_le.mp hcount
  -- `POWEROF2()` accepts 0 as well, which `hcount` excludes
  have hpow : isPowerOf2 count := by
    rw [isPowerOf2, Bool.and_eq_true, bne_iff_ne]
    exact ⟨fun h0 => by rw [h0] at hpos; exact absurd hpos (by decide), hpow⟩
  obtain ⟨k, hk, hsize⟩ := exists_pow_of_isPowerOf2 hpow
  exact ⟨⟨k, hk, hsize⟩, (UInt32.le_iff_toNat_le.mp hle).trans (by decide),
    UInt32.toNat_sub_of_le count 1 hcount, rfl⟩

end RingQueue
