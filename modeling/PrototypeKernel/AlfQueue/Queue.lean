import PrototypeKernel.AlfQueue.Helpers
import PrototypeKernel.Foundation.KernelInt
import Mathlib.Logic.Function.Basic

/-! # The array-based lock-free queue

`struct alf_queue`, its allocation, and its operations as one caller at a time executes them. The
indices run freely over all of `u32` and are masked only when a slot is addressed, so the whole
array can be in use: `size` elements when `producer.tail = consumer.head + size`. -/

open KernelInt

/-- The head and tail index of one side of an `AlfQueue`. -/
structure AlfActor where
  head : UInt32
  tail : UInt32
  deriving DecidableEq, Repr

/-- `struct alf_queue`, with pointers of type `α` in its slots. -/
structure AlfQueue (α : Type*) where
  size : UInt32
  mask : UInt32
  flags : UInt32
  producer : AlfActor
  consumer : AlfActor
  ring : ℕ → α

namespace AlfQueue

variable {α : Type*}

/-- `alf_queue_alloc()`: the zeroed structure, or an error pointer. `kzalloc` tells whether the
memory is available, and `null` is the zero pointer. -/
def alfQueueAlloc (null : α) (size : UInt32) (kzalloc : Bool) : Except ℤ (AlfQueue α) :=
  if !isPowerOf2 size || size > 65536 then .error (-einval)
  else if !kzalloc then .error (-enomem)
  else .ok {
    size := size
    mask := size - 1
    flags := 0
    producer := ⟨0, 0⟩
    consumer := ⟨0, 0⟩
    ring := fun _ => null }

/-- A new queue of four slots. -/
def four : AlfQueue ℕ := ⟨4, 3, 0, ⟨0, 0⟩, ⟨0, 0⟩, fun _ => 0⟩

example : alfQueueAlloc 0 4 true = .ok four := rfl

/-! ## Copying a batch -/

/-- `__helper_alf_enqueue_store_unroll()`. -/
def helperAlfEnqueueStoreUnroll (pHead : UInt32) (q : AlfQueue α) (ptr : ℕ → α) (n : UInt32) :
    AlfQueue α :=
  { q with
    ring := (unrollAccesses q.mask pHead n).foldl
      (fun ring a => Function.update ring a.1 (ptr a.2)) q.ring }

/-- `__helper_alf_dequeue_load_unroll()`: the caller's array after the loads. -/
def helperAlfDequeueLoadUnroll (cHead : UInt32) (q : AlfQueue α) (ptr : ℕ → α) (elems : UInt32) :
    ℕ → α :=
  (unrollAccesses q.mask cHead elems).foldl (fun ptr a => Function.update ptr a.2 (q.ring a.1)) ptr

/-! ## Operations

Without an overlapping call nothing changes the head between its load and the `cmpxchg`, so the
reserve loop leaves at its first attempt. The wait for the tail is a loop that nobody else ends, so
it either leaves at once or spins for ever: `none`. -/

/-- `alf_mp_enqueue()`. -/
def alfMpEnqueue (q : AlfQueue α) (ptr : ℕ → α) (n : UInt32) : Option (AlfQueue α × ℤ) :=
  let pHead := q.producer.head
  let cTail := q.consumer.tail
  let space := q.size + cTail - pHead
  if n > space then some (q, 0)
  else
    let pNext := pHead + n
    let q := { q with producer := { q.producer with head := pNext } }
    let q := q.helperAlfEnqueueStoreUnroll pHead ptr n
    -- the wait for earlier enqueues
    if q.producer.tail ≠ pHead then none
    else some ({ q with producer := { q.producer with tail := pNext } }, intOfU32 n)

/-- `alf_mc_dequeue()`: the queue, the caller's array and the returned value. -/
def alfMcDequeue (q : AlfQueue α) (ptr : ℕ → α) (n : UInt32) :
    Option (AlfQueue α × (ℕ → α) × ℤ) :=
  let cHead := q.consumer.head
  let pTail := q.producer.tail
  let elems := pTail - cHead
  if elems = 0 then some (q, ptr, 0)
  else
    let elems := min elems n
    let cNext := cHead + elems
    let q := { q with consumer := { q.consumer with head := cNext } }
    let ptr := q.helperAlfDequeueLoadUnroll cHead ptr elems
    -- the wait for earlier dequeues
    if q.consumer.tail ≠ cHead then none
    else some ({ q with consumer := { q.consumer with tail := cNext } }, ptr, intOfU32 elems)

/-- `alf_sp_enqueue()`. -/
def alfSpEnqueue (q : AlfQueue α) (ptr : ℕ → α) (n : UInt32) : AlfQueue α × ℤ :=
  let pHead := q.producer.head
  let cTail := q.consumer.tail
  let space := q.size + cTail - pHead
  if n > space then (q, 0)
  else
    let pNext := pHead + n
    let q := { q with producer := { q.producer with head := pNext } }
    let q := q.helperAlfEnqueueStoreUnroll pHead ptr n
    ({ q with producer := { q.producer with tail := pNext } }, intOfU32 n)

/-- `alf_sc_dequeue()`. -/
def alfScDequeue (q : AlfQueue α) (ptr : ℕ → α) (n : UInt32) : AlfQueue α × (ℕ → α) × ℤ :=
  let cHead := q.consumer.head
  let pTail := q.producer.tail
  let elems := pTail - cHead
  if elems = 0 then (q, ptr, 0)
  else
    let elems := min elems n
    let cNext := cHead + elems
    let q := { q with consumer := { q.consumer with head := cNext } }
    let ptr := q.helperAlfDequeueLoadUnroll cHead ptr elems
    ({ q with consumer := { q.consumer with tail := cNext } }, ptr, intOfU32 elems)

/-- `alf_queue_empty()`. -/
def alfQueueEmpty (q : AlfQueue α) : Bool := q.consumer.tail == q.producer.tail

/-- `alf_queue_count()`. -/
def alfQueueCount (q : AlfQueue α) : ℤ := intOfU32 (q.producer.tail - q.consumer.head)

/-- `alf_queue_avail_space()`. -/
def alfQueueAvailSpace (q : AlfQueue α) : ℤ :=
  intOfU32 (q.size + q.consumer.tail - q.producer.head)

/-! ## What the allocation establishes -/

/-- The geometry of an allocated queue: a power of two of slots, addressed by masking. -/
structure WellSized (q : AlfQueue α) : Prop where
  pow : ∃ k, k < 32 ∧ q.size.toNat = 2 ^ k
  le : q.size.toNat ≤ 65536
  mask_eq : q.mask.toNat = q.size.toNat - 1

/-- A queue has a slot. -/
theorem WellSized.pos {q : AlfQueue α} (h : q.WellSized) : 0 < q.size.toNat := by
  obtain ⟨k, -, hk⟩ := h.pow
  rw [hk]
  exact Nat.two_pow_pos k

/-- **What `alf_queue_alloc()` accepts**, and the queue it returns. -/
theorem alfQueueAlloc_eq_ok {null : α} {size : UInt32} {kzalloc : Bool} {q : AlfQueue α} :
    alfQueueAlloc null size kzalloc = .ok q ↔
      (isPowerOf2 size ∧ size ≤ 65536 ∧ kzalloc) ∧
        q = ⟨size, size - 1, 0, ⟨0, 0⟩, ⟨0, 0⟩, fun _ => null⟩ := by
  unfold alfQueueAlloc
  split
  · rename_i hrefused
    -- `-EINVAL` for the size
    simp only [Bool.or_eq_true, Bool.not_eq_true', decide_eq_true_eq, gt_iff_lt] at hrefused
    refine ⟨nofun, fun ⟨⟨hpow, hle, _⟩, _⟩ => absurd hrefused ?_⟩
    simp [hpow, UInt32.not_lt.mpr hle]
  · rename_i haccepted
    simp only [Bool.or_eq_true, Bool.not_eq_true', decide_eq_true_eq, gt_iff_lt, not_or,
      Bool.not_eq_false, UInt32.not_lt] at haccepted
    cases kzalloc <;> simp [haccepted, eq_comm]

/-- An allocated queue has a power of two of slots, at most 65536. -/
theorem wellSized_of_alloc {null : α} {size : UInt32} {kzalloc : Bool} {q : AlfQueue α}
    (h : alfQueueAlloc null size kzalloc = .ok q) : q.WellSized := by
  obtain ⟨⟨hpow, hle, -⟩, rfl⟩ := alfQueueAlloc_eq_ok.mp h
  obtain ⟨k, hk, hsize⟩ := exists_pow_of_isPowerOf2 hpow
  -- the size is positive, so `size - 1` does not wrap
  have hpos : 0 < size.toNat := hsize ▸ Nat.two_pow_pos k
  exact ⟨⟨k, hk, hsize⟩, UInt32.le_iff_toNat_le.mp hle,
    UInt32.toNat_sub_of_le size 1 (UInt32.le_iff_toNat_le.mpr hpos)⟩

end AlfQueue
